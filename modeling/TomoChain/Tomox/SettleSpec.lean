import Mathlib
import TomoChain.Lib.Except
import TomoChain.Tomox.Settle

set_option autoImplicit false

/-! What a successful `SetteBalance` does to the balances.

`setteBalance_ok` says once what a successful settlement computed and wrote; the
results below read the balances of one token off its writes. With a relayer that
serves both sides of a match, its owner is paid the maker's fee only: the owner's
first new balance is computed but not cached, because the quote token's cache was
already made for the taker, and the owner's second balance overwrites it. -/
namespace TomoChain.Tomox

open Lib

theorem find?_rememberFirst (cache : BalanceCache) (token addr : Address) (value : Int) (t a : Address) :
    (rememberFirst cache token addr value).find? t a =
      if cache.get? token = none ∧ t = token ∧ a = addr then some value else cache.find? t a := by
  unfold rememberFirst
  cases known : cache.get? token with
  | some holders => simp
  | none =>
    by_cases sameToken : t = token
    · subst sameToken
      by_cases sameHolder : a = addr
      · simp [BalanceCache.find?, sameHolder]
      · simp [BalanceCache.find?, known, sameHolder, Ne.symm sameHolder]
    · simp [BalanceCache.find?, sameToken, Ne.symm sameToken]

theorem find?_rememberFirst_of_cached {cache : BalanceCache} {t : Address} (cached : (cache.get? t).isSome)
    (token addr : Address) (value : Int) (a : Address) :
    (rememberFirst cache token addr value).find? t a = cache.find? t a := by
  rw [find?_rememberFirst, if_neg]
  rintro ⟨missing, rfl, -⟩
  rw [missing] at cached
  cases cached

theorem find?_rememberFirst_of_ne {a addr : Address} (other : a ≠ addr) (cache : BalanceCache)
    (token t : Address) (value : Int) : (rememberFirst cache token addr value).find? t a = cache.find? t a := by
  rw [find?_rememberFirst, if_neg]
  rintro ⟨-, -, same⟩
  exact other same

theorem get?_rememberFirst_isSome (cache : BalanceCache) (token addr : Address) (value : Int) :
    ((rememberFirst cache token addr value).get? token).isSome := by
  unfold rememberFirst
  cases known : cache.get? token with
  | some holders => simp [known]
  | none => simp

theorem get?_rememberFirst_isSome_of_isSome {cache : BalanceCache} {t : Address} (known : (cache.get? t).isSome)
    (token addr : Address) (value : Int) : ((rememberFirst cache token addr value).get? t).isSome := by
  unfold rememberFirst
  cases cache.get? token with
  | some holders => exact known
  | none =>
    by_cases sameToken : token = t
    · simp [sameToken]
    · simpa [sameToken] using known

theorem rememberFirst_of_isSome {cache : BalanceCache} {token : Address} (known : (cache.get? token).isSome)
    (addr : Address) (value : Int) : rememberFirst cache token addr value = cache := by
  unfold rememberFirst
  obtain ⟨holders, found⟩ := Option.isSome_iff_exists.mp known
  rw [found]

theorem cachedBalance_of_find?_none {cache : BalanceCache} {addr token : Address} (state : AccountState)
    (missing : cache.find? token addr = none) : cachedBalance addr token state cache = getTokenBalance addr token state := by
  unfold cachedBalance
  rw [missing]

theorem getTokenBalance_of_trc21 {addr token : Address} {state : AccountState} (trc21 : token ≠ tomoNativeAddress)
    (known : state.exist token = true) : getTokenBalance addr token state = (state.tokenBalances token addr).val := by
  simp [getTokenBalance, trc21, known]

/-- A TRC21 balance that passed `CheckAddTokenBalance`: the token exists, the balance is
the one before plus `value`, and it fits in a storage word. -/
theorem checkAddTokenBalance_of_trc21 {addr token : Address} {value balance : Int} {state : AccountState}
    {cache : BalanceCache} (trc21 : token ≠ tomoNativeAddress)
    (checked : checkAddTokenBalance addr value token state cache = .ok balance) :
    state.exist token = true ∧ balance = cachedBalance addr token state cache + value ∧
      ((bigToHash balance).val : Int) = balance := by
  unfold checkAddTokenBalance at checked
  rw [if_neg trc21] at checked
  split at checked
  · rename_i known
    dsimp only at checked
    split at checked
    · cases checked
    · rename_i fits
      have same := ok_injective checked
      subst same
      exact ⟨known, rfl, not_not.mp fits⟩
  · cases checked

/-- The tokens of the two sides of a `GetSettleBalance` result: the taker receives the
base token and pays the quote token when it bids, and the other way when it asks. -/
theorem getSettleBalance_tokens {quotePrice : Option Int} {takerSide : Side}
    {takerFeeRate makerPrice makerFeeRate baseTokenDecimal quoteTokenDecimal quantityToTrade : Int}
    {baseToken quoteToken : Address} {settleBalance : SettleBalance}
    (computed : getSettleBalance quotePrice takerSide takerFeeRate baseToken quoteToken makerPrice makerFeeRate
      baseTokenDecimal quoteTokenDecimal quantityToTrade = .ok settleBalance) :
    (takerSide = .bid → settleBalance.taker.inToken = baseToken ∧ settleBalance.taker.outToken = quoteToken ∧
      settleBalance.maker.inToken = quoteToken ∧ settleBalance.maker.outToken = baseToken) ∧
    (takerSide ≠ .bid → settleBalance.taker.inToken = quoteToken ∧ settleBalance.taker.outToken = baseToken ∧
      settleBalance.maker.inToken = baseToken ∧ settleBalance.maker.outToken = quoteToken) := by
  unfold getSettleBalance at computed
  by_cases bid : takerSide = .bid
  · simp only [bid, if_true] at computed
    split at computed
    · cases computed
    · split at computed
      · cases computed
      · cases ok_injective computed
        exact ⟨fun _ => ⟨rfl, rfl, rfl, rfl⟩, fun notBid => absurd bid notBid⟩
  · simp only [bid, if_false] at computed
    split at computed
    · cases computed
    · split at computed
      · cases computed
      · cases ok_injective computed
        exact ⟨fun isBid => absurd isBid bid, fun _ => ⟨rfl, rfl, rfl, rfl⟩⟩

/-- What a successful `SetteBalance` checked and wrote: both relayers have owners,
each new balance passed its check against the balances computed before it, and the
state is the one the writes produce. -/
theorem setteBalance_ok {coinbase : Address} {takerOrder makerOrder : OrderItem}
    {settleBalance : SettleBalance} {state state' : AccountState}
    (settled : setteBalance coinbase takerOrder makerOrder settleBalance state = .ok state') :
    ∃ newTakerInTotal newTakerOutTotal newMakerInTotal newMakerOutTotal newTakerFee newMakerFee
        newRelayerTakerFee newRelayerMakerFee : Int,
      let takerExOwner := getRelayerOwner takerOrder.exchangeAddress state
      let makerExOwner := getRelayerOwner makerOrder.exchangeAddress state
      let taker := settleBalance.taker
      let maker := settleBalance.maker
      let quoteToken := makerOrder.quoteToken
      let cache₁ := rememberFirst .empty taker.inToken takerOrder.userAddress newTakerInTotal
      let cache₂ := rememberFirst cache₁ taker.outToken takerOrder.userAddress newTakerOutTotal
      let cache₃ := rememberFirst cache₂ maker.inToken makerOrder.userAddress newMakerInTotal
      let cache₄ := rememberFirst cache₃ maker.outToken makerOrder.userAddress newMakerOutTotal
      let cache₅ := rememberFirst cache₄ quoteToken takerExOwner newTakerFee
      takerExOwner ≠ 0 ∧ makerExOwner ≠ 0 ∧
      checkAddTokenBalance takerOrder.userAddress taker.inTotal taker.inToken state .empty = .ok newTakerInTotal ∧
      checkSubTokenBalance takerOrder.userAddress taker.outTotal taker.outToken state cache₁ = .ok newTakerOutTotal ∧
      checkAddTokenBalance makerOrder.userAddress maker.inTotal maker.inToken state cache₂ = .ok newMakerInTotal ∧
      checkSubTokenBalance makerOrder.userAddress maker.outTotal maker.outToken state cache₃ = .ok newMakerOutTotal ∧
      checkAddTokenBalance takerExOwner taker.fee quoteToken state cache₄ = .ok newTakerFee ∧
      checkAddTokenBalance makerExOwner maker.fee quoteToken state cache₅ = .ok newMakerFee ∧
      checkSubRelayerFee takerOrder.exchangeAddress relayerFee state .empty = .ok newRelayerTakerFee ∧
      checkSubRelayerFee makerOrder.exchangeAddress relayerFee state
        (SortedMap.empty.insert takerOrder.exchangeAddress newRelayerTakerFee) = .ok newRelayerMakerFee ∧
      state' =
        let s := setSubRelayerFee takerOrder.exchangeAddress newRelayerTakerFee relayerFee state
        let s := setSubRelayerFee makerOrder.exchangeAddress newRelayerMakerFee relayerFee s
        let s := s.addBalance (s.candidateOwner coinbase) (relayerFee + relayerFee)
        let s := setTokenBalance takerOrder.userAddress newTakerInTotal taker.inToken s
        let s := setTokenBalance takerOrder.userAddress newTakerOutTotal taker.outToken s
        let s := setTokenBalance makerOrder.userAddress newMakerInTotal maker.inToken s
        let s := setTokenBalance makerOrder.userAddress newMakerOutTotal maker.outToken s
        let s := setTokenBalance takerExOwner newTakerFee quoteToken s
        setTokenBalance makerExOwner newMakerFee quoteToken s := by
  simp only [setteBalance] at settled
  split at settled
  · cases settled
  · rename_i owners
    rw [not_or] at owners
    obtain ⟨newTakerInTotal, takerIn, settled⟩ := bind_eq_ok settled
    obtain ⟨newTakerOutTotal, takerOut, settled⟩ := bind_eq_ok settled
    obtain ⟨newMakerInTotal, makerIn, settled⟩ := bind_eq_ok settled
    obtain ⟨newMakerOutTotal, makerOut, settled⟩ := bind_eq_ok settled
    obtain ⟨newTakerFee, takerFee, settled⟩ := bind_eq_ok settled
    obtain ⟨newMakerFee, makerFee, settled⟩ := bind_eq_ok settled
    obtain ⟨newRelayerTakerFee, relayerTaker, settled⟩ := bind_eq_ok settled
    obtain ⟨newRelayerMakerFee, relayerMaker, settled⟩ := bind_eq_ok settled
    exact ⟨newTakerInTotal, newTakerOutTotal, newMakerInTotal, newMakerOutTotal, newTakerFee, newMakerFee,
      newRelayerTakerFee, newRelayerMakerFee, owners.1, owners.2, takerIn, takerOut, makerIn, makerOut,
      takerFee, makerFee, relayerTaker, relayerMaker, (ok_injective settled).symm⟩

/-- A relayer on both sides of a match is paid the maker's fee only. The owner's
balance after the taker's fee is computed, but the quote token's cache already holds
the taker's balance, so it is not remembered; the maker's fee is then added to the
owner's balance as it was before the settlement, and that write is the last. -/
theorem setteBalance_shared_relayer_fee {coinbase : Address} {takerOrder makerOrder : OrderItem}
    {settleBalance : SettleBalance} {state state' : AccountState} {quotePrice : Option Int}
    {takerFeeRate makerPrice makerFeeRate baseTokenDecimal quoteTokenDecimal quantityToTrade : Int}
    (computed : getSettleBalance quotePrice takerOrder.side takerFeeRate makerOrder.baseToken makerOrder.quoteToken
      makerPrice makerFeeRate baseTokenDecimal quoteTokenDecimal quantityToTrade = .ok settleBalance)
    (settled : setteBalance coinbase takerOrder makerOrder settleBalance state = .ok state')
    (shared : takerOrder.exchangeAddress = makerOrder.exchangeAddress)
    (trc21 : makerOrder.quoteToken ≠ tomoNativeAddress)
    (ownerNotTaker : getRelayerOwner makerOrder.exchangeAddress state ≠ takerOrder.userAddress) :
    ((state'.tokenBalances makerOrder.quoteToken (getRelayerOwner makerOrder.exchangeAddress state)).val : Int) =
      (state.tokenBalances makerOrder.quoteToken (getRelayerOwner makerOrder.exchangeAddress state)).val +
        settleBalance.maker.fee := by
  obtain ⟨newTakerInTotal, newTakerOutTotal, newMakerInTotal, newMakerOutTotal, newTakerFee, newMakerFee,
    newRelayerTakerFee, newRelayerMakerFee, -, -, -, -, -, -, -, makerFee, -, -, written⟩ := setteBalance_ok settled
  rw [shared] at makerFee
  set quote := makerOrder.quoteToken
  set owner := getRelayerOwner makerOrder.exchangeAddress state
  set cache₁ := rememberFirst .empty settleBalance.taker.inToken takerOrder.userAddress newTakerInTotal
  set cache₂ := rememberFirst cache₁ settleBalance.taker.outToken takerOrder.userAddress newTakerOutTotal
  set cache₃ := rememberFirst cache₂ settleBalance.maker.inToken makerOrder.userAddress newMakerInTotal
  set cache₄ := rememberFirst cache₃ settleBalance.maker.outToken makerOrder.userAddress newMakerOutTotal
  -- the taker's two balances come first, and one of them is of the quote token
  have quoteCached₂ : (cache₂.get? quote).isSome := by
    obtain ⟨bidTokens, askTokens⟩ := getSettleBalance_tokens computed
    by_cases bid : takerOrder.side = .bid
    · obtain ⟨-, outQuote, -, -⟩ := bidTokens bid
      rw [← outQuote]
      exact get?_rememberFirst_isSome _ _ _ _
    · obtain ⟨inQuote, -, -, -⟩ := askTokens bid
      rw [← inQuote]
      exact get?_rememberFirst_isSome_of_isSome (get?_rememberFirst_isSome _ _ _ _) _ _ _
  have quoteCached₃ : (cache₃.get? quote).isSome := get?_rememberFirst_isSome_of_isSome quoteCached₂ _ _ _
  have quoteCached₄ : (cache₄.get? quote).isSome := get?_rememberFirst_isSome_of_isSome quoteCached₃ _ _ _
  -- only the first holder of a token is cached, and the owner is not the taker
  have ownerMissing : cache₄.find? quote owner = none := by
    rw [find?_rememberFirst_of_cached quoteCached₃, find?_rememberFirst_of_cached quoteCached₂,
      find?_rememberFirst_of_ne ownerNotTaker, find?_rememberFirst_of_ne ownerNotTaker]
    rfl
  rw [rememberFirst_of_isSome quoteCached₄] at makerFee
  obtain ⟨known, added, fits⟩ := checkAddTokenBalance_of_trc21 trc21 makerFee
  rw [cachedBalance_of_find?_none state ownerMissing, getTokenBalance_of_trc21 trc21 known] at added
  have last : state'.tokenBalances quote owner = bigToHash newMakerFee := by
    rw [written]
    simp [setTokenBalance_tokenBalances, trc21, known]
  rw [last, fits, added]

/-! A match through one relayer `0x31`, owned by `0x41`, with a fee rate of 1%: a bid for
100 base tokens at price 10, which pays 1000 quote tokens and a fee of 10 on each side. -/

namespace SharedRelayer

def baseToken : Address := 0x10

def quoteToken : Address := 0x20

def relayer : Address := 0x31

def accounts : AccountState where
  balance := fun _ => 0
  exist := fun token => decide (token = baseToken) || decide (token = quoteToken)
  tokenBalances := fun token holder =>
    if token = baseToken ∧ holder = 0x72 then 100
    else if token = quoteToken ∧ holder = 0x71 then 2000 else 0
  relayerDeposit := fun r => if r = relayer then bigToHash (10 ^ 16) else 0
  relayerTradeFee := fun r => if r = relayer then 10 else 0
  relayerOwner := fun r => if r = relayer then 0x41 else 0
  candidateOwner := fun _ => 0x52

def takerOrder : OrderItem :=
  { emptyOrder with
    quantity := 100, price := 10, exchangeAddress := relayer, userAddress := 0x71, baseToken, quoteToken,
    side := .bid }

def makerOrder : OrderItem :=
  { emptyOrder with
    quantity := 100, price := 10, exchangeAddress := relayer, userAddress := 0x72, baseToken, quoteToken,
    side := .ask }

def settleBalance : SettleBalance :=
  ⟨⟨10, baseToken, 100, 100, quoteToken, 1000, 1010⟩, ⟨10, quoteToken, 1000, 990, baseToken, 100, 100⟩⟩

end SharedRelayer

open SharedRelayer in
theorem shared_relayer_owner_paid_once :
    ∃ state', getSettleBalance none takerOrder.side 10 makerOrder.baseToken makerOrder.quoteToken 10 10 1 1 100 =
        .ok settleBalance ∧
      setteBalance 0x51 takerOrder makerOrder settleBalance accounts = .ok state' ∧
      settleBalance.taker.fee + settleBalance.maker.fee = 20 ∧
      (accounts.tokenBalances quoteToken 0x41).val = 0 ∧ (state'.tokenBalances quoteToken 0x41).val = 10 := by
  have computed : getSettleBalance none takerOrder.side 10 makerOrder.baseToken makerOrder.quoteToken 10 10 1 1 100 =
      .ok settleBalance := by
    decide +kernel
  obtain ⟨state', settled⟩ : ∃ state', setteBalance 0x51 takerOrder makerOrder settleBalance accounts = .ok state' := by
    cases result : setteBalance 0x51 takerOrder makerOrder settleBalance accounts with
    | ok state' => exact ⟨state', rfl⟩
    | error e =>
      have succeeds : (setteBalance 0x51 takerOrder makerOrder settleBalance accounts).toBool = true := by
        decide +kernel
      rw [result] at succeeds
      cases succeeds
  have owner : getRelayerOwner makerOrder.exchangeAddress accounts = 0x41 := by decide
  have paid := setteBalance_shared_relayer_fee computed settled rfl (by decide) (by rw [owner]; decide)
  have quote : makerOrder.quoteToken = quoteToken := rfl
  rw [owner, quote] at paid
  have before : (accounts.tokenBalances quoteToken 0x41).val = 0 := by decide
  refine ⟨state', computed, settled, rfl, before, ?_⟩
  have makerFee : settleBalance.maker.fee = 10 := rfl
  omega

end TomoChain.Tomox
