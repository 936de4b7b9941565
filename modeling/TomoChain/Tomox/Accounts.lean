import Mathlib
import TomoChain.Tomox.Types

set_option autoImplicit false

/-! The account state the matching engine settles on (`core/state.StateDB`), and the
balance and relayer reads and writes of `tomox/tomox_state/relayer_state.go`.

The storage slots that the Go code computes with `GetLocMappingAtKey` (a Keccak hash
of the key and the mapping's slot, plus a struct member's offset) are distinct for
distinct keys and members; the model keeps each mapping the code reads as a function
of its key: the `balances` of each TRC21 token, and the `_deposit`, `_fee` and
`_owner` members of `RELAYER_LIST` in `RelayerRegistration`. Native balances are
integers: `SubBalance` does not check for a negative result. -/
namespace TomoChain.Tomox

open Lib

/-- `common.TomoNativeAddress`, the token id of the native coin. -/
def tomoNativeAddress : Address := 1

/-- `common.RelayerRegistrationSMC`. -/
def relayerRegistrationSMC : Address := 0x0342d186212b04E69eA682b3bed8e232b6b3361a

/-- `common.RelayerFee`: 0.001 TOMO per matched order and relayer. -/
def relayerFee : Nat := 10 ^ 15

/-- `common.TomoXBaseFee`: fee rates are in thousandths. -/
def tomoXBaseFee : Nat := 1000

/-- `common.BasePrice`, the decimals of the native coin. -/
def basePrice : Nat := 10 ^ 18

/-- The parts of the account state that settlement reads and writes. -/
structure AccountState where
  balance : Address → Int
  exist : Address → Bool
  tokenBalances : Address → Address → Hash
  relayerDeposit : Address → Hash
  relayerTradeFee : Address → Hash
  relayerOwner : Address → Hash
  candidateOwner : Address → Address

namespace AccountState

/-- `SetBalance`. -/
def setBalance (state : AccountState) (addr : Address) (amount : Int) : AccountState :=
  { state with balance := Function.update state.balance addr amount }

/-- `AddBalance`. -/
def addBalance (state : AccountState) (addr : Address) (amount : Int) : AccountState :=
  state.setBalance addr (state.balance addr + amount)

/-- `SubBalance`. -/
def subBalance (state : AccountState) (addr : Address) (amount : Int) : AccountState :=
  state.setBalance addr (state.balance addr - amount)

/-- `SetState` at `balances[addr]` of a token contract. -/
def setTokenSlot (state : AccountState) (token addr : Address) (value : Hash) : AccountState :=
  let holders := Function.update (state.tokenBalances token) addr value
  { state with tokenBalances := Function.update state.tokenBalances token holders }

/-- `SetState` at `RELAYER_LIST[relayer]._deposit`. -/
def setDepositSlot (state : AccountState) (relayer : Address) (value : Hash) : AccountState :=
  { state with relayerDeposit := Function.update state.relayerDeposit relayer value }

@[simp] theorem setBalance_tokenBalances (state : AccountState) (addr : Address) (amount : Int) :
    (state.setBalance addr amount).tokenBalances = state.tokenBalances := rfl

@[simp] theorem setBalance_exist (state : AccountState) (addr : Address) (amount : Int) :
    (state.setBalance addr amount).exist = state.exist := rfl

@[simp] theorem setBalance_balance (state : AccountState) (addr : Address) (amount : Int) :
    (state.setBalance addr amount).balance = Function.update state.balance addr amount := rfl

@[simp] theorem setBalance_candidateOwner (state : AccountState) (addr : Address) (amount : Int) :
    (state.setBalance addr amount).candidateOwner = state.candidateOwner := rfl

@[simp] theorem addBalance_eq (state : AccountState) (addr : Address) (amount : Int) :
    state.addBalance addr amount = state.setBalance addr (state.balance addr + amount) := rfl

@[simp] theorem subBalance_eq (state : AccountState) (addr : Address) (amount : Int) :
    state.subBalance addr amount = state.setBalance addr (state.balance addr - amount) := rfl

theorem setTokenSlot_tokenBalances (state : AccountState) (token addr : Address) (value : Hash)
    (t a : Address) :
    (state.setTokenSlot token addr value).tokenBalances t a =
      if t = token ∧ a = addr then value else state.tokenBalances t a := by
  by_cases sameToken : t = token
  · subst sameToken
    by_cases sameHolder : a = addr
    · simp [setTokenSlot, sameHolder]
    · simp [setTokenSlot, sameHolder]
  · simp [setTokenSlot, sameToken]

@[simp] theorem setTokenSlot_exist (state : AccountState) (token addr : Address) (value : Hash) :
    (state.setTokenSlot token addr value).exist = state.exist := rfl

@[simp] theorem setTokenSlot_balance (state : AccountState) (token addr : Address) (value : Hash) :
    (state.setTokenSlot token addr value).balance = state.balance := rfl

@[simp] theorem setTokenSlot_candidateOwner (state : AccountState) (token addr : Address) (value : Hash) :
    (state.setTokenSlot token addr value).candidateOwner = state.candidateOwner := rfl

@[simp] theorem setDepositSlot_tokenBalances (state : AccountState) (relayer : Address) (value : Hash) :
    (state.setDepositSlot relayer value).tokenBalances = state.tokenBalances := rfl

@[simp] theorem setDepositSlot_exist (state : AccountState) (relayer : Address) (value : Hash) :
    (state.setDepositSlot relayer value).exist = state.exist := rfl

@[simp] theorem setDepositSlot_balance (state : AccountState) (relayer : Address) (value : Hash) :
    (state.setDepositSlot relayer value).balance = state.balance := rfl

@[simp] theorem setDepositSlot_candidateOwner (state : AccountState) (relayer : Address) (value : Hash) :
    (state.setDepositSlot relayer value).candidateOwner = state.candidateOwner := rfl

end AccountState

/-- `BytesToAddress` of a 32-byte word: its low 20 bytes. -/
def hashToAddress (h : Hash) : Address := Fin.ofNat _ h.val

/-- `GetExRelayerFee`: the relayer's trade fee rate. -/
def getExRelayerFee (relayer : Address) (state : AccountState) : Nat := (state.relayerTradeFee relayer).val

/-- `GetRelayerOwner`. -/
def getRelayerOwner (relayer : Address) (state : AccountState) : Address := hashToAddress (state.relayerOwner relayer)

/-- `CheckRelayerFee`: the relayer's deposit covers `fee`. -/
def checkRelayerFee (relayer : Address) (fee : Nat) (state : AccountState) : Except TomoxError Unit :=
  if (state.relayerDeposit relayer).val < fee then .error (.relayerFeeNotEnough relayer) else .ok ()

/-- `GetTokenBalance`: a native balance, a TRC21 balance, or zero for a token that does
not exist. -/
def getTokenBalance (addr token : Address) (state : AccountState) : Int :=
  if token = tomoNativeAddress then state.balance addr
  else if state.exist token then (state.tokenBalances token addr).val
  else 0

/-- The balances computed so far by one settlement, by token and holder. -/
abbrev BalanceCache := SortedMap Address (SortedMap Address Int)

/-- `mapBalances[token][addr]`. -/
def BalanceCache.find? (cache : BalanceCache) (token addr : Address) : Option Int :=
  (cache.get? token).bind fun holders => holders.get? addr

/-- The balance before a settlement step: the cached one, else the state's. -/
def cachedBalance (addr token : Address) (state : AccountState) (cache : BalanceCache) : Int :=
  match cache.find? token addr with
  | some balance => balance
  | none => getTokenBalance addr token state

/-- `CheckSubTokenBalance`: the balance less `value`, if it covers `value`. -/
def checkSubTokenBalance (addr : Address) (value : Int) (token : Address) (state : AccountState)
    (cache : BalanceCache) : Except TomoxError Int :=
  if token = tomoNativeAddress ∨ state.exist token then
    let balance := cachedBalance addr token state cache
    if balance < value then .error (.valueNotEnough addr token balance.toNat value.toNat)
    else .ok (balance - value)
  else .error (.tokenNotExist token)

/-- `CheckAddTokenBalance`: the balance plus `value`; a TRC21 balance must stay below
`2 ^ 256`. -/
def checkAddTokenBalance (addr : Address) (value : Int) (token : Address) (state : AccountState)
    (cache : BalanceCache) : Except TomoxError Int :=
  if token = tomoNativeAddress then .ok (cachedBalance addr token state cache + value)
  else if state.exist token then
    let balance := cachedBalance addr token state cache
    let newBalance := balance + value
    if ((bigToHash newBalance).val : Int) ≠ newBalance then .error (.overflow balance.toNat value.toNat)
    else .ok newBalance
  else .error (.tokenNotExist token)

/-- `CheckSubRelayerFee`: the deposit (cached, else from the state) less `fee`. -/
def checkSubRelayerFee (relayer : Address) (fee : Nat) (state : AccountState)
    (cache : SortedMap Address Int) : Except TomoxError Int :=
  let balance : Int := match cache.get? relayer with
    | some balance => balance
    | none => ((state.relayerDeposit relayer).val : Int)
  if balance < fee then .error (.relayerFeeNotEnough relayer) else .ok (balance - fee)

/-- `SetTokenBalance`; a token that does not exist is left alone (the error is returned
to callers that drop it). -/
def setTokenBalance (addr : Address) (balance : Int) (token : Address) (state : AccountState) :
    AccountState :=
  if token = tomoNativeAddress then state.setBalance addr balance
  else if state.exist token then state.setTokenSlot token addr (bigToHash balance)
  else state

/-- `SetSubRelayerFee`: the deposit slot written and the fee taken from the contract. -/
def setSubRelayerFee (relayer : Address) (balance : Int) (fee : Nat) (state : AccountState) : AccountState :=
  (state.setDepositSlot relayer (bigToHash balance)).subBalance relayerRegistrationSMC fee

theorem setTokenBalance_tokenBalances (addr : Address) (balance : Int) (token : Address)
    (state : AccountState) (t a : Address) :
    (setTokenBalance addr balance token state).tokenBalances t a =
      if token ≠ tomoNativeAddress ∧ state.exist token = true ∧ t = token ∧ a = addr then bigToHash balance
      else state.tokenBalances t a := by
  unfold setTokenBalance
  by_cases native : token = tomoNativeAddress
  · simp [native]
  · by_cases exists_ : state.exist token = true
    · simp [native, exists_, AccountState.setTokenSlot_tokenBalances]
    · simp [native, exists_]

@[simp] theorem setTokenBalance_exist (addr : Address) (balance : Int) (token : Address) (state : AccountState) :
    (setTokenBalance addr balance token state).exist = state.exist := by
  unfold setTokenBalance
  split
  · rfl
  · split <;> rfl

@[simp] theorem setSubRelayerFee_tokenBalances (relayer : Address) (balance : Int) (fee : Nat)
    (state : AccountState) : (setSubRelayerFee relayer balance fee state).tokenBalances = state.tokenBalances :=
  rfl

@[simp] theorem setSubRelayerFee_exist (relayer : Address) (balance : Int) (fee : Nat) (state : AccountState) :
    (setSubRelayerFee relayer balance fee state).exist = state.exist := rfl

end TomoChain.Tomox
