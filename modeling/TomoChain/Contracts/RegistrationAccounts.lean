import Mathlib
import TomoChain.Contracts.Registration
import TomoChain.Lib.Except
import TomoChain.Lib.FinSum

set_option autoImplicit false

/-! What the contract owes and what it holds. The deposits of all coinbases are what
the relayers can get back; every successful call and every settled fee keeps the
balance of the contract's account at least that sum, with equality broken only by
`depositMore`, whose value is credited to the account but to no deposit. -/
namespace TomoChain.Contracts

open Lib Registration

/-- The sum of `RELAYER_LIST[c]._deposit` over all coinbases `c`. -/
def deposits (s : Registration) : Nat := ∑ c, (s.relayerList c).deposit

/-- What the account holds beyond the deposits. -/
def surplus (s : Registration) : Int := s.balance - deposits s

/-! ## How one write changes the deposits -/

/-- Writing one record of `RELAYER_LIST` replaces its deposit in the sum. -/
theorem sum_deposit_update (relayerList : Address → Relayer) (coinbase : Address) (relayer : Relayer) :
    (∑ c, (Function.update relayerList coinbase relayer c).deposit) + (relayerList coinbase).deposit =
      (∑ c, (relayerList c).deposit) + relayer.deposit := by
  have pointwise : (fun c => (Function.update relayerList coinbase relayer c).deposit) =
      Function.update (fun c => (relayerList c).deposit) coinbase relayer.deposit := by
    funext c
    by_cases here : c = coinbase
    · subst here
      simp
    · simp [here]
  rw [pointwise]
  exact sum_update_add _ _ _

/-- The first record written to an empty `RELAYER_LIST` holds all deposits. Stated for
any coinbase: at a closed one, Lean would try to add up the sum over all addresses. -/
theorem sum_deposit_update_empty (coinbase : Address) (relayer : Relayer) :
    (∑ c, (Function.update (fun _ => Relayer.empty) coinbase relayer c).deposit) = relayer.deposit := by
  have written := sum_deposit_update (fun _ => Relayer.empty) coinbase relayer
  have zero : Relayer.empty.deposit = 0 := rfl
  simp only [zero, Finset.sum_const_zero, add_zero, zero_add] at written
  exact written

/-- A write that keeps the deposit of its coinbase keeps the sum. -/
theorem sum_deposit_update_of_deposit (relayerList : Address → Relayer) (coinbase : Address)
    (relayer : Relayer) (kept : relayer.deposit = (relayerList coinbase).deposit) :
    (∑ c, (Function.update relayerList coinbase relayer c).deposit) = ∑ c, (relayerList c).deposit := by
  have written := sum_deposit_update relayerList coinbase relayer
  omega

theorem surplus_setRelayer_of_deposit (s : Registration) (coinbase : Address) (relayer : Relayer)
    (kept : relayer.deposit = (s.relayerList coinbase).deposit) :
    surplus (s.setRelayer coinbase relayer) = surplus s := by
  simp only [surplus, deposits, setRelayer, sum_deposit_update_of_deposit s.relayerList coinbase relayer kept]

theorem deposits_constructor (sender : Address) (maxRelayers maxTokenList minDeposit : Nat) :
    deposits (constructor sender maxRelayers maxTokenList minDeposit) = 0 := by
  simp [deposits, constructor, Relayer.empty]

/-! ## The calls -/

variable {s s' : Registration} {msg : Msg}

theorem require_bind_ok {condition : Prop} [Decidable condition] {message : String} {β : Type}
    {f : Unit → Except String β} {b : β} (success : require condition message >>= f = .ok b) :
    condition ∧ f () = .ok b := by
  unfold require at success
  split at success
  · next holds => exact ⟨holds, success⟩
  · cases success

theorem transferOut_ok {amount : Nat} (paid : s.transferOut amount = .ok s') :
    s' = { s with balance := s.balance - amount } := by
  unfold transferOut at paid
  split at paid
  · exact (ok_injective paid).symm
  · cases paid

theorem reconfigure_surplus {maxRelayer maxToken minDeposit : Nat}
    (success : s.reconfigure msg maxRelayer maxToken minDeposit = .ok s') : surplus s' = surplus s := by
  unfold Registration.reconfigure at success
  have success := guard_bind_ok (guard_bind_ok (guard_bind_ok (guard_bind_ok (guard_bind_ok success))))
  cases ok_injective success
  rfl

theorem register_surplus {coinbase : Address} {tradeFee : Nat} {fromTokens toTokens : List Address}
    (success : s.register msg coinbase tradeFee fromTokens toTokens = .ok s') : surplus s' = surplus s := by
  unfold Registration.register at success
  have success := guard_bind_ok (guard_bind_ok (guard_bind_ok (guard_bind_ok (guard_bind_ok success))))
  -- the one check the accounting needs: the coinbase had no deposit
  obtain ⟨unregistered, success⟩ := require_bind_ok success
  have success := guard_bind_ok success
  cases ok_injective success
  have written := sum_deposit_update s.relayerList coinbase
    ⟨msg.value, tradeFee, fromTokens, toTokens, s.relayerCount, msg.sender⟩
  simp only [receive] at unregistered
  dsimp only at written
  simp only [surplus, deposits, receive, setRelayer]
  omega

variable {coinbase : Address}

theorem update_surplus {tradeFee : Nat} {fromTokens toTokens : List Address}
    (success : s.update msg coinbase tradeFee fromTokens toTokens = .ok s') : surplus s' = surplus s := by
  unfold Registration.update at success
  have success := guard_bind_ok (guard_bind_ok (guard_bind_ok (guard_bind_ok (guard_bind_ok success))))
  cases ok_injective success
  exact surplus_setRelayer_of_deposit s coinbase _ rfl

theorem transfer_surplus {newOwner : Address} (success : s.transfer msg coinbase newOwner = .ok s') :
    surplus s' = surplus s := by
  unfold Registration.transfer at success
  have success :=
    guard_bind_ok (guard_bind_ok (guard_bind_ok (guard_bind_ok (guard_bind_ok (guard_bind_ok success)))))
  cases ok_injective success
  exact surplus_setRelayer_of_deposit s coinbase _ rfl

/-- `depositMore` credits the value to the account and to no deposit. -/
theorem depositMore_surplus (success : s.depositMore msg coinbase = .ok s') :
    surplus s' = surplus s + msg.value := by
  unfold Registration.depositMore at success
  have success := guard_bind_ok (guard_bind_ok (guard_bind_ok (guard_bind_ok (guard_bind_ok success))))
  obtain ⟨_, -, success⟩ := bind_eq_ok success
  cases ok_injective success
  simp only [surplus, deposits, receive]
  omega

theorem resign_surplus {now : Nat} (success : s.resign msg now coinbase = .ok s') : surplus s' = surplus s := by
  unfold Registration.resign at success
  have success := guard_bind_ok (guard_bind_ok (guard_bind_ok (guard_bind_ok (guard_bind_ok success))))
  cases ok_injective success
  rfl

/-- Refunding deletes the deposit and pays exactly it out. -/
theorem refundDue_surplus (success : s.refundDue coinbase = .ok s') : surplus s' = surplus s := by
  unfold refundDue at success
  dsimp only at success
  cases transferOut_ok success
  have cleared := sum_deposit_update s.relayerList coinbase Relayer.empty
  have zero : Relayer.empty.deposit = 0 := rfl
  simp only [surplus, deposits, setRelayer, sum_deposit_update_of_deposit]
  omega

theorem refund_surplus {now : Nat} (success : s.refund msg now coinbase = .ok s') : surplus s' = surplus s := by
  unfold Registration.refund at success
  have success := guard_bind_ok (guard_bind_ok (guard_bind_ok (guard_bind_ok success)))
  split at success
  · exact refundDue_surplus success
  · cases ok_injective success
    rfl

theorem sellRelayer_surplus {price : Nat} (success : s.sellRelayer msg coinbase price = .ok s') :
    surplus s' = surplus s := by
  unfold Registration.sellRelayer at success
  have success := guard_bind_ok (guard_bind_ok (guard_bind_ok (guard_bind_ok success)))
  cases ok_injective success
  rfl

theorem cancelSelling_surplus (success : s.cancelSelling msg coinbase = .ok s') : surplus s' = surplus s := by
  unfold Registration.cancelSelling at success
  have success := guard_bind_ok (guard_bind_ok (guard_bind_ok (guard_bind_ok success)))
  cases ok_injective success
  rfl

/-- The buyer's value is the price, which goes on to the seller. -/
theorem buyRelayer_surplus (success : s.buyRelayer msg coinbase = .ok s') : surplus s' = surplus s := by
  unfold Registration.buyRelayer at success
  have success := guard_bind_ok (guard_bind_ok success)
  obtain ⟨priced, success⟩ := require_bind_ok success
  have success := guard_bind_ok success
  cases transferOut_ok success
  simp only [receive] at priced
  simp only [surplus, deposits, receive, setRelayer, sum_deposit_update_of_deposit]
  omega

/-- Every successful call keeps the balance at least as far above the deposits. -/
theorem call_surplus {now : Nat} {call : Call} (success : s.call msg now call = .ok s') :
    surplus s ≤ surplus s' := by
  cases call with
  | reconfigure => exact (reconfigure_surplus success).ge
  | register => exact (register_surplus success).ge
  | update => exact (update_surplus success).ge
  | transfer => exact (transfer_surplus success).ge
  | depositMore =>
    rw [depositMore_surplus success]
    omega
  | resign => exact (resign_surplus success).ge
  | refund => exact (refund_surplus success).ge
  | sellRelayer => exact (sellRelayer_surplus success).ge
  | cancelSelling => exact (cancelSelling_surplus success).ge
  | buyRelayer => exact (buyRelayer_surplus success).ge

/-! ## Settled relayer fees -/

theorem checkSubRelayerFee_ok {relayer : Address} {fee balance : Nat} {mapRelayerFee : Address → Option Nat}
    (checked : s.checkSubRelayerFee relayer fee mapRelayerFee = .ok balance) :
    fee ≤ (mapRelayerFee relayer).getD (s.relayerList relayer).deposit ∧
      balance = (mapRelayerFee relayer).getD (s.relayerList relayer).deposit - fee := by
  unfold checkSubRelayerFee at checked
  dsimp only at checked
  split at checked
  · cases checked
  · next enough => exact ⟨by omega, (ok_injective checked).symm⟩

/-- Writing a deposit lowered by `fee` and taking `fee` from the account keeps the
surplus. -/
theorem setSubRelayerFee_surplus (relayer : Address) (fee : Nat)
    (enough : fee ≤ (s.relayerList relayer).deposit) :
    surplus (s.setSubRelayerFee relayer ((s.relayerList relayer).deposit - fee) fee) = surplus s := by
  have written := sum_deposit_update s.relayerList relayer
    { s.relayerList relayer with deposit := (s.relayerList relayer).deposit - fee }
  dsimp only at written
  simp only [surplus, deposits, setSubRelayerFee, setRelayer]
  omega

/-- A settlement charges each exchange from its own deposit and the account alike;
the two fees come back to the account only when it is the masternode owner. -/
theorem chargeRelayerFees_surplus {fee : Nat} {takerExchange makerExchange masternodeOwner : Address}
    (success : s.chargeRelayerFees fee takerExchange makerExchange masternodeOwner = .ok s') :
    surplus s ≤ surplus s' := by
  unfold chargeRelayerFees at success
  dsimp only at success
  split at success
  · cases success
  · obtain ⟨newTaker, checkedTaker, rest⟩ := bind_eq_ok success
    clear success
    obtain ⟨newMaker, checkedMaker, rest⟩ := bind_eq_ok rest
    cases ok_injective rest
    obtain ⟨takerEnough, takerValue⟩ := checkSubRelayerFee_ok checkedTaker
    obtain ⟨makerEnough, makerValue⟩ := checkSubRelayerFee_ok checkedMaker
    simp only [Option.getD_none] at takerEnough takerValue
    subst takerValue
    -- the maker's cached deposit is the one the first write left
    set charged := s.setSubRelayerFee takerExchange ((s.relayerList takerExchange).deposit - fee) fee
      with charging
    have cached : (Function.update (fun _ => none) takerExchange
        (some ((s.relayerList takerExchange).deposit - fee)) makerExchange).getD
          (s.relayerList makerExchange).deposit = (charged.relayerList makerExchange).deposit := by
      by_cases same : makerExchange = takerExchange
      · subst same
        simp [charging, setSubRelayerFee, setRelayer]
      · simp [charging, setSubRelayerFee, setRelayer, same]
    rw [cached] at makerEnough makerValue
    subst makerValue
    have first : surplus charged = surplus s := setSubRelayerFee_surplus takerExchange fee takerEnough
    have second := setSubRelayerFee_surplus (s := charged) makerExchange fee makerEnough
    split
    · simp only [surplus, deposits] at first second ⊢
      omega
    · omega

theorem settleRelayerFees_surplus {takerExchange makerExchange masternodeOwner : Address}
    (success : s.settleRelayerFees takerExchange makerExchange masternodeOwner = .ok s') :
    surplus s ≤ surplus s' :=
  chargeRelayerFees_surplus success

/-! ## Over every run -/

/-- One transaction, successful or reverted, never lowers the surplus. -/
theorem execute_surplus (s : Registration) (action : Action) : surplus s ≤ surplus (execute s action) := by
  cases action with
  | call msg now call =>
    simp only [execute]
    split
    · next success => exact call_surplus success
    · exact le_refl _
  | settle takerExchange makerExchange masternodeOwner =>
    simp only [execute]
    split
    · next success => exact settleRelayerFees_surplus success
    · exact le_refl _

theorem run_surplus (s : Registration) (actions : List Action) : surplus s ≤ surplus (run s actions) := by
  induction actions generalizing s with
  | nil => exact le_refl _
  | cons action rest ih => exact (execute_surplus s action).trans (ih (execute s action))

/-- From the constructor on, through any calls and settled fees, the contract's
account holds at least the deposits of all relayers. -/
theorem deposits_le_balance (sender : Address) (maxRelayers maxTokenList minDeposit : Nat)
    (actions : List Action) :
    (deposits (run (constructor sender maxRelayers maxTokenList minDeposit) actions) : Int) ≤
      (run (constructor sender maxRelayers maxTokenList minDeposit) actions).balance := by
  have grown := run_surplus (constructor sender maxRelayers maxTokenList minDeposit) actions
  have empty : surplus (constructor sender maxRelayers maxTokenList minDeposit) = 0 := by
    rw [surplus, deposits_constructor]
    rfl
  rw [empty, surplus] at grown
  omega

/-- The failing input: a relayer registered with the minimum deposit of 10 deposits
one more TOMO. The account holds both, the deposit only the first. -/
theorem depositMore_not_credited :
    ∃ registered funded,
      (constructor 1 1 5 10).call ⟨2, 10⟩ 0 (.register 3 1 [] []) = .ok registered ∧
      registered.call ⟨2, 10 ^ 18⟩ 0 (.depositMore 3) = .ok funded ∧
      funded.balance = 10 + 10 ^ 18 ∧ deposits funded = 10 := by
  obtain ⟨registered, funded, registering, funding, balance, written⟩ : ∃ registered funded,
      (constructor 1 1 5 10).call ⟨2, 10⟩ 0 (.register 3 1 [] []) = .ok registered ∧
      registered.call ⟨2, 10 ^ 18⟩ 0 (.depositMore 3) = .ok funded ∧
      funded.balance = 10 + 10 ^ 18 ∧
      funded.relayerList = Function.update (fun _ => Relayer.empty) 3 ⟨10, 1, [], [], 0, 2⟩ :=
    ⟨_, _, rfl, rfl, by decide, rfl⟩
  refine ⟨registered, funded, registering, funding, balance, ?_⟩
  -- only coinbase 3 holds a deposit, the one `register` wrote
  rw [deposits, written, sum_deposit_update_empty]

end TomoChain.Contracts
