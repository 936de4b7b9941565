import Mathlib
import TomoChain.Common.Types

set_option autoImplicit false

/-! The `RelayerRegistration` contract of `contracts/tomox/contract/Registration.sol`
and the relayer fees that TomoX settles against it (`tomox/tomox_state/relayer_state.go`,
`SetteBalance` of `tomox/order_processor.go`).

The storage of the contract is its Solidity view: the `RELAYER_LIST` mapping as a
function to `Relayer` records, which a missing key reads as the zero record. A call
that fails reverts, so the contract keeps its state; events are not modelled. -/
namespace TomoChain.Contracts

open Lib

/-- A `uint256` result: arithmetic of Solidity 0.4 wraps. -/
def word (n : Nat) : Nat := n % 2 ^ 256

/-- `SafeMath.add`: the wrapped sum, or a revert when it wraps. -/
def safeAdd (a b : Nat) : Except String Nat :=
  let c := word (a + b)
  if c ≥ a then pure c else throw ""

/-- `struct Relayer`. -/
structure Relayer where
  deposit : Nat
  tradeFee : Nat
  fromTokens : List Address
  toTokens : List Address
  index : Nat
  owner : Address
  deriving DecidableEq, Repr

/-- The zero record: what a missing `RELAYER_LIST` entry reads as and `delete` writes. -/
def Relayer.empty : Relayer := ⟨0, 0, [], [], 0, 0⟩

/-- The storage of `RelayerRegistration` and the native balance of its account. -/
structure Registration where
  contractOwner : Address
  maximumRelayers : Nat
  maximumTokenList : Nat
  relayerList : Address → Relayer
  relayerCoinbases : Nat → Address
  resignRequests : Address → Nat
  relayerOnSaleList : Address → Nat
  relayerCount : Nat
  minimumDeposit : Nat
  balance : Int

/-- The sender and the value of a call. -/
structure Msg where
  sender : Address
  value : Nat

/-- The functions of the contract that change its state. -/
inductive Call
  | reconfigure (maxRelayer maxToken minDeposit : Nat)
  | register (coinbase : Address) (tradeFee : Nat) (fromTokens toTokens : List Address)
  | update (coinbase : Address) (tradeFee : Nat) (fromTokens toTokens : List Address)
  | transfer (coinbase newOwner : Address)
  | depositMore (coinbase : Address)
  | resign (coinbase : Address)
  | refund (coinbase : Address)
  | sellRelayer (coinbase : Address) (price : Nat)
  | cancelSelling (coinbase : Address)
  | buyRelayer (coinbase : Address)

/-- The constructor, run by `sender`: no relayers and an empty account. -/
def constructor (sender : Address) (maxRelayers maxTokenList minDeposit : Nat) : Registration where
  contractOwner := sender
  maximumRelayers := maxRelayers
  maximumTokenList := maxTokenList
  relayerList := fun _ => Relayer.empty
  relayerCoinbases := fun _ => 0
  resignRequests := fun _ => 0
  relayerOnSaleList := fun _ => 0
  relayerCount := 0
  minimumDeposit := minDeposit
  balance := 0

/-- `require(condition, message)`. -/
def require (condition : Prop) [Decidable condition] (message : String) : Except String Unit :=
  if condition then pure () else throw message

namespace Registration

variable (s : Registration) (msg : Msg)

/-- `RELAYER_LIST[coinbase] = relayer`. -/
def setRelayer (coinbase : Address) (relayer : Relayer) : Registration :=
  { s with relayerList := Function.update s.relayerList coinbase relayer }

/-- A payable function credits the value of the call to the contract's account. -/
def receive : Registration := { s with balance := s.balance + msg.value }

/-- `address.transfer(amount)` from the contract, which reverts on a short balance. -/
def transferOut (amount : Nat) : Except String Registration :=
  if amount ≤ s.balance then pure { s with balance := s.balance - amount } else throw ""

/-- A function that is not `payable` reverts on a call with value. -/
def nonPayable : Except String Unit := require (msg.value = 0) ""

def contractOwnerOnly : Except String Unit :=
  require (msg.sender = s.contractOwner) "Contract Owner Only."

def relayerOwnerOnly (coinbase : Address) : Except String Unit :=
  require (msg.sender = (s.relayerList coinbase).owner) "Relayer Owner Only."

def onlyActiveRelayer (coinbase : Address) : Except String Unit :=
  require (s.resignRequests coinbase = 0) "The relayer has been requested to close."

def nonZeroValue : Except String Unit := require (msg.value > 0) "Transfer value must be > 0"

def notForSale (coinbase : Address) : Except String Unit :=
  require (s.relayerOnSaleList coinbase = 0) "The relayer must be not currently for Sale"

/-- The checks on a relayer configuration that `register` and `update` share. -/
def validConfiguration (tradeFee : Nat) (fromTokens toTokens : List Address) : Except String Unit := do
  require (tradeFee ≥ 1 ∧ tradeFee < 10000) "Invalid Maker Fee"
  require (fromTokens.length ≤ s.maximumTokenList) "Exceeding number of trade pairs"
  require (toTokens.length = fromTokens.length) "Not valid number of Pairs"

def reconfigure (maxRelayer maxToken minDeposit : Nat) : Except String Registration := do
  nonPayable msg
  contractOwnerOnly s msg
  require (maxRelayer ≥ s.relayerCount) ""
  require (maxToken > 4 ∧ maxToken < 1001) ""
  require (minDeposit > 10000) ""
  pure { s with maximumRelayers := maxRelayer, maximumTokenList := maxToken, minimumDeposit := minDeposit }

def register (coinbase : Address) (tradeFee : Nat) (fromTokens toTokens : List Address) :
    Except String Registration := do
  let s := s.receive msg
  require (msg.sender ≠ s.contractOwner) "Contract Owner is forbidden to create a Relayer"
  require (msg.sender ≠ coinbase) "Coinbase and RelayerOwner address must not be the same"
  require (coinbase ≠ s.contractOwner) "Coinbase must not be same as CONTRACT_OWNER"
  require (msg.value ≥ s.minimumDeposit) "Minimum deposit not satisfied."
  validConfiguration s tradeFee fromTokens toTokens
  require ((s.relayerList coinbase).deposit = 0) "Coinbase already registered."
  require (s.relayerCount < s.maximumRelayers) "Maximum relayers registered"
  let relayer : Relayer := ⟨msg.value, tradeFee, fromTokens, toTokens, s.relayerCount, msg.sender⟩
  let s := { s with relayerCoinbases := Function.update s.relayerCoinbases s.relayerCount coinbase }
  let s := s.setRelayer coinbase relayer
  pure { s with relayerCount := word (s.relayerCount + 1) }

def update (coinbase : Address) (tradeFee : Nat) (fromTokens toTokens : List Address) :
    Except String Registration := do
  nonPayable msg
  relayerOwnerOnly s msg coinbase
  onlyActiveRelayer s coinbase
  notForSale s coinbase
  validConfiguration s tradeFee fromTokens toTokens
  let relayer := s.relayerList coinbase
  pure (s.setRelayer coinbase
    { relayer with tradeFee := tradeFee, fromTokens := fromTokens, toTokens := toTokens })

def transfer (coinbase newOwner : Address) : Except String Registration := do
  nonPayable msg
  relayerOwnerOnly s msg coinbase
  onlyActiveRelayer s coinbase
  notForSale s coinbase
  require (newOwner ≠ 0 ∧ newOwner ≠ msg.sender) ""
  require ((s.relayerList newOwner).tradeFee = 0) "Owner address must not be currently used as relayer-coinbase"
  pure (s.setRelayer coinbase { s.relayerList coinbase with owner := newOwner })

/-- `depositMore`. `RELAYER_LIST[coinbase]._deposit.add(msg.value)` computes the sum
and discards it: only a wrapping sum reverts, and the deposit stays as it was. -/
def depositMore (coinbase : Address) : Except String Registration := do
  let s := s.receive msg
  relayerOwnerOnly s msg coinbase
  onlyActiveRelayer s coinbase
  notForSale s coinbase
  nonZeroValue msg
  require (msg.value ≥ 10 ^ 18) "At least 1 TOMO is required for a deposit request"
  let _ ← safeAdd (s.relayerList coinbase).deposit msg.value
  pure s

def resign (now : Nat) (coinbase : Address) : Except String Registration := do
  nonPayable msg
  relayerOwnerOnly s msg coinbase
  notForSale s coinbase
  require ((s.relayerList coinbase).deposit > 0) "No relayer associated with this address"
  require (s.resignRequests coinbase = 0) "Request already received"
  pure { s with resignRequests := Function.update s.resignRequests coinbase (word (now + 4 * 7 * 24 * 3600)) }

/-- The branch of `refund` once the resignation is due: delete the relayer, move the
last coinbase into its index and pay the deposit back. -/
def refundDue (coinbase : Address) : Except String Registration :=
  let amount := (s.relayerList coinbase).deposit
  let deletingIndex := (s.relayerList coinbase).index
  let s := s.setRelayer coinbase Relayer.empty
  let s := { s with resignRequests := Function.update s.resignRequests coinbase 0 }
  let lastCoinbase := s.relayerCoinbases (word (s.relayerCount - 1 + 2 ^ 256))
  let s := { s with relayerCoinbases := Function.update s.relayerCoinbases (word (s.relayerCount - 1 + 2 ^ 256)) 0 }
  let s := { s with relayerCoinbases := Function.update s.relayerCoinbases deletingIndex lastCoinbase }
  let s := s.setRelayer lastCoinbase { s.relayerList lastCoinbase with index := deletingIndex }
  let s := { s with relayerCount := word (s.relayerCount - 1 + 2 ^ 256) }
  s.transferOut amount

def refund (now : Nat) (coinbase : Address) : Except String Registration := do
  nonPayable msg
  relayerOwnerOnly s msg coinbase
  notForSale s coinbase
  require (s.resignRequests coinbase > 0) "Request not found"
  if s.resignRequests coinbase < now then s.refundDue coinbase
  else pure s

def sellRelayer (coinbase : Address) (price : Nat) : Except String Registration := do
  nonPayable msg
  relayerOwnerOnly s msg coinbase
  onlyActiveRelayer s coinbase
  require (price > 0) "Price tag must be different than Zero(0)"
  pure { s with relayerOnSaleList := Function.update s.relayerOnSaleList coinbase price }

def cancelSelling (coinbase : Address) : Except String Registration := do
  nonPayable msg
  relayerOwnerOnly s msg coinbase
  onlyActiveRelayer s coinbase
  require (s.relayerOnSaleList coinbase > 0) "Relayer is not currently for sale"
  pure { s with relayerOnSaleList := Function.update s.relayerOnSaleList coinbase 0 }

def buyRelayer (coinbase : Address) : Except String Registration := do
  let s := s.receive msg
  onlyActiveRelayer s coinbase
  let price := s.relayerOnSaleList coinbase
  require (price > 0) "Relayer is not currently for sale"
  require (msg.value = price) "Price-tag must be matched"
  let seller := (s.relayerList coinbase).owner
  require (msg.sender ≠ 0 ∧ msg.sender ≠ seller ∧ seller ≠ 0) "Address not valid"
  let s := s.setRelayer coinbase { s.relayerList coinbase with owner := msg.sender }
  let s := { s with relayerOnSaleList := Function.update s.relayerOnSaleList coinbase 0 }
  s.transferOut price

/-- A call of the contract at block time `now`. -/
def call (now : Nat) : Call → Except String Registration
  | .reconfigure maxRelayer maxToken minDeposit => s.reconfigure msg maxRelayer maxToken minDeposit
  | .register coinbase tradeFee fromTokens toTokens => s.register msg coinbase tradeFee fromTokens toTokens
  | .update coinbase tradeFee fromTokens toTokens => s.update msg coinbase tradeFee fromTokens toTokens
  | .transfer coinbase newOwner => s.transfer msg coinbase newOwner
  | .depositMore coinbase => s.depositMore msg coinbase
  | .resign coinbase => s.resign msg now coinbase
  | .refund coinbase => s.refund msg now coinbase
  | .sellRelayer coinbase price => s.sellRelayer msg coinbase price
  | .cancelSelling coinbase => s.cancelSelling msg coinbase
  | .buyRelayer coinbase => s.buyRelayer msg coinbase

end Registration

/-! ## Relayer fees settled by TomoX -/

/-- `common.RelayerFee`, 0.001 TOMO. -/
def relayerFee : Nat := 1000000000000000

/-- `common.RelayerRegistrationSMC`, the account of the contract. -/
def relayerRegistrationSMC : Address := 0x0342d186212b04E69eA682b3bed8e232b6b3361a

namespace Registration

variable (s : Registration)

/-- `CheckSubRelayerFee`: the deposit left after the fee, read from the call's
cache `mapRelayerFee` if the relayer is in it. -/
def checkSubRelayerFee (relayer : Address) (fee : Nat) (mapRelayerFee : Address → Option Nat) :
    Except String Nat :=
  let balance := (mapRelayerFee relayer).getD (s.relayerList relayer).deposit
  if balance < fee then throw "relayer isn't enough tomo fee" else pure (balance - fee)

/-- `SetSubRelayerFee`: write the deposit slot and take the fee from the contract. -/
def setSubRelayerFee (relayer : Address) (balance fee : Nat) : Registration :=
  let s := s.setRelayer relayer { s.relayerList relayer with deposit := balance }
  { s with balance := s.balance - fee }

/-- The relayer part of `SetteBalance` for one trade, charging `fee` to each
exchange: both exchanges need an owner, both are charged (twice when they are one
relayer, through the cache), and the masternode owner is credited both fees, which
reaches the contract only when it is that owner. The token checks before it either
pass or fail the whole settlement, which then writes nothing. -/
def chargeRelayerFees (fee : Nat) (takerExchange makerExchange masternodeOwner : Address) :
    Except String Registration := do
  let takerExOwner := (s.relayerList takerExchange).owner
  let makerExOwner := (s.relayerList makerExchange).owner
  if takerExOwner = 0 ∨ makerExOwner = 0 then throw "Echange owner empty"
  let newRelayerTakerFee ← s.checkSubRelayerFee takerExchange fee (fun _ => none)
  let mapRelayerFee := Function.update (fun _ => none) takerExchange (some newRelayerTakerFee)
  let newRelayerMakerFee ← s.checkSubRelayerFee makerExchange fee mapRelayerFee
  let s := s.setSubRelayerFee takerExchange newRelayerTakerFee fee
  let s := s.setSubRelayerFee makerExchange newRelayerMakerFee fee
  pure (if masternodeOwner = relayerRegistrationSMC then { s with balance := s.balance + 2 * fee } else s)

/-- The relayer fees of one trade in `SetteBalance`: `RelayerFee` to each exchange. -/
def settleRelayerFees (takerExchange makerExchange masternodeOwner : Address) :
    Except String Registration :=
  s.chargeRelayerFees relayerFee takerExchange makerExchange masternodeOwner

end Registration

/-- A transaction touching the contract: a call, or the settlement of a trade. -/
inductive Action
  | call (msg : Msg) (now : Nat) (call : Call)
  | settle (takerExchange makerExchange masternodeOwner : Address)

/-- An action; one that fails reverts and leaves the contract as it was. -/
def execute (s : Registration) : Action → Registration
  | .call msg now call =>
      match s.call msg now call with
      | .ok s' => s'
      | .error _ => s
  | .settle takerExchange makerExchange masternodeOwner =>
      match s.settleRelayerFees takerExchange makerExchange masternodeOwner with
      | .ok s' => s'
      | .error _ => s

/-- The contract after a sequence of actions. -/
def run (s : Registration) (actions : List Action) : Registration := actions.foldl execute s

end TomoChain.Contracts
