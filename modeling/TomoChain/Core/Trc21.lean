import Mathlib
import TomoChain.Core.StateReader
import TomoChain.Lib.SortedMap
import TomoChain.Lib.BigHeap

set_option autoImplicit false

/-! The TRC21 fee reads and writes of `core/state/trc21_reader.go`: the transaction
pool's check that a sender can pay a token's fee (`ValidateTRC21Tx`), the fee taken
when such a transaction fails (`PayFeeWithTRC21TxFail`), and the fee capacity of the
issuer contract (`GetTRC21FeeCapacityFromState`). A nil `StateDB` or a nil data
slice is `none`; a run-time panic is a `none` result. -/
namespace TomoChain.State

open Lib

/-- The state variables of a TRC21 token that the Go code reads (`SlotTRC21Token`). -/
inductive TRC21TokenVar
  | balances
  | minFee
  | issuer
  deriving DecidableEq, Repr

/-- `SlotTRC21Token`. -/
def slotTRC21Token : TRC21TokenVar → Nat
  | .balances => 0
  | .minFee => 1
  | .issuer => 2

/-- The state variables of the TRC21 issuer contract (`SlotTRC21Issuer`). -/
inductive TRC21IssuerVar
  | minCap
  | tokens
  | tokensState
  deriving DecidableEq, Repr

/-- `SlotTRC21Issuer`. -/
def slotTRC21Issuer : TRC21IssuerVar → Nat
  | .minCap => 0
  | .tokens => 1
  | .tokensState => 2

/-- `common.TRC21IssuerSMC`. -/
def trc21IssuerSMC : Address := 0x8c0faeb5C6bEd2129b8674F262Fd45c4e9468bee

/-- `transferFuncHex`, the selector of `transfer(address,uint256)` as written. -/
def transferFuncHex : List UInt8 := hex2Bytes "0xa9059cbb"

/-- `transferFromFuncHex`, the selector of `transferFrom(address,address,uint256)`
as written. -/
def transferFromFuncHex : List UInt8 := hex2Bytes "0x23b872dd"

variable (keccak256 : List UInt8 → Hash)

/-- `ValidateTRC21Tx`: whether the token balance of `sender` covers the token's
minimum fee plus the value the call transfers. -/
def validateTRC21Tx (statedb : Option Storage) (sender token : Address) (data : Option (List UInt8)) :
    Option Bool :=
  match data, statedb with
  | some data, some statedb =>
    let balanceKey := getLocMappingAtKey keccak256 sender.hash (slotTRC21Token .balances)
    let balanceHash := statedb token (bigToHash balanceKey)
    if !emptyHash balanceHash then
      let balance := balanceHash.val
      let minFeeTokenKey := getLocSimpleVariable (slotTRC21Token .minFee)
      let requiredMinBalance := (statedb token minFeeTokenKey).val
      match sliceTo data 4 with
      | none => none
      | some funcHex =>
        let value :=
          if funcHex = transferFuncHex ∧ data.length = 68 then (bytesToHash (data.drop 36)).val
          else if funcHex = transferFromFuncHex ∧ data.length = 80 then (bytesToHash (data.drop 68)).val
          else 0
        let requiredMinBalance := requiredMinBalance + value
        some (if balance < requiredMinBalance then false else true)
    else some false
  | _, _ => some false

/-- `PayFeeWithTRC21TxFail`: the minimum fee, or the whole balance if it is smaller,
is taken from the token balance of `sender` and added to that of the token's issuer.
The `*big.Int` values live in a `BigHeap`, so that `feeUsed = balance` makes the two
names one integer, as in Go. -/
def payFeeWithTRC21TxFail (statedb : Option Storage) (sender token : Address) : Option Storage :=
  statedb.map fun statedb =>
    let balanceKey := getLocMappingAtKey keccak256 sender.hash (slotTRC21Token .balances)
    let balanceHash := statedb token (bigToHash balanceKey)
    if !emptyHash balanceHash then
      let (balance, heap) := BigHeap.empty.alloc balanceHash.val
      let (feeUsed, heap) := heap.alloc 0
      if heap.get balance ≤ heap.get feeUsed then statedb
      else
        let issuerTokenKey := getLocSimpleVariable (slotTRC21Token .issuer)
        if emptyHash issuerTokenKey then statedb
        else
          let issuerAddr := bytesToAddress (statedb token issuerTokenKey).toBytes
          let (fee, heap) := heap.alloc (statedb token (getLocSimpleVariable (slotTRC21Token .minFee))).val
          let feeUsed := if heap.get balance < heap.get fee then balance else fee
          let (balance, heap) := heap.sub balance balance feeUsed
          let statedb := setState statedb token (bigToHash balanceKey) (bigToHash (heap.get balance))
          let issuerBalanceKey := getLocMappingAtKey keccak256 issuerAddr.hash (slotTRC21Token .balances)
          let (issuerBalance, heap) := heap.alloc (statedb token (bigToHash issuerBalanceKey)).val
          let (issuerBalance, heap) := heap.add issuerBalance issuerBalance feeUsed
          setState statedb token (bigToHash issuerBalanceKey) (bigToHash (heap.get issuerBalance))
    else statedb

/-- `GetTRC21FeeCapacityFromState`: the fee capacity the issuer contract holds for
each token of its `tokens` array. -/
def getTRC21FeeCapacityFromState (statedb : Option Storage) : SortedMap Address Nat :=
  match statedb with
  | none => .empty
  | some statedb =>
    let slotTokensHash := bigToHash (slotTRC21Issuer .tokens)
    let tokenCount := (statedb trc21IssuerSMC slotTokensHash).val % 2 ^ 64
    (List.range tokenCount).foldl
      (fun tokensCapacity i =>
        let key := getLocDynamicArrAtElement keccak256 slotTokensHash i 1
        let value := statedb trc21IssuerSMC key
        if !emptyHash value then
          let token := bytesToAddress value.toBytes
          let balanceKey := getLocMappingAtKey keccak256 token.hash (slotTRC21Issuer .tokensState)
          tokensCapacity.insert token (statedb trc21IssuerSMC (bigToHash balanceKey)).val
        else tokensCapacity)
      .empty

/-! ## What `ValidateTRC21Tx` checks -/

/-- `common.Hex2Bytes` reads the selectors with their `0x` prefix, which is not hex:
both are empty. -/
theorem transferFuncHex_eq_nil : transferFuncHex = [] := by
  rw [transferFuncHex, hex2Bytes, show "0xa9059cbb" = String.ofList ('0' :: 'x' :: "a9059cbb".toList) by decide]
  exact Hex.decodeString_of_prefix _

theorem transferFromFuncHex_eq_nil : transferFromFuncHex = [] := by
  rw [transferFromFuncHex, hex2Bytes,
    show "0x23b872dd" = String.ofList ('0' :: 'x' :: "23b872dd".toList) by decide]
  exact Hex.decodeString_of_prefix _

/-- The word the Go code reads as the token balance of `holder`. -/
def tokenBalanceSlot (holder : Address) : Hash :=
  bigToHash (getLocMappingAtKey keccak256 holder.hash (slotTRC21Token .balances))

/-- `ValidateTRC21Tx` in closed form: once the balance is non-empty, call data
shorter than a selector panics, and otherwise the balance is compared with the
minimum fee alone, since no four bytes equal an empty selector. -/
theorem validateTRC21Tx_eq (statedb : Storage) (sender token : Address) (data : List UInt8) :
    validateTRC21Tx keccak256 (some statedb) sender token (some data) =
      if emptyHash (statedb token (tokenBalanceSlot keccak256 sender)) then some false
      else if data.length < 4 then none
      else some (decide ((statedb token (getLocSimpleVariable (slotTRC21Token .minFee))).val ≤
        (statedb token (tokenBalanceSlot keccak256 sender)).val)) := by
  simp only [validateTRC21Tx, tokenBalanceSlot, transferFuncHex_eq_nil, transferFromFuncHex_eq_nil]
  by_cases empty : emptyHash (statedb token (tokenBalanceSlot keccak256 sender)) = true
  · simp only [tokenBalanceSlot] at empty
    simp [empty]
  · simp only [tokenBalanceSlot] at empty
    by_cases short : data.length < 4
    · have panics : sliceTo data 4 = none := if_neg (by omega)
      simp [empty, short, panics]
    · have cut : sliceTo data 4 = some (data.take 4) := if_pos (by omega)
      have selector : data.take 4 ≠ [] := by
        intro nothing
        have length := congrArg List.length nothing
        simp only [List.length_take, List.length_nil] at length
        omega
      simp only [empty, short, cut, selector, false_and, if_false, Nat.add_zero, Bool.not_false, if_true,
        Bool.false_eq_true, Option.some.injEq]
      split
      · next below => exact (decide_eq_false (Nat.not_le.mpr below)).symm
      · next covered => exact (decide_eq_true (Nat.le_of_not_lt covered)).symm

/-- Call data of `transfer(recipient, value)`: the selector and two words. -/
def transferCall (recipient : Address) (value : Nat) : List UInt8 :=
  [0xa9, 0x05, 0x9c, 0xbb] ++ recipient.hash.toBytes ++ toBytesBE 32 value

/-- Every slot of the token holding 1, so a balance of 1 and a minimum fee of 1:
empty call data panics, and a transfer of 1 token passes, though it needs 2. -/
theorem validateTRC21Tx_panics_and_ignores_value :
    validateTRC21Tx keccak256 (some fun _ _ => 1) 1 2 (some []) = none ∧
      (bytesToHash ((transferCall 3 1).drop 36)).val = 1 ∧
      validateTRC21Tx keccak256 (some fun _ _ => 1) 1 2 (some (transferCall 3 1)) = some true := by
  refine ⟨?_, by decide, ?_⟩
  · rw [validateTRC21Tx_eq]
    rfl
  · rw [validateTRC21Tx_eq]
    rfl

/-! ## The fee of a failed transaction -/

/-- The issuer `PayFeeWithTRC21TxFail` pays: the address in the token's `issuer` slot. -/
def trc21Issuer (statedb : Storage) (token : Address) : Address :=
  bytesToAddress (statedb token (getLocSimpleVariable (slotTRC21Token .issuer))).toBytes

theorem bigToHash_val (h : Hash) : bigToHash h.val = h := by
  apply Fin.ext
  simp [bigToHash]

/-- What `PayFeeWithTRC21TxFail` writes for a positive balance `b` and a minimum fee `f`:
the balance less the fee used, then the issuer's balance plus what `feeUsed` holds once
the balance is written. At or above the fee that is the fee; below it `feeUsed` is
`balance`, which the subtraction has zeroed. -/
theorem payFeeWithTRC21TxFail_of_positive (statedb : Storage) (sender token : Address) {b f : Hash}
    (balance : statedb token (tokenBalanceSlot keccak256 sender) = b)
    (fee : statedb token (getLocSimpleVariable (slotTRC21Token .minFee)) = f) (positive : 0 < b.val) :
    let written := setState statedb token (tokenBalanceSlot keccak256 sender)
      (bigToHash (if b.val < f.val then 0 else (b.val : Int) - f.val))
    let issuerSlot := tokenBalanceSlot keccak256 (trc21Issuer statedb token)
    payFeeWithTRC21TxFail keccak256 (some statedb) sender token =
      some (setState written token issuerSlot
        (bigToHash ((written token issuerSlot).val + if b.val < f.val then (0 : Int) else f.val))) := by
  have funded : emptyHash b = false := by
    simp only [emptyHash, decide_eq_false_iff_not]
    rintro rfl
    exact Nat.lt_irrefl 0 positive
  have unpaid : ¬(b.val : Int) ≤ 0 := by omega
  simp only [tokenBalanceSlot] at balance ⊢
  -- the cells: `balance` at 0, `feeUsed` first at 1, `fee` at 2, `issuerBalance` at 3
  simp +decide only [payFeeWithTRC21TxFail, Option.map_some, balance, fee, funded, Bool.not_false,
    BigHeap.alloc_ref, BigHeap.fresh_alloc, BigHeap.fresh_empty, BigHeap.get_alloc, BigHeap.get_empty,
    BigHeap.sub_ref, BigHeap.fresh_sub, BigHeap.get_sub, BigHeap.add_ref, BigHeap.get_add, Nat.zero_add,
    Nat.reduceAdd, ↓reduceIte, unpaid, trc21Issuer]
  by_cases short : b.val < f.val
  · have short' : (b.val : Int) < f.val := by exact_mod_cast short
    simp +decide only [short, short', ↓reduceIte, Int.sub_self]
  · have short' : ¬(b.val : Int) < f.val := by exact_mod_cast short
    simp +decide only [short, short', ↓reduceIte]

/-- A sender whose token balance is positive but below the minimum fee loses all of
it, and no balance gains it: `feeUsed` and `balance` are one `big.Int`, zeroed by the
subtraction before the issuer's credit reads it. -/
theorem payFeeWithTRC21TxFail_burns_short_balance (statedb : Storage) (sender token : Address)
    (positive : 0 < (statedb token (tokenBalanceSlot keccak256 sender)).val)
    (short : (statedb token (tokenBalanceSlot keccak256 sender)).val <
      (statedb token (getLocSimpleVariable (slotTRC21Token .minFee))).val) :
    payFeeWithTRC21TxFail keccak256 (some statedb) sender token =
      some (setState statedb token (tokenBalanceSlot keccak256 sender) 0) := by
  have zero : bigToHash 0 = 0 := rfl
  rw [payFeeWithTRC21TxFail_of_positive keccak256 statedb sender token rfl rfl positive]
  -- the issuer's credit adds nothing and writes back the word its slot holds
  simp only [short, if_true, Int.add_zero, bigToHash_val, setState_self, zero]

/-- A balance of 1 and a minimum fee of 7: the one token is gone. -/
theorem payFeeWithTRC21TxFail_burns_one_token :
    0 < ((fun _ slot => if slot = 1 then 7 else 1 : Storage) 3 (tokenBalanceSlot (fun _ => 5) 2)).val ∧
      ((fun _ slot => if slot = 1 then 7 else 1 : Storage) 3 (tokenBalanceSlot (fun _ => 5) 2)).val <
        ((fun _ slot => if slot = 1 then 7 else 1 : Storage) 3 (getLocSimpleVariable (slotTRC21Token .minFee))).val ∧
      payFeeWithTRC21TxFail (fun _ => 5) (some fun _ slot => if slot = 1 then 7 else 1) 2 3 =
        some (setState (fun _ slot => if slot = 1 then 7 else 1) 3 (tokenBalanceSlot (fun _ => 5) 2) 0) :=
  ⟨by decide, by decide, payFeeWithTRC21TxFail_burns_short_balance _ _ _ _ (by decide) (by decide)⟩

end TomoChain.State
