import Mathlib
import TomoChain.Common.Types

set_option autoImplicit false

/-! The block header of `core/types/block.go`, with the fields the consensus
engine reads or writes. Byte fields are byte lists; `nil` and an empty slice are
the same list, which is how every modelled reader treats them (`bytes.Equal`,
`len`). -/
namespace TomoChain

/-- `types.BlockNonce`, eight bytes. -/
abbrev BlockNonce := Fin (2 ^ 64)

instance nonceWidth_neZero : NeZero (2 ^ 64) := NeZero.of_pos (Nat.two_pow_pos 64)

structure Header where
  parentHash : Hash
  uncleHash : Hash
  coinbase : Address
  difficulty : Nat
  number : Nat
  time : Nat
  extra : List UInt8
  mixDigest : Hash
  nonce : BlockNonce
  validators : List UInt8
  validator : List UInt8
  penalties : List UInt8
  deriving DecidableEq, Repr

end TomoChain
