import Mathlib
import TomoChain.Trie.Encoding

set_option autoImplicit false

/-! The Merkle Patricia trie of `trie/trie.go` and `trie/node.go`: its nodes, and the
reads and updates that walk them, `tryGet`, `insert`, `delete` and the leftmost and
rightmost walks TomoX uses for its best prices. A node reached through a `HashNode`
is loaded with `resolveHash`, a parameter here: the node the database holds under the
hash, decoded. Each walk takes a fuel, one unit per call, since a loaded node is not
part of the node it replaces; a walk that uses it up fails with `outOfFuel`. -/
namespace TomoChain.Mpt

/-- `nodeFlag`. -/
structure NodeFlag where
  hash : Option (List UInt8)
  gen : UInt16
  dirty : Bool

/-- `Node`: `empty` is the nil node; a full node has 17 children, the 17th the value
of the key that ends there. -/
inductive Node where
  | empty
  | full (children : Fin 17 → Node) (flags : NodeFlag)
  | short (key : List Nibble) (val : Node) (flags : NodeFlag)
  | hash (h : List UInt8)
  | value (v : List UInt8)

/-- `n != nil`. -/
def Node.isPresent : Node → Bool
  | .empty => false
  | _ => true

/-- The errors of the trie. `missingNode` is a `MissingNodeError`; `invalidNode`
stands for the `invalid node` error of the walks and for the panics of the code on a
node of the wrong kind. -/
inductive TrieError where
  | missingNode (hash : List UInt8) (path : List Nibble)
  | invalidNode
  | outOfFuel
  deriving Repr, DecidableEq

/-- `Trie`: its root and the cache generations. -/
structure Trie where
  root : Node
  cachegen : UInt16
  cachelimit : UInt16

/-- A trie without nodes and without a database root. -/
def Trie.empty : Trie := ⟨.empty, 0, 0⟩

/-- The full node with no children. -/
def noChildren : Fin 17 → Node := fun _ => .empty

section Operations

variable (resolveHash : List UInt8 → List Nibble → UInt16 → Except TrieError Node) (cachegen : UInt16)

/-- `t.newFlag()`. -/
def newFlag : NodeFlag := ⟨none, cachegen, true⟩

/-- `t.resolve`. -/
def resolve (n : Node) (pref : List Nibble) : Except TrieError Node :=
  match n with
  | .hash h => resolveHash h pref cachegen
  | n => pure n

/-- `tryGet`, with the key and the position in it. The result holds the value, the
node with the loaded nodes in place, and whether any node was loaded. -/
def tryGet : Nat → Node → List Nibble → Nat → Except TrieError (Option (List UInt8) × Node × Bool)
  | 0, _, _, _ => throw .outOfFuel
  | _ + 1, .empty, _, _ => pure (none, .empty, false)
  | _ + 1, .value v, _, _ => pure (some v, .value v, false)
  | fuel + 1, .short nkey nval flags, key, pos =>
    if key.length - pos < nkey.length ∨ nkey ≠ (key.drop pos).take nkey.length then
      -- key not found in trie
      pure (none, .short nkey nval flags, false)
    else do
      let (value, newnode, didResolve) ← tryGet fuel nval key (pos + nkey.length)
      if didResolve then pure (value, .short nkey newnode { flags with gen := cachegen }, true)
      else pure (value, .short nkey nval flags, false)
  | fuel + 1, .full children flags, key, pos => do
    let i := key.getD pos 0
    let (value, newnode, didResolve) ← tryGet fuel (children i) key (pos + 1)
    if didResolve then pure (value, .full (Function.update children i newnode) { flags with gen := cachegen }, true)
    else pure (value, .full children flags, false)
  | fuel + 1, .hash h, key, pos => do
    let child ← resolveHash h (key.take pos) cachegen
    let (value, newnode, _) ← tryGet fuel child key pos
    pure (value, newnode, true)

/-- `insert`: whether the trie changed, and the new node. A key is never a proper
prefix of a node's key, as both end in the terminator, so the indexes `key[matchlen]`
exist. -/
def insert : Nat → Node → List Nibble → List Nibble → Node → Except TrieError (Bool × Node)
  | 0, _, _, _, _ => throw .outOfFuel
  | fuel + 1, n, pref, key, value =>
    if key.length = 0 then
      match n, value with
      | .value v, .value v' => pure (v != v', value)
      | _, _ => pure (true, value)
    else
      match n with
      | .short nkey nval _ => do
        let matchlen := prefixLen key nkey
        -- if the whole key matches, keep this short node as is and only update the value
        if matchlen = nkey.length then
          let (dirty, nn) ← insert fuel nval (pref ++ key.take matchlen) (key.drop matchlen) value
          if !dirty then return (false, n)
          return (true, .short nkey nn (newFlag cachegen))
        -- otherwise branch out at the index where they differ
        let (_, old) ← insert fuel .empty (pref ++ nkey.take (matchlen + 1)) (nkey.drop (matchlen + 1)) nval
        let (_, new) ← insert fuel .empty (pref ++ key.take (matchlen + 1)) (key.drop (matchlen + 1)) value
        let branch := Node.full
          (Function.update (Function.update noChildren (nkey.getD matchlen 0) old) (key.getD matchlen 0) new)
          (newFlag cachegen)
        if matchlen = 0 then return (true, branch)
        return (true, .short (key.take matchlen) branch (newFlag cachegen))
      | .full children _ => do
        let i := key.getD 0 0
        let (dirty, nn) ← insert fuel (children i) (pref ++ [i]) (key.drop 1) value
        if !dirty then return (false, n)
        return (true, .full (Function.update children i nn) (newFlag cachegen))
      | .empty => pure (true, .short key value (newFlag cachegen))
      | .hash h => do
        -- a part of the trie that is not loaded yet: load it and insert into it
        let rn ← resolveHash h pref cachegen
        let (dirty, nn) ← insert fuel rn pref key value
        if !dirty then return (false, rn)
        return (true, nn)
      | .value _ => throw .invalidNode

/-- The loop of `delete` that finds the one child left: its index, `-1` for none and
`-2` for two or more. -/
def remainingPos (children : Fin 17 → Node) : List (Fin 17) → Int → Int
  | [], pos => pos
  | i :: rest, pos =>
    if (children i).isPresent then
      if pos = -1 then remainingPos children rest i.val else -2
    else remainingPos children rest pos

/-- `delete`: whether the trie changed, and the node with `key` removed, reduced to
minimal form on the way up. -/
def delete : Nat → Node → List Nibble → List Nibble → Except TrieError (Bool × Node)
  | 0, _, _, _ => throw .outOfFuel
  | fuel + 1, n, pref, key =>
    match n with
    | .short nkey nval _ => do
      let matchlen := prefixLen key nkey
      -- don't replace n on mismatch
      if matchlen < nkey.length then return (false, n)
      -- remove n entirely for whole matches
      if matchlen = key.length then return (true, .empty)
      let (dirty, child) ← delete fuel nval (pref ++ key.take nkey.length) (key.drop nkey.length)
      if !dirty then return (false, n)
      match child with
      -- merge the nodes to avoid a short node under a short node
      | .short ckey cval _ => return (true, .short (nkey ++ ckey) cval (newFlag cachegen))
      | child => return (true, .short nkey child (newFlag cachegen))
    | .full children _ => do
      let i := key.getD 0 0
      let (dirty, nn) ← delete fuel (children i) (pref ++ [i]) (key.drop 1)
      if !dirty then return (false, n)
      let children := Function.update children i nn
      let pos := remainingPos children (List.finRange 17) (-1)
      if 0 ≤ pos then
        let p : Fin 17 := ⟨pos.toNat % 17, Nat.mod_lt _ (by decide)⟩
        if pos ≠ 16 then
          -- a remaining short node takes the missing nibble in front of its key
          let cnode ← resolve resolveHash cachegen (children p) pref
          if let .short ckey cval _ := cnode then
            return (true, .short (p :: ckey) cval (newFlag cachegen))
        return (true, .short [p] (children p) (newFlag cachegen))
      return (true, .full children (newFlag cachegen))
    | .value _ => pure (true, .empty)
    | .empty => pure (false, .empty)
    | .hash h => do
      let rn ← resolveHash h pref cachegen
      let (dirty, nn) ← delete fuel rn pref key
      if !dirty then return (false, rn)
      return (true, nn)

/-- The first child in the order of `order`. -/
def firstPresent (children : Fin 17 → Node) (order : List (Fin 17)) : Option (Fin 17) :=
  order.find? fun i => (children i).isPresent

/-- `tryGetBestLeftKeyAndValue` and `tryGetBestRightKeyAndValue`: they differ only in
the order the children of a full node are tried, `0` up to `16` for the left walk,
and `16` down for the right one, whose byte counter `i >= 0` never fails, so that a
full node without children panics on `Children[255]`. The result holds the hex key, the
value, the node with the loaded nodes in place, and whether any node was loaded. -/
def tryGetBestKeyAndValue (order : List (Fin 17)) :
    Nat → Node → List Nibble → Except TrieError (List Nibble × Option (List UInt8) × Node × Bool)
  | 0, _, _ => throw .outOfFuel
  | _ + 1, .empty, _ => pure ([], none, .empty, false)
  | fuel + 1, .short nkey nval flags, pref =>
    match nval with
    | .value v => pure (pref ++ nkey, some v, .short nkey nval flags, false)
    | _ => do
      let (key, value, newnode, didResolve) ← tryGetBestKeyAndValue order fuel nval (pref ++ nkey)
      if didResolve then pure (key, value, .short nkey newnode { flags with gen := cachegen }, true)
      else pure (key, value, .short nkey nval flags, false)
  | fuel + 1, .full children flags, pref =>
    match firstPresent children order with
    | some i => do
      let (key, value, newnode, didResolve) ← tryGetBestKeyAndValue order fuel (children i) (pref ++ [i])
      if didResolve then
        pure (key, value, .full (Function.update children i newnode) { flags with gen := cachegen }, true)
      else pure (key, value, .full children flags, false)
    | none => throw .invalidNode
  | fuel + 1, .hash h, pref => do
    let child ← resolveHash h [] cachegen
    let (key, value, newnode, _) ← tryGetBestKeyAndValue order fuel child pref
    pure (key, value, newnode, true)
  | _ + 1, .value _, _ => throw .invalidNode

/-- The children of a full node from `0` up. -/
def leftOrder : List (Fin 17) := List.finRange 17

/-- The children of a full node from `16` down. -/
def rightOrder : List (Fin 17) := (List.finRange 17).reverse

def tryGetBestLeftKeyAndValue : Nat → Node → List Nibble →
    Except TrieError (List Nibble × Option (List UInt8) × Node × Bool) :=
  tryGetBestKeyAndValue resolveHash cachegen leftOrder

def tryGetBestRightKeyAndValue : Nat → Node → List Nibble →
    Except TrieError (List Nibble × Option (List UInt8) × Node × Bool) :=
  tryGetBestKeyAndValue resolveHash cachegen rightOrder

end Operations

/-! ## The trie API -/

namespace Trie

variable (resolveHash : List UInt8 → List Nibble → UInt16 → Except TrieError Node) (fuel : Nat) (t : Trie)

/-- `TryGet`. -/
def tryGet (key : List UInt8) : Except TrieError (Option (List UInt8) × Trie) := do
  let (value, newroot, didResolve) ← Mpt.tryGet resolveHash t.cachegen fuel t.root (keybytesToHex key) 0
  pure (value, if didResolve then { t with root := newroot } else t)

/-- `TryUpdate`: an empty value deletes the key. -/
def tryUpdate (key value : List UInt8) : Except TrieError Trie := do
  let k := keybytesToHex key
  if value.length ≠ 0 then
    let (_, n) ← Mpt.insert resolveHash t.cachegen fuel t.root [] k (.value value)
    pure { t with root := n }
  else
    let (_, n) ← Mpt.delete resolveHash t.cachegen fuel t.root [] k
    pure { t with root := n }

/-- `TryDelete`. -/
def tryDelete (key : List UInt8) : Except TrieError Trie := do
  let (_, n) ← Mpt.delete resolveHash t.cachegen fuel t.root [] (keybytesToHex key)
  pure { t with root := n }

/-- The end of `TryGetBestLeftKeyAndValue` and `TryGetBestRightKeyAndValue`: the hex
key back to bytes, which panics on an odd length. -/
def bestKeyAndValue (walk : Except TrieError (List Nibble × Option (List UInt8) × Node × Bool)) :
    Except TrieError (List UInt8 × Option (List UInt8) × Trie) := do
  let (key, value, newroot, didResolve) ← walk
  match hexToKeybytes key with
  | some bytes => pure (bytes, value, if didResolve then { t with root := newroot } else t)
  | none => throw .invalidNode

def tryGetBestLeftKeyAndValue : Except TrieError (List UInt8 × Option (List UInt8) × Trie) :=
  t.bestKeyAndValue (Mpt.tryGetBestLeftKeyAndValue resolveHash t.cachegen fuel t.root [])

def tryGetBestRightKeyAndValue : Except TrieError (List UInt8 × Option (List UInt8) × Trie) :=
  t.bestKeyAndValue (Mpt.tryGetBestRightKeyAndValue resolveHash t.cachegen fuel t.root [])

end Trie

end TomoChain.Mpt
