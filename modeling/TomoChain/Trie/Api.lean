import Mathlib
import TomoChain.Trie.Walk

set_option autoImplicit false

/-! The trie API over byte keys: `TryGet` reads the map a trie stands for, `TryUpdate` and
`TryDelete` update it, and after any sequence of them with keys of one byte length,
the left and right walks return the least and the greatest key present. This is what
TomoX's order books rest on: their keys are 32-byte prices and order ids. -/
namespace TomoChain.Mpt

open Lib

/-- The map a trie stands for, over the byte keys of the API. -/
def Trie.lookup (t : Trie) (key : List UInt8) : Option (List UInt8) := t.root.lookup (keybytesToHex key)

/-- A trie in memory as `TryUpdate` and `TryDelete` leave it: of minimal shape, and
holding hex keys only. -/
structure Trie.Inv (t : Trie) : Prop where
  wf : t.root.WF
  hexKeys : ∀ key v, t.root.lookup key = some v → IsHexKey key

theorem Trie.Inv.valid {t : Trie} (inv : t.Inv) : Valid [] t.root :=
  fun key v found => by simpa using (inv.hexKeys key v found).terminated

theorem empty_inv : Trie.empty.Inv := ⟨trivial, fun _ _ found => by simp [Trie.empty] at found⟩

@[simp] theorem empty_lookup (key : List UInt8) : Trie.empty.lookup key = none := lookup_empty _

/-- A new root that updates the old one at the hex key of `key` keeps the invariant and
updates the map at `key`. -/
theorem Trie.Inv.of_updates {t : Trie} (inv : t.Inv) {n : Node} (wf : n.WF) {key : List UInt8}
    {o : Option (List UInt8)} (updates : Updates t.root n (keybytesToHex key) o) :
    ({ t with root := n } : Trie).Inv ∧ ({ t with root := n } : Trie).lookup = Function.update t.lookup key o := by
  refine ⟨⟨wf, fun k v found => ?_⟩, funext fun k => ?_⟩
  · rw [updates k] at found
    split at found
    · next same => exact ⟨key, same⟩
    · exact inv.hexKeys k v found
  · show n.lookup (keybytesToHex k) = _
    rw [updates, Function.update_apply]
    by_cases same : k = key
    · rw [if_pos (congrArg keybytesToHex same), if_pos same]
    · rw [if_neg (fun hex => same (keybytesToHex_inj hex)), if_neg same]
      rfl

section Api

variable (resolveHash : List UInt8 → List Nibble → UInt16 → Except TrieError Node) (fuel : Nat) {t : Trie}

/-- `TryGet` returns what the trie holds under the key, with more fuel than its hex key
has nibbles, and changes nothing. -/
theorem Trie.tryGet_lookup (inv : t.Inv) (key : List UInt8) (enough : 2 * key.length + 1 < fuel) :
    t.tryGet resolveHash fuel key = .ok (t.lookup key, t) := by
  have ran := tryGet_spec resolveHash t.cachegen fuel t.root [] (keybytesToHex key) 0
    (by rwa [List.drop_zero, length_keybytesToHex]) inv.wf inv.valid
    (by simpa using terminated_keybytesToHex key)
  rw [List.drop_zero] at ran
  simp only [Trie.tryGet, ran, ok_bind, Bool.false_eq_true, if_false]
  rfl

/-- `TryUpdate` with more fuel than the hex key has nibbles updates the map, an empty
value removing the key. -/
theorem Trie.tryUpdate_spec (inv : t.Inv) (key value : List UInt8) (enough : 2 * key.length + 1 < fuel) :
    ∃ t', t.tryUpdate resolveHash fuel key value = .ok t' ∧ t'.Inv ∧
      t'.lookup = Function.update t.lookup key (if value.length = 0 then none else some value) := by
  have hexLength : (keybytesToHex key).length < fuel := by rwa [length_keybytesToHex]
  have term : Terminated ([] ++ keybytesToHex key) := by simpa using terminated_keybytesToHex key
  by_cases empty : value.length = 0
  · obtain ⟨dirty, n, ran, deleted⟩ := delete_spec resolveHash t.cachegen fuel t.root [] _ hexLength inv.wf
      inv.valid term
    rw [if_pos empty]
    exact ⟨_, by simp only [Trie.tryUpdate, empty, ne_eq, not_true_eq_false, if_false, ran, ok_bind]; rfl,
      inv.of_updates deleted.wf deleted.updates⟩
  · obtain ⟨dirty, n, ran, inserted⟩ := insert_spec resolveHash t.cachegen value fuel t.root [] _ hexLength inv.wf
      inv.valid term
    rw [if_neg empty]
    exact ⟨_, by simp only [Trie.tryUpdate, empty, ne_eq, not_false_eq_true, if_true, ran, ok_bind]; rfl,
      inv.of_updates inserted.wf inserted.updates⟩

/-- `TryDelete` with more fuel than the hex key has nibbles removes the key from the map. -/
theorem Trie.tryDelete_spec (inv : t.Inv) (key : List UInt8) (enough : 2 * key.length + 1 < fuel) :
    ∃ t', t.tryDelete resolveHash fuel key = .ok t' ∧ t'.Inv ∧ t'.lookup = Function.update t.lookup key none := by
  obtain ⟨dirty, n, ran, deleted⟩ := delete_spec resolveHash t.cachegen fuel t.root [] (keybytesToHex key)
    (by rwa [length_keybytesToHex]) inv.wf inv.valid (by simpa using terminated_keybytesToHex key)
  exact ⟨_, by simp only [Trie.tryDelete, ran, ok_bind]; rfl, inv.of_updates deleted.wf deleted.updates⟩

end Api

/-! ## Sequences of updates -/

/-- A call of the trie API that changes the trie. -/
inductive Op where
  | update (key value : List UInt8)
  | delete (key : List UInt8)
  deriving DecidableEq

def Op.key : Op → List UInt8
  | .update key _ => key
  | .delete key => key

/-- What a call leaves under its key: an empty value removes the key, as a deletion does. -/
def Op.result : Op → Option (List UInt8)
  | .update _ value => if value.length = 0 then none else some value
  | .delete _ => none

/-- The map after a call. -/
def Op.applyMap (m : List UInt8 → Option (List UInt8)) (op : Op) : List UInt8 → Option (List UInt8) :=
  Function.update m op.key op.result

section Run

variable (resolveHash : List UInt8 → List Nibble → UInt16 → Except TrieError Node) (fuel : Nat)

/-- A call made through the API. -/
def Trie.apply (t : Trie) : Op → Except TrieError Trie
  | .update key value => t.tryUpdate resolveHash fuel key value
  | .delete key => t.tryDelete resolveHash fuel key

/-- The calls one after another, stopping at the first error. -/
def Trie.applyAll : Trie → List Op → Except TrieError Trie
  | t, [] => .ok t
  | t, op :: ops => do
    let t' ← t.apply resolveHash fuel op
    t'.applyAll ops

theorem Trie.apply_spec {t : Trie} (inv : t.Inv) (op : Op) (enough : 2 * op.key.length + 1 < fuel) :
    ∃ t', t.apply resolveHash fuel op = .ok t' ∧ t'.Inv ∧ t'.lookup = Op.applyMap t.lookup op := by
  cases op with
  | update key value => exact Trie.tryUpdate_spec resolveHash fuel inv key value enough
  | delete key => exact Trie.tryDelete_spec resolveHash fuel inv key enough

/-- The run lemma: calls with keys shorter than the fuel allows all succeed, keep the
invariant, and leave the map the calls make. -/
theorem Trie.applyAll_spec : ∀ (t : Trie) (ops : List Op), t.Inv → (∀ op ∈ ops, 2 * op.key.length + 1 < fuel) →
    ∃ t', t.applyAll resolveHash fuel ops = .ok t' ∧ t'.Inv ∧ t'.lookup = ops.foldl Op.applyMap t.lookup
  | t, [], inv, _ => ⟨t, rfl, inv, rfl⟩
  | t, op :: ops, inv, enough => by
    obtain ⟨t₁, ran, inv₁, map₁⟩ := Trie.apply_spec resolveHash fuel inv op (enough op List.mem_cons_self)
    obtain ⟨t', rest, inv', map'⟩ := Trie.applyAll_spec t₁ ops inv₁ fun op' listed =>
      enough op' (List.mem_cons_of_mem op listed)
    refine ⟨t', ?_, inv', ?_⟩
    · simp only [Trie.applyAll, ran, ok_bind, rest]
    · rw [map', map₁, List.foldl_cons]

end Run

/-- A key the calls leave present was present before or is the key of a call. -/
theorem key_of_applyMap : ∀ (ops : List Op) (m : List UInt8 → Option (List UInt8)) (key : List UInt8),
    ops.foldl Op.applyMap m key ≠ none → m key ≠ none ∨ ∃ op ∈ ops, op.key = key
  | [], _, _, present => .inl present
  | op :: ops, m, key, present => by
    rw [List.foldl_cons] at present
    rcases key_of_applyMap ops _ key present with before | ⟨op', listed, same⟩
    · by_cases called : key = op.key
      · exact .inr ⟨op, List.mem_cons_self, called.symm⟩
      · left
        rwa [Op.applyMap, Function.update_of_ne called] at before
    · exact .inr ⟨op', List.mem_cons_of_mem op listed, same⟩

/-! ## The best walks -/

section Best

variable (resolveHash : List UInt8 → List Nibble → UInt16 → Except TrieError Node) (fuel : Nat) {t : Trie}

/-- A trie that holds nothing has the empty root. -/
theorem Trie.Inv.root_eq_empty (inv : t.Inv) (nothing : ∀ key, t.lookup key = none) : t.root = .empty := by
  apply inv.wf.eq_empty
  intro hex
  cases found : t.root.lookup hex with
  | none => rfl
  | some v =>
    obtain ⟨key, rfl⟩ := inv.hexKeys hex v found
    exact absurd found (by rw [← Trie.lookup, nothing key]; exact nofun)

/-- The end of a walk over a trie whose byte keys all have length `width`, with more fuel
than their hex keys have nibbles: the empty key when the trie holds nothing, else a key
it holds, which comes first in the lexicographic order of `rel` on hex keys. -/
theorem Trie.bestKeyAndValue_spec {order : List (Fin 17)} {rel : Fin 17 → Fin 17 → Prop}
    (complete : ∀ i, i ∈ order) (sorted : order.Pairwise rel) (inv : t.Inv) (width : Nat)
    (sameWidth : ∀ key v, t.lookup key = some v → key.length = width) (enough : 2 * width + 1 < fuel) :
    ((∀ key, t.lookup key = none) →
      t.bestKeyAndValue (tryGetBestKeyAndValue resolveHash t.cachegen order fuel t.root []) = .ok ([], none, t)) ∧
    (∀ key v, t.lookup key = some v → ∃ best vb,
      t.bestKeyAndValue (tryGetBestKeyAndValue resolveHash t.cachegen order fuel t.root []) =
        .ok (best, some vb, t) ∧ t.lookup best = some vb ∧
      ∀ key' v', t.lookup key' = some v' → key' = best ∨ List.Lex rel (keybytesToHex best) (keybytesToHex key')) := by
  refine ⟨fun nothing => ?_, fun key v found => ?_⟩
  · obtain ⟨fuel, rfl⟩ : ∃ f, fuel = f + 1 := ⟨fuel - 1, by omega⟩
    rw [inv.root_eq_empty nothing, walk_empty]
    rfl
  · -- the hex keys all have `2 * width + 1` nibbles, and the root is no value
    have uniform : ∀ hex w, t.root.lookup hex = some w → hex.length = 2 * width + 1 := by
      intro hex w held
      obtain ⟨bytes, rfl⟩ := inv.hexKeys hex w held
      rw [length_keybytesToHex, sameWidth bytes w held]
    have notValue : ∀ w, t.root ≠ .value w := by
      intro w same
      have ended := inv.valid [] w (by rw [same]; rfl)
      exact ended.ne_nil rfl
    obtain ⟨hex, vb, ran, held, first⟩ := walk_spec resolveHash t.cachegen order complete sorted (2 * width + 1)
      fuel t.root [] enough inv.wf inv.valid (isPresent_of_lookup found) notValue uniform
    obtain ⟨best, rfl⟩ := inv.hexKeys hex vb held
    refine ⟨best, vb, ?_, held, fun key' v' found' => ?_⟩
    · simp only [Trie.bestKeyAndValue, ran, List.nil_append, ok_bind, hexToKeybytes_keybytesToHex,
        Bool.false_eq_true, if_false]
      rfl
    · rcases first (keybytesToHex key') v' found' with same | earlier
      · exact .inl (keybytesToHex_inj same)
      · exact .inr earlier

/-- What TomoX needs of the best walks of a trie: the least and the greatest key present
with their values, and the empty key with no value when the trie holds nothing. -/
def BestWalksExtreme (t : Trie) : Prop :=
  ((∀ key, t.lookup key = none) →
    t.tryGetBestLeftKeyAndValue resolveHash fuel = .ok ([], none, t) ∧
    t.tryGetBestRightKeyAndValue resolveHash fuel = .ok ([], none, t)) ∧
  (∀ key v, t.lookup key = some v →
    (∃ least vl, t.tryGetBestLeftKeyAndValue resolveHash fuel = .ok (least, some vl, t) ∧
      t.lookup least = some vl ∧ ∀ key' v', t.lookup key' = some v' → key' = least ∨ least < key') ∧
    (∃ greatest vg, t.tryGetBestRightKeyAndValue resolveHash fuel = .ok (greatest, some vg, t) ∧
      t.lookup greatest = some vg ∧ ∀ key' v', t.lookup key' = some v' → key' = greatest ∨ key' < greatest))

/-- Both walks of a trie whose keys have one byte length, with more fuel than their hex
keys have nibbles. -/
theorem Trie.Inv.bestWalksExtreme (inv : t.Inv) (width : Nat)
    (sameWidth : ∀ key v, t.lookup key = some v → key.length = width) (enough : 2 * width + 1 < fuel) :
    BestWalksExtreme resolveHash fuel t := by
  have left := Trie.bestKeyAndValue_spec resolveHash fuel leftOrder_complete leftOrder_sorted inv width sameWidth
    enough
  have right := Trie.bestKeyAndValue_spec resolveHash fuel rightOrder_complete rightOrder_sorted inv width sameWidth
    enough
  refine ⟨fun nothing => ⟨left.1 nothing, right.1 nothing⟩, fun key v found => ⟨?_, ?_⟩⟩
  · obtain ⟨least, vl, ran, held, first⟩ := left.2 key v found
    refine ⟨least, vl, ran, held, fun key' v' found' => ?_⟩
    rcases first key' v' found' with same | earlier
    · exact .inl same
    · exact .inr (lt_of_keybytesToHex_lt ((sameWidth least vl held).trans (sameWidth key' v' found').symm) earlier)
  · obtain ⟨greatest, vg, ran, held, first⟩ := right.2 key v found
    refine ⟨greatest, vg, ran, held, fun key' v' found' => ?_⟩
    rcases first key' v' found' with same | later
    · exact .inl same
    · have widths := (sameWidth greatest vg held).trans (sameWidth key' v' found').symm
      have hexWidths : (keybytesToHex greatest).length = (keybytesToHex key').length := by
        rw [length_keybytesToHex, length_keybytesToHex, widths]
      exact .inr (lt_of_keybytesToHex_lt widths.symm (lt_of_lex_gt hexWidths later))

end Best

/-- After any sequence of `TryUpdate` and `TryDelete` from the empty trie with keys of one
byte length `width`, and fuel above the `2 * width + 1` nibbles of their hex keys, every
call succeeds, the trie holds the map the calls make, and its left and right walks
return the least and the greatest key present with their values, or the empty key and
no value when nothing is present. -/
theorem best_walks_find_extreme_keys (resolveHash : List UInt8 → List Nibble → UInt16 → Except TrieError Node)
    (ops : List Op) (width extra : Nat) (sameWidth : ∀ op ∈ ops, op.key.length = width) :
    ∃ t, Trie.empty.applyAll resolveHash (2 * width + 2 + extra) ops = .ok t ∧
      t.lookup = ops.foldl Op.applyMap (fun _ => none) ∧
      BestWalksExtreme resolveHash (2 * width + 2 + extra) t := by
  obtain ⟨t, ran, inv, map⟩ := Trie.applyAll_spec resolveHash (2 * width + 2 + extra) Trie.empty ops empty_inv
    fun op listed => by rw [sameWidth op listed]; omega
  have emptyMap : Trie.empty.lookup = fun _ => none := funext empty_lookup
  rw [emptyMap] at map
  refine ⟨t, ran, map, inv.bestWalksExtreme resolveHash _ width (fun key v held => ?_) (by omega)⟩
  -- a key present is the key of a call
  rw [map] at held
  rcases key_of_applyMap ops _ key (by rw [held]; exact nofun) with before | ⟨op, listed, same⟩
  · exact absurd rfl before
  · rw [← same, sameWidth op listed]

/-- The trie of TomoX's test: three keys of two bytes, the greatest one deleted again. -/
theorem best_walks_after_delete :
    (∀ op ∈ [Op.update [5, 1] [7], .update [3, 9] [8], .update [5, 0] [9], .delete [5, 1]], op.key.length = 2) ∧
    ∃ t, Trie.empty.applyAll (fun _ _ _ => .error .invalidNode) (2 * 2 + 2 + 0)
        [.update [5, 1] [7], .update [3, 9] [8], .update [5, 0] [9], .delete [5, 1]] = .ok t ∧
      t.lookup = [Op.update [5, 1] [7], .update [3, 9] [8], .update [5, 0] [9], .delete [5, 1]].foldl Op.applyMap
        (fun _ => none) ∧
      BestWalksExtreme (fun _ _ _ => .error .invalidNode) (2 * 2 + 2 + 0) t :=
  ⟨by decide, best_walks_find_extreme_keys _ _ 2 0 (by decide)⟩

end TomoChain.Mpt
