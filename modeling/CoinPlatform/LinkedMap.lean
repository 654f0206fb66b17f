/-
# Linked maps

A map from keys to nodes in which every node names the key of its parent, and one node is
the root.  `Linked` says that the root is reached from a key along parents that are all in
the map.

The rule for insertion is `Linked.insert`: a node that is put under a key, new or not, keeps
everything linked if the way from its parent to the root avoids that key.
-/
import Mathlib.Order.Basic

namespace LinkedMap

variable {K V : Type*} (parent : V → K) (root : V)

/-- The root is reached from the key along parents in the map. -/
inductive Linked (M : K → V → Prop) : K → Prop
  | root {k} (h : M k root) : Linked M k
  | link {k v} (h : M k v) (hparent : Linked M (parent v)) : Linked M k

/-- The map without a key. -/
def Avoiding (M : K → V → Prop) (x : K) : K → V → Prop := fun k v => k ≠ x ∧ M k v

variable {parent root} {M M' : K → V → Prop}

theorem Linked.mono (hM : ∀ k v, M k v → M' k v) {k : K} (h : Linked parent root M k) :
    Linked parent root M' k := by
  induction h with
  | root h => exact .root (hM _ _ h)
  | link h _ ih => exact .link (hM _ _ h) ih

/-- A key from which the root is reached is in the map. -/
theorem Linked.exists_node {k : K} (h : Linked parent root M k) : ∃ v, M k v := by
  cases h with
  | root h => exact ⟨root, h⟩
  | link h _ => exact ⟨_, h⟩

/-- From a node other than the root one goes on to its parent. -/
theorem Linked.parent_linked (hfun : ∀ k v v', M k v → M k v' → v = v') {k : K} {v : V}
    (h : Linked parent root M k) (hv : M k v) (hne : v ≠ root) :
    Linked parent root M (parent v) := by
  cases h with
  | root h => exact absurd (hfun k v root hv h) hne
  | link h hparent =>
      obtain rfl := hfun k _ v h hv
      exact hparent

/-- No node but the root is its own parent. -/
theorem Linked.parent_ne (hfun : ∀ k v v', M k v → M k v' → v = v') {k : K} {v : V}
    (h : Linked parent root M k) (hv : M k v) (hne : v ≠ root) : parent v ≠ k := by
  induction h with
  | root h => exact absurd (hfun _ v root hv h) hne
  | link h hparent ih =>
      obtain rfl := hfun _ _ v h hv
      intro hself
      rw [hself] at ih
      exact ih hv rfl

/-- **Insertion.**  The new map has `x` at its key and is the old one elsewhere; from the
parent of `x` the root is reached without that key, or `x` is the root. -/
theorem Linked.insert {x : V} {kx : K} (hx : M' kx x)
    (hM : ∀ k v, k ≠ kx → M k v → M' k v)
    (hway : x = root ∨ Linked parent root (Avoiding M kx) (parent x)) {k : K}
    (h : Linked parent root M k) : Linked parent root M' k := by
  have hnew : Linked parent root M' kx := by
    rcases hway with rfl | hway
    · exact .root hx
    · exact .link hx (hway.mono fun k v hkv => hM k v hkv.1 hkv.2)
  -- the old way from the key is followed until it meets the new node
  induction h with
  | @root k h =>
      by_cases hk : k = kx
      · rw [hk]
        exact hnew
      · exact .root (hM k root hk h)
  | @link k v h _ ih =>
      by_cases hk : k = kx
      · rw [hk]
        exact hnew
      · exact .link (hM k v hk h) ih

end LinkedMap
