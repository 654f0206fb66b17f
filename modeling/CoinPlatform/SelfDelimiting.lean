/-
# Encodings that show where they end

A sequence of fields is written one behind the other, with nothing in between.  It can be
taken apart again when each field shows where it ends: an encoding is *self-delimiting*
on a set of values when the codes of two of them, each followed by anything, are equal
only if the values are equal, and then what follows is equal too.

Three ways to come by such an encoding are enough for most formats: all codes have the
same width (`of_length`), the code stands behind its length (`sized`), and a list stands
behind the number of its elements (`counted`).
-/
import Mathlib.Data.Set.Function
import Mathlib.Data.Vector.Basic

variable {α β : Type*}

/-- The codes of the values in `s` show where they end. -/
def SelfDelimitingOn (s : Set α) (enc : α → List β) : Prop :=
  ∀ ⦃a⦄, a ∈ s → ∀ ⦃b⦄, b ∈ s → ∀ ⦃r r' : List β⦄,
    enc a ++ r = enc b ++ r' → a = b ∧ r = r'

namespace SelfDelimitingOn

variable {s : Set α} {t : Set ℕ} {enc : α → List β} {size : ℕ → List β}

/-- Codes of one width show where they end. -/
theorem of_length {n : ℕ} (hlen : ∀ a ∈ s, (enc a).length = n) (hinj : Set.InjOn enc s) :
    SelfDelimitingOn s enc := by
  intro a ha b hb r r' h
  obtain ⟨hab, hr⟩ := List.append_inj h (by rw [hlen a ha, hlen b hb])
  exact ⟨hinj ha hb hab, hr⟩

/-- A code behind its length shows where it ends, if the lengths do. -/
theorem sized (hsize : SelfDelimitingOn t size) (hinj : Set.InjOn enc s)
    (hlen : ∀ a ∈ s, (enc a).length ∈ t) :
    SelfDelimitingOn s (fun a => size (enc a).length ++ enc a) := by
  intro a ha b hb r r' h
  simp only [List.append_assoc] at h
  obtain ⟨hn, hrest⟩ := hsize (hlen a ha) (hlen b hb) h
  obtain ⟨hab, hr⟩ := List.append_inj hrest hn
  exact ⟨hinj ha hb hab, hr⟩

/-- Lists of one length, their elements one behind the other. -/
theorem flatMap (h : SelfDelimitingOn s enc) (n : ℕ) :
    SelfDelimitingOn {l : List α | l.length = n ∧ ∀ a ∈ l, a ∈ s} (List.flatMap enc) := by
  induction n with
  | zero =>
      intro l hl l' hl' r r' heq
      obtain rfl := List.length_eq_zero_iff.mp hl.1
      obtain rfl := List.length_eq_zero_iff.mp hl'.1
      exact ⟨rfl, heq⟩
  | succ n ih =>
      intro l hl l' hl' r r' heq
      obtain ⟨a, l, rfl⟩ := List.exists_cons_of_length_eq_add_one hl.1
      obtain ⟨b, l', rfl⟩ := List.exists_cons_of_length_eq_add_one hl'.1
      simp only [List.flatMap_cons, List.append_assoc] at heq
      obtain ⟨hn, hs⟩ := hl
      obtain ⟨hn', hs'⟩ := hl'
      rw [List.forall_mem_cons] at hs hs'
      rw [List.length_cons, Nat.add_right_cancel_iff] at hn hn'
      -- the heads first, then the tails
      obtain ⟨rfl, hrest⟩ := h hs.1 hs'.1 heq
      obtain ⟨rfl, hr⟩ := ih ⟨hn, hs.2⟩ ⟨hn', hs'.2⟩ hrest
      exact ⟨rfl, hr⟩

/-- A list behind the number of its elements. -/
theorem counted (hsize : SelfDelimitingOn t size) (h : SelfDelimitingOn s enc) :
    SelfDelimitingOn {l : List α | l.length ∈ t ∧ ∀ a ∈ l, a ∈ s}
      (fun l => size l.length ++ l.flatMap enc) := by
  intro l hl l' hl' r r' heq
  simp only [List.append_assoc] at heq
  obtain ⟨hn, hrest⟩ := hsize hl.1 hl'.1 heq
  exact h.flatMap l'.length ⟨hn, hl.2⟩ ⟨rfl, hl'.2⟩ hrest

/-- Arrays have the width of their type. -/
theorem toList (n : ℕ) :
    SelfDelimitingOn Set.univ (fun v : List.Vector β n => v.toList) := by
  apply of_length
  · exact fun v _ => v.toList_length
  · exact fun v _ w _ h => List.Vector.toList_injective h

end SelfDelimitingOn
