/-
# Growing chains

A chain of named elements grows at its end: every new element carries the name of the one that
was last before it.  `Grown` says this of a whole chain that started with a given element, with a
property that every later element has; `Grown.concat` is one growth step.
-/
import Mathlib.Data.List.Chain

namespace GrowingChain

variable {K B : Type*} {name link : B → K} {first : B} {P Q : B → Prop} {chain : List B}

/-- The chain starts with `first`, every later element is linked to the one before it, and has
the property. -/
structure Grown (name link : B → K) (first : B) (P : B → Prop) (chain : List B) : Prop where
  head : chain.head? = some first
  linked : chain.IsChain fun a b => link b = name a
  later : ∀ b ∈ chain.tail, P b

theorem grown_singleton (first : B) : Grown name link first P [first] where
  head := rfl
  linked := List.isChain_singleton first
  later := fun _ h => by cases h

namespace Grown

theorem ne_nil (h : Grown name link first P chain) : chain ≠ [] := by
  rintro rfl
  cases h.head

theorem eq_cons_tail (h : Grown name link first P chain) : chain = first :: chain.tail :=
  (List.cons_head?_tail h.head).symm

/-- There is always a last element. -/
theorem exists_getLast (h : Grown name link first P chain) :
    ∃ last ∈ chain, chain.getLast? = some last :=
  ⟨chain.getLast h.ne_nil, List.getLast_mem h.ne_nil, List.getLast?_eq_some_getLast h.ne_nil⟩

theorem mem_cases (h : Grown name link first P chain) {b : B} (hb : b ∈ chain) :
    b = first ∨ P b := by
  rw [h.eq_cons_tail] at hb
  rcases List.mem_cons.mp hb with rfl | hb
  · exact .inl rfl
  · exact .inr (h.later b hb)

theorem mono (h : Grown name link first P chain) (hPQ : ∀ b, P b → Q b) :
    Grown name link first Q chain :=
  ⟨h.head, h.linked, fun b hb => hPQ b (h.later b hb)⟩

/-- **One step of growth.** -/
theorem concat (h : Grown name link first P chain) {last b : B}
    (hlast : chain.getLast? = some last) (hlink : link b = name last) (hb : P b) :
    Grown name link first P (chain ++ [b]) where
  head := by rw [List.head?_append, h.head]; rfl
  linked := by
    refine h.linked.append (List.isChain_singleton b) ?_
    intro x hx y hy
    obtain rfl : last = x := Option.some.inj (hlast.symm.trans hx)
    obtain rfl : b = y := Option.some.inj hy
    exact hlink
  later := by
    intro x hx
    rw [List.tail_append_of_ne_nil h.ne_nil] at hx
    rcases List.mem_append.mp hx with hx | hx
    · exact h.later x hx
    · rw [List.mem_singleton.mp hx]
      exact hb

end Grown

end GrowingChain
