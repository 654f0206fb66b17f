/-
# Simulations between labelled machines

One machine is simulated by another one when each of its steps is matched by a run of the other
one that keeps two states related.  Which runs may match an action is a relation `T` between
actions and lists of actions, so that what both machines record can be compared afterwards.

* `Simulated.run`: then every run is matched by a run.
* `flatMap_flatten_of_forall₂`: what is collected from the actions is the same on both sides when
  it is the same for each action and its match.
* `Projected`, `Projected.run`: the special case of a translation of the actions.
-/
import Mathlib.Data.List.Forall2
import CoinPlatform.Transition

namespace Simulation

open Transition

variable {S A S' A' : Type*} {step : A → S → Option S} {step' : A' → S' → Option S'}
  {C : S → A → Prop} {C' : S' → A' → Prop} {R : S → S' → Prop} {T : A → List A' → Prop}

/-- Every conforming step is matched by a conforming run of the other machine. -/
def Simulated (step : A → S → Option S) (step' : A' → S' → Option S') (C : S → A → Prop)
    (C' : S' → A' → Prop) (R : S → S' → Prop) (T : A → List A' → Prop) : Prop :=
  ∀ s a t s', R s s' → C s a → step a s = some t →
    ∃ as' t', T a as' ∧ run step' as' s' = some t' ∧ Along step' C' as' s' ∧ R t t'

/-- **Every conforming run is matched by a conforming run.** -/
theorem Simulated.run (h : Simulated step step' C C' R T) {as : List A} {s t : S} {s' : S'}
    (hrun : run step as s = some t) (halong : Along step C as s) (hR : R s s') :
    ∃ ass t', List.Forall₂ T as ass ∧ Transition.run step' ass.flatten s' = some t' ∧
      Along step' C' ass.flatten s' ∧ R t t' := by
  induction as generalizing s s' with
  | nil =>
      obtain rfl : s = t := Option.some.inj hrun
      exact ⟨[], s', .nil, rfl, trivial, hR⟩
  | cons a as ih =>
      obtain ⟨m, hm, hrest⟩ := Option.bind_eq_some_iff.mp hrun
      obtain ⟨as', m', hT, hrun', halong', hR'⟩ := h s a m s' hR halong.1 hm
      obtain ⟨ass, t', hmatch, hrest', halongs, hend⟩ := ih hrest (halong.2 m hm) hR'
      refine ⟨as' :: ass, t', .cons hT hmatch, ?_, ?_, hend⟩
      · rw [List.flatten_cons, run_append, hrun', Option.bind_some]
        exact hrest'
      · rw [List.flatten_cons]
        exact halong'.append hrun' halongs

/-- What is collected from matching actions is the same. -/
theorem flatMap_flatten_of_forall₂ {β : Type*} {f : A → List β} {g : A' → List β}
    (hT : ∀ a as', T a as' → as'.flatMap g = f a) {as : List A} {ass : List (List A')}
    (h : List.Forall₂ T as ass) : ass.flatten.flatMap g = as.flatMap f := by
  induction h with
  | nil => rfl
  | cons ha _ ih => rw [List.flatten_cons, List.flatMap_append, List.flatMap_cons, hT _ _ ha, ih]

/-! ## Translations -/

/-- Every conforming step is matched by the run that its action is translated to. -/
def Projected (step : A → S → Option S) (step' : A' → S' → Option S') (C : S → A → Prop)
    (C' : S' → A' → Prop) (R : S → S' → Prop) (f : A → List A') : Prop :=
  ∀ s a t s', R s s' → C s a → step a s = some t →
    ∃ t', run step' (f a) s' = some t' ∧ Along step' C' (f a) s' ∧ R t t'

/-- **Every conforming run is matched by its translation.** -/
theorem Projected.run {f : A → List A'} (h : Projected step step' C C' R f) {as : List A}
    {s t : S} {s' : S'} (hrun : run step as s = some t) (halong : Along step C as s)
    (hR : R s s') :
    ∃ t', Transition.run step' (as.flatMap f) s' = some t' ∧
      Along step' C' (as.flatMap f) s' ∧ R t t' := by
  have hsim : Simulated step step' C C' R (fun a as' => as' = f a) := by
    intro s a t s' hR hC hstep
    obtain ⟨t', hrun', halong', hR'⟩ := h s a t s' hR hC hstep
    exact ⟨f a, t', rfl, hrun', halong', hR'⟩
  obtain ⟨ass, t', hmatch, hrun', halong', hR'⟩ := hsim.run hrun halong hR
  have hass : ass.flatten = as.flatMap f := by
    rw [List.forall₂_iff_get] at hmatch
    have hmap : ass = as.map f := by
      apply List.ext_get (by rw [List.length_map, hmatch.1])
      intro n hn hn'
      rw [List.length_map] at hn'
      simpa using hmatch.2 n hn' hn
    rw [hmap]
    rfl
  rw [hass] at hrun' halong'
  exact ⟨t', hrun', halong', hR'⟩

end Simulation
