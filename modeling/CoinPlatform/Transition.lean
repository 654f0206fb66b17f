/-
# Runs of a labelled machine

A machine takes one action at a time: `step a s` is the state after the action `a`
in `s`, and `none` when the action is not possible there.  `run` takes a list of
actions.  `Along step C` says of a run that every one of its steps meets the
condition `C` on the state before the step and the action.

The induction over runs is done once here: `run_history` carries a predicate of the
actions taken so far and the state, `run_invariant` one of the state alone, and
`Along.of_invariant` turns a law of single steps into a law of the run.

Where the state is made of objects that are created one after the other and changed one at a
time, they are kept by number, `none` where no object has been created, and a change is a
`Function.update`.  What an invariant needs of an object is often a part of it, its face: changes
that leave the faces leave what is said in terms of them (`Slots`).
-/
import Mathlib.Data.List.Basic
import Mathlib.Logic.Function.Basic

namespace Transition

variable {S A : Type*} (step : A → S → Option S)

/-- Take the actions one after the other. -/
def run : List A → S → Option S
  | [], s => some s
  | a :: as, s => (step a s).bind (run as)

/-- Every step of the run meets the condition. -/
def Along (C : S → A → Prop) : List A → S → Prop
  | [], _ => True
  | a :: as, s => C s a ∧ ∀ t, step a s = some t → Along C as t

@[simp] theorem run_nil (s : S) : run step [] s = some s := rfl

theorem run_cons (a : A) (as : List A) (s : S) :
    run step (a :: as) s = (step a s).bind (run step as) := rfl

/-- A run of two lists is a run of the first followed by a run of the second. -/
theorem run_append (as bs : List A) (s : S) :
    run step (as ++ bs) s = (run step as s).bind (run step bs) := by
  induction as generalizing s with
  | nil => rfl
  | cons a as ih =>
      rw [List.cons_append, run_cons, run_cons, Option.bind_assoc]
      congr 1
      funext t
      exact ih t

variable {step}

/-- **Induction over a run, with its history.**  A predicate of the past actions and
the state that every conforming step extends holds at the end of a conforming run. -/
theorem run_history {C : S → A → Prop} {I : List A → S → Prop} (past : List A)
    (hstep : ∀ past s a t, I past s → C s a → step a s = some t → I (past ++ [a]) t)
    {as : List A} {s t : S} (hrun : run step as s = some t)
    (halong : Along step C as s) (h : I past s) : I (past ++ as) t := by
  induction as generalizing past s with
  | nil =>
      obtain rfl : s = t := Option.some.inj hrun
      simpa using h
  | cons a as ih =>
      obtain ⟨m, hm, hrest⟩ := Option.bind_eq_some_iff.mp hrun
      obtain ⟨hC, hnext⟩ := halong
      have hinv := ih (past ++ [a]) hrest (hnext m hm) (hstep past s a m h hC hm)
      rwa [List.append_assoc] at hinv

/-- **Induction over a run.** -/
theorem run_invariant {C : S → A → Prop} {I : S → Prop}
    (hstep : ∀ s a t, I s → C s a → step a s = some t → I t)
    {as : List A} {s t : S} (hrun : run step as s = some t)
    (halong : Along step C as s) (h : I s) : I t :=
  run_history (I := fun _ s => I s) [] (fun _ s a t hs hC ht => hstep s a t hs hC ht) hrun halong h

/-- A condition that holds of every step holds along every run. -/
theorem along_of_forall {C : S → A → Prop} (h : ∀ s a, C s a) (as : List A) (s : S) :
    Along step C as s := by
  induction as generalizing s with
  | nil => trivial
  | cons a as ih => exact ⟨h s a, fun t _ => ih t⟩

/-- **A law of the steps.**  What every conforming step from a state of the invariant obeys is
obeyed along the whole conforming run. -/
theorem Along.of_invariant {C D : S → A → Prop} {I : S → Prop}
    (hlaw : ∀ s a, I s → C s a → D s a)
    (hstep : ∀ s a t, I s → C s a → step a s = some t → I t) {as : List A} {s : S}
    (halong : Along step C as s) (h : I s) : Along step D as s := by
  induction as generalizing s with
  | nil => trivial
  | cons a as ih =>
      obtain ⟨hC, hnext⟩ := halong
      exact ⟨hlaw s a h hC, fun t ht => ih (hnext t ht) (hstep s a t h hC ht)⟩

/-- A weaker condition. -/
theorem Along.mono {C D : S → A → Prop} {as : List A} {s : S} (h : Along step C as s)
    (hCD : ∀ s a, C s a → D s a) : Along step D as s :=
  Along.of_invariant (I := fun _ => True) (fun s a _ hC => hCD s a hC)
    (fun _ _ _ _ _ _ => trivial) h trivial

/-- Two conditions at once. -/
theorem Along.and {C D : S → A → Prop} {as : List A} {s : S} (h : Along step C as s)
    (h' : Along step D as s) : Along step (fun s a => C s a ∧ D s a) as s := by
  induction as generalizing s with
  | nil => trivial
  | cons a as ih => exact ⟨⟨h.1, h'.1⟩, fun t ht => ih (h.2 t ht) (h'.2 t ht)⟩

/-- Conditions that agree on every step agree along every run. -/
theorem along_congr {C D : S → A → Prop} (h : ∀ s a, C s a ↔ D s a) (as : List A) (s : S) :
    Along step C as s ↔ Along step D as s := by
  induction as generalizing s with
  | nil => rfl
  | cons a as ih => exact and_congr (h s a) (forall₂_congr fun t _ => ih t)

/-- What holds along two runs, the second one from where the first one ends, holds along both. -/
theorem Along.append {C : S → A → Prop} {as bs : List A} {s t : S} (h : Along step C as s)
    (hrun : run step as s = some t) (h' : Along step C bs t) : Along step C (as ++ bs) s := by
  induction as generalizing s with
  | nil =>
      obtain rfl : s = t := Option.some.inj hrun
      exact h'
  | cons a as ih =>
      refine ⟨h.1, fun m hm => ih (h.2 m hm) ?_⟩
      rw [run_cons, hm, Option.bind_some] at hrun
      exact hrun

/-- What holds along a run holds along every beginning of it. -/
theorem Along.of_append_left {C : S → A → Prop} {as bs : List A} {s : S}
    (h : Along step C (as ++ bs) s) : Along step C as s := by
  induction as generalizing s with
  | nil => trivial
  | cons a as ih => exact ⟨h.1, fun t ht => ih (h.2 t ht)⟩

/-- **An exact condition on the steps.**  Where a step from a state of the invariant keeps the
invariant exactly when it meets the condition, the law `P` that the invariant implies and a
violating step breaks holds in every state of a run exactly when every step meets the
condition. -/
theorem forall_states_iff_along {C : S → A → Prop} {I P : S → Prop} (hlaw : ∀ s, I s → P s)
    (hkeep : ∀ s a t, I s → C s a → step a s = some t → I t)
    (hexact : ∀ s a t, I s → step a s = some t → P t → C s a) {as : List A} {s t : S}
    (hrun : run step as s = some t) (h : I s) :
    (∀ past, past <+: as → ∀ u, run step past s = some u → P u) ↔ Along step C as s := by
  constructor
  · intro hall
    induction as generalizing s with
    | nil => trivial
    | cons a as ih =>
        obtain ⟨m, hm, hrest⟩ := Option.bind_eq_some_iff.mp hrun
        have hrun' : ∀ past, run step (a :: past) s = run step past m := by
          intro past
          rw [run_cons, hm, Option.bind_some]
        have hC : C s a := by
          apply hexact s a m h hm
          exact hall [a] (List.prefix_iff_eq_take.mpr rfl) m (hrun' [])
        refine ⟨hC, fun t' ht' => ?_⟩
        obtain rfl : m = t' := Option.some.inj (hm.symm.trans ht')
        refine ih hrest (hkeep s a m h hC hm) (fun past hpast u hu => ?_)
        exact hall (a :: past) (List.cons_prefix_cons.mpr ⟨rfl, hpast⟩) u ((hrun' past).trans hu)
  · rintro halong past ⟨rest, rfl⟩ u hu
    exact hlaw u (run_invariant hkeep hu halong.of_append_left h)

/-- What holds along a run holds along every end of it. -/
theorem Along.of_append {C : S → A → Prop} {as bs : List A} {s t : S}
    (h : Along step C (as ++ bs) s) (hrun : run step as s = some t) : Along step C bs t := by
  induction as generalizing s with
  | nil =>
      obtain rfl : s = t := Option.some.inj hrun
      exact h
  | cons a as ih =>
      obtain ⟨m, hm, hrest⟩ := Option.bind_eq_some_iff.mp hrun
      exact ih (h.2 m hm) hrest

/-- The last step of a run, from the state before it. -/
theorem step_of_run_append {as : List A} {a : A} {s m t : S} (hrun : run step as s = some m)
    (h : run step (as ++ [a]) s = some t) : step a m = some t := by
  rw [run_append, hrun, Option.bind_some, run_cons] at h
  obtain ⟨u, hu, hend⟩ := Option.bind_eq_some_iff.mp h
  obtain rfl : u = t := Option.some.inj hend
  exact hu

/-- One more step. -/
theorem run_concat {as : List A} {a : A} {s m t : S} (hrun : run step as s = some m)
    (h : step a m = some t) : run step (as ++ [a]) s = some t := by
  rw [run_append, hrun, Option.bind_some, run_cons, h]
  rfl

/-- The machine with a record that is kept beside it: `next a s t` is what the step from `s` to
`t` does to the record. -/
def recording {R : Type*} (step : A → S → Option S) (next : A → S → S → R → R) (a : A)
    (x : S × R) : Option (S × R) :=
  (step a x.1).map fun t => (t, next a x.1 t x.2)

/-- Every run can be recorded. -/
theorem exists_run_recording {R : Type*} {next : A → S → S → R → R} {as : List A} {s t : S}
    (hrun : run step as s = some t) (r : R) :
    ∃ r', run (recording step next) as (s, r) = some (t, r') := by
  induction as generalizing s r with
  | nil =>
      obtain rfl : s = t := Option.some.inj hrun
      exact ⟨r, rfl⟩
  | cons a as ih =>
      obtain ⟨m, hm, hrest⟩ := Option.bind_eq_some_iff.mp hrun
      obtain ⟨r', hr'⟩ := ih hrest (next a s m r)
      refine ⟨r', ?_⟩
      rw [run_cons, recording, hm, Option.map_some, Option.bind_some]
      exact hr'

/-- A condition on the steps is one on the recorded steps. -/
theorem Along.recording {R : Type*} {next : A → S → S → R → R} {C : S → A → Prop} {as : List A}
    {s : S} (h : Along step C as s) (r : R) :
    Along (Transition.recording step next) (fun x a => C x.1 a) as (s, r) := by
  induction as generalizing s r with
  | nil => trivial
  | cons a as ih =>
      refine ⟨h.1, fun y hy => ?_⟩
      obtain ⟨m, hm, rfl⟩ := Option.map_eq_some_iff.mp hy
      exact ih (h.2 m hm) _

/-- On a concrete run the condition can be computed. -/
instance decidableAlong {C : S → A → Prop} [∀ s a, Decidable (C s a)] :
    ∀ (as : List A) (s : S), Decidable (Along step C as s)
  | [], _ => isTrue trivial
  | a :: as, s =>
    match hstep : step a s with
    | none => decidable_of_iff (C s a) (by simp [Along, hstep])
    | some t =>
      have : Decidable (Along step C as t) := decidableAlong as t
      decidable_of_iff (C s a ∧ Along step C as t) (by simp [Along, hstep])

end Transition

/-! ## Numbered objects -/

namespace Slots

variable {ι α β : Type*} {f g : ι → Option α} {i j : ι} {a b : α}

/-- Objects with the same faces are found under the same numbers. -/
theorem exists_of_face {face : α → β} (hface : ∀ i, (g i).map face = (f i).map face)
    (h : g i = some a) : ∃ b, f i = some b ∧ face b = face a := by
  have hi := hface i
  rw [h, Option.map_some] at hi
  exact Option.map_eq_some_iff.mp hi.symm

variable [DecidableEq ι]

/-- An object is the one that was changed, or is as before. -/
theorem eq_or_of_update (h : Function.update f i (some a) j = some b) :
    (j = i ∧ b = a) ∨ (j ≠ i ∧ f j = some b) := by
  by_cases hji : j = i
  · subst hji
    rw [Function.update_self] at h
    exact .inl ⟨rfl, (Option.some.inj h).symm⟩
  · rw [Function.update_of_ne hji] at h
    exact .inr ⟨hji, h⟩

/-- No object is created elsewhere. -/
theorem ne_of_update_eq_none (h : Function.update f i (some a) j = none) :
    j ≠ i ∧ f j = none := by
  by_cases hji : j = i
  · subst hji
    rw [Function.update_self] at h
    cases h
  · rw [Function.update_of_ne hji] at h
    exact ⟨hji, h⟩

/-- A change that leaves the face of the object leaves all faces. -/
theorem face_update {face : α → β} (h : f i = some a) (hface : face b = face a) (j : ι) :
    (Function.update f i (some b) j).map face = (f j).map face := by
  by_cases hji : j = i
  · subst hji
    rw [Function.update_self, h, Option.map_some, Option.map_some, hface]
  · rw [Function.update_of_ne hji]

end Slots
