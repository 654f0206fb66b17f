/-
# Runs without the refused actions

A machine whose steps may fail, and a failure ends the run.  Some actions are refused: whether
one is depends on the state that it meets.

If a refused action leaves the state, then a run without all of them ends as before, and every
other action is taken, or fails, as before (`run_withoutRefused`).  What `withoutRefused` leaves
is what was taken without a refusal and what was not reached (`withoutRefused_eq_append`).
-/
import Mathlib.Data.List.Basic

namespace FailingRuns

variable {S A F : Type*}

/-- How a run ends: the last state, the action that failed if one did, and before it the actions
that were taken, each with whether it was refused. -/
structure Ending (S A F : Type*) where
  state : S
  failed : Option (A × F)
  taken : List (A × Bool)

/-- The actions that were taken and not refused. -/
def Ending.accepted (ending : Ending S A F) : List (A × Bool) :=
  ending.taken.filter (fun v => !v.2)

variable (step : A → S → Except F S) (refuses : S → A → Bool)

/-- Take the actions one after the other, up to the first failure. -/
def run : List A → S → Ending S A F
  | [], s => ⟨s, none, []⟩
  | a :: as, s =>
    match step a s with
    | .error failure => ⟨s, some (a, failure), []⟩
    | .ok t =>
      let ending := run as t
      { ending with taken := (a, refuses s a) :: ending.taken }

/-- Delete the actions that are refused when they are taken. -/
def withoutRefused : List A → S → List A
  | [], _ => []
  | a :: as, s =>
    match step a s with
    | .error _ => a :: as
    | .ok t => if refuses s a then withoutRefused as t else a :: withoutRefused as t

variable {step refuses}

theorem run_cons_error {a : A} {s : S} {failure : F} (h : step a s = .error failure)
    (as : List A) : run step refuses (a :: as) s = ⟨s, some (a, failure), []⟩ := by
  rw [run, h]

theorem run_cons_ok {a : A} {s t : S} (h : step a s = .ok t) (as : List A) :
    run step refuses (a :: as) s = { run step refuses as t with
      taken := (a, refuses s a) :: (run step refuses as t).taken } := by
  rw [run, h]

theorem withoutRefused_cons_error {a : A} {s : S} {failure : F}
    (h : step a s = .error failure) (as : List A) :
    withoutRefused step refuses (a :: as) s = a :: as := by
  rw [withoutRefused, h]

theorem withoutRefused_cons_ok {a : A} {s t : S} (h : step a s = .ok t) (as : List A) :
    withoutRefused step refuses (a :: as) s
      = if refuses s a then withoutRefused step refuses as t
        else a :: withoutRefused step refuses as t := by
  rw [withoutRefused, h]

/-- What is left is what was accepted, and behind it what was not reached. -/
theorem withoutRefused_eq_append (as : List A) (s : S) :
    withoutRefused step refuses as s
      = (run step refuses as s).accepted.map Prod.fst
        ++ as.drop (run step refuses as s).taken.length := by
  induction as generalizing s with
  | nil => rfl
  | cons a as ih =>
      cases h : step a s with
      | error failure =>
          rw [withoutRefused_cons_error h, run_cons_error h]
          rfl
      | ok t =>
          rw [withoutRefused_cons_ok h, run_cons_ok h, ih t]
          cases hrefuses : refuses s a with
          | false => rfl
          | true => rfl

/-- **Deleting the refused actions.**  The run ends in the same state and with the same failure,
and the actions it takes are those that were accepted before, all of them accepted again. -/
theorem run_withoutRefused {I : S → Prop} (hkeep : ∀ s a t, I s → step a s = .ok t → I t)
    (hidle : ∀ s a, I s → refuses s a = true → step a s = .ok s) {s : S} (hs : I s)
    (as : List A) :
    run step refuses (withoutRefused step refuses as s) s
      = { run step refuses as s with taken := (run step refuses as s).accepted } := by
  induction as generalizing s with
  | nil => rfl
  | cons a as ih =>
      cases h : step a s with
      | error failure =>
          rw [withoutRefused_cons_error h, run_cons_error h]
          rfl
      | ok t =>
          have hrest := ih (hkeep s a t hs h)
          rw [withoutRefused_cons_ok h, run_cons_ok h]
          cases hrefuses : refuses s a with
          | false =>
              -- the action is taken in both runs
              rw [if_neg Bool.false_ne_true, run_cons_ok h, hrest, hrefuses]
              rfl
          | true =>
              -- the action is deleted, and it has not changed the state
              obtain rfl : s = t := Except.ok.inj ((hidle s a hs hrefuses).symm.trans h)
              rw [if_pos rfl, hrest]
              rfl

end FailingRuns
