/-
# Maps with a latest entry

Values are put into a map under their own keys, and the value that was put in last is the
latest one.  `entries_ofList` and `latest_ofList` say what the map of a list of values holds:
under each key the last value with that key, and as the latest value the last one of all.
-/
import Mathlib.Data.List.Induction
import Mathlib.Logic.Function.Basic

/-- A map with a latest entry. -/
structure LatestMap (K V : Type*) where
  entries : K → Option V
  latest : Option V

namespace LatestMap

variable {K V : Type*} [DecidableEq K]

/-- The map without entries. -/
def empty : LatestMap K V := ⟨fun _ => none, none⟩

variable (key : V → K)

/-- Put a value under its key. -/
def insert (m : LatestMap K V) (v : V) : LatestMap K V where
  entries := Function.update m.entries (key v) (some v)
  latest := some v

@[simp] theorem entries_insert_self (m : LatestMap K V) (v : V) :
    (m.insert key v).entries (key v) = some v :=
  Function.update_self ..

theorem entries_insert_of_ne (m : LatestMap K V) {v : V} {k : K} (hk : k ≠ key v) :
    (m.insert key v).entries k = m.entries k :=
  Function.update_of_ne hk ..

/-- Put the values in one after the other. -/
def ofList (vs : List V) : LatestMap K V := vs.foldl (insert key) empty

theorem ofList_append_singleton (vs : List V) (v : V) :
    ofList key (vs ++ [v]) = (ofList key vs).insert key v := by
  rw [ofList, List.foldl_append]
  rfl

/-- Under each key is the last value with that key. -/
theorem entries_ofList (vs : List V) (k : K) :
    (ofList key vs).entries k = vs.reverse.find? (fun v => decide (key v = k)) := by
  induction vs using List.reverseRecOn with
  | nil => rfl
  | append_singleton vs v ih =>
      rw [ofList_append_singleton, List.reverse_append, List.reverse_singleton,
        List.singleton_append, List.find?_cons]
      by_cases hk : key v = k
      · subst hk
        simp
      · rw [entries_insert_of_ne key _ (Ne.symm hk), ih]
        simp [hk]

/-- The latest value is the last one. -/
theorem latest_ofList (vs : List V) : (ofList key vs).latest = vs.getLast? := by
  induction vs using List.reverseRecOn with
  | nil => rfl
  | append_singleton vs v _ =>
      rw [ofList_append_singleton, List.getLast?_append]
      rfl

end LatestMap
