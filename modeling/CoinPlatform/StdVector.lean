/-
# Byte vectors with bounds that are checked in `size_t`

What a decoder written against `std::vector<uint8_t>` does with its input: it
compares an offset plus a length with the size of the vector, copies a range, and
resizes a vector to a length it has read.  The comparison is made in 64-bit
wrapping arithmetic (`sizeAdd`), the copy in the address space, so the two can
disagree; a copy that leaves the vector is the fault `outOfRange`, and a length
above `max_size()` makes the library throw `lengthError`.

`readArray` is the idiom "check, then copy a fixed number of bytes".  Its two
rules say that it reads a prefix of what is left (`drop_eq_of_readArray`) and
that it finds what was written there (`readArray_of_eq`).
-/
import Mathlib.Data.Vector.Basic
import CoinPlatform.ByteOrder

open ByteOrder

namespace StdVector

/-- How a call ends when it does not return: an exception of the standard library,
an access outside a vector, or a `std::runtime_error` with its text. -/
inductive Fault where
  | lengthError
  | outOfRange
  | runtimeError (what : String)
  deriving DecidableEq, Repr

/-- Sequencing succeeds exactly when both parts do. -/
theorem bind_eq_ok {ε α β : Type} {x : Except ε α} {f : α → Except ε β} {b : β} :
    x >>= f = .ok b ↔ ∃ a, x = .ok a ∧ f a = .ok b := by
  cases x <;> simp [bind, Except.bind]

theorem toOption_eq_some {ε α : Type} {x : Except ε α} {a : α} (h : x.toOption = some a) :
    x = .ok a := by
  cases x with
  | error fault => cases h
  | ok b => cases h; rfl

/-- `std::vector<uint8_t>::max_size()`. -/
def maxSize : ℕ := 2 ^ 63 - 1

/-- Addition of two `size_t`. -/
def sizeAdd (a b : ℕ) : ℕ := (a + b) % 2 ^ 64

theorem sizeAdd_of_lt {a b : ℕ} (h : a + b < 2 ^ 64) : sizeAdd a b = a + b :=
  Nat.mod_eq_of_lt h

/-- `resize(n)`, and the range constructor on a range of `n` bytes: both throw
`std::length_error` above `max_size()`. -/
def resize (n : ℕ) : Except Fault Unit :=
  if maxSize < n then .error .lengthError else .ok ()

theorem resize_of_le {n : ℕ} (h : n ≤ maxSize) : resize n = .ok () :=
  if_neg (Nat.not_lt.mpr h)

/-- The bytes `[first, first + n)` of `data`; the end is computed in the address
space, so nothing wraps here. -/
def copyRange (data : List UInt8) (first n : ℕ) : Except Fault (List UInt8) :=
  if first + n ≤ data.length then .ok ((data.drop first).take n) else .error .outOfRange

/-- The same range, as the contents of a `std::array<uint8_t, n>`. -/
def copyArray (data : List UInt8) (first n : ℕ) : Except Fault (List.Vector UInt8 n) :=
  if h : first + n ≤ data.length then
    .ok ⟨(data.drop first).take n, by rw [List.length_take, List.length_drop]; omega⟩
  else .error .outOfRange

/-- "If `offset + n` is beyond the end, give up, else copy `n` bytes". -/
def readArray (data : List UInt8) (offset n : ℕ) :
    Except Fault (Option (List.Vector UInt8 n)) :=
  if data.length < sizeAdd offset n then .ok none
  else do return some (← copyArray data offset n)

/-- The same for a `uint64_t` filled by `memcpy`. -/
def readUInt64 (e : Endian) (data : List UInt8) (offset : ℕ) :
    Except Fault (Option UInt64) := do
  let some a ← readArray data offset 8 | return none
  return some (e.uint64 a.toList)

/-! ## What a successful read has read -/

theorem le_of_copyRange {data l : List UInt8} {first n : ℕ}
    (h : copyRange data first n = .ok l) : first + n ≤ data.length := by
  by_contra hgt
  rw [copyRange, if_neg hgt] at h
  cases h

theorem drop_eq_of_copyRange {data l : List UInt8} {first n : ℕ}
    (h : copyRange data first n = .ok l) :
    l.length = n ∧ data.drop first = l ++ data.drop (first + n) := by
  unfold copyRange at h
  split at h
  · rename_i hle
    obtain rfl := Except.ok.inj h
    refine ⟨by rw [List.length_take, List.length_drop]; omega, ?_⟩
    rw [← List.drop_drop, List.take_append_drop]
  · exact absurd h (by simp)

theorem drop_eq_of_copyArray {data : List UInt8} {first n : ℕ} {v : List.Vector UInt8 n}
    (h : copyArray data first n = .ok v) :
    first + n ≤ data.length ∧ data.drop first = v.toList ++ data.drop (first + n) := by
  unfold copyArray at h
  split at h
  · rename_i hle
    obtain rfl := Except.ok.inj h
    refine ⟨hle, ?_⟩
    change data.drop first = (data.drop first).take n ++ _
    rw [← List.drop_drop, List.take_append_drop]
  · exact absurd h (by simp)

/-- A read that succeeds has read a prefix of what the offset leaves, even where the
check itself has wrapped around. -/
theorem drop_eq_of_readArray {data : List UInt8} {offset n : ℕ} {v : List.Vector UInt8 n}
    (h : readArray data offset n = .ok (some v)) :
    offset + n ≤ data.length ∧ data.drop offset = v.toList ++ data.drop (offset + n) := by
  unfold readArray at h
  split at h
  · exact absurd h (by simp)
  · obtain ⟨w, hw, hv⟩ := bind_eq_ok.mp h
    obtain rfl : w = v := Option.some.inj (Except.ok.inj hv)
    exact drop_eq_of_copyArray hw

theorem drop_eq_of_readUInt64 {e : Endian} {data : List UInt8} {offset : ℕ} {x : UInt64}
    (h : readUInt64 e data offset = .ok (some x)) :
    offset + 8 ≤ data.length ∧
      data.drop offset = e.bytes64 x ++ data.drop (offset + 8) := by
  obtain ⟨_ | a, ha, hx⟩ := bind_eq_ok.mp h
  · exact absurd hx (by simp [pure, Except.pure])
  · obtain rfl : e.uint64 a.toList = x := Option.some.inj (Except.ok.inj hx)
    rw [bytes64_uint64 e a.toList a.toList_length]
    exact drop_eq_of_readArray ha

/-! ## A read finds what was written -/

theorem copyRange_of_eq (pre post : List UInt8) {data l : List UInt8} {first n : ℕ}
    (hdata : data = pre ++ (l ++ post)) (hfirst : pre.length = first) (hn : l.length = n) :
    copyRange data first n = .ok l := by
  subst hdata hfirst hn
  rw [copyRange, if_pos (by simp), List.drop_left, List.take_left]

theorem copyArray_of_eq (pre post : List UInt8) {data : List UInt8} {n first : ℕ}
    {v : List.Vector UInt8 n}
    (hdata : data = pre ++ (v.toList ++ post)) (hfirst : pre.length = first) :
    copyArray data first n = .ok v := by
  subst hdata hfirst
  rw [copyArray, dif_pos (by simp)]
  congr 1
  apply Subtype.ext
  change (List.drop pre.length (pre ++ (v.toList ++ post))).take n = v.toList
  rw [List.drop_left, List.take_left' v.toList_length]

theorem readArray_of_eq (pre post : List UInt8) {data : List UInt8} {n offset : ℕ}
    {v : List.Vector UInt8 n}
    (hdata : data = pre ++ (v.toList ++ post)) (hoffset : pre.length = offset)
    (h : offset + n < 2 ^ 64) : readArray data offset n = .ok (some v) := by
  have hle : ¬ data.length < offset + n := by
    rw [hdata, ← hoffset]
    simp
  rw [readArray, sizeAdd_of_lt h, if_neg hle, copyArray_of_eq pre post hdata hoffset]
  rfl

theorem readUInt64_of_eq {e : Endian} (pre post : List UInt8) {data : List UInt8} {offset : ℕ}
    {x : UInt64}
    (hdata : data = pre ++ (e.bytes64 x ++ post)) (hoffset : pre.length = offset)
    (h : offset + 8 < 2 ^ 64) : readUInt64 e data offset = .ok (some x) := by
  have hread : readArray data offset 8 = .ok (some ⟨e.bytes64 x, length_bytes64 e x⟩) :=
    readArray_of_eq pre post hdata hoffset h
  rw [readUInt64, hread]
  change Except.ok (some (e.uint64 (e.bytes64 x))) = _
  rw [uint64_bytes64]

/-! ## Reads that cannot wrap around -/

/-- A computation of several parts ends normally when each part does. -/
theorem exists_bind_eq_ok {ε α β : Type} {x : Except ε α} {f : α → Except ε β}
    (hx : ∃ a, x = .ok a) (hf : ∀ a, x = .ok a → ∃ b, f a = .ok b) :
    ∃ b, x >>= f = .ok b := by
  obtain ⟨a, ha⟩ := hx
  obtain ⟨b, hb⟩ := hf a ha
  exact ⟨b, bind_eq_ok.mpr ⟨a, ha, hb⟩⟩

/-- The same for a read: where there is nothing to read, the decoder returns at once. -/
theorem exists_bind_read {α β : Type} {x : Except Fault (Option α)}
    {f : Option α → Except Fault β} (hx : ∃ o, x = .ok o) (hnone : ∃ b, f none = .ok b)
    (hsome : ∀ a, x = .ok (some a) → ∃ b, f (some a) = .ok b) : ∃ b, x >>= f = .ok b := by
  refine exists_bind_eq_ok hx (fun o ho => ?_)
  cases o with
  | none => exact hnone
  | some a => exact hsome a ho

/-- A read whose check cannot wrap around ends normally. -/
theorem exists_readArray {data : List UInt8} {offset n : ℕ} (h : offset + n < 2 ^ 64) :
    ∃ o, readArray data offset n = .ok o := by
  rw [readArray, sizeAdd_of_lt h]
  by_cases hlt : data.length < offset + n
  · rw [if_pos hlt]
    exact ⟨none, rfl⟩
  · rw [if_neg hlt, copyArray, dif_pos (Nat.le_of_not_lt hlt)]
    exact ⟨_, rfl⟩

theorem exists_readUInt64 {e : Endian} {data : List UInt8} {offset : ℕ}
    (h : offset + 8 < 2 ^ 64) : ∃ o, readUInt64 e data offset = .ok o := by
  exact exists_bind_read (exists_readArray h) ⟨none, rfl⟩ (fun _ _ => ⟨_, rfl⟩)

/-- Inside the vector a read finds something. -/
theorem exists_readArray_some {data : List UInt8} {offset n : ℕ} (hlen : data.length < 2 ^ 64)
    (h : offset + n ≤ data.length) : ∃ v, readArray data offset n = .ok (some v) := by
  rw [readArray, sizeAdd_of_lt (by omega), if_neg (Nat.not_lt.mpr h), copyArray, dif_pos h]
  exact ⟨_, rfl⟩

theorem exists_readUInt64_some {e : Endian} {data : List UInt8} {offset : ℕ}
    (hlen : data.length < 2 ^ 64) (h : offset + 8 ≤ data.length) :
    ∃ x, readUInt64 e data offset = .ok (some x) := by
  obtain ⟨v, hv⟩ := exists_readArray_some hlen h
  rw [readUInt64, hv]
  exact ⟨_, rfl⟩

theorem copyRange_of_le {data : List UInt8} {first n : ℕ} (h : first + n ≤ data.length) :
    copyRange data first n = .ok ((data.drop first).take n) :=
  if_pos h

/-! ## Sums that wrap around -/

/-- An offset inside the vector plus a length read from it: where the sum wraps around, it
lands before the offset, so that a check against the size of the vector passes. -/
theorem sizeAdd_le_of_wrap {offset n : ℕ} (hn : n < 2 ^ 64) (h : 2 ^ 64 ≤ offset + n)
    (hoffset : offset < 2 ^ 63) : sizeAdd offset n ≤ offset := by
  rw [sizeAdd]
  omega

/-- The length that made it wrap around is one that no vector has. -/
theorem resize_of_wrap {offset n : ℕ} (h : 2 ^ 64 ≤ offset + n) (hoffset : offset < 2 ^ 63) :
    resize n = .error .lengthError := by
  rw [resize, maxSize]
  exact if_pos (by omega)

/-- What lies before a cut is still there. -/
theorem take_append_append {α : Type} {pre l post : List α} {n : ℕ}
    (h : pre.length + l.length ≤ n) :
    (pre ++ (l ++ post)).take n = pre ++ (l ++ post.take (n - pre.length - l.length)) := by
  rw [List.take_append, List.take_of_length_le (by omega), List.take_append,
    List.take_of_length_le (by omega)]

end StdVector
