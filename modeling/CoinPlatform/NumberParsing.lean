/-
# Numbers in text

`std::stoul` reads a number with `strtoul`: it skips white space, takes a sign and, for base 16,
the mark `0x`, and reads digits up to the first character that is none.  It throws when there is
no digit, or when the number does not fit; what comes behind the number is ignored.

`readNumber_pair` says which texts of two characters have a number to read.
-/
import Mathlib.Data.Nat.Digits.Lemmas

namespace StdString

/-- How a conversion fails: `std::invalid_argument` or `std::out_of_range`. -/
inductive NumberError where
  | invalidArgument
  | outOfRange
  deriving DecidableEq, Repr

/-- `isspace` of the "C" locale. -/
def isspace (c : Char) : Bool := c = ' ' || (9 ≤ c.toNat && c.toNat ≤ 13)

/-- The value of a character as a digit, a letter of either case from ten on. -/
def charValue (c : Char) : Option ℕ :=
  if 48 ≤ c.toNat ∧ c.toNat ≤ 57 then some (c.toNat - 48)
  else if 97 ≤ c.toNat ∧ c.toNat ≤ 122 then some (c.toNat - 87)
  else if 65 ≤ c.toNat ∧ c.toNat ≤ 90 then some (c.toNat - 55)
  else none

/-- Its value as a digit of the base. -/
def digitValue (base : ℕ) (c : Char) : Option ℕ := (charValue c).filter (· < base)

/-- The character is a digit of the base. -/
def IsDigit (base : ℕ) (c : Char) : Prop := (digitValue base c).isSome

instance instDecidableIsDigit (base : ℕ) (c : Char) : Decidable (IsDigit base c) :=
  inferInstanceAs (Decidable ((digitValue base c).isSome = true))

/-- The digits in front of the text. -/
def leadingDigits (base : ℕ) : List Char → List ℕ
  | [] => []
  | c :: s =>
    match digitValue base c with
    | none => []
    | some d => d :: leadingDigits base s

/-- An optional sign. -/
def readSign : List Char → Bool × List Char
  | [] => (false, [])
  | c :: s => if c = '-' then (true, s) else if c = '+' then (false, s) else (false, c :: s)

/-- The optional mark of base 16, which needs a digit behind it. -/
def skipMark (base : ℕ) : List Char → List Char
  | zero :: x :: c :: s =>
    if base = 16 ∧ zero = '0' ∧ (x = 'x' ∨ x = 'X') ∧ IsDigit base c then c :: s
    else zero :: x :: c :: s
  | s => s

/-- The number that `strtol` and `strtoul` find: whether it is negative, and its digits' value. -/
def readNumber (base : ℕ) (str : List Char) : Option (Bool × ℕ) :=
  let (negative, s) := readSign (str.dropWhile isspace)
  let digits := leadingDigits base (skipMark base s)
  if digits = [] then none else some (negative, Nat.ofDigits base digits.reverse)

/-- `std::stoul`: a negative number is negated in `unsigned long`. -/
def stoul (str : List Char) (base : ℕ) : Except NumberError ℕ :=
  match readNumber base str with
  | none => .error .invalidArgument
  | some (negative, value) =>
    if 2 ^ 64 ≤ value then .error .outOfRange
    else .ok (if negative then (2 ^ 64 - value) % 2 ^ 64 else value)

/-! ## Digits -/

variable {base : ℕ} {c c₀ c₁ : Char} {d d₀ d₁ : ℕ} {s : List Char}

theorem isDigit_iff : IsDigit base c ↔ ∃ d, digitValue base c = some d :=
  Option.isSome_iff_exists

theorem lt_of_digitValue (h : digitValue base c = some d) : d < base :=
  of_decide_eq_true (Option.filter_eq_some_iff.mp h).2

/-- A digit lies in one of the three ranges. -/
theorem toNat_of_digitValue (h : digitValue base c = some d) :
    (c.toNat = d + 48 ∧ d < 10) ∨ (c.toNat = d + 87 ∧ 10 ≤ d ∧ d < 36) ∨
      (c.toNat = d + 55 ∧ 10 ≤ d ∧ d < 36) := by
  have hvalue := (Option.filter_eq_some_iff.mp h).1
  unfold charValue at hvalue
  split at hvalue
  · have hd := Option.some.inj hvalue
    omega
  · split at hvalue
    · have hd := Option.some.inj hvalue
      omega
    · split at hvalue
      · have hd := Option.some.inj hvalue
        omega
      · cases hvalue

/-- A digit is no white space and no sign. -/
theorem IsDigit.not_skipped (h : IsDigit base c) :
    isspace c = false ∧ c ≠ '-' ∧ c ≠ '+' := by
  obtain ⟨d, hd⟩ := isDigit_iff.mp h
  have hrange := toNat_of_digitValue hd
  refine ⟨?_, ?_, ?_⟩
  · rw [Bool.eq_false_iff]
    intro hspace
    rw [isspace, Bool.or_eq_true, Bool.and_eq_true, decide_eq_true_eq, decide_eq_true_eq,
      decide_eq_true_eq] at hspace
    rcases hspace with rfl | hspace
    · have hn : ' '.toNat = 32 := rfl
      omega
    · omega
  · rintro rfl
    have hn : '-'.toNat = 45 := rfl
    omega
  · rintro rfl
    have hn : '+'.toNat = 43 := rfl
    omega

theorem leadingDigits_eq_nil : leadingDigits base (c :: s) = [] ↔ ¬ IsDigit base c := by
  rw [leadingDigits, isDigit_iff]
  cases digitValue base c with
  | none => simp
  | some d => simp

theorem length_leadingDigits_le (s : List Char) : (leadingDigits base s).length ≤ s.length := by
  induction s with
  | nil => exact Nat.le_refl 0
  | cons c s ih =>
      rw [leadingDigits]
      cases digitValue base c with
      | none => exact Nat.zero_le _
      | some d => exact Nat.succ_le_succ ih

theorem lt_of_mem_leadingDigits (h : d ∈ leadingDigits base s) : d < base := by
  induction s with
  | nil => cases h
  | cons c s ih =>
      rw [leadingDigits] at h
      cases hc : digitValue base c with
      | none =>
          rw [hc] at h
          cases h
      | some x =>
          rw [hc] at h
          rcases List.mem_cons.mp h with rfl | h
          · exact lt_of_digitValue hc
          · exact ih h

/-! ## Numbers -/

/-- White space is skipped. -/
theorem readNumber_cons_of_isspace (h : isspace c = true) :
    readNumber base (c :: s) = readNumber base s := by
  rw [readNumber, readNumber, List.dropWhile_cons_of_pos h]

/-- Otherwise the number starts here, with or without a sign. -/
theorem readNumber_cons (h : isspace c = false) : readNumber base (c :: s) =
    if leadingDigits base (skipMark base (readSign (c :: s)).2) = [] then none
    else some ((readSign (c :: s)).1,
      Nat.ofDigits base (leadingDigits base (skipMark base (readSign (c :: s)).2)).reverse) := by
  rw [readNumber, List.dropWhile_cons_of_neg (by rw [h]; exact Bool.false_ne_true)]

/-- Two characters have no room for a mark and a digit. -/
@[simp] theorem skipMark_singleton : skipMark base [c] = [c] := rfl

@[simp] theorem skipMark_pair : skipMark base [c₀, c₁] = [c₀, c₁] := rfl

/-- In one character there is a number when it is a digit. -/
theorem readNumber_singleton : (readNumber base [c]).isSome ↔ IsDigit base c := by
  cases hspace : isspace c with
  | true =>
      rw [readNumber_cons_of_isspace hspace]
      refine iff_of_false (fun h => by cases h) (fun h => ?_)
      rw [h.not_skipped.1] at hspace
      cases hspace
  | false =>
      rw [readNumber_cons hspace, readSign]
      split
      · rename_i hminus
        refine iff_of_false (fun h => by cases h) (fun h => ?_)
        exact h.not_skipped.2.1 hminus
      · split
        · rename_i hplus
          refine iff_of_false (fun h => by cases h) (fun h => ?_)
          exact h.not_skipped.2.2 hplus
        · simp only [skipMark_singleton, leadingDigits_eq_nil]
          by_cases hdigit : IsDigit base c
          · simp [hdigit]
          · simp [hdigit]

/-- **In two characters there is a number** when the first one is a digit, or when it is skipped
and the second one is a digit. -/
theorem readNumber_pair : (readNumber base [c₀, c₁]).isSome ↔
    IsDigit base c₀ ∨ ((isspace c₀ = true ∨ c₀ = '-' ∨ c₀ = '+') ∧ IsDigit base c₁) := by
  cases hspace : isspace c₀ with
  | true =>
      have hnot : ¬ IsDigit base c₀ := by
        intro h
        rw [h.not_skipped.1] at hspace
        cases hspace
      rw [readNumber_cons_of_isspace hspace, readNumber_singleton]
      simp [hnot]
  | false =>
      rw [readNumber_cons hspace, readSign]
      by_cases hsign : c₀ = '-' ∨ c₀ = '+'
      · -- the digits start behind the sign
        have hnot : ¬ IsDigit base c₀ := by
          intro h
          exact hsign.elim h.not_skipped.2.1 h.not_skipped.2.2
        have hrest : (if c₀ = '-' then (true, [c₁]) else if c₀ = '+' then (false, [c₁])
            else (false, [c₀, c₁])).2 = [c₁] := by
          rcases hsign with rfl | rfl <;> rfl
        simp only [hrest, skipMark_singleton, leadingDigits_eq_nil]
        by_cases hdigit : IsDigit base c₁
        · simp [hdigit, hsign]
        · simp [hdigit, hnot]
      · obtain ⟨hminus, hplus⟩ := not_or.mp hsign
        simp only [hminus, hplus, if_false, skipMark_pair, leadingDigits_eq_nil]
        by_cases hdigit : IsDigit base c₀
        · simp [hdigit]
        · simp [hdigit]

/-- Two digits are read as the number they stand for. -/
theorem readNumber_of_digitValue (h₀ : digitValue base c₀ = some d₀)
    (h₁ : digitValue base c₁ = some d₁) :
    readNumber base [c₀, c₁] = some (false, d₀ * base + d₁) := by
  obtain ⟨hspace, hminus, hplus⟩ := (isDigit_iff.mpr ⟨d₀, h₀⟩).not_skipped
  have hdigits : leadingDigits base [c₀, c₁] = [d₀, d₁] := by
    simp only [leadingDigits, h₀, h₁]
  rw [readNumber_cons hspace, readSign, if_neg hminus, if_neg hplus, skipMark_pair, hdigits,
    if_neg (List.cons_ne_nil _ _)]
  simp only [List.reverse_cons, List.reverse_nil, List.nil_append, List.cons_append,
    Nat.ofDigits_cons, Nat.ofDigits_nil]
  congr 2
  ring

/-- A number has as many digits as the text has characters, at most. -/
theorem lt_pow_of_readNumber {negative : Bool} {value : ℕ} (hbase : 1 < base)
    (h : readNumber base s = some (negative, value)) : value < base ^ s.length := by
  rw [readNumber] at h
  simp only at h
  split at h
  · cases h
  · obtain ⟨rfl, rfl⟩ := Prod.mk.inj (Option.some.inj h)
    set digits := leadingDigits base (skipMark base (readSign (s.dropWhile isspace)).2) with hd
    have hlt : Nat.ofDigits base digits.reverse < base ^ digits.reverse.length := by
      apply Nat.ofDigits_lt_base_pow_length hbase
      intro x hx
      exact lt_of_mem_leadingDigits (List.mem_reverse.mp hx)
    refine hlt.trans_le (Nat.pow_le_pow_right (by omega) ?_)
    have hsign : ∀ l : List Char, (readSign l).2.length ≤ l.length := by
      intro l
      cases l with
      | nil => exact Nat.le_refl 0
      | cons c l =>
          rw [readSign]
          split
          · exact Nat.le_succ _
          · split
            · exact Nat.le_succ _
            · exact Nat.le_refl _
    have hmark : ∀ l : List Char, (skipMark base l).length ≤ l.length := by
      intro l
      unfold skipMark
      split
      · split
        · simp only [List.length_cons]
          omega
        · exact Nat.le_refl _
      · exact Nat.le_refl _
    calc digits.reverse.length = digits.length := List.length_reverse
      _ ≤ (skipMark base (readSign (s.dropWhile isspace)).2).length := length_leadingDigits_le _
      _ ≤ (readSign (s.dropWhile isspace)).2.length := hmark _
      _ ≤ (s.dropWhile isspace).length := hsign _
      _ ≤ s.length := (List.dropWhile_suffix _).length_le

/-- Short numbers do not overflow, so a conversion of them succeeds when there is a digit. -/
theorem exists_stoul_iff (hbase : 1 < base) (hlen : base ^ s.length ≤ 2 ^ 64) :
    (∃ v, stoul s base = .ok v) ↔ (readNumber base s).isSome := by
  rw [stoul]
  cases h : readNumber base s with
  | none => simp
  | some r =>
      obtain ⟨negative, value⟩ := r
      have hlt := lt_pow_of_readNumber hbase h
      have hfits : ¬ 2 ^ 64 ≤ value := by omega
      simp only [hfits, if_false, Option.isSome_some, iff_true]
      exact ⟨_, rfl⟩

end StdString
