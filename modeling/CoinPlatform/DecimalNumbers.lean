/-
# Decimal numbers in text

`std::stoi` in base ten.  A text that it reads starts with white space, a sign and digits, which
`DecimalNumber` keeps apart; what comes behind the digits is ignored.

* `readNumber_text`, `exists_decimalNumber`: the texts in which a number is found;
* `stoi_eq_ok`: those whose number fits into an `int`.
-/
import CoinPlatform.NumberParsing
import Mathlib.Data.List.TakeWhile

namespace StdString

/-- `std::stoi`, which reads with `strtol`: the number has to fit into an `int`. -/
def stoi (str : List Char) (base : ℕ) : Except NumberError ℤ :=
  match readNumber base str with
  | none => .error .invalidArgument
  | some (negative, value) =>
    let n : ℤ := if negative then -value else value
    if -2 ^ 31 ≤ n ∧ n < 2 ^ 31 then .ok n else .error .outOfRange

/-- A sign in front of the digits, or none. -/
inductive Sign where
  | none
  | plus
  | minus
  deriving DecidableEq

def Sign.text : Sign → List Char
  | .none => []
  | .plus => ['+']
  | .minus => ['-']

def Sign.negative : Sign → Bool
  | .none => false
  | .plus => false
  | .minus => true

/-- A text that starts with a decimal number, in its parts.  The rest has no digit in front. -/
structure DecimalNumber where
  blanks : List Char
  sign : Sign
  digits : List Char
  rest : List Char
  isspace_of_mem : ∀ c ∈ blanks, isspace c = true
  digits_ne_nil : digits ≠ []
  isDigit_of_mem : ∀ c ∈ digits, c.isDigit = true
  rest_not_digit : ∀ c ∈ rest.head?, c.isDigit = false

namespace DecimalNumber

/-- The text itself. -/
def text (number : DecimalNumber) : List Char :=
  number.blanks ++ (number.sign.text ++ (number.digits ++ number.rest))

/-- What its digits stand for. -/
def magnitude (number : DecimalNumber) : ℕ := Nat.ofDigitChars 10 number.digits 0

/-- What it stands for. -/
def value (number : DecimalNumber) : ℤ :=
  if number.sign.negative then -number.magnitude else number.magnitude

end DecimalNumber

/-- The text starts with this number, which is one of an `int`. -/
def StartsWithInt (str : List Char) (n : ℤ) : Prop :=
  (∃ number : DecimalNumber, number.text = str ∧ number.value = n) ∧ -2 ^ 31 ≤ n ∧ n < 2 ^ 31

/-! ## Digits -/

variable {c : Char} {s : List Char}

theorem digitValue_ten (h : c.isDigit = true) : digitValue 10 c = some (c.toNat - 48) := by
  obtain ⟨hlow, hhigh⟩ := Char.isDigit_iff_toNat.mp h
  have hlow : 48 ≤ c.toNat := hlow
  have hhigh : c.toNat ≤ 57 := hhigh
  rw [digitValue, charValue, if_pos ⟨hlow, hhigh⟩]
  exact Option.filter_eq_some_iff.mpr ⟨rfl, decide_eq_true (by omega)⟩

/-- The digits of base ten. -/
theorem isDigit_ten : IsDigit 10 c ↔ c.isDigit = true := by
  constructor
  · intro h
    obtain ⟨d, hd⟩ := isDigit_iff.mp h
    have hrange := toNat_of_digitValue hd
    have hlt := lt_of_digitValue hd
    refine Char.isDigit_iff_toNat.mpr ⟨?_, ?_⟩
    · show 48 ≤ c.toNat
      omega
    · show c.toNat ≤ 57
      omega
  · intro h
    exact isDigit_iff.mpr ⟨_, digitValue_ten h⟩

theorem leadingDigits_ten (s : List Char) :
    leadingDigits 10 s = (s.takeWhile Char.isDigit).map fun c => c.toNat - 48 := by
  induction s with
  | nil => rfl
  | cons c s ih =>
      cases hc : c.isDigit with
      | true =>
          rw [leadingDigits, digitValue_ten hc, List.takeWhile_cons_of_pos hc, List.map_cons, ← ih]
      | false =>
          have hnot : ¬ IsDigit 10 c := by
            rw [isDigit_ten, hc]
            exact Bool.false_ne_true
          rw [leadingDigits_eq_nil.mpr hnot, List.takeWhile_cons_of_neg (by rw [hc]; decide)]
          rfl

/-- Digits in reverse order stand for what the text stands for. -/
theorem ofDigits_reverse_map (s : List Char) :
    Nat.ofDigits 10 (s.map fun c => c.toNat - 48).reverse = Nat.ofDigitChars 10 s 0 := by
  induction s with
  | nil => rfl
  | cons c s ih =>
      have hcons : Nat.ofDigitChars 10 (c :: s) 0
          = 10 ^ s.length * (10 * 0 + (c.toNat - 48)) + Nat.ofDigitChars 10 s 0 :=
        Nat.ofDigitChars_cons.trans Nat.ofDigitChars_eq_ofDigitChars_zero
      rw [List.map_cons, List.reverse_cons, Nat.ofDigits_append, ih, Nat.ofDigits_singleton,
        List.length_reverse, List.length_map, hcons, Nat.mul_zero, Nat.zero_add, Nat.add_comm]

/-- Base ten has no mark. -/
theorem skipMark_ten (s : List Char) : skipMark 10 s = s := by
  unfold skipMark
  split
  · exact if_neg fun h => absurd h.1 (by decide)
  · rfl

theorem readNumber_ten (str : List Char) : readNumber 10 str =
    if (readSign (str.dropWhile isspace)).2.takeWhile Char.isDigit = [] then none
    else some ((readSign (str.dropWhile isspace)).1,
      Nat.ofDigitChars 10 ((readSign (str.dropWhile isspace)).2.takeWhile Char.isDigit) 0) := by
  rw [readNumber]
  simp only [skipMark_ten, leadingDigits_ten, ofDigits_reverse_map, List.map_eq_nil_iff]

/-! ## Parts -/

/-- A sign is taken off, and what is behind it is left. -/
theorem readSign_text (sign : Sign) (h : c.isDigit = true) (s : List Char) :
    readSign (sign.text ++ c :: s) = (sign.negative, c :: s) := by
  cases sign with
  | none =>
      obtain ⟨-, hminus, hplus⟩ := (isDigit_ten.mpr h).not_skipped
      show readSign (c :: s) = (false, c :: s)
      rw [readSign, if_neg hminus, if_neg hplus]
  | plus => rfl
  | minus => rfl

/-- Every text has a sign in front, or none. -/
theorem exists_sign (s : List Char) :
    ∃ sign : Sign, sign.negative = (readSign s).1 ∧ sign.text ++ (readSign s).2 = s := by
  cases s with
  | nil => exact ⟨.none, rfl, rfl⟩
  | cons c s =>
      by_cases hminus : c = '-'
      · rw [readSign, if_pos hminus, hminus]
        exact ⟨.minus, rfl, rfl⟩
      · by_cases hplus : c = '+'
        · rw [readSign, if_neg hminus, if_pos hplus, hplus]
          exact ⟨.plus, rfl, rfl⟩
        · rw [readSign, if_neg hminus, if_neg hplus]
          exact ⟨.none, rfl, rfl⟩

/-- The first character, when there is one. -/
theorem not_getElem_zero {p : Char → Bool} (h : ∀ c ∈ s.head?, p c = false)
    (hlen : 0 < s.length) : ¬ p s[0] = true := by
  rw [h s[0] (List.head?_eq_getElem? ▸ List.getElem?_eq_getElem hlen)]
  exact Bool.false_ne_true

theorem DecimalNumber.exists_digits_cons (number : DecimalNumber) :
    ∃ c digits, number.digits = c :: digits ∧ c.isDigit = true := by
  obtain ⟨c, digits, hdigits⟩ := List.exists_cons_of_ne_nil number.digits_ne_nil
  refine ⟨c, digits, hdigits, ?_⟩
  apply number.isDigit_of_mem
  rw [hdigits]
  exact List.mem_cons_self

/-- The sign of a number, or its first digit, is no white space. -/
theorem DecimalNumber.not_isspace (number : DecimalNumber) :
    ∀ c ∈ (number.sign.text ++ (number.digits ++ number.rest)).head?, isspace c = false := by
  obtain ⟨c, digits, hdigits, hc⟩ := number.exists_digits_cons
  rw [hdigits]
  cases number.sign with
  | none =>
      rintro _ ⟨⟩
      exact (isDigit_ten.mpr hc).not_skipped.1
  | plus =>
      rintro _ ⟨⟩
      rfl
  | minus =>
      rintro _ ⟨⟩
      rfl

/-- The number of a text is the one in its parts. -/
theorem readNumber_text (number : DecimalNumber) :
    readNumber 10 number.text = some (number.sign.negative, number.magnitude) := by
  have hblanks : number.text.dropWhile isspace
      = number.sign.text ++ (number.digits ++ number.rest) := by
    rw [DecimalNumber.text, List.dropWhile_append_of_pos number.isspace_of_mem,
      List.dropWhile_eq_self_iff.mpr (not_getElem_zero number.not_isspace)]
  have hsign : readSign (number.sign.text ++ (number.digits ++ number.rest))
      = (number.sign.negative, number.digits ++ number.rest) := by
    obtain ⟨c, digits, hdigits, hc⟩ := number.exists_digits_cons
    rw [hdigits]
    exact readSign_text number.sign hc (digits ++ number.rest)
  have hdigits : (number.digits ++ number.rest).takeWhile Char.isDigit = number.digits := by
    rw [List.takeWhile_append_of_pos number.isDigit_of_mem,
      List.takeWhile_eq_nil_iff.mpr (not_getElem_zero number.rest_not_digit), List.append_nil]
  rw [readNumber_ten, hblanks, hsign]
  dsimp only
  rw [hdigits, if_neg number.digits_ne_nil]
  rfl

/-- A text in which a number is found has the parts of a number. -/
theorem exists_decimalNumber {str : List Char} {negative : Bool} {value : ℕ}
    (h : readNumber 10 str = some (negative, value)) :
    ∃ number : DecimalNumber, number.text = str ∧ number.sign.negative = negative ∧
      number.magnitude = value := by
  rw [readNumber_ten] at h
  split at h
  · cases h
  · rename_i hdigits
    obtain ⟨rfl, rfl⟩ := Prod.mk.inj (Option.some.inj h)
    obtain ⟨sign, hnegative, hsign⟩ := exists_sign (str.dropWhile isspace)
    set s := (readSign (str.dropWhile isspace)).2
    have hrest : ∀ c ∈ (s.dropWhile Char.isDigit).head?, c.isDigit = false := by
      intro c hc
      have hnot := List.head?_dropWhile_not Char.isDigit s
      rw [hc] at hnot
      exact hnot
    refine ⟨⟨str.takeWhile isspace, sign, s.takeWhile Char.isDigit, s.dropWhile Char.isDigit,
      fun c hc => List.mem_takeWhile_imp hc, hdigits, fun c hc => List.mem_takeWhile_imp hc,
      hrest⟩, ?_, hnegative, rfl⟩
    rw [DecimalNumber.text]
    dsimp only
    rw [List.takeWhile_append_dropWhile, hsign, List.takeWhile_append_dropWhile]

theorem stoi_text (number : DecimalNumber) : stoi number.text 10 =
    if -2 ^ 31 ≤ number.value ∧ number.value < 2 ^ 31 then .ok number.value
    else .error .outOfRange := by
  rw [stoi, readNumber_text]
  rfl

/-- **What `std::stoi` reads**: the number at the start of the text, when it fits. -/
theorem stoi_eq_ok {str : List Char} {n : ℤ} : stoi str 10 = .ok n ↔ StartsWithInt str n := by
  constructor
  · intro h
    cases hread : readNumber 10 str with
    | none =>
        rw [stoi, hread] at h
        cases h
    | some r =>
        obtain ⟨number, rfl, -⟩ := exists_decimalNumber hread
        rw [stoi_text] at h
        by_cases hfits : -2 ^ 31 ≤ number.value ∧ number.value < 2 ^ 31
        · rw [if_pos hfits] at h
          obtain rfl := Except.ok.inj h
          exact ⟨⟨number, rfl, rfl⟩, hfits⟩
        · rw [if_neg hfits] at h
          cases h
  · rintro ⟨⟨number, rfl, rfl⟩, hfits⟩
    rw [stoi_text, if_pos hfits]

end StdString
