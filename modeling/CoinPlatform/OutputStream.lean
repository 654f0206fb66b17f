/-
# Formatted output

An `std::ostream` keeps the text that was written, and how the next thing is printed.  The
manipulators `hex` and `setfill` hold until they are changed, but the width that `setw` asks for
is used up by the next output.

`text_putInt_hex` is what a byte becomes when all three are applied to it.
-/
import Mathlib.Data.Nat.Digits.Lemmas

namespace StdStream

/-- A stream: its text, and the base, the width and the fill character of what comes next. -/
structure OutputStream where
  text : List Char
  base : ℕ
  width : ℕ
  fill : Char

namespace OutputStream

/-- A stream with nothing in it. -/
def empty : OutputStream := ⟨[], 10, 0, ' '⟩

variable (ss : OutputStream)

/-- `std::hex`. -/
def hex : OutputStream := { ss with base := 16 }

/-- `std::setw`. -/
def setw (n : ℕ) : OutputStream := { ss with width := n }

/-- `std::setfill`. -/
def setfill (c : Char) : OutputStream := { ss with fill := c }

/-- `operator<<` of a string: it is filled up on the left, and the width is zero again. -/
def put (str : List Char) : OutputStream :=
  { ss with text := ss.text ++ str.leftpad ss.width ss.fill, width := 0 }

/-- `operator<<` of an `int` that is not negative. -/
def putInt (n : ℕ) : OutputStream := ss.put (Nat.toDigits ss.base n)

variable {ss}

@[simp] theorem width_put (str : List Char) : (ss.put str).width = 0 := rfl

/-- Nothing is filled up when no width was asked for. -/
theorem text_put (h : ss.width = 0) (str : List Char) : (ss.put str).text = ss.text ++ str := by
  rw [put, h, List.leftpad, Nat.zero_sub, List.replicate_zero, List.nil_append]

/-- A number of two digits at most is filled up to two digits. -/
theorem leftpad_toDigits {base n : ℕ} (hbase : 1 < base) (h : n < base * base) :
    (Nat.toDigits base n).leftpad 2 '0' = [Nat.digitChar (n / base), Nat.digitChar (n % base)] := by
  by_cases hlt : n < base
  · rw [Nat.toDigits_of_lt_base hlt, Nat.div_eq_of_lt hlt, Nat.mod_eq_of_lt hlt]
    rfl
  · have hdiv : n / base < base := Nat.div_lt_of_lt_mul h
    rw [Nat.toDigits_of_base_le hbase (not_lt.mp hlt), Nat.toDigits_of_lt_base hdiv]
    rfl

/-- **A byte is printed as two digits**, whatever was printed before it. -/
theorem text_putInt_hex {n : ℕ} (h : n < 256) :
    (((ss.hex.setw 2).setfill '0').putInt n).text
      = ss.text ++ [Nat.digitChar (n / 16), Nat.digitChar (n % 16)] := by
  rw [← leftpad_toDigits (by decide) h]
  rfl

end OutputStream

end StdStream
