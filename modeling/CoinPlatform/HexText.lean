/-
# Hexadecimal input

`hex_to_bytes` of `common/utilities.cpp` gives every two characters of its input to
`std::stoul`.  That throws only when there is no digit to read at all, so a blank or a sign in
front of a digit, and any character behind one, goes unnoticed.

* `hexToBytes_of_isDigit`: digits are read as the bytes that are printed as these digits.
* `exists_hexToBytes_iff`: the other texts that are read.
* `parsedStrictly_iff`: the texts on which the function is strict.
-/
import CoinPlatform.Utilities
import CoinPlatform.NumberParsing

open StdString

namespace CoinPlatform

/-- The loop of `hex_to_bytes`: the number in two characters is cast to a byte. -/
def hexPairsToBytes : List Char → Except NumberError Bytes
  | c₀ :: c₁ :: hex => do
    let byteValue := UInt8.ofNat (← stoul [c₀, c₁] 16)
    return byteValue :: (← hexPairsToBytes hex)
  | _ => return []

/-- `hex_to_bytes`: a text of odd length is logged as invalid, and nothing is returned. -/
def hexToBytes (hex : List Char) : Except NumberError Bytes :=
  if hex.length % 2 ≠ 0 then return [] else hexPairsToBytes hex

/-- The two characters of each byte. -/
def hexPairs : List Char → List (Char × Char)
  | c₀ :: c₁ :: hex => (c₀, c₁) :: hexPairs hex
  | _ => []

/-- There is a digit to read: the first character, or the second one behind a blank or sign. -/
def Readable (pair : Char × Char) : Prop :=
  IsDigit 16 pair.1 ∨
    ((isspace pair.1 = true ∨ pair.1 = '-' ∨ pair.1 = '+') ∧ IsDigit 16 pair.2)

instance instDecidableReadable (pair : Char × Char) : Decidable (Readable pair) :=
  inferInstanceAs (Decidable (_ ∨ (_ ∧ _)))

/-- Strict parsing: bytes are returned for digits only, and they are printed as these digits in
lower case; every other text is reported. -/
structure ParsedStrictly (hex : List Char) : Prop where
  returned : ∀ result, hexToBytes hex = .ok result →
    result.length = hex.length / 2 ∧ (∀ c ∈ hex, IsDigit 16 c) ∧
      bytesToHex result = hex.map Char.toLower
  reported : ¬ (∀ c ∈ hex, IsDigit 16 c) → ∃ error, hexToBytes hex = .error error

/-! ## Two characters -/

variable {c c₀ c₁ : Char} {d d₀ d₁ : ℕ} {hex : List Char} {result : Bytes}

/-- A digit is printed in lower case. -/
theorem digitChar_of_digitValue (h : digitValue 16 c = some d) :
    Nat.digitChar d = c.toLower := by
  have hlt := lt_of_digitValue h
  have hdecimal : ∀ d < 10, Nat.digitChar d = (Char.ofNat (d + 48)).toLower := by decide
  have hlower : ∀ d < 16, 10 ≤ d → Nat.digitChar d = (Char.ofNat (d + 87)).toLower := by decide
  have hupper : ∀ d < 16, 10 ≤ d → Nat.digitChar d = (Char.ofNat (d + 55)).toLower := by decide
  rw [← Char.ofNat_toNat c]
  rcases toNat_of_digitValue h with ⟨hc, hd⟩ | ⟨hc, hd, -⟩ | ⟨hc, hd, -⟩
  · rw [hc, hdecimal d hd]
  · rw [hc, hlower d hlt hd]
  · rw [hc, hupper d hlt hd]

/-- **Two characters are read** when there is a digit to read. -/
theorem exists_stoul_pair_iff : (∃ v, stoul [c₀, c₁] 16 = .ok v) ↔ Readable (c₀, c₁) :=
  (exists_stoul_iff (by decide) (Nat.pow_le_pow_left (n := 16) (m := 2 ^ 32) (by decide) 2)).trans
    readNumber_pair

/-- Two digits are read as the byte that is printed as these digits. -/
theorem exists_stoul_of_isDigit (h₀ : IsDigit 16 c₀) (h₁ : IsDigit 16 c₁) :
    ∃ v, stoul [c₀, c₁] 16 = .ok v ∧ hexByte (UInt8.ofNat v) = [c₀.toLower, c₁.toLower] := by
  obtain ⟨d₀, hd₀⟩ := isDigit_iff.mp h₀
  obtain ⟨d₁, hd₁⟩ := isDigit_iff.mp h₁
  have hlt₀ := lt_of_digitValue hd₀
  have hlt₁ := lt_of_digitValue hd₁
  refine ⟨d₀ * 16 + d₁, ?_, ?_⟩
  · have hfits : ¬ 2 ^ 64 ≤ d₀ * 16 + d₁ := by omega
    rw [stoul, readNumber_of_digitValue hd₀ hd₁]
    simp only [hfits, if_false, Bool.false_eq_true]
  · have hbyte : (UInt8.ofNat (d₀ * 16 + d₁)).toNat = d₀ * 16 + d₁ :=
      UInt8.toNat_ofNat_of_lt' (by change _ < 256; omega)
    have hhigh : (d₀ * 16 + d₁) / 16 = d₀ := by omega
    have hlow : (d₀ * 16 + d₁) % 16 = d₁ := by omega
    rw [hexByte, hbyte, hhigh, hlow, digitChar_of_digitValue hd₀, digitChar_of_digitValue hd₁]

/-! ## The whole text -/

/-- The loop goes on behind two characters that were read. -/
theorem hexPairsToBytes_cons : hexPairsToBytes (c₀ :: c₁ :: hex) = .ok result ↔
    ∃ v rest, stoul [c₀, c₁] 16 = .ok v ∧ hexPairsToBytes hex = .ok rest ∧
      result = UInt8.ofNat v :: rest := by
  rw [hexPairsToBytes]
  simp only [StdVector.bind_eq_ok, pure, Except.pure, Except.ok.injEq]
  constructor
  · rintro ⟨v, hv, rest, hrest, rfl⟩
    exact ⟨v, rest, hv, hrest, rfl⟩
  · rintro ⟨v, rest, hv, hrest, rfl⟩
    exact ⟨v, hv, rest, hrest, rfl⟩

theorem length_lt_two (h : ∀ (c₀ c₁ : Char) (hex' : List Char), hex = c₀ :: c₁ :: hex' → False) :
    hex.length < 2 := by
  by_contra hlong
  obtain ⟨c₀, hex', rfl⟩ := List.exists_cons_of_length_pos (l := hex) (by omega)
  obtain ⟨c₁, hex'', rfl⟩ := List.exists_cons_of_length_pos (l := hex') (by
    rw [List.length_cons] at hlong
    omega)
  exact h c₀ c₁ hex'' rfl

/-- Two characters become one byte. -/
theorem length_hexPairsToBytes (h : hexPairsToBytes hex = .ok result) :
    result.length = hex.length / 2 := by
  induction hex using hexPairs.induct generalizing result with
  | case1 c₀ c₁ hex ih =>
      obtain ⟨v, rest, -, hrest, rfl⟩ := hexPairsToBytes_cons.mp h
      rw [List.length_cons, ih hrest, List.length_cons, List.length_cons]
      omega
  | case2 hex hshort =>
      rw [hexPairsToBytes.eq_2 hex hshort] at h
      cases h
      rw [List.length_nil, Nat.div_eq_of_lt (length_lt_two hshort)]

/-- **A text is read** when there is a digit to read in every pair. -/
theorem exists_hexPairsToBytes_iff :
    (∃ result, hexPairsToBytes hex = .ok result) ↔ ∀ pair ∈ hexPairs hex, Readable pair := by
  induction hex using hexPairs.induct with
  | case1 c₀ c₁ hex ih =>
      rw [hexPairs, List.forall_mem_cons, ← ih, ← exists_stoul_pair_iff]
      simp only [hexPairsToBytes_cons]
      constructor
      · rintro ⟨_, v, rest, hv, hrest, -⟩
        exact ⟨⟨v, hv⟩, rest, hrest⟩
      · rintro ⟨⟨v, hv⟩, rest, hrest⟩
        exact ⟨_, v, rest, hv, hrest, rfl⟩
  | case2 hex hshort =>
      rw [hexPairs.eq_2 hex hshort]
      exact iff_of_true ⟨[], hexPairsToBytes.eq_2 hex hshort⟩ (fun _ h => by cases h)

/-- Digits are read as the bytes that are printed as these digits. -/
theorem hexPairsToBytes_of_isDigit (heven : hex.length % 2 = 0) (h : ∀ c ∈ hex, IsDigit 16 c) :
    ∃ result, hexPairsToBytes hex = .ok result ∧ bytesToHex result = hex.map Char.toLower := by
  induction hex using hexPairs.induct with
  | case1 c₀ c₁ hex ih =>
      rw [List.forall_mem_cons, List.forall_mem_cons] at h
      obtain ⟨h₀, h₁, hrest⟩ := h
      obtain ⟨v, hv, hbyte⟩ := exists_stoul_of_isDigit h₀ h₁
      have heven' : hex.length % 2 = 0 := by
        rw [← heven, List.length_cons, List.length_cons]
        omega
      obtain ⟨rest, hread, hprint⟩ := ih heven' hrest
      refine ⟨UInt8.ofNat v :: rest, hexPairsToBytes_cons.mpr ⟨v, rest, hv, hread, rfl⟩, ?_⟩
      rw [bytesToHex_cons, hbyte, hprint]
      rfl
  | case2 hex hshort =>
      have hlt := length_lt_two hshort
      obtain rfl : hex = [] := List.length_eq_zero_iff.mp (by omega)
      exact ⟨[], rfl, rfl⟩

/-- **When the input is parsed strictly**: it is made of digits, or in some pair there is no digit
to read. -/
theorem parsedStrictly_iff (heven : hex.length % 2 = 0) : ParsedStrictly hex ↔
    (∀ c ∈ hex, IsDigit 16 c) ∨ ∃ pair ∈ hexPairs hex, ¬ Readable pair := by
  have hloop : hexToBytes hex = hexPairsToBytes hex := if_neg (by rw [heven]; decide)
  constructor
  · intro hstrict
    by_contra hnot
    obtain ⟨hother, hreadable⟩ := not_or.mp hnot
    push Not at hreadable
    obtain ⟨result, hresult⟩ := exists_hexPairsToBytes_iff.mpr hreadable
    exact hother (hstrict.returned result (hloop.trans hresult)).2.1
  · intro h
    refine ⟨fun result hresult => ?_, fun hother => ?_⟩
    · rw [hloop] at hresult
      have hdigits : ∀ c ∈ hex, IsDigit 16 c := by
        refine h.resolve_right ?_
        rintro ⟨pair, hpair, hnot⟩
        exact hnot (exists_hexPairsToBytes_iff.mp ⟨result, hresult⟩ pair hpair)
      obtain ⟨result', hresult', hprint⟩ := hexPairsToBytes_of_isDigit heven hdigits
      obtain rfl : result = result' := Except.ok.inj (hresult.symm.trans hresult')
      exact ⟨length_hexPairsToBytes hresult, hdigits, hprint⟩
    · obtain ⟨pair, hpair, hnot⟩ := h.resolve_left hother
      cases hread : hexPairsToBytes hex with
      | error error => exact ⟨error, hloop.trans hread⟩
      | ok result =>
          exact absurd (exists_hexPairsToBytes_iff.mp ⟨result, hread⟩ pair hpair) hnot

theorem parsedStrictly_digits :
    ['0', 'f', 'A', '1'].length % 2 = 0 ∧ ParsedStrictly ['0', 'f', 'A', '1'] := by
  have heven : ['0', 'f', 'A', '1'].length % 2 = 0 := by decide
  have hdigits : ['0', 'f', 'A', '1'].all (fun c => decide (IsDigit 16 c)) = true := by rfl
  exact ⟨heven, (parsedStrictly_iff heven).mpr
    (.inl fun c hc => of_decide_eq_true (List.all_eq_true.mp hdigits c hc))⟩

/-- What comes behind a digit is ignored: `1g` is read as one. -/
theorem not_parsedStrictly : ¬ ParsedStrictly ['1', 'g'] := by
  intro hstrict
  have hread : hexToBytes ['1', 'g'] = .ok [1] := by rfl
  have hdigits := (hstrict.returned [1] hread).2.1
  exact absurd (hdigits 'g' (by decide)) (by decide)

end CoinPlatform
