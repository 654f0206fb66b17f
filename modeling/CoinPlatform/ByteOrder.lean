/-
# Fixed-width integers in memory

An integer of `n` bytes is laid down in memory in the byte order of the machine:
least significant byte first on a little-endian one, most significant first on a
big-endian one.  `Endian.bytes` is that memory image and `Endian.value` reads it
back; the two are inverse on values that fit and on byte strings of the width.

The network conversions `htonl`/`ntohl` are here too, with the two facts a
framing protocol rests on: the memory image of `htonl x` is the big-endian image
of `x` on every machine (`bytes_htonl`), and four bytes shifted together most
significant first are that value already (`shiftIn_eq_value`).
-/
import Mathlib.Data.List.Basic
import Mathlib.Algebra.Order.Ring.Nat
import Mathlib.Tactic.Ring

namespace ByteOrder

/-! ## Little-endian digits -/

/-- The `n` least significant bytes of `v`, least significant first. -/
def leBytes : ℕ → ℕ → List UInt8
  | 0, _ => []
  | n + 1, v => UInt8.ofNat v :: leBytes n (v / 256)

/-- The number whose bytes, least significant first, are the given ones. -/
def ofLeBytes : List UInt8 → ℕ
  | [] => 0
  | b :: bs => b.toNat + 256 * ofLeBytes bs

@[simp] theorem length_leBytes (n v : ℕ) : (leBytes n v).length = n := by
  induction n generalizing v with
  | zero => rfl
  | succ n ih => simp [leBytes, ih]

/-- Reading the digits of a value back gives the value, as far as it fits. -/
theorem ofLeBytes_leBytes (n v : ℕ) (hv : v < 256 ^ n) : ofLeBytes (leBytes n v) = v := by
  induction n generalizing v with
  | zero => simp at hv; simp [leBytes, ofLeBytes, hv]
  | succ n ih =>
      have hdiv : v / 256 < 256 ^ n := by
        rw [Nat.div_lt_iff_lt_mul (by norm_num)]
        rwa [pow_succ] at hv
      rw [leBytes, ofLeBytes, ih _ hdiv, UInt8.toNat_ofNat']
      exact Nat.mod_add_div v 256

/-- Writing the value of a byte string gives the byte string. -/
theorem leBytes_ofLeBytes (l : List UInt8) : leBytes l.length (ofLeBytes l) = l := by
  induction l with
  | nil => rfl
  | cons b bs ih =>
      have hb : b.toNat < 256 := b.toNat_lt
      have hdiv : (b.toNat + 256 * ofLeBytes bs) / 256 = ofLeBytes bs := by omega
      have hmod : UInt8.ofNat (b.toNat + 256 * ofLeBytes bs) = b := by
        apply UInt8.toNat_inj.mp
        rw [UInt8.toNat_ofNat']
        omega
      rw [List.length_cons, ofLeBytes, leBytes, hdiv, hmod, ih]

/-- A byte string of length `n` is below `256 ^ n`. -/
theorem ofLeBytes_lt (l : List UInt8) : ofLeBytes l < 256 ^ l.length := by
  induction l with
  | nil => simp [ofLeBytes]
  | cons b bs ih =>
      have hb : b.toNat < 256 := b.toNat_lt
      rw [ofLeBytes, List.length_cons, pow_succ]
      omega

/-! ## Memory images -/

/-- The byte order of a machine. -/
inductive Endian where
  | little
  | big
  deriving DecidableEq, Repr

/-- The memory image of `v` as an integer of `n` bytes. -/
def Endian.bytes (e : Endian) (n v : ℕ) : List UInt8 :=
  match e with
  | .little => leBytes n v
  | .big => (leBytes n v).reverse

/-- The integer whose memory image is `l`. -/
def Endian.value (e : Endian) (l : List UInt8) : ℕ :=
  match e with
  | .little => ofLeBytes l
  | .big => ofLeBytes l.reverse

@[simp] theorem length_bytes (e : Endian) (n v : ℕ) : (e.bytes n v).length = n := by
  cases e <;> simp [Endian.bytes]

theorem value_bytes (e : Endian) (n v : ℕ) (hv : v < 256 ^ n) :
    e.value (e.bytes n v) = v := by
  cases e <;> simp [Endian.bytes, Endian.value, ofLeBytes_leBytes n v hv]

theorem bytes_value (e : Endian) (l : List UInt8) : e.bytes l.length (e.value l) = l := by
  cases e with
  | little => exact leBytes_ofLeBytes l
  | big =>
      have h := leBytes_ofLeBytes l.reverse
      rw [List.length_reverse] at h
      simp [Endian.bytes, Endian.value, h]

theorem value_lt (e : Endian) (l : List UInt8) : e.value l < 256 ^ l.length := by
  cases e with
  | little => exact ofLeBytes_lt l
  | big => simpa [Endian.value] using ofLeBytes_lt l.reverse

/-! ## 64-bit integers -/

/-- The memory image of a `uint64_t`. -/
def Endian.bytes64 (e : Endian) (x : UInt64) : List UInt8 := e.bytes 8 x.toNat

/-- The `uint64_t` with a given memory image. -/
def Endian.uint64 (e : Endian) (l : List UInt8) : UInt64 := UInt64.ofNat (e.value l)

@[simp] theorem length_bytes64 (e : Endian) (x : UInt64) : (e.bytes64 x).length = 8 := by
  simp [Endian.bytes64]

@[simp] theorem uint64_bytes64 (e : Endian) (x : UInt64) : e.uint64 (e.bytes64 x) = x := by
  have hx : x.toNat < 256 ^ 8 := x.toNat_lt
  rw [Endian.uint64, Endian.bytes64, value_bytes e 8 _ hx, UInt64.ofNat_toNat]

theorem bytes64_uint64 (e : Endian) (l : List UInt8) (hl : l.length = 8) :
    e.bytes64 (e.uint64 l) = l := by
  have hlt : e.value l < 2 ^ 64 := by
    have h := value_lt e l
    rw [hl] at h
    exact h
  have hnat : (UInt64.ofNat (e.value l)).toNat = e.value l := UInt64.toNat_ofNat_of_lt' hlt
  rw [Endian.bytes64, Endian.uint64, hnat, ← hl, bytes_value]

theorem bytes64_injective (e : Endian) {x y : UInt64} (h : e.bytes64 x = e.bytes64 y) :
    x = y := by
  rw [← uint64_bytes64 e x, h, uint64_bytes64]

/-! ## Network byte order -/

/-- The four bytes of a `uint32_t` in the opposite order. -/
def bswap32 (x : UInt32) : UInt32 := UInt32.ofNat (ofLeBytes (leBytes 4 x.toNat).reverse)

/-- `htonl`: the host integer whose memory image is the big-endian one of `x`. -/
def Endian.htonl (e : Endian) (x : UInt32) : UInt32 :=
  match e with
  | .little => bswap32 x
  | .big => x

/-- `ntohl`, the inverse of `htonl`: the same exchange of bytes. -/
def Endian.ntohl (e : Endian) (x : UInt32) : UInt32 := e.htonl x

theorem toNat_bswap32 (x : UInt32) :
    (bswap32 x).toNat = ofLeBytes (leBytes 4 x.toNat).reverse := by
  have h := ofLeBytes_lt (leBytes 4 x.toNat).reverse
  rw [List.length_reverse, length_leBytes] at h
  exact UInt32.toNat_ofNat_of_lt' h

theorem leBytes_bswap32 (x : UInt32) :
    leBytes 4 (bswap32 x).toNat = (leBytes 4 x.toNat).reverse := by
  have h := leBytes_ofLeBytes (leBytes 4 x.toNat).reverse
  rw [List.length_reverse, length_leBytes] at h
  rw [toNat_bswap32, h]

/-- On every machine `htonl` puts the big-endian image into memory. -/
theorem bytes_htonl (e : Endian) (x : UInt32) :
    e.bytes 4 (e.htonl x).toNat = Endian.big.bytes 4 x.toNat := by
  cases e with
  | little => simp [Endian.bytes, Endian.htonl, leBytes_bswap32]
  | big => rfl

/-- Four bytes shifted together, the first one most significant. -/
def shiftIn (b₀ b₁ b₂ b₃ : UInt8) : UInt32 :=
  (b₀.toUInt32 <<< 24) ||| (b₁.toUInt32 <<< 16) ||| (b₂.toUInt32 <<< 8) ||| b₃.toUInt32

/-- Shifting the bytes together reads the big-endian image. -/
theorem toNat_shiftIn (b₀ b₁ b₂ b₃ : UInt8) :
    (shiftIn b₀ b₁ b₂ b₃).toNat = Endian.big.value [b₀, b₁, b₂, b₃] := by
  have h₀ : b₀.toNat < 256 := b₀.toNat_lt
  have h₁ : b₁.toNat < 256 := b₁.toNat_lt
  have h₂ : b₂.toNat < 256 := b₂.toNat_lt
  have h₃ : b₃.toNat < 256 := b₃.toNat_lt
  have e₂ : b₂.toNat <<< 8 ||| b₃.toNat = b₂.toNat * 2 ^ 8 + b₃.toNat := by
    rw [← Nat.shiftLeft_add_eq_or_of_lt (by omega), Nat.shiftLeft_eq]
  have e₁ : b₁.toNat <<< 16 ||| (b₂.toNat * 2 ^ 8 + b₃.toNat)
      = b₁.toNat * 2 ^ 16 + (b₂.toNat * 2 ^ 8 + b₃.toNat) := by
    rw [← Nat.shiftLeft_add_eq_or_of_lt (by omega), Nat.shiftLeft_eq]
  have e₀ : b₀.toNat <<< 24 ||| (b₁.toNat * 2 ^ 16 + (b₂.toNat * 2 ^ 8 + b₃.toNat))
      = b₀.toNat * 2 ^ 24 + (b₁.toNat * 2 ^ 16 + (b₂.toNat * 2 ^ 8 + b₃.toNat)) := by
    rw [← Nat.shiftLeft_add_eq_or_of_lt (by omega), Nat.shiftLeft_eq]
  have hs₀ : b₀.toNat <<< 24 % 2 ^ 32 = b₀.toNat <<< 24 :=
    Nat.mod_eq_of_lt (by rw [Nat.shiftLeft_eq]; omega)
  have hs₁ : b₁.toNat <<< 16 % 2 ^ 32 = b₁.toNat <<< 16 :=
    Nat.mod_eq_of_lt (by rw [Nat.shiftLeft_eq]; omega)
  have hs₂ : b₂.toNat <<< 8 % 2 ^ 32 = b₂.toNat <<< 8 :=
    Nat.mod_eq_of_lt (by rw [Nat.shiftLeft_eq]; omega)
  simp only [shiftIn, UInt32.toNat_or, UInt32.toNat_shiftLeft, UInt8.toNat_toUInt32]
  simp only [UInt32.reduceToNat, Nat.reduceMod, hs₀, hs₁, hs₂, Nat.or_assoc, e₂, e₁, e₀]
  simp only [Endian.value, List.reverse_cons, List.reverse_nil, List.nil_append,
    List.cons_append, ofLeBytes]
  ring

end ByteOrder
