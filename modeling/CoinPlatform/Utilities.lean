/-
# Hexadecimal text

`bytes_to_hex` of `common/utilities.cpp`; `get_block_filename` of the storage prints a
hash the same way.  Every byte becomes two lower-case digits (`setw(2)`, `setfill('0')`),
so the text of a byte string tells the byte string (`bytesToHex_injective`).
-/
import CoinPlatform.Cryptography

namespace CoinPlatform

/-- A byte printed with `hex`, `setw(2)` and `setfill('0')`. -/
def hexByte (b : Byte) : List Char :=
  [Nat.digitChar (b.toNat / 16), Nat.digitChar (b.toNat % 16)]

/-- `bytes_to_hex`. -/
def bytesToHex (data : Bytes) : List Char := data.flatMap hexByte

theorem digitChar_injective_of_lt :
    ∀ m < 16, ∀ n < 16, Nat.digitChar m = Nat.digitChar n → m = n := by
  decide

theorem hexByte_injective {b c : Byte} (h : hexByte b = hexByte c) : b = c := by
  have hb : b.toNat < 256 := b.toNat_lt
  have hc : c.toNat < 256 := c.toNat_lt
  simp only [hexByte, List.cons.injEq, and_true] at h
  have hdiv := digitChar_injective_of_lt _ (by omega) _ (by omega) h.1
  have hmod := digitChar_injective_of_lt _ (by omega) _ (by omega) h.2
  apply UInt8.toNat_inj.mp
  omega

@[simp] theorem bytesToHex_cons (b : Byte) (data : Bytes) :
    bytesToHex (b :: data) = hexByte b ++ bytesToHex data := rfl

@[simp] theorem length_bytesToHex (data : Bytes) :
    (bytesToHex data).length = 2 * data.length := by
  induction data with
  | nil => rfl
  | cons b data ih =>
      rw [bytesToHex_cons, List.length_append, ih, List.length_cons]
      simp only [hexByte, List.length_cons, List.length_nil]
      omega

/-- The text of a byte string tells the byte string. -/
theorem bytesToHex_injective {data data' : Bytes} (h : bytesToHex data = bytesToHex data') :
    data = data' := by
  induction data generalizing data' with
  | nil =>
      have hlen := congrArg List.length h
      rw [length_bytesToHex, length_bytesToHex] at hlen
      exact (List.length_eq_zero_iff.mp (by simpa using hlen.symm)).symm
  | cons b data ih =>
      cases data' with
      | nil => simp [bytesToHex, hexByte] at h
      | cons c data' =>
          rw [bytesToHex_cons, bytesToHex_cons] at h
          obtain ⟨hhead, htail⟩ := List.append_inj h rfl
          rw [hexByte_injective hhead, ih htail]

end CoinPlatform
