/-
# Time blocks

`TimeBlock` of `time_chain/time_block.cpp`.  Every field has a fixed width, so the
decoder compares the size of the input once and copies the fields out; it accepts
exactly the encodings (`deserialize_eq_true_iff`).
-/
import CoinPlatform.Cryptography

open ByteOrder StdVector

namespace CoinPlatform

structure TimeBlock where
  previousHash : Hash
  time : TimePoint
  publicKey : PublicKey
  signature : Signature
  hash : Hash
  deriving DecidableEq

namespace TimeBlock

/-- The default constructor. -/
def empty : TimeBlock where
  previousHash := zeros 32
  time := 0
  publicKey := zeros 32
  signature := zeros 64
  hash := zeros 32

variable (e : Endian) (H : Host)

/-- The bytes that are signed. -/
def getDataToSign (b : TimeBlock) : Bytes :=
  b.previousHash.toList ++ (e.bytes64 b.time ++ b.publicKey.toList)

/-- `compute_hash`: the hash covers the signed bytes and the signature. -/
def computeHash (b : TimeBlock) : TimeBlock :=
  { b with hash := H.sha256 (b.getDataToSign H.endian ++ b.signature.toList) }

/-- The constructor of a new block, with a zero signature. -/
def new (previousHash : Hash) (time : TimePoint) (publicKey : PublicKey) : TimeBlock :=
  computeHash H
    { empty with previousHash := previousHash, time := time, publicKey := publicKey }

def setSignature (b : TimeBlock) (signature : Signature) : TimeBlock :=
  computeHash H { b with signature := signature }

/-- The hash field is the hash of the block. -/
def HashCorrect (b : TimeBlock) : Prop :=
  b.hash = H.sha256 (b.getDataToSign H.endian ++ b.signature.toList)

theorem hashCorrect_setSignature (b : TimeBlock) (signature : Signature) :
    (b.setSignature H signature).HashCorrect H := rfl

/-! ## The codec -/

def serialize (b : TimeBlock) : Bytes :=
  b.previousHash.toList ++ (e.bytes64 b.time ++ (b.publicKey.toList ++
    (b.signature.toList ++ b.hash.toList)))

def deserialize (b : TimeBlock) (data : Bytes) : Except Fault (Bool × TimeBlock) := do
  if data.length ≠ 32 + 8 + 32 + 64 + 32 then return (false, b)
  let previousHash ← copyArray data 0 32
  let time ← copyArray data 32 8
  let publicKey ← copyArray data 40 32
  let signature ← copyArray data 72 64
  let hash ← copyArray data 136 32
  return (true, ⟨previousHash, e.uint64 time.toList, publicKey, signature, hash⟩)

@[simp] theorem length_serialize (b : TimeBlock) : (b.serialize e).length = 168 := by
  simp [serialize]

/-- **The decoder accepts exactly the encodings**, and returns what was encoded
whatever the object held before. -/
theorem deserialize_eq_true_iff (b b' : TimeBlock) (data : Bytes) :
    b.deserialize e data = .ok (true, b') ↔ data = b'.serialize e := by
  constructor
  · intro h
    unfold deserialize at h
    split at h
    · cases h
    rename_i hlen
    have hlen' : data.length = 168 := by omega
    obtain ⟨previousHash, h₁, h⟩ := bind_eq_ok.mp h
    obtain ⟨time, h₂, h⟩ := bind_eq_ok.mp h
    obtain ⟨publicKey, h₃, h⟩ := bind_eq_ok.mp h
    obtain ⟨signature, h₄, h⟩ := bind_eq_ok.mp h
    obtain ⟨hash, h₅, h⟩ := bind_eq_ok.mp h
    cases h
    obtain ⟨-, d₁⟩ := drop_eq_of_copyArray h₁
    obtain ⟨-, d₂⟩ := drop_eq_of_copyArray h₂
    obtain ⟨-, d₃⟩ := drop_eq_of_copyArray h₃
    obtain ⟨-, d₄⟩ := drop_eq_of_copyArray h₄
    obtain ⟨-, d₅⟩ := drop_eq_of_copyArray h₅
    have d₆ : data.drop (136 + 32) = [] := List.drop_eq_nil_of_le (by omega)
    calc data = data.drop 0 := rfl
      _ = _ := by rw [d₁, d₂, d₃, d₄, d₅, d₆]
      _ = serialize e ⟨previousHash, e.uint64 time.toList, publicKey, signature, hash⟩ := by
        simp [serialize, bytes64_uint64 e time.toList time.toList_length]
  · intro hdata
    obtain ⟨previousHash, time, publicKey, signature, hash⟩ := b'
    have hlen : data.length = 168 := by rw [hdata, length_serialize]
    rw [serialize] at hdata
    have h₁ : copyArray data 0 32 = .ok previousHash :=
      copyArray_of_eq [] _ hdata rfl
    have h₂ : copyArray data 32 8 = .ok ⟨e.bytes64 time, length_bytes64 e time⟩ :=
      copyArray_of_eq previousHash.toList _ hdata (by simp)
    have h₃ : copyArray data 40 32 = .ok publicKey :=
      copyArray_of_eq (previousHash.toList ++ e.bytes64 time) _
        (by rw [hdata, List.append_assoc]) (by simp)
    have h₄ : copyArray data 72 64 = .ok signature :=
      copyArray_of_eq (previousHash.toList ++ e.bytes64 time ++ publicKey.toList) _
        (by rw [hdata]; simp only [List.append_assoc]; rfl) (by simp)
    have h₅ : copyArray data 136 32 = .ok hash :=
      copyArray_of_eq
        (previousHash.toList ++ e.bytes64 time ++ publicKey.toList ++ signature.toList) []
        (by rw [hdata]; simp only [List.append_assoc, List.append_nil]) (by simp)
    unfold deserialize
    rw [if_neg (by omega), h₁, h₂, h₃, h₄, h₅]
    change Except.ok (true, (⟨previousHash, e.uint64 (e.bytes64 time), publicKey, signature,
      hash⟩ : TimeBlock)) = _
    rw [uint64_bytes64]

/-- A block that is read is its encoding. -/
theorem serialize_prefix_of_deserialize {b b' : TimeBlock} {data : Bytes}
    (h : b.deserialize e data = .ok (true, b')) : b'.serialize e <+: data := by
  obtain rfl := (deserialize_eq_true_iff e b b' data).mp h
  exact List.prefix_refl _

/-- The encoding of a block is not the beginning of the encoding of another one. -/
theorem eq_of_serialize_prefix {b b' : TimeBlock} (h : b'.serialize e <+: b.serialize e) :
    b' = b := by
  have heq : b'.serialize e = b.serialize e :=
    h.eq_of_length (by rw [length_serialize, length_serialize])
  have h₁ := (deserialize_eq_true_iff e b b' _).mpr rfl
  have h₂ := (deserialize_eq_true_iff e b b _).mpr heq
  rw [h₁] at h₂
  exact (Prod.mk.inj (Except.ok.inj h₂)).2

/-- A cut-off encoding is rejected: it is too short. -/
theorem deserialize_take (b b' : TimeBlock) {n : ℕ} (hn : n < (b'.serialize e).length) :
    b.deserialize e ((b'.serialize e).take n) = .ok (false, b) := by
  rw [length_serialize] at hn
  rw [deserialize, if_pos (by rw [List.length_take, length_serialize]; omega)]
  rfl

end TimeBlock

/-- A time block on the sample host, signed by its producer. -/
def signedTimeBlock (previousHash : Hash) (time : TimePoint) : TimeBlock :=
  let b := TimeBlock.new tagHost previousHash time tagKeys.publicKey
  b.setSignature tagHost
    (tagSignature (tagHost.sha256 (b.getDataToSign .little)) tagKeys.publicKey)

end CoinPlatform
