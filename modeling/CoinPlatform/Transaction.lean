/-
# Transactions

`Transaction` of `value_chain/transaction.cpp`: its fields, the bytes that are
signed and hashed, the codec and the signature check.

The decoder reads the data length from its input, so the sum it compares with the
size of the input can wrap around `2 ^ 64`.  `eq_serialize_of_deserialize` shows
that nothing is accepted that way: what the decoder accepts is exactly the encoding
of the transaction it returns, whatever the object held before.
-/
import CoinPlatform.Cryptography

open ByteOrder StdVector

namespace CoinPlatform

/-- `Transaction`; the derived equality compares all six fields, as `operator==`
does. -/
structure Transaction where
  senderPublicKey : PublicKey
  recipientPublicKey : PublicKey
  amount : UInt64
  data : Bytes
  signature : Signature
  hash : Hash
  deriving DecidableEq

namespace Transaction

/-- The default constructor. -/
def empty : Transaction where
  senderPublicKey := zeros 32
  recipientPublicKey := zeros 32
  amount := 0
  data := []
  signature := zeros 64
  hash := zeros 32

variable (e : Endian) (H : Host)

/-- The bytes that are signed. -/
def getDataToSign (tx : Transaction) : Bytes :=
  tx.senderPublicKey.toList ++ (tx.recipientPublicKey.toList ++ (e.bytes64 tx.amount ++
    (e.bytes64 (UInt64.ofNat tx.data.length) ++ tx.data)))

/-- `compute_hash`: the hash covers the signed bytes and the signature. -/
def computeHash (tx : Transaction) : Transaction :=
  { tx with hash := H.sha256 (tx.getDataToSign H.endian ++ tx.signature.toList) }

/-- The constructor of a new transaction, with a zero signature. -/
def new (senderPublicKey recipientPublicKey : PublicKey) (amount : UInt64) (data : Bytes) :
    Transaction :=
  computeHash H
    { empty with
      senderPublicKey := senderPublicKey
      recipientPublicKey := recipientPublicKey
      amount := amount
      data := data }

def setSignature (tx : Transaction) (signature : Signature) : Transaction :=
  computeHash H { tx with signature := signature }

/-- The hash field is the hash of the transaction. -/
def HashCorrect (tx : Transaction) : Prop :=
  tx.hash = H.sha256 (tx.getDataToSign H.endian ++ tx.signature.toList)

theorem hashCorrect_setSignature (tx : Transaction) (signature : Signature) :
    (tx.setSignature H signature).HashCorrect H := rfl

/-- An all-zero sender marks a coinbase transaction. -/
def isCoinbaseTransaction (tx : Transaction) : Bool :=
  tx.senderPublicKey.toList.all (· == 0)

/-- `verify`: coinbase transactions are not checked. -/
def verify (tx : Transaction) : Bool :=
  if tx.isCoinbaseTransaction then true
  else verifySignature H (tx.getDataToSign H.endian) tx.signature tx.senderPublicKey

/-! ## The codec -/

def serialize (tx : Transaction) : Bytes :=
  tx.senderPublicKey.toList ++ (tx.recipientPublicKey.toList ++ (e.bytes64 tx.amount ++
    (e.bytes64 (UInt64.ofNat tx.data.length) ++ (tx.data ++
      (tx.signature.toList ++ tx.hash.toList)))))

/-- `deserialize`: the result and the object it leaves, whose fields are assigned one
after the other, so a rejected input may have assigned some of them. -/
def deserialize (tx : Transaction) (data : Bytes) : Except Fault (Bool × Transaction) := do
  let offset := 0
  let some sender ← readArray data offset 32 | return (false, tx)
  let tx := { tx with senderPublicKey := sender }
  let offset := sizeAdd offset 32
  let some recipient ← readArray data offset 32 | return (false, tx)
  let tx := { tx with recipientPublicKey := recipient }
  let offset := sizeAdd offset 32
  let some amount ← readUInt64 e data offset | return (false, tx)
  let tx := { tx with amount := amount }
  let offset := sizeAdd offset 8
  let some dataSize ← readUInt64 e data offset | return (false, tx)
  let offset := sizeAdd offset 8
  -- the length is the sender's: this sum may wrap around
  if data.length < sizeAdd offset dataSize.toNat then return (false, tx)
  resize dataSize.toNat
  let tx := { tx with data := ← copyRange data offset dataSize.toNat }
  let offset := sizeAdd offset dataSize.toNat
  let some signature ← readArray data offset 64 | return (false, tx)
  let tx := { tx with signature := signature }
  let offset := sizeAdd offset 64
  let some hash ← readArray data offset 32 | return (false, tx)
  let tx := { tx with hash := hash }
  let offset := sizeAdd offset 32
  if offset ≠ data.length then return (false, tx)
  return (true, tx)

@[simp] theorem length_serialize (tx : Transaction) :
    (tx.serialize e).length = 176 + tx.data.length := by
  simp [serialize]
  omega

/-- **What is accepted is an encoding.**  The decoder accepts only the encoding of the
transaction it returns; a length that makes the sum wrap around faults in the copy. -/
theorem eq_serialize_of_deserialize {tx tx' : Transaction} {data : Bytes}
    (hlen : data.length < 2 ^ 64) (h : tx.deserialize e data = .ok (true, tx')) :
    data = tx'.serialize e := by
  unfold deserialize at h
  obtain ⟨_ | sender, h₁, h⟩ := bind_eq_ok.mp h
  · cases h
  obtain ⟨_ | recipient, h₂, h⟩ := bind_eq_ok.mp h
  · cases h
  obtain ⟨_ | amount, h₃, h⟩ := bind_eq_ok.mp h
  · cases h
  obtain ⟨_ | dataSize, h₄, h⟩ := bind_eq_ok.mp h
  · cases h
  simp only at h
  split at h
  · cases h
  obtain ⟨_, -, h⟩ := bind_eq_ok.mp h
  obtain ⟨d, h₅, h⟩ := bind_eq_ok.mp h
  obtain ⟨_ | signature, h₆, h⟩ := bind_eq_ok.mp h
  · cases h
  obtain ⟨_ | hash, h₇, h⟩ := bind_eq_ok.mp h
  · cases h
  simp only at h
  split at h
  · cases h
  rename_i hend
  cases h
  -- each read takes a prefix of what the one before it has left
  obtain ⟨-, d₁⟩ := drop_eq_of_readArray h₁
  obtain ⟨-, d₂⟩ := drop_eq_of_readArray h₂
  obtain ⟨-, d₃⟩ := drop_eq_of_readUInt64 h₃
  obtain ⟨-, d₄⟩ := drop_eq_of_readUInt64 h₄
  obtain ⟨hd, d₅⟩ := drop_eq_of_copyRange h₅
  obtain ⟨le₆, d₆⟩ := drop_eq_of_readArray h₆
  obtain ⟨le₇, d₇⟩ := drop_eq_of_readArray h₇
  change data.drop 0 = sender.toList ++ data.drop 32 at d₁
  change data.drop 32 = recipient.toList ++ data.drop 64 at d₂
  change data.drop 64 = e.bytes64 amount ++ data.drop 72 at d₃
  change data.drop 72 = e.bytes64 dataSize ++ data.drop 80 at d₄
  change data.drop 80 = d ++ data.drop (80 + dataSize.toNat) at d₅
  change copyRange data 80 dataSize.toNat = _ at h₅
  have le₅ := le_of_copyRange h₅
  have e₅ : sizeAdd 80 dataSize.toNat = 80 + dataSize.toNat := sizeAdd_of_lt (by omega)
  change sizeAdd (sizeAdd 80 dataSize.toNat) 64 + 32 ≤ data.length at le₇
  change sizeAdd 80 dataSize.toNat + 64 ≤ data.length at le₆
  change data.drop (sizeAdd 80 dataSize.toNat)
    = signature.toList ++ data.drop (sizeAdd 80 dataSize.toNat + 64) at d₆
  change data.drop (sizeAdd (sizeAdd 80 dataSize.toNat) 64)
    = hash.toList ++ data.drop (sizeAdd (sizeAdd 80 dataSize.toNat) 64 + 32) at d₇
  change ¬ sizeAdd (sizeAdd (sizeAdd 80 dataSize.toNat) 64) 32 ≠ data.length at hend
  rw [e₅] at le₆ le₇ d₆ d₇ hend
  have e₆ : sizeAdd (80 + dataSize.toNat) 64 = 80 + dataSize.toNat + 64 :=
    sizeAdd_of_lt (by omega)
  rw [e₆] at le₇ d₇ hend
  rw [sizeAdd_of_lt (by omega)] at hend
  have d₈ : data.drop (80 + dataSize.toNat + 64 + 32) = [] :=
    List.drop_eq_nil_of_le (by omega)
  have hsize : UInt64.ofNat d.length = dataSize := by rw [hd, UInt64.ofNat_toNat]
  calc data = data.drop 0 := rfl
    _ = _ := by rw [d₁, d₂, d₃, d₄, d₅, d₆, d₇, d₈]
    _ = serialize e ⟨sender, recipient, amount, d, signature, hash⟩ := by
      simp [serialize, hsize]

/-- **Decoding undoes encoding**, whatever the object held before. -/
theorem deserialize_serialize (tx tx' : Transaction)
    (hlen : (tx'.serialize e).length ≤ maxSize) :
    tx.deserialize e (tx'.serialize e) = .ok (true, tx') := by
  rw [length_serialize, maxSize] at hlen
  obtain ⟨sender, recipient, amount, d, signature, hash⟩ := tx'
  simp only at hlen
  set data := serialize e ⟨sender, recipient, amount, d, signature, hash⟩ with hdata
  have hsize : (UInt64.ofNat d.length).toNat = d.length :=
    UInt64.toNat_ofNat_of_lt' (by change d.length < 2 ^ 64; omega)
  have hdl : data.length = 176 + d.length := length_serialize e _
  -- the field at each offset, by the bytes in front of it
  have h₁ : readArray data 0 32 = .ok (some sender) :=
    readArray_of_eq [] _ hdata rfl (by omega)
  have h₂ : readArray data 32 32 = .ok (some recipient) :=
    readArray_of_eq sender.toList _ hdata (by simp) (by omega)
  have h₃ : readUInt64 e data 64 = .ok (some amount) :=
    readUInt64_of_eq (sender.toList ++ recipient.toList) _
      (by rw [hdata, serialize, List.append_assoc]) (by simp) (by omega)
  have h₄ : readUInt64 e data 72 = .ok (some (UInt64.ofNat d.length)) :=
    readUInt64_of_eq (sender.toList ++ recipient.toList ++ e.bytes64 amount) _
      (by rw [hdata, serialize]; simp only [List.append_assoc]; rfl) (by simp) (by omega)
  have h₅ : copyRange data 80 d.length = .ok d :=
    copyRange_of_eq (sender.toList ++ recipient.toList ++ e.bytes64 amount ++
        e.bytes64 (UInt64.ofNat d.length)) _
      (by rw [hdata, serialize]; simp only [List.append_assoc]; rfl) (by simp) rfl
  have h₆ : readArray data (80 + d.length) 64 = .ok (some signature) :=
    readArray_of_eq (sender.toList ++ recipient.toList ++ e.bytes64 amount ++
        e.bytes64 (UInt64.ofNat d.length) ++ d) _
      (by rw [hdata, serialize]; simp only [List.append_assoc]; rfl) (by simp; omega) (by omega)
  have h₇ : readArray data (80 + d.length + 64) 32 = .ok (some hash) :=
    readArray_of_eq (sender.toList ++ recipient.toList ++ e.bytes64 amount ++
        e.bytes64 (UInt64.ofNat d.length) ++ d ++ signature.toList) []
      (by rw [hdata, serialize]; simp only [List.append_assoc, List.append_nil])
      (by simp; omega) (by omega)
  -- none of the sums wraps around
  have s₅ : sizeAdd 80 d.length = 80 + d.length := sizeAdd_of_lt (by omega)
  have s₆ : sizeAdd (80 + d.length) 64 = 80 + d.length + 64 := sizeAdd_of_lt (by omega)
  have s₇ : sizeAdd (80 + d.length + 64) 32 = 80 + d.length + 64 + 32 :=
    sizeAdd_of_lt (by omega)
  have hin : ¬ data.length < 80 + d.length := by omega
  have hend : ¬ 80 + d.length + 64 + 32 ≠ data.length := by omega
  have hres : resize d.length = .ok () := resize_of_le (by rw [maxSize]; omega)
  unfold deserialize
  simp only [bind, Except.bind, pure, Except.pure, h₁, show sizeAdd 0 32 = 32 from rfl, h₂,
    show sizeAdd 32 32 = 64 from rfl, h₃, show sizeAdd 64 8 = 72 from rfl, h₄,
    show sizeAdd 72 8 = 80 from rfl, hsize, s₅, hin, if_false, hres, h₅, h₆, s₆, h₇, s₇, hend]

end Transaction

/-- A payment on the sample host with any amount and data, signed by its sender. -/
def signedPayment (amount : UInt64) (data : Bytes) : Transaction :=
  let tx := Transaction.new tagHost tagKeys.publicKey (List.Vector.replicate 32 2) amount data
  tx.setSignature tagHost
    (tagSignature (tagHost.sha256 (tx.getDataToSign .little)) tagKeys.publicKey)

end CoinPlatform
