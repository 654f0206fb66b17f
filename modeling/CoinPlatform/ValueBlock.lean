/-
# Value blocks

`ValueBlock` of `value_chain/value_block.cpp`.  Its transactions are written one
after the other, each behind its size, and the decoder reads as many of them as a
64-bit count in the input says.

* `deserialize_serialize_append`: an encoding, followed by anything, decodes to the
  block that was encoded;
* `exists_eq_serialize_append`: what is accepted starts with the encoding of the
  block that is returned;
* `deserialize_take`: an encoding that is cut off is rejected.

The bytes after the hash are not looked at, so unlike the decoders of `Transaction`
and `TimeBlock` this one does not determine its input.
-/
import CoinPlatform.Transaction

open ByteOrder StdVector

namespace CoinPlatform

structure ValueBlock where
  previousHash : Hash
  timeBlockHash : Hash
  time : TimePoint
  transactions : List Transaction
  publicKey : PublicKey
  signature : Signature
  hash : Hash
  deriving DecidableEq

namespace ValueBlock

/-- The default constructor. -/
def empty : ValueBlock where
  previousHash := zeros 32
  timeBlockHash := zeros 32
  time := 0
  transactions := []
  publicKey := zeros 32
  signature := zeros 64
  hash := zeros 32

variable (e : Endian) (H : Host)

/-- The transactions of a block, each behind its size. -/
def serializeTransactions (txs : List Transaction) : Bytes :=
  txs.flatMap fun tx => e.bytes64 (UInt64.ofNat (tx.serialize e).length) ++ tx.serialize e

/-- The bytes that are signed. -/
def getDataToSign (b : ValueBlock) : Bytes :=
  b.previousHash.toList ++ (b.timeBlockHash.toList ++ (e.bytes64 b.time ++
    (e.bytes64 (UInt64.ofNat b.transactions.length) ++
      (serializeTransactions e b.transactions ++ b.publicKey.toList))))

/-- `compute_hash`: the hash covers the signed bytes and the signature. -/
def computeHash (b : ValueBlock) : ValueBlock :=
  { b with hash := H.sha256 (b.getDataToSign H.endian ++ b.signature.toList) }

/-- The constructor of a new block, with a zero signature. -/
def new (previousHash timeBlockHash : Hash) (time : TimePoint) (transactions : List Transaction)
    (publicKey : PublicKey) : ValueBlock :=
  computeHash H
    { empty with
      previousHash := previousHash
      timeBlockHash := timeBlockHash
      time := time
      transactions := transactions
      publicKey := publicKey }

def setSignature (b : ValueBlock) (signature : Signature) : ValueBlock :=
  computeHash H { b with signature := signature }

/-- The hash field is the hash of the block. -/
def HashCorrect (b : ValueBlock) : Prop :=
  b.hash = H.sha256 (b.getDataToSign H.endian ++ b.signature.toList)

theorem hashCorrect_setSignature (b : ValueBlock) (signature : Signature) :
    (b.setSignature H signature).HashCorrect H := rfl

/-! ## The codec -/

def serialize (b : ValueBlock) : Bytes :=
  b.previousHash.toList ++ (b.timeBlockHash.toList ++ (e.bytes64 b.time ++
    (e.bytes64 (UInt64.ofNat b.transactions.length) ++
      (serializeTransactions e b.transactions ++
        (b.publicKey.toList ++ (b.signature.toList ++ b.hash.toList))))))

/-- The loop of `deserialize` over the transactions: how many are left, the offset and
the transactions read so far. -/
def deserializeTransactions (data : Bytes) :
    ℕ → ℕ → List Transaction → Except Fault (Bool × ℕ × List Transaction)
  | 0, offset, txs => return (true, offset, txs)
  | n + 1, offset, txs => do
    let some txSize ← readUInt64 e data offset | return (false, offset, txs)
    let offset := sizeAdd offset 8
    -- the size is the sender's: this sum may wrap around
    if data.length < sizeAdd offset txSize.toNat then return (false, offset, txs)
    resize txSize.toNat
    let txBytes ← copyRange data offset txSize.toNat
    let offset := sizeAdd offset txSize.toNat
    let (ok, tx) ← Transaction.empty.deserialize e txBytes
    if !ok then return (false, offset, txs)
    deserializeTransactions data n offset (txs ++ [tx])

/-- `deserialize`: the result and the object it leaves. -/
def deserialize (b : ValueBlock) (data : Bytes) : Except Fault (Bool × ValueBlock) := do
  let offset := 0
  let some previousHash ← readArray data offset 32 | return (false, b)
  let b := { b with previousHash := previousHash }
  let offset := sizeAdd offset 32
  let some timeBlockHash ← readArray data offset 32 | return (false, b)
  let b := { b with timeBlockHash := timeBlockHash }
  let offset := sizeAdd offset 32
  let some time ← readUInt64 e data offset | return (false, b)
  let b := { b with time := time }
  let offset := sizeAdd offset 8
  let some numTransactions ← readUInt64 e data offset | return (false, b)
  let offset := sizeAdd offset 8
  let (ok, offset, txs) ← deserializeTransactions e data numTransactions.toNat offset []
  let b := { b with transactions := txs }
  if !ok then return (false, b)
  let some publicKey ← readArray data offset 32 | return (false, b)
  let b := { b with publicKey := publicKey }
  let offset := sizeAdd offset 32
  let some signature ← readArray data offset 64 | return (false, b)
  let b := { b with signature := signature }
  let offset := sizeAdd offset 64
  let some hash ← readArray data offset 32 | return (false, b)
  let b := { b with hash := hash }
  return (true, b)

/-! ### Sizes -/

@[simp] theorem serializeTransactions_nil : serializeTransactions e [] = [] := rfl

@[simp] theorem serializeTransactions_cons (tx : Transaction) (txs : List Transaction) :
    serializeTransactions e (tx :: txs)
      = e.bytes64 (UInt64.ofNat (tx.serialize e).length) ++
        (tx.serialize e ++ serializeTransactions e txs) := by
  simp [serializeTransactions]

/-- A transaction takes at least 184 bytes of a block. -/
theorem length_le_serializeTransactions (txs : List Transaction) :
    184 * txs.length ≤ (serializeTransactions e txs).length := by
  induction txs with
  | nil => simp
  | cons tx txs ih =>
      simp only [serializeTransactions_cons, List.length_append, length_bytes64,
        Transaction.length_serialize, List.length_cons]
      omega

theorem length_serialize (b : ValueBlock) :
    (b.serialize e).length = 208 + (serializeTransactions e b.transactions).length := by
  simp [serialize]
  omega

/-! ### What is accepted -/

/-- The loop reads the encodings of the transactions it returns. -/
theorem deserializeTransactions_sound {data : Bytes} (hlen : data.length < 2 ^ 64) (n : ℕ) :
    ∀ {offset offset' : ℕ} {txs txs' : List Transaction},
      deserializeTransactions e data n offset txs = .ok (true, offset', txs') →
      ∃ new, txs' = txs ++ new ∧ new.length = n ∧
        data.drop offset = serializeTransactions e new ++ data.drop offset' := by
  induction n with
  | zero =>
      intro offset offset' txs txs' h
      cases h
      exact ⟨[], by simp⟩
  | succ n ih =>
      intro offset offset' txs txs' h
      unfold deserializeTransactions at h
      obtain ⟨_ | txSize, h₁, h⟩ := bind_eq_ok.mp h
      · cases h
      simp only at h
      split at h
      · cases h
      obtain ⟨_, -, h⟩ := bind_eq_ok.mp h
      obtain ⟨txBytes, h₂, h⟩ := bind_eq_ok.mp h
      obtain ⟨⟨ok, tx⟩, h₃, h⟩ := bind_eq_ok.mp h
      cases ok with
      | false => cases h
      | true =>
          simp only [Bool.not_true, Bool.false_eq_true, if_false] at h
          obtain ⟨le₁, d₁⟩ := drop_eq_of_readUInt64 h₁
          have s₁ : sizeAdd offset 8 = offset + 8 := sizeAdd_of_lt (by omega)
          rw [s₁] at h₂ h
          obtain ⟨hn, d₂⟩ := drop_eq_of_copyRange h₂
          have le₂ := le_of_copyRange h₂
          have s₂ : sizeAdd (offset + 8) txSize.toNat = offset + 8 + txSize.toNat :=
            sizeAdd_of_lt (by omega)
          rw [s₂] at h
          -- the loop goes on behind the transaction
          obtain ⟨new, rfl, hnew, d₃⟩ := ih h
          -- the decoder of the transaction leaves no byte over
          have hbytes : txBytes = tx.serialize e :=
            Transaction.eq_serialize_of_deserialize e (by omega) h₃
          have hsize : UInt64.ofNat (tx.serialize e).length = txSize := by
            rw [← hbytes, hn, UInt64.ofNat_toNat]
          refine ⟨tx :: new, by simp, by simp [hnew], ?_⟩
          rw [d₁, d₂, d₃, serializeTransactions_cons, hsize, hbytes]
          simp only [List.append_assoc]

/-- **What is accepted starts with an encoding**, that of the block returned. -/
theorem exists_eq_serialize_append {b b' : ValueBlock} {data : Bytes}
    (hlen : data.length < 2 ^ 64) (h : b.deserialize e data = .ok (true, b')) :
    ∃ rest, data = b'.serialize e ++ rest := by
  unfold deserialize at h
  obtain ⟨_ | previousHash, h₁, h⟩ := bind_eq_ok.mp h
  · cases h
  obtain ⟨_ | timeBlockHash, h₂, h⟩ := bind_eq_ok.mp h
  · cases h
  obtain ⟨_ | time, h₃, h⟩ := bind_eq_ok.mp h
  · cases h
  obtain ⟨_ | num, h₄, h⟩ := bind_eq_ok.mp h
  · cases h
  obtain ⟨⟨ok, offset, txs⟩, h₅, h⟩ := bind_eq_ok.mp h
  cases ok with
  | false => cases h
  | true =>
      simp only [Bool.not_true, Bool.false_eq_true, if_false] at h
      obtain ⟨_ | publicKey, h₆, h⟩ := bind_eq_ok.mp h
      · cases h
      obtain ⟨_ | signature, h₇, h⟩ := bind_eq_ok.mp h
      · cases h
      obtain ⟨_ | hash, h₈, h⟩ := bind_eq_ok.mp h
      · cases h
      cases h
      obtain ⟨-, d₁⟩ := drop_eq_of_readArray h₁
      obtain ⟨-, d₂⟩ := drop_eq_of_readArray h₂
      obtain ⟨-, d₃⟩ := drop_eq_of_readUInt64 h₃
      obtain ⟨-, d₄⟩ := drop_eq_of_readUInt64 h₄
      obtain ⟨new, hnew, hcount, d₅⟩ := deserializeTransactions_sound e hlen _ h₅
      obtain rfl : txs = new := hnew
      obtain ⟨le₆, d₆⟩ := drop_eq_of_readArray h₆
      have s₆ : sizeAdd offset 32 = offset + 32 := sizeAdd_of_lt (by omega)
      rw [s₆] at h₇ h₈
      obtain ⟨le₇, d₇⟩ := drop_eq_of_readArray h₇
      have s₇ : sizeAdd (offset + 32) 64 = offset + 32 + 64 := sizeAdd_of_lt (by omega)
      rw [s₇] at h₈
      obtain ⟨-, d₈⟩ := drop_eq_of_readArray h₈
      change data.drop 0 = previousHash.toList ++ data.drop 32 at d₁
      change data.drop 32 = timeBlockHash.toList ++ data.drop 64 at d₂
      change data.drop 64 = e.bytes64 time ++ data.drop 72 at d₃
      change data.drop 72 = e.bytes64 num ++ data.drop 80 at d₄
      change data.drop 80 = _ at d₅
      have hnum : UInt64.ofNat txs.length = num := by rw [hcount, UInt64.ofNat_toNat]
      refine ⟨data.drop (offset + 32 + 64 + 32), ?_⟩
      calc data = data.drop 0 := rfl
        _ = _ := by rw [d₁, d₂, d₃, d₄, d₅, d₆, d₇, d₈]
        _ = _ := by simp [serialize, hnum]

/-! ### What is written is read back -/

/-- The loop finds the transactions that were written at its offset, and goes on behind
them. -/
theorem deserializeTransactions_append (txs : List Transaction) (n : ℕ) :
    ∀ (pre post : Bytes) {data : Bytes} {offset : ℕ} (acc : List Transaction),
      data = pre ++ (serializeTransactions e txs ++ post) → pre.length = offset →
      data.length ≤ maxSize →
      deserializeTransactions e data (txs.length + n) offset acc
        = deserializeTransactions e data n (offset + (serializeTransactions e txs).length)
          (acc ++ txs) := by
  induction txs with
  | nil =>
      intro pre post data offset acc _ _ _
      simp
  | cons tx txs ih =>
      intro pre post data offset acc hdata hoffset hlen
      rw [serializeTransactions_cons] at hdata
      set size := UInt64.ofNat (tx.serialize e).length with hsizedef
      have hdl : data.length = offset + (8 + ((tx.serialize e).length +
          (serializeTransactions e txs).length) + post.length) := by
        rw [hdata, ← hoffset]
        simp only [List.length_append, length_bytes64]
      rw [maxSize] at hlen
      -- the size fits into 64 bits, since the encoding fits into a vector
      have hsize : size.toNat = (tx.serialize e).length :=
        UInt64.toNat_ofNat_of_lt' (by change _ < 2 ^ 64; omega)
      have h₁ : readUInt64 e data offset = .ok (some size) :=
        readUInt64_of_eq pre _ (by rw [hdata, List.append_assoc]) hoffset (by omega)
      have h₂ : copyRange data (offset + 8) (tx.serialize e).length = .ok (tx.serialize e) :=
        copyRange_of_eq (pre ++ e.bytes64 size) _
          (by rw [hdata]; simp only [List.append_assoc]; rfl) (by simp [hoffset]) rfl
      have h₃ : Transaction.empty.deserialize e (tx.serialize e) = .ok (true, tx) :=
        Transaction.deserialize_serialize e _ _ (by rw [maxSize]; omega)
      have h₄ : deserializeTransactions e data (txs.length + n)
          (offset + 8 + (tx.serialize e).length) (acc ++ [tx])
            = deserializeTransactions e data n (offset + 8 + (tx.serialize e).length +
              (serializeTransactions e txs).length) (acc ++ [tx] ++ txs) :=
        ih (pre ++ (e.bytes64 size ++ tx.serialize e)) post (acc ++ [tx])
        (by rw [hdata]; simp only [List.append_assoc])
        (by simp [hoffset]; omega) (by rw [maxSize]; omega)
      have s₁ : sizeAdd offset 8 = offset + 8 := sizeAdd_of_lt (by omega)
      have s₂ : sizeAdd (offset + 8) (tx.serialize e).length
          = offset + 8 + (tx.serialize e).length := sizeAdd_of_lt (by omega)
      have hin : ¬ data.length < offset + 8 + (tx.serialize e).length := by omega
      have hres : resize (tx.serialize e).length = .ok () :=
        resize_of_le (by rw [maxSize]; omega)
      have hoffset' : offset + (serializeTransactions e (tx :: txs)).length
          = offset + 8 + (tx.serialize e).length + (serializeTransactions e txs).length := by
        simp only [serializeTransactions_cons, List.length_append, length_bytes64]
        omega
      rw [List.length_cons, Nat.succ_add, hoffset']
      conv_lhs => unfold deserializeTransactions
      simp only [bind, Except.bind, h₁, hsize, s₁, s₂, hin, if_false, hres, h₂, h₃,
        Bool.not_true, Bool.false_eq_true, h₄, List.append_assoc, List.singleton_append]

/-- **Decoding undoes encoding**, whatever the object held before and whatever follows
the encoding. -/
theorem deserialize_serialize_append (b b' : ValueBlock) (rest : Bytes)
    (hlen : (b'.serialize e ++ rest).length ≤ maxSize) :
    b.deserialize e (b'.serialize e ++ rest) = .ok (true, b') := by
  obtain ⟨previousHash, timeBlockHash, time, txs, publicKey, signature, hash⟩ := b'
  set data := serialize e ⟨previousHash, timeBlockHash, time, txs, publicKey, signature, hash⟩
    ++ rest with hdata
  have hdl : data.length = 208 + (serializeTransactions e txs).length + rest.length := by
    rw [hdata, List.length_append, length_serialize]
  simp only [serialize, List.append_assoc] at hdata
  have hmin := length_le_serializeTransactions e txs
  rw [maxSize] at hlen
  -- the count fits into 64 bits, since every transaction takes some bytes
  have hcount : (UInt64.ofNat txs.length).toNat = txs.length :=
    UInt64.toNat_ofNat_of_lt' (by change txs.length < 2 ^ 64; omega)
  have h₁ : readArray data 0 32 = .ok (some previousHash) :=
    readArray_of_eq [] _ hdata rfl (by omega)
  have h₂ : readArray data 32 32 = .ok (some timeBlockHash) :=
    readArray_of_eq previousHash.toList _ hdata (by simp) (by omega)
  have h₃ : readUInt64 e data 64 = .ok (some time) :=
    readUInt64_of_eq (previousHash.toList ++ timeBlockHash.toList) _
      (by rw [hdata, List.append_assoc]) (by simp) (by omega)
  have h₄ : readUInt64 e data 72 = .ok (some (UInt64.ofNat txs.length)) :=
    readUInt64_of_eq (previousHash.toList ++ timeBlockHash.toList ++ e.bytes64 time) _
      (by rw [hdata]; simp only [List.append_assoc]; rfl) (by simp) (by omega)
  have h₅ : deserializeTransactions e data txs.length 80 []
      = .ok (true, 80 + (serializeTransactions e txs).length, [] ++ txs) :=
    deserializeTransactions_append e txs 0
      (previousHash.toList ++ timeBlockHash.toList ++ e.bytes64 time ++
        e.bytes64 (UInt64.ofNat txs.length)) _ []
      (by rw [hdata]; simp only [List.append_assoc]; rfl) (by simp) (by rw [maxSize]; omega)
  set offset := 80 + (serializeTransactions e txs).length with hoffset
  have h₆ : readArray data offset 32 = .ok (some publicKey) :=
    readArray_of_eq (previousHash.toList ++ timeBlockHash.toList ++ e.bytes64 time ++
        e.bytes64 (UInt64.ofNat txs.length) ++ serializeTransactions e txs) _
      (by rw [hdata]; simp only [List.append_assoc]; rfl) (by simp; omega) (by omega)
  have h₇ : readArray data (offset + 32) 64 = .ok (some signature) :=
    readArray_of_eq (previousHash.toList ++ timeBlockHash.toList ++ e.bytes64 time ++
        e.bytes64 (UInt64.ofNat txs.length) ++ serializeTransactions e txs ++ publicKey.toList) _
      (by rw [hdata]; simp only [List.append_assoc]; rfl) (by simp; omega) (by omega)
  have h₈ : readArray data (offset + 32 + 64) 32 = .ok (some hash) :=
    readArray_of_eq (previousHash.toList ++ timeBlockHash.toList ++ e.bytes64 time ++
        e.bytes64 (UInt64.ofNat txs.length) ++ serializeTransactions e txs ++
        publicKey.toList ++ signature.toList) _
      (by rw [hdata]; simp only [List.append_assoc]; rfl) (by simp; omega) (by omega)
  have s₆ : sizeAdd offset 32 = offset + 32 := sizeAdd_of_lt (by omega)
  have s₇ : sizeAdd (offset + 32) 64 = offset + 32 + 64 := sizeAdd_of_lt (by omega)
  unfold deserialize
  simp only [bind, Except.bind, pure, Except.pure, h₁, show sizeAdd 0 32 = 32 from rfl, h₂,
    show sizeAdd 32 32 = 64 from rfl, h₃, show sizeAdd 64 8 = 72 from rfl, h₄,
    show sizeAdd 72 8 = 80 from rfl, hcount, h₅, List.nil_append, Bool.not_true,
    Bool.false_eq_true, if_false, h₆, s₆, h₇, s₇, h₈]

theorem deserialize_serialize (b b' : ValueBlock) (hlen : (b'.serialize e).length ≤ maxSize) :
    b.deserialize e (b'.serialize e) = .ok (true, b') := by
  have h := deserialize_serialize_append e b b' [] (by rwa [List.append_nil])
  rwa [List.append_nil] at h

/-- A block that is read starts with its encoding. -/
theorem serialize_prefix_of_deserialize {b b' : ValueBlock} {data : Bytes}
    (hlen : data.length ≤ maxSize) (h : b.deserialize e data = .ok (true, b')) :
    b'.serialize e <+: data := by
  have hlt : data.length < 2 ^ 64 := by
    rw [maxSize] at hlen
    omega
  obtain ⟨rest, hrest⟩ := exists_eq_serialize_append e hlt h
  exact ⟨rest, hrest.symm⟩

/-- The encoding of a block is not the beginning of the encoding of another one. -/
theorem eq_of_serialize_prefix {b b' : ValueBlock} (hlen : (b.serialize e).length ≤ maxSize)
    (h : b'.serialize e <+: b.serialize e) : b' = b := by
  obtain ⟨rest, hrest⟩ := h
  -- the longer encoding decodes to both blocks
  have h₁ := deserialize_serialize e empty b hlen
  have h₂ := deserialize_serialize_append e empty b' rest (by rwa [hrest])
  rw [hrest, h₁] at h₂
  exact (Prod.mk.inj (Except.ok.inj h₂)).2.symm

/-- The decoder returns as soon as its loop does, without having left the input. -/
theorem exists_deserialize_of_loop {data : Bytes} (hmax : data.length < 2 ^ 63)
    (hloop : ∀ count, readUInt64 e data 72 = .ok (some count) →
      ∃ r, deserializeTransactions e data count.toNat 80 [] = .ok r ∧
        (r.1 = true → r.2.1 ≤ data.length)) (b : ValueBlock) :
    ∃ r, b.deserialize e data = .ok r := by
  unfold deserialize
  refine exists_bind_read (exists_readArray (by decide)) ⟨_, rfl⟩ (fun previousHash _ => ?_)
  refine exists_bind_read (exists_readArray (by decide)) ⟨_, rfl⟩ (fun timeBlockHash _ => ?_)
  refine exists_bind_read (exists_readUInt64 (by decide)) ⟨_, rfl⟩ (fun time _ => ?_)
  refine exists_bind_read (exists_readUInt64 (by decide)) ⟨_, rfl⟩ (fun count hcount => ?_)
  obtain ⟨⟨ok, offset, txs⟩, hr, hcome⟩ := hloop count hcount
  refine exists_bind_eq_ok ⟨_, hr⟩ (fun r hr' => ?_)
  obtain rfl := Except.ok.inj (hr.symm.trans hr')
  cases ok with
  | false => exact ⟨_, rfl⟩
  | true =>
  have hoffset : offset ≤ data.length := hcome rfl
  have s₆ : sizeAdd offset 32 = offset + 32 := sizeAdd_of_lt (by omega)
  have s₇ : sizeAdd (offset + 32) 64 = offset + 32 + 64 := sizeAdd_of_lt (by omega)
  simp only [Bool.not_true, Bool.false_eq_true, if_false, s₆, s₇]
  refine exists_bind_read (exists_readArray (by omega)) ⟨_, rfl⟩ (fun publicKey _ => ?_)
  refine exists_bind_read (exists_readArray (by omega)) ⟨_, rfl⟩ (fun signature _ => ?_)
  exact exists_bind_read (exists_readArray (by omega)) ⟨_, rfl⟩ (fun hash _ => ⟨_, rfl⟩)

/-! ### Cut-off encodings -/

/-- Over a cut-off encoding the loop ends normally; where it reads all transactions, it has
not come to the cut. -/
theorem exists_deserializeTransactions_take (txs : List Transaction) :
    ∀ (pre post : Bytes) {data : Bytes} {offset n : ℕ} (acc : List Transaction),
      data = pre ++ (serializeTransactions e txs ++ post) → pre.length = offset →
      data.length ≤ maxSize → offset ≤ n → n ≤ data.length →
      ∃ r, deserializeTransactions e (data.take n) txs.length offset acc = .ok r ∧
        (r.1 = true → r.2.1 ≤ n) := by
  induction txs with
  | nil =>
      intro pre post data offset n acc _ _ _ hn _
      exact ⟨(true, offset, acc), rfl, fun _ => hn⟩
  | cons tx txs ih =>
      intro pre post data offset n acc hdata hoffset hlen hn hle
      have hmax : data.length < 2 ^ 63 := by
        rw [maxSize] at hlen
        omega
      rw [serializeTransactions_cons] at hdata
      set size := UInt64.ofNat (tx.serialize e).length with hsizedef
      have hdl : data.length = offset + (8 + ((tx.serialize e).length +
          (serializeTransactions e txs).length) + post.length) := by
        rw [hdata, ← hoffset]
        simp only [List.length_append, length_bytes64]
      have hsize : size.toNat = (tx.serialize e).length :=
        UInt64.toNat_ofNat_of_lt' (by change _ < 2 ^ 64; omega)
      have hcut : (data.take n).length = n := by rw [List.length_take]; omega
      rw [List.length_cons]
      unfold deserializeTransactions
      obtain ⟨o, ho⟩ : ∃ o, readUInt64 e (data.take n) offset = .ok o :=
        exists_readUInt64 (by omega)
      cases o with
      | none => exact ⟨(false, offset, acc), by rw [ho]; rfl, fun h => absurd h Bool.false_ne_true⟩
      | some txSize =>
          obtain ⟨hfit, -⟩ := drop_eq_of_readUInt64 ho
          rw [hcut] at hfit
          -- the size lies before the cut, so it is the one that was written
          have htake : data.take n = pre ++ (e.bytes64 size ++ (tx.serialize e ++
              (serializeTransactions e txs ++ post)).take (n - pre.length - 8)) := by
            rw [hdata, List.append_assoc, List.append_assoc, ← length_bytes64 e size]
            exact take_append_append (by rw [length_bytes64]; omega)
          have hread : readUInt64 e (data.take n) offset = .ok (some size) :=
            readUInt64_of_eq pre _ htake hoffset (by omega)
          obtain rfl : size = txSize := by
            rw [hread] at ho
            exact Option.some.inj (Except.ok.inj ho)
          have s₁ : sizeAdd offset 8 = offset + 8 := sizeAdd_of_lt (by omega)
          have s₂ : sizeAdd (offset + 8) (tx.serialize e).length
              = offset + 8 + (tx.serialize e).length := sizeAdd_of_lt (by omega)
          by_cases hin : n < offset + 8 + (tx.serialize e).length
          · refine ⟨(false, offset + 8, acc), ?_, fun h => absurd h Bool.false_ne_true⟩
            simp only [bind, Except.bind, hread, hsize, s₁, s₂, hcut, hin, if_true, pure,
              Except.pure]
          · have htake₂ : data.take n = (pre ++ e.bytes64 size) ++ (tx.serialize e ++
                (serializeTransactions e txs ++ post).take
                  (n - (pre ++ e.bytes64 size).length - (tx.serialize e).length)) := by
              rw [← take_append_append (by rw [List.length_append, length_bytes64]; omega), hdata]
              simp only [List.append_assoc]
            have h₂ : copyRange (data.take n) (offset + 8) (tx.serialize e).length
                = .ok (tx.serialize e) :=
              copyRange_of_eq (pre ++ e.bytes64 size) _ htake₂ (by simp [hoffset]) rfl
            have h₃ : Transaction.empty.deserialize e (tx.serialize e) = .ok (true, tx) :=
              Transaction.deserialize_serialize e _ _ (by rw [maxSize]; omega)
            have hres : resize (tx.serialize e).length = .ok () :=
              resize_of_le (by rw [maxSize]; omega)
            have hdata₂ : data = (pre ++ (e.bytes64 size ++ tx.serialize e)) ++
                (serializeTransactions e txs ++ post) := by
              rw [hdata]
              simp only [List.append_assoc]
            have hoffset₂ : (pre ++ (e.bytes64 size ++ tx.serialize e)).length
                = offset + 8 + (tx.serialize e).length := by
              simp only [List.length_append, length_bytes64, hoffset]
              omega
            obtain ⟨r, hr, hcome⟩ := ih (pre ++ (e.bytes64 size ++ tx.serialize e)) post
              (acc ++ [tx]) hdata₂ hoffset₂ hlen (n := n) (by omega) hle
            refine ⟨r, ?_, hcome⟩
            simp only [bind, Except.bind, hread, hsize, s₁, s₂, hcut, hin, if_false, hres, h₂, h₃,
              Bool.not_true, Bool.false_eq_true, hr]

/-- **A cut-off encoding is rejected**, and no read leaves it. -/
theorem deserialize_take (b b' : ValueBlock) {n : ℕ} (hlen : (b'.serialize e).length ≤ maxSize)
    (hn : n < (b'.serialize e).length) :
    ∃ b'', b.deserialize e ((b'.serialize e).take n) = .ok (false, b'') := by
  set data := b'.serialize e with hdata
  have hmax : data.length < 2 ^ 63 := by
    rw [maxSize] at hlen
    omega
  have hdl : data.length = 208 + (serializeTransactions e b'.transactions).length := by
    rw [hdata, length_serialize]
  have hmin := length_le_serializeTransactions e b'.transactions
  have hcut : (data.take n).length = n := by rw [List.length_take]; omega
  have hok : ∃ r, b.deserialize e (data.take n) = .ok r := by
    refine exists_deserialize_of_loop e (by omega) (fun num h₄ => ?_) b
    obtain ⟨hfit, -⟩ := drop_eq_of_readUInt64 h₄
    rw [hcut] at hfit
    change 72 + 8 ≤ n at hfit
    -- the count lies before the cut, so the loop runs over the transactions of the block
    obtain ⟨pre, post, hpre, hsplit⟩ : ∃ pre post : Bytes, pre.length = 72 ∧
        data = pre ++ (e.bytes64 (UInt64.ofNat b'.transactions.length) ++
          (serializeTransactions e b'.transactions ++ post)) := by
      refine ⟨b'.previousHash.toList ++ b'.timeBlockHash.toList ++ e.bytes64 b'.time,
        b'.publicKey.toList ++ (b'.signature.toList ++ b'.hash.toList), by simp, ?_⟩
      rw [hdata, serialize]
      simp only [List.append_assoc]
    set num' := UInt64.ofNat b'.transactions.length with hnum'
    have htake : data.take n = pre ++ (e.bytes64 num' ++
        (serializeTransactions e b'.transactions ++ post).take (n - pre.length - 8)) := by
      rw [hsplit, ← length_bytes64 e num']
      exact take_append_append (by rw [length_bytes64]; omega)
    have hread : readUInt64 e (data.take n) 72 = .ok (some num') :=
      readUInt64_of_eq pre _ htake hpre (by decide)
    obtain rfl : num' = num := Option.some.inj (Except.ok.inj (hread.symm.trans h₄))
    have hcount : num'.toNat = b'.transactions.length :=
      UInt64.toNat_ofNat_of_lt' (by
        change b'.transactions.length < 2 ^ 64
        omega)
    have hsplit₂ : data = (pre ++ e.bytes64 num') ++
        (serializeTransactions e b'.transactions ++ post) := by
      rw [hsplit]
      simp only [List.append_assoc]
    have hoffset₀ : (pre ++ e.bytes64 num').length = 80 := by simp [hpre]
    obtain ⟨⟨ok, offset, txs⟩, hloop, hcome⟩ := exists_deserializeTransactions_take e
      b'.transactions (pre ++ e.bytes64 num') post [] hsplit₂ hoffset₀ hlen (n := n) (by omega)
      (by omega)
    rw [← hcount] at hloop
    exact ⟨_, hloop, by rwa [hcut]⟩
  obtain ⟨⟨ok, b''⟩, hr⟩ := hok
  cases ok with
  | false => exact ⟨b'', hr⟩
  | true =>
      have hpre := serialize_prefix_of_deserialize e (by omega) hr
      have heq := eq_of_serialize_prefix e hlen (hpre.trans (List.take_prefix n _))
      have hle := hpre.length_le
      rw [heq, ← hdata, hcut] at hle
      omega

end ValueBlock

/-- The transaction that issues the coins of a block: zero sender, 50 coins for the key of
the block. -/
structure Transaction.IsCoinbaseOf (coinbase : Transaction) (b : ValueBlock) : Prop where
  zeroSender : coinbase.isCoinbaseTransaction = true
  amount : coinbase.amount = 50
  recipient : coinbase.recipientPublicKey = b.publicKey

instance (coinbase : Transaction) (b : ValueBlock) : Decidable (coinbase.IsCoinbaseOf b) :=
  decidable_of_iff (coinbase.isCoinbaseTransaction = true ∧ coinbase.amount = 50 ∧
      coinbase.recipientPublicKey = b.publicKey)
    ⟨fun ⟨hzero, hamount, hrecipient⟩ => ⟨hzero, hamount, hrecipient⟩,
      fun h => ⟨h.zeroSender, h.amount, h.recipient⟩⟩

/-- A value block on the sample host, signed by its producer. -/
def signedBlock (previousHash timeBlockHash : Hash) (time : TimePoint)
    (transactions : List Transaction) : ValueBlock :=
  let b := ValueBlock.new tagHost previousHash timeBlockHash time transactions tagKeys.publicKey
  b.setSignature tagHost
    (tagSignature (tagHost.sha256 (b.getDataToSign .little)) tagKeys.publicKey)

/-- A block with two payments, whose data have three bytes and one. -/
def twoPayments : ValueBlock :=
  signedBlock (List.Vector.replicate 32 3) (List.Vector.replicate 32 4) 5
    [signedPayment 10 [1, 2, 3], signedPayment 20 [4]]

theorem length_serialize_twoPayments (e : Endian) : (twoPayments.serialize e).length = 580 := by
  rw [ValueBlock.length_serialize]
  show 208 + (ValueBlock.serializeTransactions e
    [signedPayment 10 [1, 2, 3], signedPayment 20 [4]]).length = 580
  simp only [ValueBlock.serializeTransactions_cons, ValueBlock.serializeTransactions_nil,
    List.length_append, length_bytes64, Transaction.length_serialize, List.length_nil]
  rfl

end CoinPlatform
