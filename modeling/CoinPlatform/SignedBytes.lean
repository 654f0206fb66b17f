/-
# What a signature is about

The bytes that are signed and hashed carry no tag and no kind: a transaction and a value
block both begin with two arrays of 32 bytes and two integers.

* `getDataToSign_kinds_ne`: the bytes of a time block, of a transaction and of a value
  block are different all the same, since the number of transactions of a block is far
  below the number of bytes they take;
* `getDataToSign_determines`: the bytes determine every field that is signed, down to the
  signatures and hashes of the transactions in a block.

Both hold for the bytes that are hashed too, where the signature follows the signed bytes.
-/
import CoinPlatform.SelfDelimiting
import CoinPlatform.TimeBlock
import CoinPlatform.ValueBlock

open ByteOrder StdVector

namespace CoinPlatform

variable (e : Endian)

/-! ## Fields that show where they end -/

theorem selfDelimitingOn_bytes64 : SelfDelimitingOn Set.univ e.bytes64 := by
  apply SelfDelimitingOn.of_length
  · exact fun x _ => length_bytes64 e x
  · exact fun x _ y _ h => bytes64_injective e h

/-- A `size_t` written as a `uint64_t`. -/
theorem selfDelimitingOn_size :
    SelfDelimitingOn (Set.Iio (2 ^ 64)) (fun n => e.bytes64 (UInt64.ofNat n)) := by
  intro n hn m hm r r' h
  obtain ⟨hsize, hr⟩ := selfDelimitingOn_bytes64 e trivial trivial h
  refine ⟨?_, hr⟩
  rw [← UInt64.toNat_ofNat_of_lt' hn, hsize, UInt64.toNat_ofNat_of_lt' hm]

/-- The fields of a transaction up to its data. -/
theorem Transaction.append_data_inj {tx tx' : Transaction} {r r' : Bytes}
    (h : tx.senderPublicKey.toList ++ (tx.recipientPublicKey.toList ++ (e.bytes64 tx.amount ++
        (e.bytes64 (UInt64.ofNat tx.data.length) ++ r)))
      = tx'.senderPublicKey.toList ++ (tx'.recipientPublicKey.toList ++
        (e.bytes64 tx'.amount ++ (e.bytes64 (UInt64.ofNat tx'.data.length) ++ r')))) :
    tx.senderPublicKey = tx'.senderPublicKey ∧
      tx.recipientPublicKey = tx'.recipientPublicKey ∧ tx.amount = tx'.amount ∧ r = r' := by
  obtain ⟨hsender, h⟩ := SelfDelimitingOn.toList 32 trivial trivial h
  obtain ⟨hrecipient, h⟩ := SelfDelimitingOn.toList 32 trivial trivial h
  obtain ⟨hamount, h⟩ := selfDelimitingOn_bytes64 e trivial trivial h
  obtain ⟨-, hr⟩ := selfDelimitingOn_bytes64 e trivial trivial h
  exact ⟨hsender, hrecipient, hamount, hr⟩

/-- What follows the data of a transaction has a fixed width, so its length is not needed to
find the end of the data. -/
theorem Transaction.serialize_injective : Function.Injective (serialize e) := by
  intro tx tx' h
  obtain ⟨hsender, hrecipient, hamount, h⟩ := append_data_inj e h
  obtain ⟨hdata, h⟩ := List.append_inj' h (by simp)
  obtain ⟨hsignature, hhash⟩ := List.append_inj' h (by simp)
  cases tx
  cases tx'
  simp only [Transaction.mk.injEq]
  exact ⟨hsender, hrecipient, hamount, hdata, List.Vector.toList_injective hsignature,
    List.Vector.toList_injective hhash⟩

/-- The transactions of a block, behind their number. -/
theorem ValueBlock.selfDelimitingOn_transactions :
    SelfDelimitingOn
      {txs | txs.length ∈ Set.Iio (2 ^ 64) ∧
        ∀ tx ∈ txs, tx ∈ {tx : Transaction | (tx.serialize e).length < 2 ^ 64}}
      (fun txs => e.bytes64 (UInt64.ofNat txs.length) ++ serializeTransactions e txs) := by
  refine SelfDelimitingOn.counted (selfDelimitingOn_size e) ?_
  exact SelfDelimitingOn.sized (selfDelimitingOn_size e)
    (Transaction.serialize_injective e).injOn (fun _ h => h)

/-! ## Sizes -/

@[simp] theorem TimeBlock.length_getDataToSign (b : TimeBlock) :
    (b.getDataToSign e).length = 72 := by
  simp [getDataToSign]

@[simp] theorem Transaction.length_getDataToSign (tx : Transaction) :
    (tx.getDataToSign e).length = 80 + tx.data.length := by
  simp [getDataToSign]
  omega

@[simp] theorem ValueBlock.length_getDataToSign (b : ValueBlock) :
    (b.getDataToSign e).length = 112 + (serializeTransactions e b.transactions).length := by
  simp [getDataToSign]
  omega

/-- Every transaction lies in the bytes of its block. -/
theorem ValueBlock.length_serialize_le_of_mem {tx : Transaction} {txs : List Transaction}
    (h : tx ∈ txs) : (tx.serialize e).length ≤ (serializeTransactions e txs).length := by
  induction txs with
  | nil => cases h
  | cons tx' txs ih =>
      rw [serializeTransactions_cons, List.length_append, List.length_append]
      rcases List.mem_cons.mp h with rfl | htail
      · omega
      · have hle := ih htail
        omega

/-- The transactions of a block whose signed bytes fit into a vector are few and small. -/
theorem ValueBlock.transactions_mem_of_length_le {b : ValueBlock}
    (hlen : (b.getDataToSign e).length ≤ maxSize) :
    b.transactions.length ∈ Set.Iio (2 ^ 64) ∧
      ∀ tx ∈ b.transactions, tx ∈ {tx : Transaction | (tx.serialize e).length < 2 ^ 64} := by
  rw [length_getDataToSign, maxSize] at hlen
  have hmin := length_le_serializeTransactions e b.transactions
  refine ⟨?_, fun tx htx => ?_⟩
  · show b.transactions.length < 2 ^ 64
    omega
  · have hle := length_serialize_le_of_mem e htx
    show (tx.serialize e).length < 2 ^ 64
    omega

/-! ## No two kinds share their bytes -/

/-- The signed bytes of a transaction are never those of a value block, whatever the two are
followed by: with as many bytes of data as the block has transactions it would be too
short. -/
theorem Transaction.getDataToSign_append_ne {tx : Transaction} {b : ValueBlock} {r r' : Bytes}
    (hsize : tx.data.length < 2 ^ 63) (hr : r.length = r'.length) :
    tx.getDataToSign e ++ r ≠ b.getDataToSign e ++ r' := by
  intro h
  have hlen := congrArg List.length h
  rw [List.length_append, List.length_append, length_getDataToSign,
    ValueBlock.length_getDataToSign] at hlen
  have hmin := ValueBlock.length_le_serializeTransactions e b.transactions
  simp only [getDataToSign, ValueBlock.getDataToSign, List.append_assoc] at h
  obtain ⟨-, h⟩ := SelfDelimitingOn.toList 32 trivial trivial h
  obtain ⟨-, h⟩ := SelfDelimitingOn.toList 32 trivial trivial h
  obtain ⟨-, h⟩ := selfDelimitingOn_bytes64 e trivial trivial h
  -- both integers are below `2 ^ 63`, the count because each transaction takes some bytes
  obtain ⟨hcount, -⟩ := selfDelimitingOn_size e
    (show tx.data.length < 2 ^ 64 by omega) (show b.transactions.length < 2 ^ 64 by omega) h
  omega

/-- A time block has fewer signed bytes than the fixed fields of a transaction take. -/
theorem TimeBlock.getDataToSign_append_ne_transaction {t : TimeBlock} {tx : Transaction}
    {r r' : Bytes} (hr : r.length = r'.length) :
    t.getDataToSign e ++ r ≠ tx.getDataToSign e ++ r' := by
  intro h
  have hlen := congrArg List.length h
  rw [List.length_append, List.length_append, length_getDataToSign,
    Transaction.length_getDataToSign] at hlen
  omega

theorem TimeBlock.getDataToSign_append_ne_valueBlock {t : TimeBlock} {b : ValueBlock}
    {r r' : Bytes} (hr : r.length = r'.length) :
    t.getDataToSign e ++ r ≠ b.getDataToSign e ++ r' := by
  intro h
  have hlen := congrArg List.length h
  rw [List.length_append, List.length_append, length_getDataToSign,
    ValueBlock.length_getDataToSign] at hlen
  omega

/-- **No two kinds share their bytes**, neither those that are signed nor those that are
hashed. -/
theorem getDataToSign_kinds_ne (t : TimeBlock) (tx : Transaction) (b : ValueBlock)
    (hsize : tx.data.length < 2 ^ 63) :
    (t.getDataToSign e ≠ tx.getDataToSign e ∧ t.getDataToSign e ≠ b.getDataToSign e ∧
      tx.getDataToSign e ≠ b.getDataToSign e) ∧
    (t.getDataToSign e ++ t.signature.toList ≠ tx.getDataToSign e ++ tx.signature.toList ∧
      t.getDataToSign e ++ t.signature.toList ≠ b.getDataToSign e ++ b.signature.toList ∧
      tx.getDataToSign e ++ tx.signature.toList ≠ b.getDataToSign e ++ b.signature.toList) := by
  have hsig : ∀ s s' : Signature, s.toList.length = s'.toList.length := by
    intro s s'
    rw [s.toList_length, s'.toList_length]
  have hnil : ∀ x y : Bytes, x ++ [] ≠ y ++ [] → x ≠ y := by
    intro x y h
    rwa [List.append_nil, List.append_nil] at h
  refine ⟨⟨?_, ?_, ?_⟩, ?_, ?_, ?_⟩
  · exact hnil _ _ (TimeBlock.getDataToSign_append_ne_transaction e rfl)
  · exact hnil _ _ (TimeBlock.getDataToSign_append_ne_valueBlock e rfl)
  · exact hnil _ _ (Transaction.getDataToSign_append_ne e hsize rfl)
  · exact TimeBlock.getDataToSign_append_ne_transaction e (hsig _ _)
  · exact TimeBlock.getDataToSign_append_ne_valueBlock e (hsig _ _)
  · exact Transaction.getDataToSign_append_ne e hsize (hsig _ _)

/-- A time block, a payment that carries data, and a value block with two payments. -/
theorem getDataToSign_kinds_ne_twoPayments :
    (signedPayment 10 [1, 2, 3]).data.length < 2 ^ 63 ∧
      (signedTimeBlock (List.Vector.replicate 32 3) 5).getDataToSign .little
        ≠ (signedPayment 10 [1, 2, 3]).getDataToSign .little ∧
      (signedTimeBlock (List.Vector.replicate 32 3) 5).getDataToSign .little
        ≠ twoPayments.getDataToSign .little ∧
      (signedPayment 10 [1, 2, 3]).getDataToSign .little ≠ twoPayments.getDataToSign .little ∧
      (signedPayment 10 [1, 2, 3]).getDataToSign .little
          ++ (signedPayment 10 [1, 2, 3]).signature.toList
        ≠ twoPayments.getDataToSign .little ++ twoPayments.signature.toList := by
  have h : (signedPayment 10 [1, 2, 3]).data.length < 2 ^ 63 := by
    show 3 < 2 ^ 63
    decide
  obtain ⟨⟨htx, htime, hvalue⟩, -, -, hhashed⟩ := getDataToSign_kinds_ne .little
    (signedTimeBlock (List.Vector.replicate 32 3) 5) (signedPayment 10 [1, 2, 3]) twoPayments h
  exact ⟨h, htx, htime, hvalue, hhashed⟩

/-! ## The bytes determine the content -/

/-- Two transactions that are the same up to signature and hash. -/
structure Transaction.SameContent (tx tx' : Transaction) : Prop where
  senderPublicKey : tx.senderPublicKey = tx'.senderPublicKey
  recipientPublicKey : tx.recipientPublicKey = tx'.recipientPublicKey
  amount : tx.amount = tx'.amount
  data : tx.data = tx'.data

/-- Two blocks that are the same up to their own signature and hash; their transactions are
the same in every field. -/
structure ValueBlock.SameContent (b b' : ValueBlock) : Prop where
  previousHash : b.previousHash = b'.previousHash
  timeBlockHash : b.timeBlockHash = b'.timeBlockHash
  time : b.time = b'.time
  transactions : b.transactions = b'.transactions
  publicKey : b.publicKey = b'.publicKey

theorem Transaction.sameContent_of_getDataToSign {tx tx' : Transaction}
    (h : tx.getDataToSign e = tx'.getDataToSign e) : tx.SameContent tx' := by
  obtain ⟨hsender, hrecipient, hamount, hdata⟩ := append_data_inj e h
  exact ⟨hsender, hrecipient, hamount, hdata⟩

theorem ValueBlock.sameContent_of_getDataToSign {b b' : ValueBlock}
    (hlen : (b.getDataToSign e).length ≤ maxSize)
    (h : b.getDataToSign e = b'.getDataToSign e) : b.SameContent b' := by
  have hfew := transactions_mem_of_length_le e hlen
  have hfew' := transactions_mem_of_length_le e (by rwa [h] at hlen)
  simp only [getDataToSign] at h
  obtain ⟨hprevious, h⟩ := SelfDelimitingOn.toList 32 trivial trivial h
  obtain ⟨htimeBlock, h⟩ := SelfDelimitingOn.toList 32 trivial trivial h
  obtain ⟨htime, h⟩ := selfDelimitingOn_bytes64 e trivial trivial h
  rw [← List.append_assoc, ← List.append_assoc] at h
  obtain ⟨htxs, hkey⟩ := selfDelimitingOn_transactions e hfew hfew' h
  exact ⟨hprevious, htimeBlock, htime, htxs, List.Vector.toList_injective hkey⟩

/-- In the bytes that are hashed the signature is the last field. -/
theorem append_signature_inj {x y : Bytes} {s s' : Signature}
    (h : x ++ s.toList = y ++ s'.toList) : x = y ∧ s = s' := by
  obtain ⟨hxy, hs⟩ := List.append_inj' h (by simp)
  exact ⟨hxy, List.Vector.toList_injective hs⟩

/-- **The signed bytes determine what is signed**, and the hashed bytes the signature as
well.  The bytes of a block are those of a vector, so there are at most `maxSize` of them. -/
theorem getDataToSign_determines :
    (∀ tx tx' : Transaction, tx.getDataToSign e = tx'.getDataToSign e → tx.SameContent tx') ∧
    (∀ tx tx' : Transaction,
      tx.getDataToSign e ++ tx.signature.toList = tx'.getDataToSign e ++ tx'.signature.toList →
      tx.SameContent tx' ∧ tx.signature = tx'.signature) ∧
    (∀ b b' : ValueBlock, (b.getDataToSign e).length ≤ maxSize →
      b.getDataToSign e = b'.getDataToSign e → b.SameContent b') ∧
    (∀ b b' : ValueBlock, (b.getDataToSign e).length ≤ maxSize →
      b.getDataToSign e ++ b.signature.toList = b'.getDataToSign e ++ b'.signature.toList →
      b.SameContent b' ∧ b.signature = b'.signature) := by
  refine ⟨fun tx tx' h => ?_, fun tx tx' h => ?_, fun b b' hlen h => ?_, fun b b' hlen h => ?_⟩
  · exact Transaction.sameContent_of_getDataToSign e h
  · obtain ⟨hdata, hsignature⟩ := append_signature_inj h
    exact ⟨Transaction.sameContent_of_getDataToSign e hdata, hsignature⟩
  · exact ValueBlock.sameContent_of_getDataToSign e hlen h
  · obtain ⟨hdata, hsignature⟩ := append_signature_inj h
    exact ⟨ValueBlock.sameContent_of_getDataToSign e hlen hdata, hsignature⟩

/-- A block with two payments and the same block signed otherwise or with another hash, and a
payment signed otherwise. -/
theorem getDataToSign_determines_twoPayments :
    (twoPayments.getDataToSign .little).length ≤ maxSize ∧
      twoPayments.SameContent (twoPayments.setSignature tagHost (zeros 64)) ∧
      twoPayments.SameContent { twoPayments with hash := zeros 32 } ∧
      (signedPayment 10 [1, 2, 3]).SameContent
        ((signedPayment 10 [1, 2, 3]).setSignature tagHost (zeros 64)) := by
  have hlen : (twoPayments.getDataToSign .little).length ≤ maxSize := by
    have hsize := length_serialize_twoPayments .little
    rw [ValueBlock.length_serialize] at hsize
    rw [ValueBlock.length_getDataToSign, maxSize]
    omega
  have hsigned : ∀ (b : ValueBlock) (signature : Signature),
      b.getDataToSign .little = (b.setSignature tagHost signature).getDataToSign .little :=
    fun _ _ => rfl
  have hsigned' : ∀ (tx : Transaction) (signature : Signature),
      tx.getDataToSign .little = (tx.setSignature tagHost signature).getDataToSign .little :=
    fun _ _ => rfl
  have hhashed : ∀ (b : ValueBlock) (hash : Hash),
      b.getDataToSign .little ++ b.signature.toList
        = { b with hash := hash }.getDataToSign .little
          ++ { b with hash := hash }.signature.toList :=
    fun _ _ => rfl
  obtain ⟨htx, -, hblock, hblock'⟩ := getDataToSign_determines .little
  exact ⟨hlen, hblock _ _ hlen (hsigned _ _), (hblock' _ _ hlen (hhashed _ _)).1,
    htx _ _ (hsigned' _ _)⟩

end CoinPlatform
