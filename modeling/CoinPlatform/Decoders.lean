/-
# What the decoders make of any input

The decoders of `Transaction` and `ValueBlock` read lengths from their input and add them
to an offset in 64-bit arithmetic before they compare.

* `ValueBlock.deserialize_serialize_into`: decoding undoes encoding;
* `ValueBlock.serialize_eq_of_deserialize_iff`: a value block that is accepted is encoded by
  the whole input, unless the input goes on behind the encoding;
* `deserialize_ends_iff`: the decoders return, unless one of the lengths makes the sum wrap
  around (`SizesFit`).  Then the check passes, and the vector that is asked for is longer than
  any vector can be: the exception leaves the decoder.
-/
import CoinPlatform.ValueBlock

open ByteOrder StdVector

namespace CoinPlatform

variable (e : Endian)

/-! ## Transactions -/

namespace Transaction

/-- The length of the data, as the input has it, can be added to the offset of the data. -/
def SizesFit (data : Bytes) : Prop :=
  ∀ (front : Bytes) (dataSize : UInt64) (rest : Bytes), front.length = 72 →
    data = front ++ (e.bytes64 dataSize ++ rest) → 80 + dataSize.toNat < 2 ^ 64

theorem exists_deserialize_of_sizesFit {data : Bytes} (hlen : data.length ≤ maxSize)
    (hfit : SizesFit e data) (tx : Transaction) : ∃ r, tx.deserialize e data = .ok r := by
  rw [maxSize] at hlen
  unfold deserialize
  refine exists_bind_read (exists_readArray (by decide)) ⟨_, rfl⟩ (fun sender _ => ?_)
  refine exists_bind_read (exists_readArray (by decide)) ⟨_, rfl⟩ (fun recipient _ => ?_)
  refine exists_bind_read (exists_readUInt64 (by decide)) ⟨_, rfl⟩ (fun amount _ => ?_)
  refine exists_bind_read (exists_readUInt64 (by decide)) ⟨_, rfl⟩ (fun dataSize h₄ => ?_)
  obtain ⟨hle, hdrop⟩ := drop_eq_of_readUInt64 h₄
  change 72 + 8 ≤ data.length at hle
  change data.drop 72 = e.bytes64 dataSize ++ data.drop 80 at hdrop
  -- the sum does not wrap around, so the check says that the data are there
  have hsum : 80 + dataSize.toNat < 2 ^ 64 := by
    apply hfit (data.take 72) dataSize (data.drop 80)
    · rw [List.length_take]
      omega
    · rw [← hdrop, List.take_append_drop]
  have s₅ : sizeAdd 80 dataSize.toNat = 80 + dataSize.toNat := sizeAdd_of_lt hsum
  simp only [show sizeAdd (sizeAdd (sizeAdd (sizeAdd 0 32) 32) 8) 8 = 80 from rfl, s₅]
  by_cases hin : data.length < 80 + dataSize.toNat
  · rw [if_pos hin]
    exact ⟨_, rfl⟩
  rw [if_neg hin]
  refine exists_bind_eq_ok ⟨(), resize_of_le (by rw [maxSize]; omega)⟩ (fun _ _ => ?_)
  refine exists_bind_eq_ok ⟨_, copyRange_of_le (by omega)⟩ (fun d _ => ?_)
  have s₆ : sizeAdd (80 + dataSize.toNat) 64 = 80 + dataSize.toNat + 64 :=
    sizeAdd_of_lt (by omega)
  simp only [s₆]
  refine exists_bind_read (exists_readArray (by omega)) ⟨_, rfl⟩ (fun signature _ => ?_)
  refine exists_bind_read (exists_readArray (by omega)) ⟨_, rfl⟩ (fun hash _ => ?_)
  simp only
  split
  · exact ⟨_, rfl⟩
  · exact ⟨_, rfl⟩

/-- A length that makes the sum wrap around passes the check and throws in `resize`. -/
theorem deserialize_of_wrap {data front rest : Bytes} {dataSize : UInt64}
    (hlen : data.length ≤ maxSize) (hfront : front.length = 72)
    (hdata : data = front ++ (e.bytes64 dataSize ++ rest))
    (hwrap : 2 ^ 64 ≤ 80 + dataSize.toNat) (tx : Transaction) :
    tx.deserialize e data = .error .lengthError := by
  rw [maxSize] at hlen
  have hlt : data.length < 2 ^ 64 := by omega
  have hdl : data.length = 80 + rest.length := by
    rw [hdata, List.length_append, List.length_append, length_bytes64, hfront]
    omega
  obtain ⟨sender, h₁⟩ := exists_readArray_some hlt (show 0 + 32 ≤ data.length by omega)
  obtain ⟨recipient, h₂⟩ := exists_readArray_some hlt (show 32 + 32 ≤ data.length by omega)
  obtain ⟨amount, h₃⟩ := exists_readUInt64_some (e := e) hlt
    (show 64 + 8 ≤ data.length by omega)
  have h₄ : readUInt64 e data 72 = .ok (some dataSize) :=
    readUInt64_of_eq front rest hdata hfront (by decide)
  have hin : ¬ data.length < sizeAdd 80 dataSize.toNat := by
    have hle := sizeAdd_le_of_wrap dataSize.toNat_lt hwrap (by decide)
    omega
  unfold deserialize
  simp only [bind, Except.bind, h₁, show sizeAdd 0 32 = 32 from rfl, h₂,
    show sizeAdd 32 32 = 64 from rfl, h₃, show sizeAdd 64 8 = 72 from rfl, h₄,
    show sizeAdd 72 8 = 80 from rfl, hin, if_false, resize_of_wrap hwrap (by decide)]

theorem deserialize_of_not_sizesFit {data : Bytes} (hlen : data.length ≤ maxSize)
    (h : ¬ SizesFit e data) (tx : Transaction) :
    tx.deserialize e data = .error .lengthError := by
  simp only [SizesFit, not_forall, Nat.not_lt] at h
  obtain ⟨front, dataSize, rest, hfront, hdata, hwrap⟩ := h
  exact deserialize_of_wrap e hlen hfront hdata hwrap tx

theorem exists_deserialize_iff {data : Bytes} (hlen : data.length ≤ maxSize)
    (tx : Transaction) : (∃ r, tx.deserialize e data = .ok r) ↔ SizesFit e data := by
  constructor
  · rintro ⟨r, hr⟩
    by_contra hnot
    rw [deserialize_of_not_sizesFit e hlen hnot tx] at hr
    cases hr
  · exact fun hfit => exists_deserialize_of_sizesFit e hlen hfit tx

end Transaction

namespace ValueBlock

/-- The sizes of the transactions, as the input has them, can be added to their offsets, and
so can the lengths inside the transactions: behind transactions that have been read, there is
another size, and the bytes of another transaction. -/
def SizesFit (data : Bytes) : Prop :=
  ∀ (front : Bytes) (count : UInt64) (txs : List Transaction) (txSize : UInt64) (rest : Bytes),
    front.length = 72 → txs.length < count.toNat →
    data = front ++ (e.bytes64 count ++
      (serializeTransactions e txs ++ (e.bytes64 txSize ++ rest))) →
    88 + (serializeTransactions e txs).length + txSize.toNat < 2 ^ 64 ∧
      (txSize.toNat ≤ rest.length → Transaction.SizesFit e (rest.take txSize.toNat))

/-! ### The loop over the transactions -/

/-- The same for the loop, which is `n` transactions from its end. -/
def TransactionsFit (n : ℕ) (data : Bytes) (offset : ℕ) : Prop :=
  ∀ (txs : List Transaction) (txSize : UInt64) (rest : Bytes), txs.length < n →
    data.drop offset = serializeTransactions e txs ++ (e.bytes64 txSize ++ rest) →
    offset + (serializeTransactions e txs).length + 8 + txSize.toNat < 2 ^ 64 ∧
      (txSize.toNat ≤ rest.length → Transaction.SizesFit e (rest.take txSize.toNat))

/-- Behind the first transaction there is one less to read. -/
theorem TransactionsFit.tail {data : Bytes} {n offset : ℕ} {tx : Transaction}
    (h : TransactionsFit e (n + 1) data offset)
    (hdrop : data.drop offset = e.bytes64 (UInt64.ofNat (tx.serialize e).length) ++
      (tx.serialize e ++ data.drop (offset + 8 + (tx.serialize e).length))) :
    TransactionsFit e n data (offset + 8 + (tx.serialize e).length) := by
  intro txs txSize rest hn hrest
  obtain ⟨hsum, htx⟩ := h (tx :: txs) txSize rest (Nat.succ_lt_succ hn) (by
    rw [hdrop, hrest, serializeTransactions_cons]
    simp only [List.append_assoc])
  refine ⟨?_, htx⟩
  rw [serializeTransactions_cons] at hsum
  simp only [List.length_append, length_bytes64] at hsum
  omega

/-- Where the sizes fit the loop ends normally, inside the input. -/
theorem exists_deserializeTransactions {data : Bytes} (hlen : data.length ≤ maxSize) (n : ℕ) :
    ∀ {offset : ℕ} (acc : List Transaction), offset ≤ data.length →
      TransactionsFit e n data offset →
      ∃ r, deserializeTransactions e data n offset acc = .ok r ∧
        (r.1 = true → r.2.1 ≤ data.length) := by
  rw [maxSize] at hlen
  induction n with
  | zero =>
      intro offset acc hle _
      exact ⟨(true, offset, acc), rfl, fun _ => hle⟩
  | succ n ih =>
      intro offset acc hle hfit
      obtain ⟨o, ho⟩ : ∃ o, readUInt64 e data offset = .ok o := exists_readUInt64 (by omega)
      unfold deserializeTransactions
      cases o with
      | none => exact ⟨(false, offset, acc), by rw [ho]; rfl, fun h => absurd h Bool.false_ne_true⟩
      | some txSize =>
      obtain ⟨hle₁, d₁⟩ := drop_eq_of_readUInt64 ho
      obtain ⟨hsum, htx⟩ := hfit [] txSize (data.drop (offset + 8)) (Nat.succ_pos n) d₁
      simp only [serializeTransactions_nil, List.length_nil, Nat.add_zero] at hsum
      have s₁ : sizeAdd offset 8 = offset + 8 := sizeAdd_of_lt (by omega)
      have s₂ : sizeAdd (offset + 8) txSize.toNat = offset + 8 + txSize.toNat :=
        sizeAdd_of_lt hsum
      by_cases hin : data.length < offset + 8 + txSize.toNat
      · refine ⟨(false, offset + 8, acc), ?_, fun h => absurd h Bool.false_ne_true⟩
        simp only [bind, Except.bind, ho, s₁, s₂, hin, if_true, pure, Except.pure]
      · have hres : resize txSize.toNat = .ok () := resize_of_le (by rw [maxSize]; omega)
        have hcopy : copyRange data (offset + 8) txSize.toNat
            = .ok ((data.drop (offset + 8)).take txSize.toNat) := copyRange_of_le (by omega)
        replace htx := htx (by rw [List.length_drop]; omega)
        set txBytes := (data.drop (offset + 8)).take txSize.toNat
        obtain ⟨htxlen, d₂⟩ := drop_eq_of_copyRange hcopy
        obtain ⟨⟨ok, tx⟩, hr⟩ := Transaction.exists_deserialize_of_sizesFit e
          (by rw [maxSize]; omega) htx Transaction.empty
        cases ok with
        | false =>
            refine ⟨(false, offset + 8 + txSize.toNat, acc), ?_,
              fun h => absurd h Bool.false_ne_true⟩
            simp only [bind, Except.bind, ho, s₁, s₂, hin, if_false, hres, hcopy, hr,
              Bool.not_false, if_true, pure, Except.pure]
        | true =>
            -- the bytes that were copied are those of the transaction
            have hbytes : txBytes = tx.serialize e :=
              Transaction.eq_serialize_of_deserialize e (by omega) hr
            rw [hbytes] at htxlen d₂
            have hsize : UInt64.ofNat (tx.serialize e).length = txSize := by
              rw [htxlen, UInt64.ofNat_toNat]
            have hfit' : TransactionsFit e n data (offset + 8 + (tx.serialize e).length) :=
              hfit.tail e (by rw [hsize, htxlen, d₁, d₂])
            obtain ⟨r, hr', hcome⟩ := ih (acc ++ [tx]) (by omega) hfit'
            refine ⟨r, ?_, hcome⟩
            rw [htxlen] at hr'
            simp only [bind, Except.bind, ho, s₁, s₂, hin, if_false, hres, hcopy, hr,
              Bool.not_true, Bool.false_eq_true, hr']

/-- Where the size of the next transaction does not fit, or the length in it, the loop throws. -/
theorem deserializeTransactions_of_not_fit {data pre rest : Bytes} {offset : ℕ}
    {txSize : UInt64} (hlen : data.length ≤ maxSize)
    (hdata : data = pre ++ (e.bytes64 txSize ++ rest)) (hpre : pre.length = offset)
    (h : ¬ (offset + 8 + txSize.toNat < 2 ^ 64 ∧
      (txSize.toNat ≤ rest.length → Transaction.SizesFit e (rest.take txSize.toNat))))
    (n : ℕ) (acc : List Transaction) :
    deserializeTransactions e data (n + 1) offset acc = .error .lengthError := by
  have hmax : data.length < 2 ^ 63 := by
    rw [maxSize] at hlen
    omega
  have hdl : data.length = offset + 8 + rest.length := by
    rw [hdata, List.length_append, List.length_append, length_bytes64, hpre]
    omega
  have h₁ : readUInt64 e data offset = .ok (some txSize) :=
    readUInt64_of_eq pre rest hdata hpre (by omega)
  have s₁ : sizeAdd offset 8 = offset + 8 := sizeAdd_of_lt (by omega)
  unfold deserializeTransactions
  by_cases hsum : offset + 8 + txSize.toNat < 2 ^ 64
  · -- the size fits, the length in the transaction does not
    obtain ⟨hle, hnot⟩ : txSize.toNat ≤ rest.length ∧
        ¬ Transaction.SizesFit e (rest.take txSize.toNat) := by
      rw [← Classical.not_imp]
      exact fun hin => h ⟨hsum, hin⟩
    have s₂ : sizeAdd (offset + 8) txSize.toNat = offset + 8 + txSize.toNat :=
      sizeAdd_of_lt hsum
    have hin : ¬ data.length < offset + 8 + txSize.toNat := by omega
    have hres : resize txSize.toNat = .ok () := resize_of_le (by rw [maxSize]; omega)
    have h₂ : copyRange data (offset + 8) txSize.toNat = .ok (rest.take txSize.toNat) := by
      apply copyRange_of_eq (pre ++ e.bytes64 txSize) (rest.drop txSize.toNat)
      · rw [hdata, List.take_append_drop, List.append_assoc]
      · rw [List.length_append, length_bytes64, hpre]
      · rw [List.length_take]
        omega
    have h₃ := Transaction.deserialize_of_not_sizesFit e
      (by rw [List.length_take, maxSize]; omega) hnot Transaction.empty
    simp only [bind, Except.bind, h₁, s₁, s₂, hin, if_false, hres, h₂, h₃]
  · have hwrap : 2 ^ 64 ≤ offset + 8 + txSize.toNat := Nat.le_of_not_lt hsum
    have hin : ¬ data.length < sizeAdd (offset + 8) txSize.toNat := by
      have hle := sizeAdd_le_of_wrap txSize.toNat_lt hwrap (by omega)
      omega
    simp only [bind, Except.bind, h₁, s₁, hin, if_false, resize_of_wrap hwrap (by omega)]

/-! ### The block -/

theorem exists_deserialize_of_sizesFit {data : Bytes} (hlen : data.length ≤ maxSize)
    (hfit : SizesFit e data) (b : ValueBlock) : ∃ r, b.deserialize e data = .ok r := by
  refine exists_deserialize_of_loop e (by rw [maxSize] at hlen; omega) (fun count h₄ => ?_) b
  obtain ⟨hle, hdrop⟩ := drop_eq_of_readUInt64 h₄
  change 72 + 8 ≤ data.length at hle
  change data.drop 72 = e.bytes64 count ++ data.drop 80 at hdrop
  apply exists_deserializeTransactions e hlen count.toNat [] hle
  intro txs txSize rest hn hrest
  obtain ⟨hsum, htx⟩ := hfit (data.take 72) count txs txSize rest
    (by rw [List.length_take]; omega) hn (by rw [← hrest, ← hdrop, List.take_append_drop])
  exact ⟨by omega, htx⟩

theorem deserialize_of_not_sizesFit {data : Bytes} (hlen : data.length ≤ maxSize)
    (h : ¬ SizesFit e data) (b : ValueBlock) :
    b.deserialize e data = .error .lengthError := by
  have hmax : data.length < 2 ^ 63 := by
    rw [maxSize] at hlen
    omega
  simp only [SizesFit, not_forall] at h
  obtain ⟨front, count, txs, txSize, rest, hfront, hcount, hdata, hnot⟩ := h
  have hdl : 80 ≤ data.length := by
    rw [hdata, List.length_append, List.length_append, length_bytes64, hfront]
    omega
  obtain ⟨previousHash, h₁⟩ :=
    exists_readArray_some (by omega) (show 0 + 32 ≤ data.length by omega)
  obtain ⟨timeBlockHash, h₂⟩ :=
    exists_readArray_some (by omega) (show 32 + 32 ≤ data.length by omega)
  obtain ⟨time, h₃⟩ := exists_readUInt64_some (e := e) (by omega)
    (show 64 + 8 ≤ data.length by omega)
  have h₄ : readUInt64 e data 72 = .ok (some count) :=
    readUInt64_of_eq front _ hdata hfront (by decide)
  -- the loop reads the transactions in front of the size that does not fit
  obtain ⟨n, hn⟩ := Nat.exists_eq_add_of_lt hcount
  have hdata' : data = (front ++ e.bytes64 count) ++
      (serializeTransactions e txs ++ (e.bytes64 txSize ++ rest)) := by
    rw [hdata, List.append_assoc]
  have hpre : (front ++ e.bytes64 count).length = 80 := by
    rw [List.length_append, length_bytes64, hfront]
  have h₅ : deserializeTransactions e data count.toNat 80 [] = .error .lengthError := by
    rw [show count.toNat = txs.length + (n + 1) by omega,
      deserializeTransactions_append e txs (n + 1) _ _ [] hdata' hpre hlen]
    apply deserializeTransactions_of_not_fit e hlen
    · rw [hdata', List.append_assoc _ (serializeTransactions e txs)]
    · rw [List.length_append, hpre]
    · rwa [show 80 + (serializeTransactions e txs).length + 8 + txSize.toNat
        = 88 + (serializeTransactions e txs).length + txSize.toNat by omega]
  unfold deserialize
  simp only [bind, Except.bind, h₁, show sizeAdd 0 32 = 32 from rfl, h₂,
    show sizeAdd 32 32 = 64 from rfl, h₃, show sizeAdd 64 8 = 72 from rfl, h₄,
    show sizeAdd 72 8 = 80 from rfl, h₅]

theorem exists_deserialize_iff {data : Bytes} (hlen : data.length ≤ maxSize) (b : ValueBlock) :
    (∃ r, b.deserialize e data = .ok r) ↔ SizesFit e data := by
  constructor
  · rintro ⟨r, hr⟩
    by_contra hnot
    rw [deserialize_of_not_sizesFit e hlen hnot b] at hr
    cases hr
  · exact fun hfit => exists_deserialize_of_sizesFit e hlen hfit b

/-! ## Round trips of value blocks -/

/-- **Decoding undoes encoding**: the object decoded into ends up equal to the block that was
encoded, whatever it held before. -/
theorem deserialize_serialize_into (b b' : ValueBlock) (hlen : (b'.serialize e).length < 2 ^ 63) :
    b.deserialize e (b'.serialize e) = .ok (true, b') := by
  apply deserialize_serialize
  rw [maxSize]
  omega

/-- A block with two payments is decoded into one that holds another payment. -/
theorem deserialize_serialize_into_twoPayments :
    (twoPayments.serialize .little).length < 2 ^ 63 ∧
      (signedBlock (zeros 32) (zeros 32) 6 [signedPayment 30 [5, 6]]).deserialize .little
        (twoPayments.serialize .little) = .ok (true, twoPayments) := by
  have hlen : (twoPayments.serialize .little).length < 2 ^ 63 := by
    rw [length_serialize_twoPayments]
    decide
  exact ⟨hlen, deserialize_serialize_into .little _ twoPayments hlen⟩

/-- **Encoding undoes decoding** exactly on the inputs that do not go on behind the encoding
of a block. -/
theorem serialize_eq_of_deserialize_iff (b : ValueBlock) {data : Bytes}
    (hlen : data.length ≤ maxSize) :
    (∀ b', b.deserialize e data = .ok (true, b') → b'.serialize e = data) ↔
      ∀ (b' : ValueBlock) (x : Byte) (rest : Bytes), data ≠ b'.serialize e ++ x :: rest := by
  constructor
  · intro h b' x rest hdata
    have hdecode : b.deserialize e data = .ok (true, b') := by
      rw [hdata]
      exact deserialize_serialize_append e b b' (x :: rest) (by rwa [← hdata])
    have heq : b'.serialize e = b'.serialize e ++ x :: rest := (h b' hdecode).trans hdata
    exact absurd (List.self_eq_append_right.mp heq) (List.cons_ne_nil x rest)
  · intro h b' hdecode
    obtain ⟨rest, hrest⟩ := exists_eq_serialize_append e (by rw [maxSize] at hlen; omega) hdecode
    cases rest with
    | nil => rw [hrest, List.append_nil]
    | cons x rest => exact absurd hrest (h b' x rest)

/-- The encoding of a block with two payments does not go on behind the encoding of a block: it is
accepted, and what it is decoded to has the same encoding. -/
theorem serialize_eq_of_deserialize_twoPayments :
    (twoPayments.serialize .little).length ≤ maxSize ∧
      empty.deserialize .little (twoPayments.serialize .little) = .ok (true, twoPayments) ∧
      ∀ b', empty.deserialize .little (twoPayments.serialize .little) = .ok (true, b') →
        b'.serialize .little = twoPayments.serialize .little := by
  have hlen : (twoPayments.serialize .little).length ≤ maxSize := by
    rw [length_serialize_twoPayments]
    decide
  refine ⟨hlen, deserialize_serialize .little empty twoPayments hlen,
    (serialize_eq_of_deserialize_iff .little empty hlen).mpr ?_⟩
  intro b' x rest hdata
  obtain rfl := eq_of_serialize_prefix .little hlen ⟨x :: rest, hdata.symm⟩
  exact absurd (List.self_eq_append_right.mp hdata) (List.cons_ne_nil x rest)

/-- A byte behind the hash is not looked at: the encoding of a block and the longer message
decode to the same block. -/
theorem deserialize_ignores_rest :
    empty.deserialize .little (empty.serialize .little ++ [0]) = .ok (true, empty) ∧
      empty.deserialize .little (empty.serialize .little) = .ok (true, empty) ∧
      empty.serialize .little ≠ empty.serialize .little ++ [0] := by
  have hlen : (empty.serialize .little ++ [0]).length ≤ maxSize := by
    rw [List.length_append, length_serialize]
    decide
  refine ⟨deserialize_serialize_append .little empty empty [0] hlen, ?_, ?_⟩
  · exact deserialize_serialize .little empty empty (by rw [length_serialize]; decide)
  · exact fun h => absurd (List.self_eq_append_right.mp h) (List.cons_ne_nil 0 [])

end ValueBlock

/-! ## The decoders end -/

/-- **The decoders return** exactly where the sizes in the input fit into the arithmetic they
are checked in. -/
theorem deserialize_ends_iff {data : Bytes} (hlen : data.length ≤ maxSize) :
    (∀ tx : Transaction,
      (∃ r, tx.deserialize e data = .ok r) ↔ Transaction.SizesFit e data) ∧
    (∀ b : ValueBlock, (∃ r, b.deserialize e data = .ok r) ↔ ValueBlock.SizesFit e data) :=
  ⟨Transaction.exists_deserialize_iff e hlen, ValueBlock.exists_deserialize_iff e hlen⟩

/-- On the encoding of a block with two payments both decoders return: where the decoder of
transactions expects a length stands the number of the payments, and the sizes that the decoder of
blocks reads fit. -/
theorem deserialize_ends_twoPayments :
    (twoPayments.serialize .little).length ≤ maxSize ∧
      (∃ r, Transaction.empty.deserialize .little (twoPayments.serialize .little) = .ok r) ∧
      (∃ r, ValueBlock.empty.deserialize .little (twoPayments.serialize .little) = .ok r) ∧
      ValueBlock.SizesFit .little (twoPayments.serialize .little) := by
  have hlen : (twoPayments.serialize .little).length ≤ maxSize := by
    rw [length_serialize_twoPayments]
    decide
  obtain ⟨htx, hblock⟩ := deserialize_ends_iff .little hlen
  have hdecode := ValueBlock.deserialize_serialize .little ValueBlock.empty twoPayments hlen
  refine ⟨hlen, (htx _).mpr ?_, ⟨_, hdecode⟩, (hblock _).mp ⟨_, hdecode⟩⟩
  intro front dataSize rest hfront hdata
  rw [ValueBlock.serialize, ← List.append_assoc, ← List.append_assoc] at hdata
  obtain ⟨-, hbehind⟩ := List.append_inj hdata (by simp [hfront])
  obtain ⟨hcount, -⟩ := List.append_inj hbehind (by simp)
  obtain rfl : UInt64.ofNat twoPayments.transactions.length = dataSize :=
    bytes64_injective .little hcount
  decide

/-- A transaction of 176 bytes, the size that is expected at least, whose length field is
`2 ^ 64 - 1`. -/
def endlessTransaction : Bytes :=
  List.replicate 72 0 ++ (Endian.little.bytes64 (UInt64.ofNat (2 ^ 64 - 1)) ++
    List.replicate 96 0)

/-- A block with one transaction, of that size. -/
def endlessBlock : Bytes :=
  List.replicate 72 0 ++ (Endian.little.bytes64 1 ++
    (Endian.little.bytes64 (UInt64.ofNat (2 ^ 64 - 1)) ++ List.replicate 128 0))

/-- Neither decoder returns: `80 + (2 ^ 64 - 1)` is `79` in `size_t`, so the check passes. -/
theorem deserialize_endless :
    Transaction.empty.deserialize .little endlessTransaction = .error .lengthError ∧
      ValueBlock.empty.deserialize .little endlessBlock = .error .lengthError := by
  constructor
  · have hlen : endlessTransaction.length ≤ maxSize := by
      simp only [endlessTransaction, List.length_append, List.length_replicate, length_bytes64]
      decide
    exact Transaction.deserialize_of_wrap .little hlen List.length_replicate rfl (by decide) _
  · have hlen : endlessBlock.length ≤ maxSize := by
      simp only [endlessBlock, List.length_append, List.length_replicate, length_bytes64]
      decide
    apply ValueBlock.deserialize_of_not_sizesFit .little hlen
    intro hfit
    have h := (hfit (List.replicate 72 0) 1 [] (UInt64.ofNat (2 ^ 64 - 1)) (List.replicate 128 0)
      List.length_replicate (by decide) rfl).1
    exact absurd h (by decide)

end CoinPlatform
