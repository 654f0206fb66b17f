/-
# The codecs as bijections

A transaction and a time block are accepted by their decoders exactly when they are encodings,
and what is accepted is the encoding of one object only, the one that is left in the target.
An exception is no acceptance.

The decoder of value blocks accepts more, see `Decoders`.
-/
import Mathlib.Data.Set.Function
import CoinPlatform.Transaction
import CoinPlatform.TimeBlock

open StdVector

namespace CoinPlatform

/-! ## Exact decoders -/

/-- On these data the decoder accepts the encodings and nothing else, whatever the target held
before; the target becomes the object that was encoded, and there is only one such object. -/
structure AcceptsEncodings {α : Type} (serialize : α → Bytes)
    (deserialize : α → Bytes → Except Fault (Bool × α)) (data : Bytes) : Prop where
  accepts : ∀ target,
    (∃ result, deserialize target data = .ok (true, result)) ↔ ∃ x, data = serialize x
  result : ∀ target result x,
    deserialize target data = .ok (true, result) → data = serialize x → result = x
  unique : ∀ x y, data = serialize x → data = serialize y → x = y

section Exact

variable {α : Type} {serialize : α → Bytes} {deserialize : α → Bytes → Except Fault (Bool × α)}

/-- An equivalence between the result and the input is enough: the result is a function of the
input, so the object is one too. -/
theorem acceptsEncodings_of_iff {data : Bytes}
    (h : ∀ target x, deserialize target data = .ok (true, x) ↔ data = serialize x) :
    AcceptsEncodings serialize deserialize data := by
  have hresult : ∀ target result x,
      deserialize target data = .ok (true, result) → data = serialize x → result = x := by
    intro target result x haccept hx
    have hboth := haccept.symm.trans ((h target x).mpr hx)
    exact (Prod.mk.inj (Except.ok.inj hboth)).2
  refine ⟨fun target => exists_congr (h target), hresult, ?_⟩
  intro x y hx hy
  exact hresult x x y ((h x x).mpr hx) hy

/-- **Encoding is a bijection** from the objects with an encoding in `S` onto the inputs in `S`
that are accepted. -/
theorem bijOn_serialize [Nonempty α] {S : Set Bytes}
    (h : ∀ data ∈ S, AcceptsEncodings serialize deserialize data) :
    Set.BijOn serialize (Set.preimage serialize S)
      {data ∈ S | ∀ target, ∃ result, deserialize target data = .ok (true, result)} := by
  refine ⟨?_, ?_, ?_⟩
  · intro x hx
    exact ⟨hx, fun target => ((h _ hx).accepts target).mpr ⟨x, rfl⟩⟩
  · intro x hx y _ hxy
    exact (h _ hx).unique x y rfl hxy
  · rintro data ⟨hdata, haccept⟩
    obtain ⟨target⟩ := ‹Nonempty α›
    obtain ⟨x, rfl⟩ := ((h data hdata).accepts target).mp (haccept target)
    exact ⟨x, hdata, rfl⟩

end Exact

/-! ## The two codecs -/

variable (e : ByteOrder.Endian)

theorem Transaction.acceptsEncodings {data : Bytes} (hlen : data.length < 2 ^ 63) :
    AcceptsEncodings (serialize e) (deserialize e) data := by
  apply acceptsEncodings_of_iff
  intro tx tx'
  constructor
  · exact eq_serialize_of_deserialize e (by omega)
  · rintro rfl
    apply deserialize_serialize
    rw [maxSize]
    omega

theorem TimeBlock.acceptsEncodings (data : Bytes) :
    AcceptsEncodings (serialize e) (deserialize e) data :=
  acceptsEncodings_of_iff fun b b' => deserialize_eq_true_iff e b b' data

/-- **The decoders of transactions and time blocks accept exactly the encodings.** -/
theorem acceptsEncodings_transaction_timeBlock {data : Bytes} (hlen : data.length < 2 ^ 63) :
    AcceptsEncodings (Transaction.serialize e) (Transaction.deserialize e) data ∧
      AcceptsEncodings (TimeBlock.serialize e) (TimeBlock.deserialize e) data :=
  ⟨Transaction.acceptsEncodings e hlen, TimeBlock.acceptsEncodings e data⟩

/-- The bytes of a payment with data: the decoder of transactions accepts them, the decoder of
time blocks does not. -/
theorem acceptsEncodings_signedPayment :
    ((signedPayment 10 [1, 2, 3]).serialize .little).length < 2 ^ 63 ∧
      (∃ result, Transaction.empty.deserialize .little
        ((signedPayment 10 [1, 2, 3]).serialize .little) = .ok (true, result)) ∧
      ¬ ∃ result, TimeBlock.empty.deserialize .little
        ((signedPayment 10 [1, 2, 3]).serialize .little) = .ok (true, result) := by
  have hlen : ((signedPayment 10 [1, 2, 3]).serialize .little).length = 179 := by
    rw [Transaction.length_serialize]
    rfl
  have hsize : ((signedPayment 10 [1, 2, 3]).serialize .little).length < 2 ^ 63 := by
    rw [hlen]
    decide
  obtain ⟨htx, htime⟩ := acceptsEncodings_transaction_timeBlock .little hsize
  refine ⟨hsize, (htx.accepts _).mpr ⟨_, rfl⟩, fun haccept => ?_⟩
  -- the encoding of a time block has 168 bytes
  obtain ⟨b, hb⟩ := (htime.accepts _).mp haccept
  rw [hb, TimeBlock.length_serialize] at hlen
  cases hlen

/-- The encodings of the transactions of less than `2 ^ 63` bytes are the inputs of less than
`2 ^ 63` bytes that are accepted. -/
theorem Transaction.bijOn_serialize :
    Set.BijOn (serialize e) {tx | (tx.serialize e).length < 2 ^ 63}
      {data | data.length < 2 ^ 63 ∧
        ∀ tx : Transaction, ∃ result, tx.deserialize e data = .ok (true, result)} :=
  have : Nonempty Transaction := ⟨empty⟩
  CoinPlatform.bijOn_serialize (S := {data | data.length < 2 ^ 63})
    fun _ hlen => acceptsEncodings e hlen

theorem TimeBlock.bijOn_serialize :
    Set.BijOn (serialize e) Set.univ
      {data | ∀ b : TimeBlock, ∃ result, b.deserialize e data = .ok (true, result)} := by
  have : Nonempty TimeBlock := ⟨empty⟩
  simpa using CoinPlatform.bijOn_serialize (S := Set.univ)
    fun data _ => acceptsEncodings e data

end CoinPlatform
