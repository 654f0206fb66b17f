/-
# The steps of a decoder

`ValueBlock::deserialize` repeats its loop as often as the input says, up to `2 ^ 64 - 1` times.
An iteration that ends normally has read the encoding of a transaction, at least 184 bytes with
its size, and the next one starts behind it; every other iteration is the last one.  So the
number of iterations, and of transactions that are stored, is bounded by the size of the input.

* `iteration`, `countedLoop`: the body of the loop, and the loop with its iterations counted.
* `iteration_advances`: what is left of the input gets smaller by at least 184 bytes.
* `countedLoop_bounds`: the bounds, for every number that the input claims.
-/
import CoinPlatform.ValueBlock

open ByteOrder StdVector

namespace CoinPlatform

namespace ValueBlock

variable (e : Endian)

/-- One iteration of the loop of `deserialize`: whether the loop goes on, the offset and the
transactions stored so far. -/
def iteration (data : Bytes) (offset : ℕ) (txs : List Transaction) :
    Except Fault (Bool × ℕ × List Transaction) := do
  let some txSize ← readUInt64 e data offset | return (false, offset, txs)
  let offset := sizeAdd offset 8
  if data.length < sizeAdd offset txSize.toNat then return (false, offset, txs)
  resize txSize.toNat
  let txBytes ← copyRange data offset txSize.toNat
  let offset := sizeAdd offset txSize.toNat
  let (ok, tx) ← Transaction.empty.deserialize e txBytes
  if !ok then return (false, offset, txs)
  return (true, offset, txs ++ [tx])

/-- How the loop has ended: the number of iterations that were begun, what is in
`transactions_` then, and the result or the exception. -/
structure LoopEnd where
  iterations : ℕ
  transactions : List Transaction
  outcome : Except Fault (Bool × ℕ × List Transaction)

/-- The loop of `deserialize`, with its iterations counted. -/
def countedLoop (data : Bytes) : ℕ → ℕ → List Transaction → LoopEnd
  | 0, offset, txs => ⟨0, txs, .ok (true, offset, txs)⟩
  | n + 1, offset, txs =>
    match iteration e data offset txs with
    | .error fault => ⟨1, txs, .error fault⟩
    | .ok (false, offset, txs) => ⟨1, txs, .ok (false, offset, txs)⟩
    | .ok (true, offset, txs) =>
      let rest := countedLoop data n offset txs
      { rest with iterations := rest.iterations + 1 }

/-! ## The counted loop is the loop -/

variable {e} {data : Bytes} {offset offset' : ℕ} {txs txs' : List Transaction}

/-- The loop begins with one iteration, and goes on if that says so. -/
theorem deserializeTransactions_succ (n : ℕ) :
    deserializeTransactions e data (n + 1) offset txs =
      iteration e data offset txs >>= fun r =>
        if r.1 then deserializeTransactions e data n r.2.1 r.2.2 else .ok (false, r.2.1, r.2.2)
    := by
  rw [deserializeTransactions, iteration]
  simp only [bind_assoc]
  congr 1
  funext txSize
  cases txSize with
  | none => rfl
  | some txSize =>
      simp only
      split
      · rfl
      · simp only [bind_assoc]
        congr 1
        funext _
        congr 1
        funext txBytes
        congr 1
        funext r
        obtain ⟨ok, tx⟩ := r
        cases ok <;> rfl

/-- **Counting changes nothing.** -/
theorem outcome_countedLoop (n : ℕ) :
    (countedLoop e data n offset txs).outcome = deserializeTransactions e data n offset txs := by
  induction n generalizing offset txs with
  | zero => rfl
  | succ n ih =>
      rw [deserializeTransactions_succ, countedLoop]
      cases iteration e data offset txs with
      | error fault => rfl
      | ok r =>
          obtain ⟨goesOn, offset', txs'⟩ := r
          cases goesOn with
          | false => rfl
          | true => exact ih

/-- Where the loop ends normally, its result has the transactions that are stored. -/
theorem transactions_countedLoop {n : ℕ} {r : Bool × ℕ × List Transaction}
    (h : deserializeTransactions e data n offset txs = .ok r) :
    (countedLoop e data n offset txs).transactions = r.2.2 := by
  induction n generalizing offset txs with
  | zero =>
      cases h
      rfl
  | succ n ih =>
      rw [deserializeTransactions_succ] at h
      obtain ⟨⟨goesOn, offset', txs'⟩, hfirst, hrest⟩ := bind_eq_ok.mp h
      rw [countedLoop, hfirst]
      cases goesOn with
      | false =>
          cases hrest
          rfl
      | true => exact ih hrest

/-- A read that gives up does so because of the size of the input. -/
theorem length_lt_of_readArray {n : ℕ} (h : readArray data offset n = .ok none) :
    data.length < sizeAdd offset n := by
  unfold readArray at h
  split at h
  · assumption
  · obtain ⟨v, -, hv⟩ := bind_eq_ok.mp h
    cases hv

/-- **The transactions of the decoded object** are those that the counted loop has stored, for
the number that stands in the input. -/
theorem transactions_deserialize {b b' : ValueBlock} {ok : Bool} {numTransactions : UInt64}
    (hnum : readUInt64 e data 72 = .ok (some numTransactions))
    (h : b.deserialize e data = .ok (ok, b')) :
    b'.transactions = (countedLoop e data numTransactions.toNat 80 []).transactions := by
  have hheader : 80 ≤ data.length := (drop_eq_of_readUInt64 hnum).1
  unfold deserialize at h
  -- the fields in front of the number are there
  obtain ⟨_ | previousHash, h₁, h⟩ := bind_eq_ok.mp h
  · have hlt := length_lt_of_readArray h₁
    rw [sizeAdd_of_lt (by decide)] at hlt
    omega
  obtain ⟨_ | timeBlockHash, h₂, h⟩ := bind_eq_ok.mp h
  · have hlt : data.length < 64 := length_lt_of_readArray h₂
    omega
  obtain ⟨_ | time, h₃, h⟩ := bind_eq_ok.mp h
  · obtain ⟨_ | a, ha, hx⟩ := bind_eq_ok.mp h₃
    · have hlt : data.length < 72 := length_lt_of_readArray ha
      omega
    · cases hx
  obtain ⟨o, h₄, h⟩ := bind_eq_ok.mp h
  obtain rfl : o = some numTransactions := Except.ok.inj (h₄.symm.trans hnum)
  obtain ⟨⟨goesOn, offset, txs⟩, h₅, h⟩ := bind_eq_ok.mp h
  have hstored : (countedLoop e data numTransactions.toNat 80 []).transactions = txs :=
    transactions_countedLoop h₅
  rw [hstored]
  cases goesOn with
  | false =>
      cases h
      rfl
  | true =>
      obtain ⟨_ | publicKey, -, h⟩ := bind_eq_ok.mp h
      · cases h
        rfl
      obtain ⟨_ | signature, -, h⟩ := bind_eq_ok.mp h
      · cases h
        rfl
      obtain ⟨_ | hash, -, h⟩ := bind_eq_ok.mp h
      · cases h
        rfl
      cases h
      rfl

/-! ## Progress -/

/-- **An iteration that goes on has read a transaction**: what is left is shorter by its size
and its encoding. -/
theorem iteration_advances (hlen : data.length < 2 ^ 64)
    (h : iteration e data offset txs = .ok (true, offset', txs')) :
    (∃ tx, txs' = txs ++ [tx]) ∧ data.length - offset' + 184 ≤ data.length - offset := by
  have hloop : deserializeTransactions e data 1 offset txs = .ok (true, offset', txs') := by
    rw [deserializeTransactions_succ, h]
    rfl
  obtain ⟨new, rfl, hnew, hdrop⟩ := deserializeTransactions_sound e hlen 1 hloop
  obtain ⟨tx, rfl⟩ := List.length_eq_one_iff.mp hnew
  have hsize := length_le_serializeTransactions e [tx]
  have hlength := congrArg List.length hdrop
  rw [List.length_append, List.length_drop, List.length_drop] at hlength
  rw [List.length_singleton] at hsize
  exact ⟨⟨tx, rfl⟩, by omega⟩

/-- An iteration that does not go on has stored nothing. -/
theorem iteration_stops (h : iteration e data offset txs = .ok (false, offset', txs')) :
    txs' = txs := by
  unfold iteration at h
  obtain ⟨_ | txSize, -, h⟩ := bind_eq_ok.mp h
  · cases h
    rfl
  simp only at h
  split at h
  · cases h
    rfl
  obtain ⟨_, -, h⟩ := bind_eq_ok.mp h
  obtain ⟨txBytes, -, h⟩ := bind_eq_ok.mp h
  obtain ⟨⟨ok, tx⟩, -, h⟩ := bind_eq_ok.mp h
  cases ok with
  | false =>
      cases h
      rfl
  | true => cases h

/-! ## The bounds -/

/-- From any offset, whatever has been stored before. -/
theorem countedLoop_le (hlen : data.length < 2 ^ 64) (n : ℕ) :
    (countedLoop e data n offset txs).iterations ≤ (data.length - offset) / 184 + 1 ∧
      (countedLoop e data n offset txs).transactions.length
        ≤ txs.length + (data.length - offset) / 184 := by
  induction n generalizing offset txs with
  | zero => exact ⟨Nat.zero_le _, Nat.le_add_right _ _⟩
  | succ n ih =>
      rw [countedLoop]
      cases hfirst : iteration e data offset txs with
      | error fault => exact ⟨Nat.le_add_left 1 _, Nat.le_add_right _ _⟩
      | ok r =>
          obtain ⟨goesOn, offset', txs'⟩ := r
          cases goesOn with
          | false =>
              obtain rfl := iteration_stops hfirst
              exact ⟨Nat.le_add_left 1 _, Nat.le_add_right _ _⟩
          | true =>
              obtain ⟨⟨tx, rfl⟩, hadvance⟩ := iteration_advances hlen hfirst
              obtain ⟨hiterations, hstored⟩ := @ih offset' (txs ++ [tx])
              rw [List.length_append, List.length_singleton] at hstored
              -- 184 bytes less are left for the rest of the loop
              have hless : (data.length - offset') / 184 + 1 ≤ (data.length - offset) / 184 := by
                rw [← Nat.add_div_right _ (by decide)]
                exact Nat.div_le_div_right hadvance
              simp only
              exact ⟨by omega, by omega⟩

/-- **The loop ends after as many steps as the input has room for**, whatever number of
transactions the input claims; the loop starts at offset 80. -/
theorem countedLoop_bounds (hlen : data.length < 2 ^ 64) (numTransactions : UInt64) :
    (countedLoop e data numTransactions.toNat 80 []).outcome
        = deserializeTransactions e data numTransactions.toNat 80 [] ∧
      (countedLoop e data numTransactions.toNat 80 []).iterations ≤ data.length / 184 + 1 ∧
      (countedLoop e data numTransactions.toNat 80 []).transactions.length
        ≤ data.length / 184 := by
  obtain ⟨hiterations, hstored⟩ :=
    @countedLoop_le e data 80 [] hlen numTransactions.toNat
  have hless : (data.length - 80) / 184 ≤ data.length / 184 :=
    Nat.div_le_div_right (Nat.sub_le _ _)
  rw [List.length_nil] at hstored
  exact ⟨outcome_countedLoop _, by omega, by omega⟩

/-- An input of 88 bytes that claims `2 ^ 64 - 1` transactions, the first of them with a size
that makes the offset wrap around. -/
def wrappingBlock : Bytes :=
  List.replicate 72 0 ++ List.replicate 16 0xFF

theorem countedLoop_bounds_wrapping :
    wrappingBlock.length < 2 ^ 64 ∧
      (countedLoop .little wrappingBlock (UInt64.ofNat (2 ^ 64 - 1)).toNat 80 []).outcome
          = deserializeTransactions .little wrappingBlock (UInt64.ofNat (2 ^ 64 - 1)).toNat 80 [] ∧
      (countedLoop .little wrappingBlock (UInt64.ofNat (2 ^ 64 - 1)).toNat 80 []).iterations
          ≤ wrappingBlock.length / 184 + 1 ∧
      (countedLoop .little wrappingBlock
          (UInt64.ofNat (2 ^ 64 - 1)).toNat 80 []).transactions.length
        ≤ wrappingBlock.length / 184 := by
  have hlen : wrappingBlock.length < 2 ^ 64 := by
    rw [wrappingBlock, List.length_append, List.length_replicate, List.length_replicate]
    decide
  exact ⟨hlen, countedLoop_bounds hlen (UInt64.ofNat (2 ^ 64 - 1))⟩

end ValueBlock

end CoinPlatform
