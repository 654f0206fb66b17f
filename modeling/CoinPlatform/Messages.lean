/-
# Messages

What the loops of `node.cpp` put into a message, and what `process_complete_message` makes of
it on a dual-role node.  A body is a type byte and a payload.

The senders put their public key in front of a serialized block, and the receiver decodes the
payload from its first byte.  `processCompleteMessage_body` says what comes through: a time
block has the wrong size with the key in front of it; a value block would have to repeat
itself every 32 bytes; a transaction has no key in front of it and arrives.
-/
import CoinPlatform.Framing
import CoinPlatform.ValueChainConsensus

open ByteOrder StdVector

namespace CoinPlatform

namespace Node

/-- What is sent, and what a handler is called with: `handle_block` of the time chain or of
the value chain, or `add_transaction`. -/
inductive Item where
  | timeBlock (block : TimeBlock)
  | valueBlock (block : ValueBlock)
  | transaction (tx : Transaction)
  deriving DecidableEq

variable (H : Host) (keys : NodeKeys H) (e : Endian)

/-! ## Sending -/

/-- The transaction of `generate_and_broadcast_transaction`: ten coins for a fresh key. -/
def generateTransaction (recipientPrivateKey : PrivateKey) : Except Fault Transaction := do
  let recipientPublicKey ← derivePublicKey H recipientPrivateKey
  let tx := Transaction.new H keys.publicKey recipientPublicKey 10 []
  let signature ← signMessage H (tx.getDataToSign H.endian) keys.privateKey
  return tx.setSignature H signature

/-- The type byte and the payload of a message. -/
def Item.body (publicKey : PublicKey) : Item → Bytes
  | .timeBlock block => 0x01 :: blockPayload publicKey (block.serialize e)
  | .valueBlock block => 0x02 :: blockPayload publicKey (block.serialize e)
  | .transaction tx => 0x03 :: tx.serialize e

/-- The frame that is broadcast. -/
def Item.frame (publicKey : PublicKey) : Item → Bytes
  | .timeBlock block => timeBlockFrame e publicKey block
  | .valueBlock block => valueBlockFrame e publicKey block
  | .transaction tx => transactionFrame e tx

/-- What the loops of the node send: blocks returned by `produce_block` and generated
transactions. -/
def Produced : Item → Prop
  | .timeBlock block => ∃ storage randomNumber currentTime io storage',
    TimeChainConsensus.produceBlock H keys storage randomNumber currentTime io
      = .ok (some block, storage')
  | .valueBlock block => ∃ timeStorage storage pool randomNumber io storage' left,
    ValueChainConsensus.produceBlock H keys timeStorage storage pool randomNumber io
      = .ok (some block, storage', left)
  | .transaction tx => ∃ recipientPrivateKey,
    generateTransaction H keys recipientPrivateKey = .ok tx

/-! ## Receiving -/

/-- A handler calls on what it has decoded, and logs what it has not. -/
def callOn {B : Type} (call : B → Item) (decoded : Except Fault (Bool × B)) :
    Except Fault (Option Item) := do
  let (ok, b) ← decoded
  if ok then return some (call b) else return none

def handleIncomingTimeBlock (data : Bytes) : Except Fault (Option Item) :=
  -- the public key of the sender is still in front of the block
  callOn .timeBlock (TimeBlock.empty.deserialize e data)

def handleIncomingValueBlock (data : Bytes) : Except Fault (Option Item) :=
  callOn .valueBlock (ValueBlock.empty.deserialize e data)

/-- `handle_incoming_transaction`: nothing below `MIN_TRANSACTION_SIZE` is decoded. -/
def handleIncomingTransaction (data : Bytes) : Except Fault (Option Item) :=
  if data.length < 32 + 32 + 8 + 8 + 0 + 64 + 32 then return none
  else callOn .transaction (Transaction.empty.deserialize e data)

/-- `process_complete_message`: the call it makes, if any. -/
def processCompleteMessage (message : Bytes) : Except Fault (Option Item) :=
  match message with
  | [] => return none
  | messageType :: payload =>
    if messageType = 0x01 then handleIncomingTimeBlock e payload
    else if messageType = 0x02 then handleIncomingValueBlock e payload
    else if messageType = 0x03 then handleIncomingTransaction e payload
    else return none

variable {H keys e}

theorem callOn_eq_some {B : Type} {call : B → Item} {decoded : Except Fault (Bool × B)}
    {item : Item} :
    callOn call decoded = .ok (some item) ↔ ∃ b, decoded = .ok (true, b) ∧ call b = item := by
  unfold callOn
  rw [bind_eq_ok]
  constructor
  · rintro ⟨⟨ok, b⟩, hdecoded, h⟩
    cases ok with
    | false => cases h
    | true => exact ⟨b, hdecoded, by simpa [pure, Except.pure] using h⟩
  · rintro ⟨b, hdecoded, rfl⟩
    exact ⟨(true, b), hdecoded, rfl⟩

theorem handleIncomingTransaction_eq_some {data : Bytes} {item : Item} :
    handleIncomingTransaction e data = .ok (some item) ↔
      176 ≤ data.length ∧
        ∃ tx, Transaction.empty.deserialize e data = .ok (true, tx) ∧ .transaction tx = item := by
  unfold handleIncomingTransaction
  by_cases hsmall : data.length < 32 + 32 + 8 + 8 + 0 + 64 + 32
  · rw [if_pos hsmall]
    exact iff_of_false (fun h => by cases h) (fun h => absurd h.1 (Nat.not_le.mpr hsmall))
  · rw [if_neg hsmall, callOn_eq_some, and_iff_right (Nat.not_lt.mp hsmall)]

/-- **The call that a message leads to**, by its type and what its payload decodes to. -/
theorem processCompleteMessage_eq_some {message : Bytes} {item : Item} :
    processCompleteMessage e message = .ok (some item) ↔
      ∃ messageType payload, message = messageType :: payload ∧
        (messageType = 0x01 ∧
            (∃ b, TimeBlock.empty.deserialize e payload = .ok (true, b) ∧ .timeBlock b = item) ∨
          messageType = 0x02 ∧
            (∃ b, ValueBlock.empty.deserialize e payload = .ok (true, b) ∧ .valueBlock b = item) ∨
          messageType = 0x03 ∧ 176 ≤ payload.length ∧
            ∃ tx, Transaction.empty.deserialize e payload = .ok (true, tx) ∧
              .transaction tx = item) := by
  constructor
  · intro h
    cases message with
    | nil => cases h
    | cons messageType payload =>
        refine ⟨messageType, payload, rfl, ?_⟩
        dsimp only [processCompleteMessage] at h
        split at h
        · rename_i hone
          exact .inl ⟨hone, callOn_eq_some.mp h⟩
        · split at h
          · rename_i htwo
            exact .inr (.inl ⟨htwo, callOn_eq_some.mp h⟩)
          · split at h
            · rename_i hthree
              exact .inr (.inr ⟨hthree, handleIncomingTransaction_eq_some.mp h⟩)
            · cases h
  · rintro ⟨messageType, payload, rfl, ⟨rfl, h⟩ | ⟨rfl, h⟩ | ⟨rfl, h⟩⟩
    · exact callOn_eq_some.mpr h
    · exact callOn_eq_some.mpr h
    · exact handleIncomingTransaction_eq_some.mpr h

/-! ## What comes through -/

/-- The payload of a time block is 32 bytes too long. -/
theorem not_processCompleteMessage_timeBlock (publicKey : PublicKey) (block : TimeBlock) :
    processCompleteMessage e ((Item.timeBlock block).body e publicKey)
      ≠ .ok (some (.timeBlock block)) := by
  intro h
  obtain ⟨b, hb, -⟩ := callOn_eq_some.mp h
  have hlen := congrArg List.length ((TimeBlock.deserialize_eq_true_iff e _ b _).mp hb)
  simp [blockPayload] at hlen

/-- A zero number has zero bytes. -/
theorem bytes64_zero (e : Endian) : e.bytes64 0 = List.replicate 8 0 := by
  cases e <;> decide

/-- A list that a block of 32 bytes can be put in front of repeats itself. -/
theorem take_drop_of_append_eq {pre l rest : Bytes} {n : ℕ} (h : pre ++ l = l ++ rest)
    (hlen : n + pre.length + 8 ≤ l.length) :
    (l.drop n).take 8 = (l.drop (n + pre.length)).take 8 := by
  have hdrop := congrArg (List.drop (n + pre.length)) h
  rw [Nat.add_comm n, List.drop_append, List.drop_append_of_le_length (by omega),
    List.drop_eq_nil_of_le (by omega), Nat.add_sub_cancel_left, List.nil_append] at hdrop
  rw [hdrop, Nat.add_comm n, List.take_append_of_le_length (by rw [List.length_drop]; omega)]

/-- The payload of a produced value block does not start with the block: its first size would
have to be repeated inside the zero sender of the coinbase transaction. -/
theorem not_append_eq_serialize {publicKey : PublicKey} {block : ValueBlock}
    {coinbase : Transaction} {transactions : List Transaction} {rest : Bytes}
    (htxs : block.transactions = coinbase :: transactions)
    (hsender : coinbase.senderPublicKey = zeros 32) (hdata : coinbase.data = []) :
    publicKey.toList ++ block.serialize e ≠ block.serialize e ++ rest := by
  intro h
  -- what follows the first 80 bytes is the size and the sender of the coinbase transaction
  obtain ⟨tail, htail⟩ : ∃ tail, (block.serialize e).drop 80
      = e.bytes64 176 ++ (List.replicate 32 0 ++ tail) := by
    refine ⟨coinbase.recipientPublicKey.toList ++ (e.bytes64 coinbase.amount ++ (e.bytes64 0 ++
      (coinbase.signature.toList ++ coinbase.hash.toList))) ++
      (ValueBlock.serializeTransactions e transactions ++ (block.publicKey.toList ++
        (block.signature.toList ++ block.hash.toList))), ?_⟩
    have hcoinbase : coinbase.serialize e = List.replicate 32 0 ++
        (coinbase.recipientPublicKey.toList ++ (e.bytes64 coinbase.amount ++ (e.bytes64 0 ++
          (coinbase.signature.toList ++ coinbase.hash.toList)))) := by
      rw [Transaction.serialize, hsender, hdata]
      rfl
    have hserialize : block.serialize e = (block.previousHash.toList ++
        block.timeBlockHash.toList ++ e.bytes64 block.time ++
        e.bytes64 (UInt64.ofNat block.transactions.length)) ++ (e.bytes64 176 ++
          (coinbase.serialize e ++ (ValueBlock.serializeTransactions e transactions ++
            (block.publicKey.toList ++ (block.signature.toList ++ block.hash.toList))))) := by
      rw [ValueBlock.serialize, htxs, ValueBlock.serializeTransactions_cons,
        Transaction.length_serialize, hdata]
      simp only [List.append_assoc]
      rfl
    rw [hserialize, List.drop_left' (by simp), hcoinbase]
    simp only [List.append_assoc]
  have hlen : 208 ≤ (block.serialize e).length := by
    rw [ValueBlock.length_serialize]
    omega
  have hrepeat := take_drop_of_append_eq (n := 80) h (by
    rw [publicKey.toList_length]
    omega)
  rw [publicKey.toList_length, ← List.drop_drop, htail, List.take_left' (length_bytes64 e 176),
    List.drop_append, List.drop_eq_nil_of_le (by simp), List.nil_append, length_bytes64,
    List.drop_append_of_le_length (by simp), List.drop_replicate,
    List.take_append_of_le_length (by simp), List.take_replicate] at hrepeat
  have hzero : e.bytes64 176 = e.bytes64 0 := hrepeat.trans (bytes64_zero e).symm
  exact absurd (bytes64_injective e hzero) (by decide)

theorem not_processCompleteMessage_valueBlock {block : ValueBlock}
    (h : Produced H keys (.valueBlock block)) (publicKey : PublicKey) :
    processCompleteMessage H.endian ((Item.valueBlock block).body H.endian publicKey)
      ≠ .ok (some (.valueBlock block)) := by
  intro hcall
  obtain ⟨timeStorage, storage, pool, randomNumber, io, storage', left, hproduce⟩ := h
  obtain ⟨-, -, coinbase, latestBlock, currentTime, timeBlockHash, hcoinbase, -, -, -, hcreate,
    hstore⟩ := ValueChainConsensus.produceBlock_eq_some hproduce
  obtain ⟨hsender, -, -, hdata, -⟩ := ValueChainConsensus.coinbaseTransaction_eq_ok hcoinbase
  obtain ⟨-, -, -, htxs, -⟩ := ValueChainConsensus.fields_createBlock hcreate
  -- the encoding was built for the store, so it fits into a vector
  have hmax : (block.serialize H.endian).length ≤ maxSize :=
    FileStorage.length_serialize_le_of_storeBlock hstore
  obtain ⟨b, hb, hsame⟩ := callOn_eq_some.mp hcall
  cases hsame
  obtain ⟨rest, hrest⟩ := ValueBlock.exists_eq_serialize_append H.endian
    (by rw [blockPayload, List.length_append, publicKey.toList_length]
        rw [maxSize] at hmax
        omega) hb
  exact not_append_eq_serialize htxs hsender hdata hrest

/-- A generated transaction arrives as it was sent. -/
theorem processCompleteMessage_transaction {tx : Transaction}
    (h : Produced H keys (.transaction tx)) (publicKey : PublicKey) :
    processCompleteMessage H.endian ((Item.transaction tx).body H.endian publicKey)
      = .ok (some (.transaction tx)) := by
  obtain ⟨recipientPrivateKey, hgenerate⟩ := h
  obtain ⟨recipientPublicKey, -, hgenerate⟩ := bind_eq_ok.mp hgenerate
  obtain ⟨signature, -, htx⟩ := bind_eq_ok.mp hgenerate
  have hdata : tx.data = [] := by
    rw [← Except.ok.inj htx]
    rfl
  have hlen : (tx.serialize H.endian).length = 176 := by
    rw [Transaction.length_serialize, hdata]
    rfl
  have hdecode : Transaction.empty.deserialize H.endian (tx.serialize H.endian)
      = .ok (true, tx) := by
    apply Transaction.deserialize_serialize
    rw [hlen, maxSize]
    omega
  exact processCompleteMessage_eq_some.mpr
    ⟨0x03, _, rfl, .inr (.inr ⟨rfl, hlen.ge, tx, hdecode, rfl⟩)⟩

/-- **Of what a node sends, the transactions arrive, and no block does.** -/
theorem processCompleteMessage_body {item : Item} (h : Produced H keys item) :
    processCompleteMessage H.endian (item.body H.endian keys.publicKey) = .ok (some item) ↔
      ∃ tx, item = .transaction tx := by
  cases item with
  | timeBlock block =>
      simp only [reduceCtorEq, exists_false, iff_false]
      exact not_processCompleteMessage_timeBlock keys.publicKey block
  | valueBlock block =>
      simp only [reduceCtorEq, exists_false, iff_false]
      exact not_processCompleteMessage_valueBlock h keys.publicKey
  | transaction tx =>
      simp only [Item.transaction.injEq, exists_eq', iff_true]
      exact processCompleteMessage_transaction h keys.publicKey

/-- A generated transaction and its way. -/
theorem processCompleteMessage_body_generated :
    ∃ tx, generateTransaction tagHost tagKeys (List.Vector.replicate 32 2) = .ok tx ∧
      (processCompleteMessage .little ((Item.transaction tx).body .little tagKeys.publicKey)
          = .ok (some (.transaction tx)) ↔
        ∃ tx', Item.transaction tx = .transaction tx') := by
  have hgenerated : (generateTransaction tagHost tagKeys
      (List.Vector.replicate 32 2)).toOption.isSome = true := by decide +kernel
  obtain ⟨tx, htx⟩ := Option.isSome_iff_exists.mp hgenerated
  have hok := toOption_eq_some htx
  have hproduced : Produced tagHost tagKeys (.transaction tx) := ⟨_, hok⟩
  exact ⟨tx, hok, processCompleteMessage_body hproduced⟩

/-- **A produced time block does not arrive**: the receiver rejects the 200 bytes of its
payload. -/
theorem not_processCompleteMessage_produced :
    ∃ storage block, TimeChainConsensus.produceBlock tagHost tagKeys FileStorage.empty 0 0 .ok
        = .ok (some block, storage) ∧
      processCompleteMessage .little ((Item.timeBlock block).body .little tagKeys.publicKey)
        = .ok none := by
  have hcheck : (TimeChainConsensus.produceBlock tagHost tagKeys FileStorage.empty 0 0
      .ok).toOption.any (fun r => r.1.any (fun block =>
        decide (processCompleteMessage .little
          ((Item.timeBlock block).body .little tagKeys.publicKey) = .ok none))) = true := by
    decide +kernel
  obtain ⟨⟨o, storage⟩, hproduce, h⟩ := (Option.any_eq_true _ _).mp hcheck
  obtain ⟨block, rfl, hrejected⟩ := (Option.any_eq_true _ _).mp h
  exact ⟨storage, block, toOption_eq_some hproduce, of_decide_eq_true hrejected⟩

end Node

end CoinPlatform
