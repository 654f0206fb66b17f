/-
# The genesis generator

`GenesisGenerator` of `tools/genesis_generator/genesis_generator.cpp` makes the two blocks whose
encodings and hashes are the constants of `genesis_blocks.hpp`.  The tool never runs the node,
and the node never runs the tool.

* `exists_generate`: the tool makes its blocks for every key pair;
* `generateTimeChainGenesisBlock_eq`, `generateValueChainGenesisBlock_eq`: they are what a producer
  would make on an empty chain at `GENESIS_TIME`;
* `loadable_of_generate`: a node built with the constants starts on them.
-/
import CoinPlatform.Recovery
import CoinPlatform.Roles
import CoinPlatform.StoredBlocks

open ByteOrder StdVector

namespace CoinPlatform

namespace GenesisGenerator

/-! ## The tool -/

/-- `GENESIS_TIME`. -/
def genesisTime : TimePoint := 1730467980 * 1000000000

/-- `VALUE_CHAIN_REFERENCE`. -/
def valueChainReference : List Char :=
  ['F', 'i', 'r', 's', 't', ' ', 'V', 'a', 'l', 'u', 'e', 'C', 'h', 'a', 'i', 'n', ' ',
    'G', 'e', 'n', 'e', 's', 'i', 's', ' ', 'B', 'l', 'o', 'c', 'k', ' ',
    'R', 'e', 'f', 'e', 'r', 'e', 'n', 'c', 'e']

/-- `string_to_bytes`. -/
def stringToBytes (str : List Char) : Bytes := str.map fun c => UInt8.ofNat c.toNat

variable (H : Host) (privateKey : PrivateKey) (publicKey : PublicKey)

/-- `generate_time_chain_genesis_block`. -/
def generateTimeChainGenesisBlock : Except Fault TimeBlock := do
  let genesisBlock := TimeBlock.new H (zeros 32) genesisTime publicKey
  let signature ← signMessage H (genesisBlock.getDataToSign H.endian) privateKey
  return genesisBlock.setSignature H signature

/-- The coinbase transaction of `generate_value_chain_genesis_block`: unlike that of a producer
it carries data. -/
def coinbaseTransaction : Except Fault Transaction := do
  let coinbaseTx := Transaction.new H (zeros 32) publicKey 50 (stringToBytes valueChainReference)
  let txSignature ← signMessage H (coinbaseTx.getDataToSign H.endian) privateKey
  return coinbaseTx.setSignature H txSignature

/-- `generate_value_chain_genesis_block`. -/
def generateValueChainGenesisBlock (timeChainGenesisBlock : TimeBlock) :
    Except Fault ValueBlock := do
  let coinbaseTx ← coinbaseTransaction H privateKey publicKey
  let genesisValueBlock :=
    ValueBlock.new H (zeros 32) timeChainGenesisBlock.hash genesisTime [coinbaseTx] publicKey
  let blockSignature ← signMessage H (genesisValueBlock.getDataToSign H.endian) privateKey
  return genesisValueBlock.setSignature H blockSignature

/-- What `main` does with the private key: the constructor derives the public key, then both
blocks are made. -/
def generate : Except Fault (TimeBlock × ValueBlock) := do
  let publicKey ← derivePublicKey H privateKey
  let timeGenesis ← generateTimeChainGenesisBlock H privateKey publicKey
  let valueGenesis ← generateValueChainGenesisBlock H privateKey publicKey timeGenesis
  return (timeGenesis, valueGenesis)

/-- What `main` writes into `genesis_blocks.hpp`. -/
def genesisBlocks (timeGenesis : TimeBlock) (valueGenesis : ValueBlock) : GenesisBlocks where
  timeChainGenesisBlockData := timeGenesis.serialize H.endian
  valueChainGenesisBlockData := valueGenesis.serialize H.endian
  timeChainGenesisHash := timeGenesis.hash
  valueChainGenesisHash := valueGenesis.hash

/-- A dual node with these constants, started from empty directories, initializes both chains
with the two blocks.  The value block is valid over the time store, the time block is signed, and
both hashes are those of the contents. -/
structure Loadable (timeGenesis : TimeBlock) (valueGenesis : ValueBlock) (s₀ : Node.State) :
    Prop where
  initialized : Roles.initializeComponents H (genesisBlocks H timeGenesis valueGenesis)
    (Roles.construct .dual FileStorage.empty FileStorage.empty) (true, .ok) (true, .ok)
      = .ok (true, Roles.ofNode (fun _ => []) s₀)
  started : Node.Started H (genesisBlocks H timeGenesis valueGenesis) s₀ timeGenesis valueGenesis
  valueValid : ValueChainConsensus.validateBlock H s₀.timeStorage valueGenesis = .ok true
  timeSigned : TimeChainConsensus.verifySignature H timeGenesis = true
  timeHash : timeGenesis.hash
    = H.sha256 (timeGenesis.getDataToSign H.endian ++ timeGenesis.signature.toList)
  valueHash : valueGenesis.hash
    = H.sha256 (valueGenesis.getDataToSign H.endian ++ valueGenesis.signature.toList)

/-! ## What is made -/

variable {H privateKey publicKey} {timeGenesis : TimeBlock} {valueGenesis : ValueBlock}

/-- The time block is what a producer would make on an empty chain. -/
theorem generateTimeChainGenesisBlock_eq (keys : NodeKeys H) :
    generateTimeChainGenesisBlock H keys.privateKey keys.publicKey
      = TimeChainConsensus.createBlock H keys none genesisTime := rfl

/-- So is the value block, with another coinbase transaction. -/
theorem generateValueChainGenesisBlock_eq (keys : NodeKeys H) (timeGenesis : TimeBlock) :
    generateValueChainGenesisBlock H keys.privateKey keys.publicKey timeGenesis
      = coinbaseTransaction H keys.privateKey keys.publicKey >>= fun coinbaseTx =>
        ValueChainConsensus.createBlock H keys none timeGenesis.hash genesisTime [coinbaseTx] :=
  rfl

theorem generate_eq_ok (h : generate H privateKey = .ok (timeGenesis, valueGenesis)) :
    ∃ (keys : NodeKeys H) (coinbaseTx : Transaction), keys.privateKey = privateKey ∧
      TimeChainConsensus.createBlock H keys none genesisTime = .ok timeGenesis ∧
      coinbaseTransaction H keys.privateKey keys.publicKey = .ok coinbaseTx ∧
      ValueChainConsensus.createBlock H keys none timeGenesis.hash genesisTime [coinbaseTx]
        = .ok valueGenesis := by
  obtain ⟨publicKey, hderived, h⟩ := bind_eq_ok.mp h
  obtain ⟨t, htime, h⟩ := bind_eq_ok.mp h
  obtain ⟨v, hvalue, h⟩ := bind_eq_ok.mp h
  cases h
  let keys : NodeKeys H := ⟨privateKey, publicKey, hderived⟩
  have hvalue' := (generateValueChainGenesisBlock_eq keys timeGenesis).symm.trans hvalue
  obtain ⟨coinbaseTx, hcoinbase, hvalue'⟩ := bind_eq_ok.mp hvalue'
  exact ⟨keys, coinbaseTx, rfl, (generateTimeChainGenesisBlock_eq keys).symm.trans htime,
    hcoinbase, hvalue'⟩

/-- A message is signed when the library signs its hash. -/
theorem exists_signMessage (hkey : H.secp256k1.keypairCreate privateKey = true)
    (hsign : ∀ h, ∃ signature, H.secp256k1.schnorrsigSign h privateKey = some signature)
    (message : Bytes) : ∃ signature, signMessage H message privateKey = .ok signature := by
  obtain ⟨signature, hsignature⟩ := hsign (H.sha256 message)
  refine ⟨signature, ?_⟩
  rw [signMessage, if_pos hkey, hsignature]

/-- **The blocks are made for every key pair** whose public key the library writes and with which
it signs. -/
theorem exists_generate (hkey : H.secp256k1.keypairCreate privateKey = true)
    {x : H.secp256k1.XonlyPubkey} (hx : H.secp256k1.keypairXonlyPub privateKey = some x)
    (hpublic : H.secp256k1.xonlyPubkeySerialize x = some publicKey)
    (hsign : ∀ h, ∃ signature, H.secp256k1.schnorrsigSign h privateKey = some signature) :
    ∃ timeGenesis valueGenesis, generate H privateKey = .ok (timeGenesis, valueGenesis) := by
  have hderived : derivePublicKey H privateKey = .ok publicKey := by
    rw [derivePublicKey, if_pos hkey, hx]
    dsimp only
    rw [hpublic]
  have hsigns := exists_signMessage hkey hsign
  obtain ⟨timeSignature, htime⟩ := hsigns
    ((TimeBlock.new H (zeros 32) genesisTime publicKey).getDataToSign H.endian)
  obtain ⟨txSignature, htx⟩ := hsigns ((Transaction.new H (zeros 32) publicKey 50
    (stringToBytes valueChainReference)).getDataToSign H.endian)
  set timeGenesis := (TimeBlock.new H (zeros 32) genesisTime publicKey).setSignature H
    timeSignature
  set coinbaseTx := (Transaction.new H (zeros 32) publicKey 50
    (stringToBytes valueChainReference)).setSignature H txSignature
  obtain ⟨blockSignature, hblock⟩ := hsigns ((ValueBlock.new H (zeros 32) timeGenesis.hash
    genesisTime [coinbaseTx] publicKey).getDataToSign H.endian)
  refine ⟨timeGenesis, (ValueBlock.new H (zeros 32) timeGenesis.hash genesisTime [coinbaseTx]
    publicKey).setSignature H blockSignature, ?_⟩
  refine bind_eq_ok.mpr ⟨publicKey, hderived, bind_eq_ok.mpr ⟨timeGenesis, ?_, ?_⟩⟩
  · exact bind_eq_ok.mpr ⟨timeSignature, htime, rfl⟩
  · refine bind_eq_ok.mpr ⟨_, bind_eq_ok.mpr ⟨coinbaseTx, ?_, ?_⟩, rfl⟩
    · exact bind_eq_ok.mpr ⟨txSignature, htx, rfl⟩
    · exact bind_eq_ok.mpr ⟨blockSignature, hblock, rfl⟩

theorem coinbaseTransaction_eq_ok {coinbaseTx : Transaction}
    (h : coinbaseTransaction H privateKey publicKey = .ok coinbaseTx) :
    coinbaseTx.senderPublicKey = zeros 32 ∧
      coinbaseTx.data = stringToBytes valueChainReference := by
  obtain ⟨signature, -, h⟩ := bind_eq_ok.mp h
  obtain rfl := Except.ok.inj h
  exact ⟨rfl, rfl⟩

/-- The coinbase transaction is accepted without its signature being looked at. -/
theorem verify_coinbaseTransaction {coinbaseTx : Transaction}
    (h : coinbaseTransaction H privateKey publicKey = .ok coinbaseTx) :
    coinbaseTx.verify H = true := by
  have hcoinbase : coinbaseTx.isCoinbaseTransaction = true := by
    rw [Transaction.isCoinbaseTransaction, (coinbaseTransaction_eq_ok h).1]
    rfl
  rw [Transaction.verify, if_pos hcoinbase]

/-- The value block is read back from its encoding. -/
theorem length_serialize_le {coinbaseTx : Transaction} (e : Endian)
    (h : coinbaseTransaction H privateKey publicKey = .ok coinbaseTx)
    (htxs : valueGenesis.transactions = [coinbaseTx]) :
    (valueGenesis.serialize e).length ≤ maxSize := by
  have hdata : coinbaseTx.data.length = 40 := by
    rw [(coinbaseTransaction_eq_ok h).2]
    rfl
  rw [ValueBlock.length_serialize, htxs, ValueBlock.serializeTransactions_cons]
  simp only [List.length_append, length_bytes64, Transaction.length_serialize, hdata]
  rw [show ValueBlock.serializeTransactions e [] = [] from rfl, List.length_nil, maxSize]
  omega

end GenesisGenerator

/-! ## The start -/

namespace Node

variable {H : Host} {G : GenesisBlocks} {timeGenesis : TimeBlock} {valueGenesis : ValueBlock}

/-- **When a node starts**: the constants are read as blocks that carry the hashes. -/
theorem exists_start (htimeLen : G.timeChainGenesisBlockData.length ≤ maxSize)
    (hvalueLen : G.valueChainGenesisBlockData.length ≤ maxSize)
    (htime : G.IsTimeGenesis H.endian timeGenesis)
    (htimeHash : timeGenesis.hash = G.timeChainGenesisHash)
    (hvalue : G.IsValueGenesis H.endian valueGenesis)
    (hvalueHash : valueGenesis.hash = G.valueChainGenesisHash) : ∃ s₀, start H G = some s₀ := by
  obtain ⟨timeStorage, htimeStore⟩ := FileStorage.exists_storeBlock_genesis (e := H.endian)
    (g := timeGenesis)
    (FileStorage.empty.initializeDirectory
      ['d', 'a', 't', 'a', '/', 't', 'i', 'm', 'e', '_', 'c', 'h', 'a', 'i', 'n'] true).2
    htimeLen htime
  obtain ⟨valueStorage, hvalueStore⟩ := FileStorage.exists_storeBlock_genesis (e := H.endian)
    (g := valueGenesis)
    (FileStorage.empty.initializeDirectory
      ['d', 'a', 't', 'a', '/', 'v', 'a', 'l', 'u', 'e', '_', 'c', 'h', 'a', 'i', 'n'] true).2
    hvalueLen hvalue
  have htimeInit :
      initializeTimeChain H G FileStorage.empty true .ok = .ok (true, timeStorage) := by
    show TimeChainConsensus.initializeChain H G _ .ok = _
    rw [TimeChainConsensus.initializeChain_eq]
    exact (FileStorage.initializeFrom_of_none rfl).mpr ⟨timeGenesis, htime, htimeHash, htimeStore⟩
  have hvalueInit :
      initializeValueChain H G FileStorage.empty true .ok = .ok (true, valueStorage) := by
    show ValueChainConsensus.initializeChain H G _ .ok = _
    rw [ValueChainConsensus.initializeChain_eq]
    exact (FileStorage.initializeFrom_of_none rfl).mpr
      ⟨valueGenesis, hvalue, hvalueHash, hvalueStore⟩
  refine ⟨⟨timeStorage, valueStorage, [], .idle, .idle, .idle⟩, ?_⟩
  rw [start, htimeInit, hvalueInit]

end Node

/-! ## Generated constants -/

namespace GenesisGenerator

variable {H : Host} {privateKey : PrivateKey} {timeGenesis : TimeBlock} {valueGenesis : ValueBlock}

/-- **A node starts on generated constants**, whatever the private key they were made with: the
blocks are read back from their encodings, the value block refers to the time block and is not
later than it, and what was signed verifies. -/
theorem loadable_of_generate (hH : H.secp256k1.Correct)
    (h : generate H privateKey = .ok (timeGenesis, valueGenesis)) :
    ∃ s₀, Loadable H timeGenesis valueGenesis s₀ := by
  obtain ⟨keys, coinbaseTx, -, htime, hcoinbase, hvalue⟩ := generate_eq_ok h
  obtain ⟨timeSignature, -, htimeGenesis⟩ := TimeChainConsensus.createBlock_eq_ok htime
  obtain ⟨-, hreference, hvalueTime, htxs, -⟩ := ValueChainConsensus.fields_createBlock hvalue
  have hlen := length_serialize_le H.endian hcoinbase htxs
  have hisTime : (genesisBlocks H timeGenesis valueGenesis).IsTimeGenesis H.endian timeGenesis :=
    (TimeBlock.deserialize_eq_true_iff H.endian _ _ _).mpr rfl
  have hisValue :
      (genesisBlocks H timeGenesis valueGenesis).IsValueGenesis H.endian valueGenesis :=
    ValueBlock.deserialize_serialize H.endian _ _ hlen
  obtain ⟨s₀, hstart⟩ := Node.exists_start (TimeBlock.length_serialize_le H.endian timeGenesis)
    hlen hisTime rfl hisValue rfl
  obtain ⟨t, v, hstarted⟩ := Node.started_of_start hstart
  obtain rfl : t = timeGenesis := hstarted.isTimeGenesis.unique hisTime
  obtain rfl : v = valueGenesis := by
    have hsame := hstarted.isValueGenesis.symm.trans hisValue
    exact (Prod.mk.inj (Except.ok.inj hsame)).2
  refine ⟨s₀, Roles.initializeComponents_of_start hstart, hstarted, ?_, ?_, ?_, ?_⟩
  · refine ValueChainConsensus.validateBlock_eq_true.mpr ⟨⟨?_, t.time, ?_, ?_⟩, ?_, ?_⟩
    · rw [hreference]
      exact ((hstarted.timeStored _ _).mpr ⟨rfl, rfl⟩).blockExists
    · exact ValueChainConsensus.getCurrentTime_of_isLatest hstarted.timeLatest
    · -- both blocks have the same time, and the current one is that of the time block
      rw [hvalueTime, htimeGenesis]
      exact UInt64.le_refl genesisTime
    · intro tx htx
      rw [htxs, List.mem_singleton] at htx
      rw [htx]
      exact verify_coinbaseTransaction hcoinbase
    · exact ValueChainConsensus.verifySignature_createBlock hH hvalue
  · exact TimeChainConsensus.verifySignature_createBlock hH htime
  · exact TimeChainConsensus.hashCorrect_createBlock htime
  · exact ValueChainConsensus.hashCorrect_createBlock hvalue

/-- On the sample host. -/
theorem loadable_of_generate_tagHost :
    ∃ timeGenesis valueGenesis,
      generate tagHost tagKeys.privateKey = .ok (timeGenesis, valueGenesis) ∧
      ∃ s₀, Loadable tagHost timeGenesis valueGenesis s₀ := by
  obtain ⟨timeGenesis, valueGenesis, h⟩ :=
    exists_generate (H := tagHost) tagKeys.keypairCreate rfl rfl (fun _ => ⟨_, rfl⟩)
  exact ⟨timeGenesis, valueGenesis, h, loadable_of_generate tagSecp256k1_correct h⟩

/-- The shipped value block has the time and the reference of a generated one. -/
example : (ValueBlock.empty.deserialize .little valueChainGenesisBlockData).toOption.map
    (fun r => (r.2.time, r.2.transactions.map Transaction.data))
      = some (genesisTime, [stringToBytes valueChainReference]) := by
  decide +kernel

end GenesisGenerator

end CoinPlatform
