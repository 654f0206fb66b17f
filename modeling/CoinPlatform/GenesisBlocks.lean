/-
# The genesis blocks

The constants of `common/genesis_blocks.hpp`: the encodings of the two genesis blocks and
their hashes.  The node is described over any such constants; `shippedGenesis` are the
ones in the repository.
-/
import CoinPlatform.TimeBlock
import CoinPlatform.ValueBlock

open ByteOrder StdVector

namespace CoinPlatform

/-- What `genesis_blocks.hpp` defines. -/
structure GenesisBlocks where
  timeChainGenesisBlockData : Bytes
  valueChainGenesisBlockData : Bytes
  timeChainGenesisHash : Hash
  valueChainGenesisHash : Hash

/-- The block the time chain starts with. -/
def GenesisBlocks.IsTimeGenesis (G : GenesisBlocks) (e : Endian) (b : TimeBlock) : Prop :=
  TimeBlock.empty.deserialize e G.timeChainGenesisBlockData = .ok (true, b)

/-- The block the value chain starts with. -/
def GenesisBlocks.IsValueGenesis (G : GenesisBlocks) (e : Endian) (b : ValueBlock) : Prop :=
  ValueBlock.empty.deserialize e G.valueChainGenesisBlockData = .ok (true, b)

/-- There is one block that the time chain starts with. -/
theorem GenesisBlocks.IsTimeGenesis.unique {G : GenesisBlocks} {e : Endian} {b b' : TimeBlock}
    (h : G.IsTimeGenesis e b) (h' : G.IsTimeGenesis e b') : b = b' := by
  have heq : Except.ok (true, b) = Except.ok (true, b') := Eq.trans (Eq.symm h) h'
  exact (Prod.mk.inj (Except.ok.inj heq)).2

/-- `TIME_CHAIN_GENESIS_BLOCK_DATA`. -/
def timeChainGenesisBlockData : Bytes :=
  [
    0x00, 0x00, 0x00, 0x00, 0x00, 0x00, 0x00, 0x00, 0x00, 0x00, 0x00, 0x00, 0x00, 0x00, 0x00,
    0x00, 0x00, 0x00, 0x00, 0x00, 0x00, 0x00, 0x00, 0x00, 0x00, 0x00, 0x00, 0x00, 0x00, 0x00,
    0x00, 0x00, 0x00, 0x78, 0x16, 0x9b, 0x75, 0xdb, 0x03, 0x18, 0x3d, 0x1b, 0x97, 0x65, 0xf4,
    0x03, 0xea, 0xf0, 0x49, 0x2b, 0x9d, 0xaa, 0xfc, 0xe0, 0x94, 0x25, 0xb5, 0xd1, 0x6d, 0x20,
    0x1f, 0x3f, 0xfe, 0x11, 0xc5, 0x7a, 0x20, 0xaa, 0xee, 0x18, 0x63, 0x5e, 0xec, 0xa9, 0x5c,
    0x2d, 0x9e, 0x3b, 0xda, 0x63, 0xb7, 0x4e, 0x27, 0x30, 0xd1, 0x25, 0x5a, 0x3e, 0xca, 0xe2,
    0x1f, 0x8e, 0x26, 0x13, 0x9d, 0x9e, 0xf3, 0x88, 0x28, 0x78, 0xe5, 0xd6, 0x4a, 0x49, 0x06,
    0x4a, 0x8b, 0x8b, 0x59, 0x07, 0x45, 0x38, 0x54, 0x78, 0xda, 0xf8, 0x13, 0xb3, 0x64, 0x39,
    0x76, 0xc8, 0x0a, 0x65, 0x20, 0x79, 0x1e, 0x0b, 0xe1, 0xf3, 0xe5, 0x11, 0x5b, 0x6e, 0x1d,
    0xfd, 0x78, 0x17, 0x90, 0x39, 0xb7, 0x76, 0x97, 0xac, 0xcc, 0x81, 0xd4, 0x93, 0x81, 0xa5,
    0x42, 0x96, 0x36, 0xdc, 0xd5, 0x5e, 0x26, 0xd0, 0x67, 0xdb, 0xe4, 0xad, 0x05, 0xa5, 0x7d,
    0xc8, 0x3e, 0x02]

/-- `VALUE_CHAIN_GENESIS_BLOCK_DATA`. -/
def valueChainGenesisBlockData : Bytes :=
  [
    0x00, 0x00, 0x00, 0x00, 0x00, 0x00, 0x00, 0x00, 0x00, 0x00, 0x00, 0x00, 0x00, 0x00, 0x00,
    0x00, 0x00, 0x00, 0x00, 0x00, 0x00, 0x00, 0x00, 0x00, 0x00, 0x00, 0x00, 0x00, 0x00, 0x00,
    0x00, 0x00, 0x78, 0x17, 0x90, 0x39, 0xb7, 0x76, 0x97, 0xac, 0xcc, 0x81, 0xd4, 0x93, 0x81,
    0xa5, 0x42, 0x96, 0x36, 0xdc, 0xd5, 0x5e, 0x26, 0xd0, 0x67, 0xdb, 0xe4, 0xad, 0x05, 0xa5,
    0x7d, 0xc8, 0x3e, 0x02, 0x00, 0x78, 0x16, 0x9b, 0x75, 0xdb, 0x03, 0x18, 0x01, 0x00, 0x00,
    0x00, 0x00, 0x00, 0x00, 0x00, 0xd8, 0x00, 0x00, 0x00, 0x00, 0x00, 0x00, 0x00, 0x00, 0x00,
    0x00, 0x00, 0x00, 0x00, 0x00, 0x00, 0x00, 0x00, 0x00, 0x00, 0x00, 0x00, 0x00, 0x00, 0x00,
    0x00, 0x00, 0x00, 0x00, 0x00, 0x00, 0x00, 0x00, 0x00, 0x00, 0x00, 0x00, 0x00, 0x00, 0x00,
    0x3d, 0x1b, 0x97, 0x65, 0xf4, 0x03, 0xea, 0xf0, 0x49, 0x2b, 0x9d, 0xaa, 0xfc, 0xe0, 0x94,
    0x25, 0xb5, 0xd1, 0x6d, 0x20, 0x1f, 0x3f, 0xfe, 0x11, 0xc5, 0x7a, 0x20, 0xaa, 0xee, 0x18,
    0x63, 0x5e, 0x32, 0x00, 0x00, 0x00, 0x00, 0x00, 0x00, 0x00, 0x28, 0x00, 0x00, 0x00, 0x00,
    0x00, 0x00, 0x00, 0x46, 0x69, 0x72, 0x73, 0x74, 0x20, 0x56, 0x61, 0x6c, 0x75, 0x65, 0x43,
    0x68, 0x61, 0x69, 0x6e, 0x20, 0x47, 0x65, 0x6e, 0x65, 0x73, 0x69, 0x73, 0x20, 0x42, 0x6c,
    0x6f, 0x63, 0x6b, 0x20, 0x52, 0x65, 0x66, 0x65, 0x72, 0x65, 0x6e, 0x63, 0x65, 0xec, 0x01,
    0xc7, 0x1e, 0xd7, 0xbb, 0x5e, 0x35, 0xb8, 0x1c, 0x9b, 0x6c, 0x5d, 0xd6, 0xb4, 0x95, 0xfb,
    0xa3, 0x8b, 0x9c, 0xec, 0xe6, 0x6c, 0x6f, 0x1b, 0x74, 0x9e, 0x0e, 0x93, 0x33, 0xc7, 0x89,
    0xf2, 0xe5, 0x58, 0x43, 0x2e, 0x1c, 0x87, 0x43, 0x88, 0xa0, 0xbf, 0x16, 0x41, 0x73, 0x24,
    0xa5, 0x25, 0xe4, 0x75, 0xbc, 0x60, 0xa7, 0x50, 0x66, 0xeb, 0xb7, 0x47, 0x76, 0xfb, 0xc7,
    0x44, 0x13, 0x7f, 0xe0, 0xf0, 0x70, 0x8a, 0x8a, 0x86, 0x90, 0x6c, 0x52, 0x5f, 0xfd, 0x5e,
    0x74, 0xf1, 0xdb, 0xc7, 0xdd, 0x83, 0x21, 0xf4, 0xef, 0x59, 0x20, 0x13, 0x56, 0xbe, 0xa0,
    0x8d, 0x72, 0x4d, 0xbe, 0x3d, 0x1b, 0x97, 0x65, 0xf4, 0x03, 0xea, 0xf0, 0x49, 0x2b, 0x9d,
    0xaa, 0xfc, 0xe0, 0x94, 0x25, 0xb5, 0xd1, 0x6d, 0x20, 0x1f, 0x3f, 0xfe, 0x11, 0xc5, 0x7a,
    0x20, 0xaa, 0xee, 0x18, 0x63, 0x5e, 0x7d, 0x96, 0x15, 0x1c, 0x3f, 0x90, 0x42, 0x28, 0x31,
    0x9f, 0x73, 0x68, 0x01, 0xa2, 0x31, 0xa8, 0x27, 0xb3, 0x21, 0xa5, 0xef, 0x64, 0xa4, 0xa2,
    0x77, 0x57, 0xd7, 0xd1, 0xd3, 0xae, 0xc5, 0x11, 0xb0, 0x0b, 0xf8, 0x3e, 0x13, 0x70, 0x29,
    0x51, 0xdf, 0xc9, 0x33, 0x87, 0xde, 0xe4, 0xf1, 0x2f, 0x27, 0x69, 0x11, 0xa8, 0xa4, 0x89,
    0x56, 0xd2, 0xd2, 0x90, 0x9b, 0x7b, 0x50, 0x82, 0xa2, 0xea, 0x74, 0x6d, 0x7e, 0xef, 0xe2,
    0xb8, 0x5a, 0x85, 0x5a, 0x4b, 0xa6, 0xf6, 0x91, 0x96, 0xd0, 0xae, 0x8a, 0x83, 0xdd, 0xab,
    0xc4, 0xca, 0x59, 0xaa, 0x08, 0x82, 0x30, 0x77, 0xac, 0xab, 0x18, 0x25]

/-- `TIME_CHAIN_GENESIS_HASH`. -/
def timeChainGenesisHash : Hash :=
  ⟨[
    0x78, 0x17, 0x90, 0x39, 0xb7, 0x76, 0x97, 0xac, 0xcc, 0x81, 0xd4, 0x93, 0x81, 0xa5, 0x42,
    0x96, 0x36, 0xdc, 0xd5, 0x5e, 0x26, 0xd0, 0x67, 0xdb, 0xe4, 0xad, 0x05, 0xa5, 0x7d, 0xc8,
    0x3e, 0x02], rfl⟩

/-- `VALUE_CHAIN_GENESIS_HASH`. -/
def valueChainGenesisHash : Hash :=
  ⟨[
    0x74, 0x6d, 0x7e, 0xef, 0xe2, 0xb8, 0x5a, 0x85, 0x5a, 0x4b, 0xa6, 0xf6, 0x91, 0x96, 0xd0,
    0xae, 0x8a, 0x83, 0xdd, 0xab, 0xc4, 0xca, 0x59, 0xaa, 0x08, 0x82, 0x30, 0x77, 0xac, 0xab,
    0x18, 0x25], rfl⟩

/-- The constants of the repository. -/
def shippedGenesis : GenesisBlocks where
  timeChainGenesisBlockData := timeChainGenesisBlockData
  valueChainGenesisBlockData := valueChainGenesisBlockData
  timeChainGenesisHash := timeChainGenesisHash
  valueChainGenesisHash := valueChainGenesisHash

/-- On every machine that can read it, the genesis block of the value chain holds one
transaction, which issues its coins. -/
theorem exists_transactions_eq_of_isValueGenesis {e : Endian} {b : ValueBlock}
    (h : shippedGenesis.IsValueGenesis e b) :
    ∃ coinbase, b.transactions = [coinbase] ∧ coinbase.IsCoinbaseOf b := by
  -- a big-endian machine reads another number of transactions, and fails
  have hcheck : (ValueBlock.empty.deserialize e valueChainGenesisBlockData).toOption.all
      (fun r => decide (r.1 = true → r.2.transactions.length = 1 ∧
        ∀ tx ∈ r.2.transactions, tx.IsCoinbaseOf r.2)) = true := by
    cases e <;> decide +kernel
  have hread : ValueBlock.empty.deserialize e valueChainGenesisBlockData = .ok (true, b) := h
  rw [hread] at hcheck
  obtain ⟨hone, hall⟩ := of_decide_eq_true hcheck rfl
  obtain ⟨coinbase, htxs⟩ := List.length_eq_one_iff.mp hone
  exact ⟨coinbase, htxs, hall coinbase (by rw [htxs]; exact List.mem_singleton_self _)⟩

end CoinPlatform
