/-
# The answers of the storage

`FileStorage` describes the files after `store_block`.  Here is what is answered from them:
the file of the block, and `latest.block`, read as the part of the encoding that was written
to them, and every other answer is as before.  A part reads as the block if nothing is
missing, and as no block if the end is cut off (`RejectsTruncated`).

* `sameAnswers_iff`: when a call, successful or not, cannot be noticed afterwards.
* `sameAnswers_of_failed_iff`: the callers of `store_block` take false for "nothing has
  happened"; it is true of the calls that have opened no file, or left the files that they have
  opened as they read before.
* `not_sameAnswers_of_failed`: a failing copy has opened `latest.block` by then.
-/
import CoinPlatform.FileStorage

open ByteOrder StdVector

namespace CoinPlatform

/-- The decoder rejects encodings whose end is cut off, without a fault. -/
class RejectsTruncated (B : Type) [BlockType B] : Prop where
  deserialize_take : ∀ e (b b' : B) n, (BlockType.serialize e b').length ≤ maxSize →
    n < (BlockType.serialize e b').length →
    ∃ b'', BlockType.deserialize e b ((BlockType.serialize e b').take n) = .ok (false, b'')

instance : RejectsTruncated TimeBlock where
  deserialize_take := fun e b b' _ _ hn => ⟨b, TimeBlock.deserialize_take e b b' hn⟩

instance : RejectsTruncated ValueBlock where
  deserialize_take := fun e b b' _ hlen hn => ValueBlock.deserialize_take e b b' hlen hn

/-- The encoding of a time block fits into a vector. -/
theorem TimeBlock.length_serialize_le (e : Endian) (b : TimeBlock) :
    (BlockType.serialize e b).length ≤ maxSize := by
  change (b.serialize e).length ≤ maxSize
  rw [TimeBlock.length_serialize, maxSize]
  decide

namespace FileStorage

variable {B : Type} [BlockType B] (e : Endian)

/-- What is read from a file that holds a part of the encoding of the block. -/
def readPart (x : B) (contents : Bytes) : Option B :=
  if contents = BlockType.serialize e x then some x else none

/-- All answers of the storage are the same. -/
structure SameAnswers (s s' : FileStorage B) : Prop where
  blockExists : ∀ h, s'.blockExists h = s.blockExists h
  getBlock : ∀ h, s'.getBlock e h = s.getBlock e h
  getLatestBlock : s'.getLatestBlock e = s.getLatestBlock e

/-- A file that the call opens for writing was there already, and read as it reads when the
call is over: as the block if it is written completely, else as no block. -/
structure LeavesNoTrace (s : FileStorage B) (x : B) (io : WriteOutcome) : Prop where
  block : ∀ contents, io.blockFile (BlockType.serialize e x) = some contents →
    s.blockExists (BlockType.getHash x) = true ∧
      s.getBlock e (BlockType.getHash x) = .ok (readPart e x contents)
  latest : ∀ contents, io.latestFile (BlockType.serialize e x) = some contents →
    s.getLatestBlock e = .ok (readPart e x contents)

variable {e}

theorem readPart_serialize (x : B) : readPart e x (BlockType.serialize e x) = some x :=
  if_pos rfl

/-- A block whose encoding fits into a vector is stored, or fails to be, without an exception. -/
theorem exists_storeBlock (s : FileStorage B) {x : B} (io : WriteOutcome)
    (hlen : (BlockType.serialize e x).length ≤ maxSize) :
    ∃ r s', s.storeBlock e x io = .ok (r, s') := by
  unfold storeBlock writeBlockToFile
  by_cases hopen : io = .openFailed
  · rw [if_pos hopen]
    exact ⟨_, _, rfl⟩
  · simp only [if_neg hopen, resize_of_le hlen]
    cases io with
    | copyFailed copied => cases copied <;> exact ⟨_, _, rfl⟩
    | closeAndCopyFailed flushed copied => cases copied <;> exact ⟨_, _, rfl⟩
    | _ => exact ⟨_, _, rfl⟩

section Untouched

variable {s s' : FileStorage B} {x : B} {io : WriteOutcome} {r : Bool}

/-- The latest block is as before when `latest.block` has not been opened. -/
theorem getLatestBlock_of_latestFile_none (h : s.storeBlock e x io = .ok (r, s'))
    (hc : io.latestFile (BlockType.serialize e x) = none) :
    s'.getLatestBlock e = s.getLatestBlock e := by
  obtain ⟨-, -, -, -, hfile, -⟩ := storeBlock_cases h
  rw [hc, Option.none_or] at hfile
  simp only [getLatestBlock, readBlockFromFile, latestBlockFile_storeBlock h, hfile]

/-- The block's answers are as before when its file has not been opened. -/
theorem getBlock_of_blockFile_none (h : s.storeBlock e x io = .ok (r, s'))
    (hc : io.blockFile (BlockType.serialize e x) = none) (k : Hash) :
    s'.getBlock e k = s.getBlock e k ∧ s'.blockExists k = s.blockExists k := by
  obtain rfl := WriteOutcome.blockFile_eq_none.mp hc
  rw [eq_of_storeBlock_openFailed h]
  exact ⟨rfl, rfl⟩

end Untouched

section Store

variable [RejectsTruncated B] {s s' : FileStorage B} {x : B} {io : WriteOutcome} {r : Bool}

theorem readBlockFromFile_take {filename : FileName} {n : ℕ}
    (hlen : (BlockType.serialize e x).length ≤ maxSize)
    (hfile : s.files filename = some ((BlockType.serialize e x).take n)) :
    s.readBlockFromFile e filename
      = .ok (readPart e x ((BlockType.serialize e x).take n)) := by
  by_cases hn : n < (BlockType.serialize e x).length
  · have hcut : (BlockType.serialize e x).take n ≠ BlockType.serialize e x := by
      intro heq
      have hlength := congrArg List.length heq
      rw [List.length_take] at hlength
      omega
    have hres : resize ((BlockType.serialize e x).take n).length = .ok () :=
      resize_of_le (by rw [List.length_take]; omega)
    obtain ⟨b, hb⟩ := RejectsTruncated.deserialize_take e BlockType.empty x n hlen hn
    rw [readBlockFromFile, hfile, readPart, if_neg hcut]
    simp only [hres, hb, bind, Except.bind, Bool.false_eq_true, if_false, pure, Except.pure]
  · have hall : (BlockType.serialize e x).take n = BlockType.serialize e x :=
      List.take_of_length_le (Nat.le_of_not_lt hn)
    rw [hall] at hfile ⊢
    rw [readPart_serialize, readBlockFromFile_eq_some]
    exact ⟨_, hfile, hlen, BlockType.deserialize_serialize e _ x hlen⟩

/-- **The block afterwards**, when its file has been opened. -/
theorem getBlock_of_blockFile (h : s.storeBlock e x io = .ok (r, s')) {contents : Bytes}
    (hc : io.blockFile (BlockType.serialize e x) = some contents) :
    s'.getBlock e (BlockType.getHash x) = .ok (readPart e x contents) := by
  obtain ⟨-, -, hlen, hfile, -, -⟩ := storeBlock_cases h
  rw [hc, Option.some_or] at hfile
  simp only [getBlock, getBlockFilename_storeBlock h, hfile, Option.isSome_some, if_true]
  have hmax := hlen (WriteOutcome.ne_openFailed_of_blockFile hc)
  obtain ⟨n, rfl⟩ := WriteOutcome.take_of_blockFile hc
  exact readBlockFromFile_take hmax hfile

/-- **The latest block afterwards**, when `latest.block` has been opened. -/
theorem getLatestBlock_of_latestFile (h : s.storeBlock e x io = .ok (r, s'))
    {contents : Bytes} (hc : io.latestFile (BlockType.serialize e x) = some contents) :
    s'.getLatestBlock e = .ok (readPart e x contents) := by
  obtain ⟨-, -, hlen, -, hfile, -⟩ := storeBlock_cases h
  have hopen : io ≠ .openFailed := by
    rintro rfl
    cases hc
  rw [hc, Option.some_or] at hfile
  obtain ⟨n, rfl⟩ := WriteOutcome.take_of_latestFile hc
  simp only [getLatestBlock, latestBlockFile_storeBlock h, hfile, Option.isSome_some, if_true]
  exact readBlockFromFile_take (hlen hopen) hfile

end Store

/-- **When a call cannot be noticed.** -/
theorem sameAnswers_iff [RejectsTruncated B] {s s' : FileStorage B} {x : B}
    {io : WriteOutcome} {r : Bool} (h : s.storeBlock e x io = .ok (r, s')) :
    SameAnswers e s s' ↔ LeavesNoTrace e s x io := by
  constructor
  · intro hsame
    constructor
    · intro contents hc
      rw [← hsame.blockExists, ← hsame.getBlock, blockExists_storeBlock h]
      exact ⟨.inr ⟨rfl, WriteOutcome.ne_openFailed_of_blockFile hc⟩, getBlock_of_blockFile h hc⟩
    · intro contents hc
      rw [← hsame.getLatestBlock]
      exact getLatestBlock_of_latestFile h hc
  · rintro ⟨hblock, hlatest⟩
    constructor
    · intro k
      cases hc : io.blockFile (BlockType.serialize e x) with
      | none => exact (getBlock_of_blockFile_none h hc k).2
      | some contents =>
          rw [Bool.eq_iff_iff, blockExists_storeBlock h]
          constructor
          · rintro (hk | ⟨rfl, -⟩)
            · exact hk
            · exact (hblock contents hc).1
          · exact .inl
    · intro k
      by_cases hk : k = BlockType.getHash x
      · subst hk
        cases hc : io.blockFile (BlockType.serialize e x) with
        | none => exact (getBlock_of_blockFile_none h hc _).1
        | some contents => rw [getBlock_of_blockFile h hc, (hblock contents hc).2]
      · exact getBlock_storeBlock_of_ne h hk
    · cases hc : io.latestFile (BlockType.serialize e x) with
      | none => exact getLatestBlock_of_latestFile_none h hc
      | some contents => rw [getLatestBlock_of_latestFile h hc, hlatest contents hc]

/-! ## Failed stores -/

/-- **A failed store is atomic** exactly when each file that it has opened was there, and
already read as what it has left. -/
theorem sameAnswers_of_failed_iff [RejectsTruncated B] {s s' : FileStorage B} {x : B}
    {io : WriteOutcome} (h : s.storeBlock e x io = .ok (false, s')) :
    SameAnswers e s s' ↔ LeavesNoTrace e s x io :=
  sameAnswers_iff h

/-- The copy of a block with two payments, which is stored a second time, fails. -/
theorem sameAnswers_of_failed_copy :
    ∃ s s' : FileStorage ValueBlock,
      (empty : FileStorage ValueBlock).storeBlock .little twoPayments .ok = .ok (true, s) ∧
      s.storeBlock .little twoPayments (.copyFailed none) = .ok (false, s') ∧
      SameAnswers .little s s' := by
  have hlen : (BlockType.serialize .little twoPayments).length ≤ maxSize := by
    show (twoPayments.serialize .little).length ≤ maxSize
    rw [length_serialize_twoPayments]
    decide
  obtain ⟨r, s, hs⟩ := exists_storeBlock empty .ok hlen
  obtain rfl : r = true := (storeBlock_cases hs).1
  obtain ⟨r', s', hs'⟩ := exists_storeBlock s (.copyFailed none) hlen
  obtain rfl : r' = false := (storeBlock_cases hs').1
  have hstored : s.Stored .little (BlockType.getHash twoPayments) twoPayments :=
    stored_storeBlock hs rfl
  refine ⟨s, s', hs, hs', (sameAnswers_of_failed_iff hs').mpr ⟨?_, ?_⟩⟩
  · intro contents hc
    cases hc
    rw [readPart_serialize]
    exact ⟨hstored.blockExists, hstored⟩
  · intro contents hc
    cases hc

/-- **A failed copy destroys the latest block**: `latest.block` has been truncated, and cannot be
read any more. -/
theorem not_sameAnswers_of_failed :
    ∃ s s' : FileStorage TimeBlock,
      (empty : FileStorage TimeBlock).storeBlock .little TimeBlock.empty .ok = .ok (true, s) ∧
      s.storeBlock .little TimeBlock.empty (.copyFailed (some 0)) = .ok (false, s') ∧
      ¬ SameAnswers .little s s' := by
  have hlen := TimeBlock.length_serialize_le .little TimeBlock.empty
  obtain ⟨r, s, hs⟩ := exists_storeBlock empty .ok hlen
  obtain rfl : r = true := (storeBlock_cases hs).1
  obtain ⟨r', s', hs'⟩ := exists_storeBlock s (.copyFailed (some 0)) hlen
  obtain rfl : r' = false := (storeBlock_cases hs').1
  refine ⟨s, s', hs, hs', fun hsame => ?_⟩
  have hbefore : s.IsLatest .little TimeBlock.empty := isLatest_storeBlock hs
  have hafter := hsame.getLatestBlock
  rw [getLatestBlock_of_latestFile hs' rfl, hbefore] at hafter
  exact absurd hafter (by decide)

end FileStorage

end CoinPlatform
