/-
# The file storage

`FileStorage<BlockType>` of `storage/file_storage.tpp`.  A storage is a directory: one
file for each block, named after its hash, and `latest.block`, a copy of the block
written last.  Storing a block opens and truncates the file of its hash, writes and closes
it, and copies it over `latest.block`; each of these can fail (`WriteOutcome`), and what has
happened before the failure stays.  Whether `close` could flush the buffer is not asked: then
a file that is cut off is copied, and the answer is true.

The results describe the storage after `storeBlock` by what can be read from it:

* `stored_of_storeBlock`, `isLatest_of_storeBlock`: whatever fails, nothing can be read
  that was not readable before, except the block that was being stored;
* `stored_storeBlock`, `isLatest_storeBlock`: what was written is read back;
* `getBlock_storeBlock_of_ne`: the other blocks are untouched.

They hold for every block type whose codec obeys the laws in `BlockType`.
-/
import Mathlib.Logic.Function.Basic
import CoinPlatform.Utilities
import CoinPlatform.TimeBlock
import CoinPlatform.ValueBlock

open ByteOrder StdVector

namespace CoinPlatform

/-- The template parameter of the storage: a block with a hash and a codec.  No encoding
is the beginning of another one, so a truncated file never decodes to a third block. -/
class BlockType (B : Type) where
  empty : B
  getHash : B → Hash
  serialize : Endian → B → Bytes
  deserialize : Endian → B → Bytes → Except Fault (Bool × B)
  deserialize_serialize : ∀ e b b', (serialize e b').length ≤ maxSize →
    deserialize e b (serialize e b') = .ok (true, b')
  prefix_of_deserialize : ∀ e b b' data, data.length ≤ maxSize →
    deserialize e b data = .ok (true, b') → serialize e b' <+: data
  eq_of_prefix : ∀ e b b', (serialize e b).length ≤ maxSize →
    serialize e b' <+: serialize e b → b' = b

instance : BlockType TimeBlock where
  empty := TimeBlock.empty
  getHash := TimeBlock.hash
  serialize := TimeBlock.serialize
  deserialize := TimeBlock.deserialize
  deserialize_serialize := fun e b b' _ =>
    (TimeBlock.deserialize_eq_true_iff e b b' _).mpr rfl
  prefix_of_deserialize := fun e _ _ _ _ h => TimeBlock.serialize_prefix_of_deserialize e h
  eq_of_prefix := fun e _ _ _ h => TimeBlock.eq_of_serialize_prefix e h

instance : BlockType ValueBlock where
  empty := ValueBlock.empty
  getHash := ValueBlock.hash
  serialize := ValueBlock.serialize
  deserialize := ValueBlock.deserialize
  deserialize_serialize := ValueBlock.deserialize_serialize
  prefix_of_deserialize := fun e _ _ _ hlen h =>
    ValueBlock.serialize_prefix_of_deserialize e hlen h
  eq_of_prefix := fun e _ _ hlen h => ValueBlock.eq_of_serialize_prefix e hlen h

/-- The hash of the latest block, all zero when there is none. -/
def latestBlockHash {B : Type} [BlockType B] (latestBlock : Option B) : Hash :=
  match latestBlock with
  | some block => BlockType.getHash block
  | none => zeros 32

/-! ## Files -/

abbrev FileName := List Char

/-- `FileStorage`: its directory and the files under it. -/
structure FileStorage (B : Type) where
  dataDirectory : FileName
  files : FileName → Option Bytes

/-- How the file operations of one `store_block` go: all succeed; the file is not opened;
the write fails after some bytes; `close` flushes only some bytes of what was written to the
buffer; the copy throws, with `latest.block` untouched or overwritten with some bytes of the
file; or `close` and then the copy fail. -/
inductive WriteOutcome where
  | ok
  | openFailed
  | writeFailed (written : ℕ)
  | closeFailed (flushed : ℕ)
  | copyFailed (copied : Option ℕ)
  | closeAndCopyFailed (flushed : ℕ) (copied : Option ℕ)
  deriving DecidableEq, Repr

namespace FileStorage

variable {B : Type}

/-- A new storage object, with no file in its directory. -/
def empty : FileStorage B := ⟨[], fun _ => none⟩

/-- `initialize`; `created` is false when `create_directories` throws. -/
def initializeDirectory (s : FileStorage B) (directory : FileName) (created : Bool) :
    Bool × FileStorage B :=
  (created, { s with dataDirectory := directory })

/-- `get_block_filename`. -/
def getBlockFilename (s : FileStorage B) (blockHash : Hash) : FileName :=
  s.dataDirectory ++ '/' :: (bytesToHex blockHash.toList ++ ['.', 'b', 'l', 'o', 'c', 'k'])

/-- `data_directory_ + "/latest.block"`. -/
def latestBlockFile (s : FileStorage B) : FileName :=
  s.dataDirectory ++
    ['/', 'l', 'a', 't', 'e', 's', 't', '.', 'b', 'l', 'o', 'c', 'k']

/-- The directory after a file has been given new contents. -/
def writeFile (s : FileStorage B) (filename : FileName) (contents : Bytes) : FileStorage B :=
  { s with files := Function.update s.files filename (some contents) }

variable (e : Endian) [BlockType B]

/-- `write_block_to_file`: the result and the files it leaves. -/
def writeBlockToFile (s : FileStorage B) (block : B) (filename : FileName)
    (io : WriteOutcome) : Except Fault (Bool × FileStorage B) := do
  if io = .openFailed then return (false, s)
  -- the stream has truncated the file by now, and the block is serialized after that
  let serializedBlock := BlockType.serialize e block
  resize serializedBlock.length
  match io with
  | .openFailed => return (false, s)
  | .writeFailed written => return (false, s.writeFile filename (serializedBlock.take written))
  -- the stream is not asked again after `close`: the part that was flushed is copied
  | .closeFailed flushed =>
    let contents := serializedBlock.take flushed
    return (true, (s.writeFile filename contents).writeFile s.latestBlockFile contents)
  -- `copy_file` throws: the block has its file, but is not the latest one
  | .copyFailed none => return (false, s.writeFile filename serializedBlock)
  | .copyFailed (some copied) =>
    return (false, (s.writeFile filename serializedBlock).writeFile s.latestBlockFile
      (serializedBlock.take copied))
  | .closeAndCopyFailed flushed none =>
    return (false, s.writeFile filename (serializedBlock.take flushed))
  | .closeAndCopyFailed flushed (some copied) =>
    let contents := serializedBlock.take flushed
    return (false, (s.writeFile filename contents).writeFile s.latestBlockFile
      (contents.take copied))
  | .ok =>
    return (true, (s.writeFile filename serializedBlock).writeFile s.latestBlockFile
      serializedBlock)

/-- `read_block_from_file`. -/
def readBlockFromFile (s : FileStorage B) (filename : FileName) : Except Fault (Option B) :=
  match s.files filename with
  | none => return none
  | some contents => do
    resize contents.length
    let (ok, block) ← BlockType.deserialize e BlockType.empty contents
    if ok then return some block else return none

def storeBlock (s : FileStorage B) (block : B) (io : WriteOutcome) :
    Except Fault (Bool × FileStorage B) :=
  s.writeBlockToFile e block (s.getBlockFilename (BlockType.getHash block)) io

def getBlock (s : FileStorage B) (blockHash : Hash) : Except Fault (Option B) :=
  let filename := s.getBlockFilename blockHash
  if (s.files filename).isSome then s.readBlockFromFile e filename else return none

def getLatestBlock (s : FileStorage B) : Except Fault (Option B) :=
  if (s.files s.latestBlockFile).isSome then s.readBlockFromFile e s.latestBlockFile
  else return none

omit [BlockType B] in
/-- `block_exists`: the file is there, whatever it holds. -/
def blockExists (s : FileStorage B) (blockHash : Hash) : Bool :=
  (s.files (s.getBlockFilename blockHash)).isSome

/-- The block can be retrieved under the hash. -/
def Stored (s : FileStorage B) (h : Hash) (b : B) : Prop := s.getBlock e h = .ok (some b)

/-- The block is retrieved as the latest one. -/
def IsLatest (s : FileStorage B) (b : B) : Prop := s.getLatestBlock e = .ok (some b)

instance [DecidableEq B] (s : FileStorage B) (h : Hash) (b : B) : Decidable (s.Stored e h b) :=
  inferInstanceAs (Decidable (_ = _))

instance [DecidableEq B] (s : FileStorage B) (b : B) : Decidable (s.IsLatest e b) :=
  inferInstanceAs (Decidable (_ = _))

instance (s : FileStorage B) (p : B → Prop) [DecidablePred p] :
    Decidable (∀ b, s.IsLatest e b → p b) :=
  match h : s.getLatestBlock e with
  | .ok (some b) => decidable_of_iff (p b) (by simp [IsLatest, h])
  | .ok none => isTrue (by simp [IsLatest, h])
  | .error _ => isTrue (by simp [IsLatest, h])

instance (s : FileStorage B) (h : Hash) (p : B → Prop) [DecidablePred p] :
    Decidable (∀ b, s.Stored e h b → p b) :=
  match hread : s.getBlock e h with
  | .ok (some b) => decidable_of_iff (p b) (by simp [Stored, hread])
  | .ok none => isTrue (by simp [Stored, hread])
  | .error _ => isTrue (by simp [Stored, hread])

/-- Some read returns the block. -/
def Readable (s : FileStorage B) (b : B) : Prop := (∃ h, s.Stored e h b) ∨ s.IsLatest e b

/-! ## File names -/

omit [BlockType B] in
theorem getBlockFilename_injective (s : FileStorage B) {h h' : Hash}
    (heq : s.getBlockFilename h = s.getBlockFilename h') : h = h' := by
  have htail := List.append_cancel_left heq
  obtain ⟨hhex, -⟩ := List.append_inj (List.cons.inj htail).2 (by simp)
  exact Subtype.ext (bytesToHex_injective hhex)

omit [BlockType B] in
theorem getBlockFilename_ne_latestBlockFile (s : FileStorage B) (h : Hash) :
    s.getBlockFilename h ≠ s.latestBlockFile := by
  intro heq
  have hlen := congrArg List.length heq
  simp [getBlockFilename, latestBlockFile] at hlen

/-! ## Reading -/

variable {e}

theorem readBlockFromFile_eq_some {s : FileStorage B} {filename : FileName} {b : B} :
    s.readBlockFromFile e filename = .ok (some b) ↔
      ∃ contents, s.files filename = some contents ∧ contents.length ≤ maxSize ∧
        BlockType.deserialize e BlockType.empty contents = .ok (true, b) := by
  unfold readBlockFromFile
  cases hfile : s.files filename with
  | none => simp [pure, Except.pure]
  | some contents =>
      by_cases hlen : contents.length ≤ maxSize
      · simp only [resize_of_le hlen, Option.some.injEq, exists_eq_left', hlen, true_and]
        constructor
        · intro h
          obtain ⟨_, -, h⟩ := bind_eq_ok.mp h
          obtain ⟨⟨ok, block⟩, hdec, h⟩ := bind_eq_ok.mp h
          cases ok with
          | false => cases h
          | true => cases h; exact hdec
        · intro h
          rw [h]
          rfl
      · have hres : resize contents.length = .error .lengthError :=
          if_pos (Nat.lt_of_not_le hlen)
        simp [hres, hlen, bind, Except.bind]

theorem stored_iff {s : FileStorage B} {h : Hash} {b : B} :
    s.Stored e h b ↔ s.readBlockFromFile e (s.getBlockFilename h) = .ok (some b) := by
  unfold Stored getBlock
  cases hfile : s.files (s.getBlockFilename h) with
  | none => simp [readBlockFromFile, hfile, pure, Except.pure]
  | some contents => simp [hfile]

theorem isLatest_iff {s : FileStorage B} {b : B} :
    s.IsLatest e b ↔ s.readBlockFromFile e s.latestBlockFile = .ok (some b) := by
  unfold IsLatest getLatestBlock
  cases hfile : s.files s.latestBlockFile with
  | none => simp [readBlockFromFile, hfile, pure, Except.pure]
  | some contents => simp

theorem Stored.unique {s : FileStorage B} {h : Hash} {b b' : B} (hb : s.Stored e h b)
    (hb' : s.Stored e h b') : b = b' := by
  have heq : Except.ok (some b) = Except.ok (some b') := hb.symm.trans hb'
  simpa using heq

theorem IsLatest.unique {s : FileStorage B} {b b' : B} (hb : s.IsLatest e b)
    (hb' : s.IsLatest e b') : b = b' := by
  have heq : Except.ok (some b) = Except.ok (some b') := hb.symm.trans hb'
  simpa using heq

/-- A block that can be retrieved exists. -/
theorem Stored.blockExists {s : FileStorage B} {h : Hash} {b : B} (hb : s.Stored e h b) :
    s.blockExists h = true := by
  obtain ⟨contents, hfile, -⟩ := readBlockFromFile_eq_some.mp (stored_iff.mp hb)
  rw [FileStorage.blockExists, hfile]
  rfl

/-- What decodes from the first bytes of an encoding is the block that was encoded, and then no
byte is missing. -/
theorem eq_of_deserialize_take {b x b₀ : B} {n : ℕ}
    (hlen : (BlockType.serialize e x).length ≤ maxSize)
    (h : BlockType.deserialize e b₀ ((BlockType.serialize e x).take n) = .ok (true, b)) :
    b = x ∧ (BlockType.serialize e x).take n = BlockType.serialize e x := by
  have htake : ((BlockType.serialize e x).take n).length ≤ maxSize := by
    rw [List.length_take]
    omega
  have hpre := BlockType.prefix_of_deserialize e b₀ b _ htake h
  obtain rfl := BlockType.eq_of_prefix e x b hlen (hpre.trans (List.take_prefix n _))
  exact ⟨rfl, (List.take_prefix n _).eq_of_length_le hpre.length_le⟩

end FileStorage

/-! ## What is left after storing -/

namespace WriteOutcome

/-- The part of a block's encoding that its file holds afterwards; `none` when the file is
not touched. -/
def blockFile (io : WriteOutcome) (data : Bytes) : Option Bytes :=
  match io with
  | .ok => some data
  | .openFailed => none
  | .writeFailed written => some (data.take written)
  | .closeFailed flushed => some (data.take flushed)
  | .copyFailed _ => some data
  | .closeAndCopyFailed flushed _ => some (data.take flushed)

/-- The same for `latest.block`. -/
def latestFile (io : WriteOutcome) (data : Bytes) : Option Bytes :=
  match io with
  | .ok => some data
  | .openFailed => none
  | .writeFailed _ => none
  | .closeFailed flushed => some (data.take flushed)
  | .copyFailed copied => copied.map data.take
  | .closeAndCopyFailed flushed copied => copied.map (data.take flushed).take

/-- What `store_block` answers: a failing `close` is not noticed. -/
def answer (io : WriteOutcome) : Bool :=
  match io with
  | .ok => true
  | .closeFailed _ => true
  | _ => false

variable {io : WriteOutcome} {data contents : Bytes}

theorem take_of_blockFile (h : io.blockFile data = some contents) :
    ∃ n, contents = data.take n := by
  cases io with
  | ok => exact ⟨data.length, by simpa [blockFile] using h.symm⟩
  | openFailed => simp [blockFile] at h
  | writeFailed written => exact ⟨written, by simpa [blockFile] using h.symm⟩
  | closeFailed flushed => exact ⟨flushed, by simpa [blockFile] using h.symm⟩
  | copyFailed copied => exact ⟨data.length, by simpa [blockFile] using h.symm⟩
  | closeAndCopyFailed flushed copied => exact ⟨flushed, by simpa [blockFile] using h.symm⟩

/-- `latest.block` holds a part of what the file of the block holds. -/
theorem take_blockFile_of_latestFile (h : io.latestFile data = some contents) :
    ∃ written n, io.blockFile data = some written ∧ contents = written.take n := by
  cases io with
  | ok => exact ⟨data, data.length, rfl, by simpa [latestFile] using h.symm⟩
  | openFailed => simp [latestFile] at h
  | writeFailed written => simp [latestFile] at h
  | closeFailed flushed =>
      exact ⟨_, flushed, rfl, by simpa [latestFile, List.take_take] using h.symm⟩
  | copyFailed copied =>
      obtain ⟨n, -, hn⟩ := Option.map_eq_some_iff.mp h
      exact ⟨data, n, rfl, hn.symm⟩
  | closeAndCopyFailed flushed copied =>
      obtain ⟨n, -, hn⟩ := Option.map_eq_some_iff.mp h
      exact ⟨_, n, rfl, hn.symm⟩

theorem take_of_latestFile (h : io.latestFile data = some contents) :
    ∃ n, contents = data.take n := by
  obtain ⟨written, n, hwritten, rfl⟩ := take_blockFile_of_latestFile h
  obtain ⟨m, rfl⟩ := take_of_blockFile hwritten
  exact ⟨min n m, List.take_take⟩

/-- A whole copy was made from a whole file. -/
theorem blockFile_of_latestFile (h : io.latestFile data = some data) :
    io.blockFile data = some data := by
  obtain ⟨written, n, hwritten, hdata⟩ := take_blockFile_of_latestFile h
  obtain ⟨m, rfl⟩ := take_of_blockFile hwritten
  rw [hwritten, Option.some.injEq]
  refine (List.take_prefix m data).eq_of_length_le ?_
  exact (congrArg List.length hdata).le.trans (List.take_prefix n _).length_le

theorem blockFile_eq_none : io.blockFile data = none ↔ io = .openFailed := by
  cases io <;> simp [blockFile]

theorem ne_openFailed_of_blockFile (h : io.blockFile data = some contents) :
    io ≠ .openFailed := by
  rintro rfl
  cases h

end WriteOutcome

namespace FileStorage

variable {B : Type} [BlockType B] {e : Endian}

omit [BlockType B] in
/-- The files after writing a block and copying it, entirely or in part. -/
theorem files_writeFile_writeFile (s : FileStorage B) (h : Hash) (contents copied : Bytes) :
    let s' := (s.writeFile (s.getBlockFilename h) contents).writeFile s.latestBlockFile copied
    s'.files (s.getBlockFilename h) = some contents ∧
      s'.files s.latestBlockFile = some copied ∧
      ∀ filename, filename ≠ s.getBlockFilename h → filename ≠ s.latestBlockFile →
        s'.files filename = s.files filename := by
  have hne := s.getBlockFilename_ne_latestBlockFile h
  refine ⟨?_, Function.update_self .., fun filename h₁ h₂ => ?_⟩
  · simp [writeFile, Function.update_of_ne hne]
  · simp [writeFile, Function.update_of_ne h₁, Function.update_of_ne h₂]

omit [BlockType B] in
/-- The files after writing a block that is not copied. -/
theorem files_writeFile (s : FileStorage B) (h : Hash) (contents : Bytes) :
    let s' := s.writeFile (s.getBlockFilename h) contents
    s'.files (s.getBlockFilename h) = some contents ∧
      s'.files s.latestBlockFile = s.files s.latestBlockFile ∧
      ∀ filename, filename ≠ s.getBlockFilename h → filename ≠ s.latestBlockFile →
        s'.files filename = s.files filename := by
  have hne := s.getBlockFilename_ne_latestBlockFile h
  exact ⟨Function.update_self .., Function.update_of_ne hne.symm .., fun filename h₁ _ =>
    Function.update_of_ne h₁ ..⟩

/-- **What `store_block` does**: the file of the block and `latest.block` hold what the
outcome says, and every other file is as before. -/
theorem storeBlock_cases {s s' : FileStorage B} {x : B} {io : WriteOutcome} {r : Bool}
    (h : s.storeBlock e x io = .ok (r, s')) :
    r = io.answer ∧ s'.dataDirectory = s.dataDirectory ∧
      (io ≠ .openFailed → (BlockType.serialize e x).length ≤ maxSize) ∧
      s'.files (s.getBlockFilename (BlockType.getHash x))
        = (io.blockFile (BlockType.serialize e x)).or
            (s.files (s.getBlockFilename (BlockType.getHash x))) ∧
      s'.files s.latestBlockFile
        = (io.latestFile (BlockType.serialize e x)).or (s.files s.latestBlockFile) ∧
      ∀ filename, filename ≠ s.getBlockFilename (BlockType.getHash x) →
        filename ≠ s.latestBlockFile → s'.files filename = s.files filename := by
  unfold storeBlock writeBlockToFile at h
  by_cases hopen : io = .openFailed
  · rw [if_pos hopen] at h
    cases h
    subst hopen
    simp [WriteOutcome.answer, WriteOutcome.blockFile, WriteOutcome.latestFile]
  · rw [if_neg hopen] at h
    obtain ⟨_, hres, h⟩ := bind_eq_ok.mp h
    have hlen : (BlockType.serialize e x).length ≤ maxSize := by
      by_contra hgt
      rw [resize, if_pos (Nat.lt_of_not_le hgt)] at hres
      cases hres
    have hone := fun contents => s.files_writeFile (BlockType.getHash x) contents
    have htwo := fun contents copied =>
      s.files_writeFile_writeFile (BlockType.getHash x) contents copied
    cases io with
    | openFailed => exact absurd rfl hopen
    | writeFailed written =>
        cases h
        exact ⟨rfl, rfl, fun _ => hlen, hone _⟩
    | ok =>
        cases h
        exact ⟨rfl, rfl, fun _ => hlen, htwo _ _⟩
    | closeFailed flushed =>
        cases h
        exact ⟨rfl, rfl, fun _ => hlen, htwo _ _⟩
    | copyFailed copied =>
        cases copied with
        | none =>
            cases h
            exact ⟨rfl, rfl, fun _ => hlen, hone _⟩
        | some copied =>
            cases h
            exact ⟨rfl, rfl, fun _ => hlen, htwo _ _⟩
    | closeAndCopyFailed flushed copied =>
        cases copied with
        | none =>
            cases h
            exact ⟨rfl, rfl, fun _ => hlen, hone _⟩
        | some copied =>
            cases h
            exact ⟨rfl, rfl, fun _ => hlen, htwo _ _⟩

section Store

variable {s s' : FileStorage B} {x : B} {io : WriteOutcome} {r : Bool}

/-- A block whose store is reported has been encoded. -/
theorem length_serialize_le_of_storeBlock (h : s.storeBlock e x io = .ok (true, s')) :
    (BlockType.serialize e x).length ≤ maxSize := by
  obtain ⟨hanswer, -, hlen, -⟩ := storeBlock_cases h
  apply hlen
  rintro rfl
  cases hanswer

theorem getBlockFilename_storeBlock (h : s.storeBlock e x io = .ok (r, s')) (k : Hash) :
    s'.getBlockFilename k = s.getBlockFilename k := by
  rw [getBlockFilename, getBlockFilename, (storeBlock_cases h).2.1]

theorem latestBlockFile_storeBlock (h : s.storeBlock e x io = .ok (r, s')) :
    s'.latestBlockFile = s.latestBlockFile := by
  rw [latestBlockFile, latestBlockFile, (storeBlock_cases h).2.1]

theorem files_storeBlock_of_ne (h : s.storeBlock e x io = .ok (r, s')) {k : Hash}
    (hk : k ≠ BlockType.getHash x) :
    s'.files (s.getBlockFilename k) = s.files (s.getBlockFilename k) := by
  obtain ⟨-, -, -, -, -, hother⟩ := storeBlock_cases h
  refine hother _ ?_ (s.getBlockFilename_ne_latestBlockFile k)
  exact fun heq => hk (s.getBlockFilename_injective heq)

/-- The files of other blocks are not touched. -/
theorem getBlock_storeBlock_of_ne (h : s.storeBlock e x io = .ok (r, s')) {k : Hash}
    (hk : k ≠ BlockType.getHash x) : s'.getBlock e k = s.getBlock e k := by
  have hfile := files_storeBlock_of_ne h hk
  simp only [getBlock, readBlockFromFile, getBlockFilename_storeBlock h, hfile]

/-- A block that exists afterwards existed before or is the one that was stored. -/
theorem blockExists_storeBlock (h : s.storeBlock e x io = .ok (r, s')) (k : Hash) :
    s'.blockExists k = true ↔
      s.blockExists k = true ∨ (k = BlockType.getHash x ∧ io ≠ .openFailed) := by
  unfold blockExists
  rw [getBlockFilename_storeBlock h]
  by_cases hk : k = BlockType.getHash x
  · obtain ⟨-, -, -, hfile, -, -⟩ := storeBlock_cases h
    subst hk
    rw [hfile]
    cases hpart : io.blockFile (BlockType.serialize e x) with
    | none =>
        have hio := WriteOutcome.blockFile_eq_none.mp hpart
        simp [hio]
    | some contents =>
        simp [WriteOutcome.ne_openFailed_of_blockFile hpart]
  · rw [files_storeBlock_of_ne h hk]
    simp [hk]

/-- **Nothing new can be retrieved but the block that was being stored**, however the file
operations went. -/
theorem stored_of_storeBlock (h : s.storeBlock e x io = .ok (r, s')) {k : Hash} {b : B}
    (hb : s'.Stored e k b) :
    (k = BlockType.getHash x ∧ b = x ∧
        io.blockFile (BlockType.serialize e x) = some (BlockType.serialize e x)) ∨
      (s.Stored e k b ∧ (k ≠ BlockType.getHash x ∨ io = .openFailed)) := by
  by_cases hk : k = BlockType.getHash x
  · obtain ⟨-, -, hlen, hfile, -, -⟩ := storeBlock_cases h
    have hread := stored_iff.mp hb
    rw [getBlockFilename_storeBlock h, hk] at hread
    obtain ⟨contents, hc, hmax, hdec⟩ := readBlockFromFile_eq_some.mp hread
    rw [hfile] at hc
    cases hpart : io.blockFile (BlockType.serialize e x) with
    | none =>
        rw [hpart, Option.none_or] at hc
        have hold := stored_iff.mpr (readBlockFromFile_eq_some.mpr ⟨contents, hc, hmax, hdec⟩)
        rw [← hk] at hold
        exact .inr ⟨hold, .inr (WriteOutcome.blockFile_eq_none.mp hpart)⟩
    | some written =>
        obtain ⟨n, rfl⟩ := WriteOutcome.take_of_blockFile hpart
        rw [hpart, Option.some_or, Option.some.injEq] at hc
        rw [← hc] at hdec
        obtain ⟨rfl, hwhole⟩ :=
          eq_of_deserialize_take (hlen (WriteOutcome.ne_openFailed_of_blockFile hpart)) hdec
        exact .inl ⟨hk, rfl, by rw [hwhole]⟩
  · rw [Stored, getBlock_storeBlock_of_ne h hk] at hb
    exact .inr ⟨hb, .inl hk⟩

/-- **The latest block is the one before or the one that was being stored.** -/
theorem isLatest_of_storeBlock (h : s.storeBlock e x io = .ok (r, s')) {b : B}
    (hb : s'.IsLatest e b) :
    (b = x ∧ io.latestFile (BlockType.serialize e x) = some (BlockType.serialize e x)) ∨
      s.IsLatest e b := by
  obtain ⟨-, -, hlen, -, hfile, -⟩ := storeBlock_cases h
  have hread := isLatest_iff.mp hb
  rw [latestBlockFile_storeBlock h] at hread
  obtain ⟨contents, hc, hmax, hdec⟩ := readBlockFromFile_eq_some.mp hread
  rw [hfile] at hc
  cases hpart : io.latestFile (BlockType.serialize e x) with
  | none =>
      rw [hpart, Option.none_or] at hc
      exact .inr (isLatest_iff.mpr (readBlockFromFile_eq_some.mpr ⟨contents, hc, hmax, hdec⟩))
  | some copied =>
      have hopen : io ≠ .openFailed := by
        rintro rfl
        cases hpart
      obtain ⟨n, rfl⟩ := WriteOutcome.take_of_latestFile hpart
      rw [hpart, Option.some_or, Option.some.injEq] at hc
      rw [← hc] at hdec
      obtain ⟨rfl, hwhole⟩ := eq_of_deserialize_take (hlen hopen) hdec
      exact .inl ⟨rfl, by rw [hwhole]⟩

/-- Whatever can be read afterwards was readable before or is the block stored. -/
theorem readable_of_storeBlock (h : s.storeBlock e x io = .ok (r, s')) {b : B}
    (hb : s'.Readable e b) : b = x ∨ s.Readable e b := by
  rcases hb with ⟨k, hb⟩ | hb
  · rcases stored_of_storeBlock h hb with ⟨-, rfl, -⟩ | ⟨hb, -⟩
    · exact .inl rfl
    · exact .inr (.inl ⟨k, hb⟩)
  · rcases isLatest_of_storeBlock h hb with ⟨rfl, -⟩ | hb
    · exact .inl rfl
    · exact .inr (.inr hb)

/-- A block whose file is whole is retrieved under its hash. -/
theorem stored_storeBlock (h : s.storeBlock e x io = .ok (r, s'))
    (hwhole : io.blockFile (BlockType.serialize e x) = some (BlockType.serialize e x)) :
    s'.Stored e (BlockType.getHash x) x := by
  obtain ⟨-, -, hlen, hfile, -, -⟩ := storeBlock_cases h
  have hmax := hlen (WriteOutcome.ne_openFailed_of_blockFile hwhole)
  rw [stored_iff, getBlockFilename_storeBlock h, readBlockFromFile_eq_some]
  refine ⟨BlockType.serialize e x, ?_, hmax, BlockType.deserialize_serialize e _ x hmax⟩
  rw [hfile, hwhole, Option.some_or]

/-- A stored block is the latest one. -/
theorem isLatest_storeBlock (h : s.storeBlock e x .ok = .ok (r, s')) : s'.IsLatest e x := by
  obtain ⟨-, -, hlen, -, hfile, -⟩ := storeBlock_cases h
  have hmax := hlen (by simp)
  rw [isLatest_iff, latestBlockFile_storeBlock h, readBlockFromFile_eq_some]
  refine ⟨BlockType.serialize e x, ?_, hmax, BlockType.deserialize_serialize e _ x hmax⟩
  rw [hfile, WriteOutcome.latestFile, Option.some_or]

/-- A file that is not opened is not changed. -/
theorem eq_of_storeBlock_openFailed (h : s.storeBlock e x .openFailed = .ok (r, s')) :
    s' = s := by
  cases h
  rfl

/-- A block under another hash stays retrievable. -/
theorem Stored.storeBlock_of_ne (h : s.storeBlock e x io = .ok (r, s')) {k : Hash} {b : B}
    (hb : s.Stored e k b) (hk : k ≠ BlockType.getHash x) : s'.Stored e k b := by
  rw [Stored, getBlock_storeBlock_of_ne h hk]
  exact hb

end Store

/-- The first block of an empty directory is the only one that can be retrieved. -/
theorem stored_storeBlock_of_empty {s s' : FileStorage B} {x : B} {r : Bool}
    (hempty : ∀ filename, s.files filename = none)
    (h : s.storeBlock e x .ok = .ok (r, s')) (k : Hash) (b : B) :
    s'.Stored e k b ↔ k = BlockType.getHash x ∧ b = x := by
  constructor
  · intro hb
    rcases stored_of_storeBlock h hb with ⟨hk, hb, -⟩ | ⟨hb, -⟩
    · exact ⟨hk, hb⟩
    · obtain ⟨contents, hfile, -⟩ := readBlockFromFile_eq_some.mp (stored_iff.mp hb)
      rw [hempty] at hfile
      cases hfile
  · rintro ⟨rfl, rfl⟩
    exact stored_storeBlock h rfl

end FileStorage

end CoinPlatform
