/-
# The storage as a map

What the file storage is for: a map from hashes to blocks with a latest block.  `Represents`
relates a directory to such a map by the answers of the storage, `Represents.storeBlock` says
that a call of `store_block` puts the block into the map, and `answers_of_calls` what is
answered after any sequence of calls, the directory being opened again in between or not.
-/
import CoinPlatform.LatestMap
import CoinPlatform.StorageAnswers

open ByteOrder StdVector

namespace CoinPlatform

namespace FileStorage

variable {B : Type}

/-- A new storage object for the same directory; the files are still there. -/
def reopen (s : FileStorage B) : FileStorage B :=
  ({ (empty : FileStorage B) with files := s.files }.initializeDirectory s.dataDirectory true).2

/-- A storage object for an empty directory. -/
def fresh (directory : FileName) : FileStorage B :=
  ((empty : FileStorage B).initializeDirectory directory true).2

/-- Opening a directory again changes nothing. -/
theorem reopen_eq (s : FileStorage B) : s.reopen = s := rfl

variable [BlockType B]

/-- The storage answers as the map says. -/
structure Represents (e : Endian) (s : FileStorage B) (m : LatestMap Hash B) : Prop where
  getBlock : ∀ h, s.getBlock e h = .ok (m.entries h)
  blockExists : ∀ h, s.blockExists h = (m.entries h).isSome
  getLatestBlock : s.getLatestBlock e = .ok m.latest

variable {e : Endian}

theorem represents_fresh (directory : FileName) :
    Represents e (fresh directory : FileStorage B) LatestMap.empty where
  getBlock := fun _ => rfl
  blockExists := fun _ => rfl
  getLatestBlock := rfl

/-- **Storing is inserting.** -/
theorem Represents.storeBlock {s s' : FileStorage B} {m : LatestMap Hash B} {x : B} {r : Bool}
    (hs : Represents e s m) (h : s.storeBlock e x .ok = .ok (r, s')) :
    Represents e s' (m.insert BlockType.getHash x) := by
  constructor
  · intro k
    by_cases hk : k = BlockType.getHash x
    · subst hk
      rw [LatestMap.entries_insert_self]
      exact stored_storeBlock h rfl
    · rw [LatestMap.entries_insert_of_ne _ _ hk, getBlock_storeBlock_of_ne h hk]
      exact hs.getBlock k
  · intro k
    by_cases hk : k = BlockType.getHash x
    · subst hk
      rw [LatestMap.entries_insert_self]
      exact (stored_storeBlock h rfl).blockExists
    · rw [LatestMap.entries_insert_of_ne _ _ hk, ← hs.blockExists k, Bool.eq_iff_iff,
        blockExists_storeBlock h]
      simp [hk]
  · exact isLatest_storeBlock h

/-! ## Sequences of calls -/

/-- A block is stored, or the directory is opened again. -/
inductive Call (B : Type) where
  | storeBlock (block : B)
  | reopen

/-- The block that a call stores. -/
def Call.block? : Call B → Option B
  | .storeBlock block => some block
  | .reopen => none

/-- The storage after a call whose file operations succeed. -/
def call (e : Endian) (s : FileStorage B) : Call B → Except Fault (FileStorage B)
  | .storeBlock block => do
    let (_, s) ← s.storeBlock e block .ok
    return s
  | .reopen => return s.reopen

theorem Represents.call {s s' : FileStorage B} {bs : List B} {c : Call B}
    (hs : Represents e s (LatestMap.ofList BlockType.getHash bs)) (h : call e s c = .ok s') :
    Represents e s' (LatestMap.ofList BlockType.getHash (bs ++ c.block?.toList)) := by
  cases c with
  | storeBlock block =>
      obtain ⟨⟨r, s''⟩, hstore, h⟩ := bind_eq_ok.mp h
      cases h
      rw [Call.block?, Option.toList_some, LatestMap.ofList_append_singleton]
      exact hs.storeBlock hstore
  | reopen =>
      cases h
      rw [Call.block?, Option.toList_none, List.append_nil, reopen_eq]
      exact hs

/-- Calls that store blocks of a possible size end normally. -/
theorem exists_calls (s : FileStorage B) {cs : List (Call B)}
    (hlen : ∀ b ∈ cs.filterMap Call.block?, (BlockType.serialize e b).length ≤ maxSize) :
    ∃ s', cs.foldlM (call e) s = .ok s' := by
  induction cs generalizing s with
  | nil => exact ⟨s, rfl⟩
  | cons c cs ih =>
      obtain ⟨m, hm⟩ : ∃ m, call e s c = .ok m := by
        cases c with
        | storeBlock block =>
            obtain ⟨r, m, hstore⟩ := exists_storeBlock s .ok (hlen block (by simp [Call.block?]))
            exact ⟨m, bind_eq_ok.mpr ⟨(r, m), hstore, rfl⟩⟩
        | reopen => exact ⟨s.reopen, rfl⟩
      have hrest : ∀ b ∈ cs.filterMap Call.block?,
          (BlockType.serialize e b).length ≤ maxSize := by
        intro b hb
        apply hlen
        rw [List.filterMap_cons]
        split
        · exact hb
        · exact List.mem_cons_of_mem _ hb
      obtain ⟨s', hs'⟩ := ih m hrest
      refine ⟨s', ?_⟩
      rw [List.foldlM_cons]
      exact bind_eq_ok.mpr ⟨m, hm, hs'⟩

/-- Every sequence of calls represents the map of the blocks that it has stored. -/
theorem represents_calls {s s' : FileStorage B} {bs : List B} {cs : List (Call B)}
    (hs : Represents e s (LatestMap.ofList BlockType.getHash bs))
    (h : cs.foldlM (call e) s = .ok s') :
    Represents e s' (LatestMap.ofList BlockType.getHash (bs ++ cs.filterMap Call.block?)) := by
  induction cs generalizing s bs with
  | nil =>
      cases h
      rw [List.filterMap_nil, List.append_nil]
      exact hs
  | cons c cs ih =>
      rw [List.foldlM_cons] at h
      obtain ⟨m, hm, h⟩ := bind_eq_ok.mp h
      have hrest := ih (hs.call hm) h
      rw [List.append_assoc] at hrest
      cases hc : c.block? with
      | none => simpa [hc] using hrest
      | some block => simpa [hc] using hrest

/-- **The storage is a map with a latest block.**  After any sequence of stores into an empty
directory, and of openings in between, the block under a hash is the last one stored with that
hash, a block exists exactly when it can be retrieved, and the latest block is the one stored
last. -/
theorem answers_of_calls {directory : FileName} {cs : List (Call B)} {s : FileStorage B}
    (h : cs.foldlM (call e) (fresh directory) = .ok s) :
    (∀ k, s.getBlock e k = .ok ((cs.filterMap Call.block?).reverse.find?
      (fun b => decide (BlockType.getHash b = k)))) ∧
    (∀ k, s.blockExists k = true ↔ ∃ b, s.getBlock e k = .ok (some b)) ∧
    s.getLatestBlock e = .ok (cs.filterMap Call.block?).getLast? := by
  have hrep : Represents e s
      (LatestMap.ofList BlockType.getHash ([] ++ cs.filterMap Call.block?)) :=
    represents_calls (represents_fresh directory) h
  rw [List.nil_append] at hrep
  refine ⟨?_, ?_, ?_⟩
  · intro k
    rw [hrep.getBlock, LatestMap.entries_ofList]
  · intro k
    rw [hrep.blockExists, Option.isSome_iff_exists]
    simp [hrep.getBlock]
  · rw [hrep.getLatestBlock, LatestMap.latest_ofList]

/-- A block, the directory opened again, and the same block once more. -/
theorem answers_of_calls_twice :
    ∃ s : FileStorage TimeBlock,
      [Call.storeBlock TimeBlock.empty, .reopen, .storeBlock TimeBlock.empty].foldlM
        (call .little) (fresh []) = .ok s ∧
      s.getLatestBlock .little = .ok (some TimeBlock.empty) := by
  obtain ⟨s, hcalls⟩ := exists_calls (e := .little) (fresh [] : FileStorage TimeBlock)
    fun b _ => TimeBlock.length_serialize_le .little b
  exact ⟨s, hcalls, (answers_of_calls hcalls).2.2⟩

end FileStorage

end CoinPlatform
