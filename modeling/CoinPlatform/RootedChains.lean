/-
# Chains that survive

What a stop inside `store_block` can leave of a chain, and what the next start makes of it.  The
blocks under their names form a tree: a block that is stored under a new name hangs on the block it
was built on, and a file that is written in part is no block.  `latest.block` is the previous one,
the new one, or cannot be read, and in the last case the next start puts genesis there.

* `Rooted.storeBlock`: however a store ends, the blocks form a tree with genesis as its root.
* `hasTip_storeBlock`: and `latest.block` is one of them, or cannot be read.
* `Rooted.initializeFrom`: the next start makes it one of them again.
* `Descends.storeBlock`: the chain of the latest block only grows, unless its copy is cut off.
-/
import CoinPlatform.Ancestry
import CoinPlatform.Recovery

open ByteOrder StdVector LinkedMap

namespace CoinPlatform

open FileStorage

section Chain

variable {B : Type} [BlockType B] (e : Endian) (previousHash : B → Hash) (genesis : B)

/-! ## A tree of blocks -/

/-- Genesis is under its name, and it is reached from every stored block, each of which is under
its own name. -/
structure Rooted (s : FileStorage B) : Prop where
  root : s.Stored e (BlockType.getHash genesis) genesis
  named : ∀ k b, s.Stored e k b → BlockType.getHash b = k
  linked : ∀ k b, s.Stored e k b → Linked previousHash genesis (s.Stored e) k

/-- The latest block is one of the stored ones. -/
def HasTip (s : FileStorage B) : Prop :=
  ∃ latest, s.IsLatest e latest ∧ s.Stored e (BlockType.getHash latest) latest

/-- An older block is reached from the latest one. -/
def Descends (old : B) (s : FileStorage B) : Prop :=
  ∃ latest, s.IsLatest e latest ∧ Linked previousHash old (s.Stored e) (BlockType.getHash latest)

/-- The block is about to be stored on the latest one. -/
def OnTip (s : FileStorage B) (k : Hash) : Prop :=
  ∃ latest, s.IsLatest e latest ∧ k = BlockType.getHash latest

/-- The store leaves `latest.block` alone, or copies the whole block to it. -/
def LatestWhole (x : B) (io : WriteOutcome) : Prop :=
  ∀ contents ∈ io.latestFile (BlockType.serialize e x), contents = BlockType.serialize e x

variable {e previousHash genesis} {s s' : FileStorage B} {x latest old : B} {io : WriteOutcome}
  {r : Bool}

/-- A tree with its tip is closed under parents. -/
theorem Rooted.ancestorClosed (hs : Rooted e previousHash genesis s) (htip : HasTip e s) :
    AncestorClosed e previousHash genesis s := by
  obtain ⟨latest, hlatest, hstored⟩ := htip
  exact Closed.ancestorClosed ⟨hs.named, hs.linked, latest, hlatest, hs.linked _ latest hstored⟩

/-! ## Stores -/

section Store

/-- Under a new name nothing is overwritten. -/
theorem stored_mono (h : s.storeBlock e x io = .ok (r, s'))
    (hnew : s.blockExists (BlockType.getHash x) = false) {k : Hash} {b : B}
    (hb : s.Stored e k b) : s'.Stored e k b := by
  refine hb.storeBlock_of_ne h ?_
  rintro rfl
  rw [hb.blockExists] at hnew
  cases hnew

/-- **However a store ends, the blocks form a tree**, when the block has a new name and was built
on one of them. -/
theorem Rooted.storeBlock (hs : Rooted e previousHash genesis s)
    (h : s.storeBlock e x io = .ok (r, s'))
    (hnew : s.blockExists (BlockType.getHash x) = false)
    (hparent : ∃ p, s.Stored e (previousHash x) p) : Rooted e previousHash genesis s' where
  root := stored_mono h hnew hs.root
  named := by
    intro k b hb
    rcases stored_of_storeBlock h hb with ⟨hk, rfl, -⟩ | ⟨hb, -⟩
    · exact hk.symm
    · exact hs.named k b hb
  linked := by
    intro k b hb
    have hkeep : ∀ k, Linked previousHash genesis (s.Stored e) k →
        Linked previousHash genesis (s'.Stored e) k :=
      fun k hk => hk.mono (fun _ _ hb => stored_mono h hnew hb)
    rcases stored_of_storeBlock h hb with ⟨-, rfl, -⟩ | ⟨hbefore, -⟩
    · obtain ⟨p, hp⟩ := hparent
      exact .link hb (hkeep _ (hs.linked _ p hp))
    · exact hkeep k (hs.linked k b hbefore)

variable [RejectsTruncated B]

/-- It can be read when the copy is not cut off. -/
theorem isLatest_of_latestWhole (hlatest : s.IsLatest e latest)
    (h : s.storeBlock e x io = .ok (r, s')) (hwhole : LatestWhole e x io) :
    s'.IsLatest e latest ∨
      (s'.IsLatest e x ∧ s'.Stored e (BlockType.getHash x) x) := by
  cases hc : io.latestFile (BlockType.serialize e x) with
  | none => exact .inl ((getLatestBlock_of_latestFile_none h hc).trans hlatest)
  | some contents =>
      obtain rfl := hwhole contents hc
      have hread := getLatestBlock_of_latestFile h hc
      rw [readPart_serialize] at hread
      exact .inr ⟨hread, stored_storeBlock h (WriteOutcome.blockFile_of_latestFile hc)⟩

theorem HasTip.storeBlock (hs : HasTip e s) (h : s.storeBlock e x io = .ok (r, s'))
    (hnew : s.blockExists (BlockType.getHash x) = false) (hwhole : LatestWhole e x io) :
    HasTip e s' := by
  obtain ⟨latest, hlatest, hstored⟩ := hs
  rcases isLatest_of_latestWhole hlatest h hwhole with hsame | ⟨hx, hxstored⟩
  · exact ⟨latest, hsame, stored_mono h hnew hstored⟩
  · exact ⟨x, hx, hxstored⟩

/-- **The chain of the latest block only grows.** -/
theorem Descends.storeBlock (hs : Descends e previousHash old s)
    (h : s.storeBlock e x io = .ok (r, s'))
    (hnew : s.blockExists (BlockType.getHash x) = false) (hwhole : LatestWhole e x io)
    (htip : OnTip e s (previousHash x)) : Descends e previousHash old s' := by
  obtain ⟨latest, hlatest, hlinked⟩ := hs
  have hkeep : Linked previousHash old (s'.Stored e) (BlockType.getHash latest) :=
    hlinked.mono (fun _ _ hb => stored_mono h hnew hb)
  rcases isLatest_of_latestWhole hlatest h hwhole with hsame | ⟨hx, hxstored⟩
  · exact ⟨latest, hsame, hkeep⟩
  · obtain ⟨tip, htip, hlink⟩ := htip
    obtain rfl := hlatest.unique htip
    rw [← hlink] at hkeep
    exact ⟨x, hx, .link hxstored hkeep⟩

end Store

/-- Storing a block once more changes no block. -/
theorem stored_storeBlock_again (hx : s.Stored e (BlockType.getHash x) x)
    (h : s.storeBlock e x .ok = .ok (r, s')) (k : Hash) (b : B) :
    s'.Stored e k b ↔ s.Stored e k b := by
  constructor
  · intro hb
    rcases stored_of_storeBlock h hb with ⟨rfl, rfl, -⟩ | ⟨hb, -⟩
    · exact hx
    · exact hb
  · intro hb
    by_cases hk : k = BlockType.getHash x
    · subst hk
      obtain rfl := hb.unique hx
      exact stored_storeBlock h rfl
    · exact hb.storeBlock_of_ne h hk

theorem Rooted.congr (hs : Rooted e previousHash genesis s)
    (h : ∀ k b, s'.Stored e k b ↔ s.Stored e k b) : Rooted e previousHash genesis s' where
  root := (h _ _).mpr hs.root
  named := fun k b hb => hs.named k b ((h k b).mp hb)
  linked := fun k b hb =>
    (hs.linked k b ((h k b).mp hb)).mono (fun k b hb => (h k b).mpr hb)

/-! ## The next start -/

/-- Genesis, as the constants of the chain have it. -/
structure IsGenesis (e : Endian) (genesisBlockData : Bytes) (genesisHash : Hash) (genesis : B) :
    Prop where
  decoded : BlockType.deserialize e BlockType.empty genesisBlockData = .ok (true, genesis)
  hash : BlockType.getHash genesis = genesisHash

variable {genesisBlockData : Bytes} {genesisHash : Hash}

/-- **The next start** brings a latest block back, and changes nothing else. -/
theorem Rooted.initializeFrom (hs : Rooted e previousHash genesis s)
    (htip : HasTip e s ∨ s.getLatestBlock e = .ok none)
    (hgenesis : IsGenesis e genesisBlockData genesisHash genesis)
    (h : initializeFrom e genesisBlockData genesisHash s.reopen .ok = .ok (true, s')) :
    (∀ k b, s'.Stored e k b ↔ s.Stored e k b) ∧ HasTip e s' := by
  rw [reopen_eq] at h
  rcases htip with ⟨latest, hlatest, hstored⟩ | hnone
  · rw [initializeFrom_of_isLatest hlatest] at h
    cases h
    exact ⟨fun _ _ => Iff.rfl, latest, hlatest, hstored⟩
  · obtain ⟨g, hdec, -, hstore⟩ := (initializeFrom_of_none hnone).mp h
    have heq := hgenesis.decoded.symm.trans hdec
    obtain rfl : genesis = g := (Prod.mk.inj (Except.ok.inj heq)).2
    have hsame := stored_storeBlock_again hs.root hstore
    exact ⟨hsame, genesis, isLatest_storeBlock hstore, (hsame _ _).mpr hs.root⟩

/-- A start that finds a latest block keeps its chain. -/
theorem Descends.initializeFrom (hs : Descends e previousHash old s)
    (h : initializeFrom e genesisBlockData genesisHash s.reopen .ok = .ok (true, s')) :
    Descends e previousHash old s' := by
  obtain ⟨latest, hlatest, hlinked⟩ := hs
  rw [reopen_eq, initializeFrom_of_isLatest hlatest] at h
  cases h
  exact ⟨latest, hlatest, hlinked⟩

end Chain

end CoinPlatform
