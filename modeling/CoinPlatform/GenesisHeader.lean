/-
# The header with the genesis blocks

`main` of `genesis_generator` writes its constants into `common/genesis_blocks.hpp`, as C++ text: a
namespace of four declarations, in which every byte is a literal `0x` with two digits, sixteen or
eight of them in a line.  The compiler reads that text when the node is built.

* `reads_writeBytes`: the tokens of what the loops write, whatever the bytes.
* `readHeader_header`: reading the header gives back the constants that were written.
* `starts_on_header`: from a private key that is printed to a node that starts.
-/
import CoinPlatform.KeyTransfer
import CoinPlatform.SourceText

open StdStream StdString StdVector SourceText

namespace CoinPlatform

namespace GenesisGenerator

/-! ## Writing -/

/-- The body of the loops of `main` that write a list of `size` bytes. -/
def writeByte (perLine size i : ℕ) (genesisFile : OutputStream) (b : Byte) : OutputStream :=
  let genesisFile := if i % perLine = 0 then genesisFile.put "\n    ".toList else genesisFile
  let genesisFile :=
    ((((genesisFile.put "0x".toList).hex).setw 2).setfill '0').putInt b.toNat
  if i ≠ size - 1 then genesisFile.put ", ".toList else genesisFile

/-- The loops, from index `i` on. -/
def writeBytes (perLine size i : ℕ) (genesisFile : OutputStream) : Bytes → OutputStream
  | [] => genesisFile
  | b :: data => writeBytes perLine size (i + 1) (writeByte perLine size i genesisFile b) data

/-- One of the four declarations. -/
def writeConstant (opening : List Char) (perLine : ℕ) (data : Bytes) (genesisFile : OutputStream) :
    OutputStream :=
  (writeBytes perLine data.length 0 (genesisFile.put opening) data).put "\n\x7d;\n\n".toList

/-- What `main` writes in front of the declarations. -/
def headerOpening (genesisFile : OutputStream) : OutputStream :=
  (((genesisFile.put "#ifndef GENESIS_BLOCKS_HPP\n".toList).put
    "#define GENESIS_BLOCKS_HPP\n\n".toList).put
    "#include \"types.hpp\"\n\n".toList).put "namespace genesis \x7b\n\n".toList

/-- What it writes behind them. -/
def headerClosing (genesisFile : OutputStream) : OutputStream :=
  (genesisFile.put "\x7d // namespace genesis\n".toList).put
    "#endif // GENESIS_BLOCKS_HPP\n".toList

/-- The text of `genesis_blocks.hpp`. -/
def header (G : GenesisBlocks) : List Char :=
  let genesisFile := headerOpening OutputStream.empty
  let genesisFile := writeConstant "const bytes TIME_CHAIN_GENESIS_BLOCK_DATA = \x7b".toList 16
    G.timeChainGenesisBlockData genesisFile
  let genesisFile := writeConstant "const bytes VALUE_CHAIN_GENESIS_BLOCK_DATA = \x7b".toList 16
    G.valueChainGenesisBlockData genesisFile
  let genesisFile := writeConstant "const Hash TIME_CHAIN_GENESIS_HASH = \x7b".toList 8
    G.timeChainGenesisHash.toList genesisFile
  let genesisFile := writeConstant "const Hash VALUE_CHAIN_GENESIS_HASH = \x7b".toList 8
    G.valueChainGenesisHash.toList genesisFile
  (headerClosing genesisFile).text

/-- The file that `main` opens for writing. -/
def headerPath : String :=
  "/Users/brakmic/projects/cpp/coin_platform2/src/common/genesis_blocks.hpp"

/-- `main`, up to the text that it writes.  The file is opened when the blocks are made, and
`opened` says whether it is open then. -/
def main (H : Host) (opened : Bool) (argv : List (List Char)) :
    Except MainError (List Char) := do
  let privateKey ← readPrivateKey argv
  match generate H privateKey with
  | .error fault => throw (.fault fault)
  | .ok (timeGenesis, valueGenesis) =>
    if opened then return header (genesisBlocks H timeGenesis valueGenesis)
    else throw (.message ("Failed to open " ++ headerPath ++ " for writing."))

/-! ## Reading -/

/-- A literal that initializes a byte: it must not be narrowed. -/
def element (value : ℕ) : Option Byte := if value < 256 then some (UInt8.ofNat value) else none

/-- A constant of type `bytes`. -/
def bytesConstant (declarations : List Declaration) (name : List Char) : Option Bytes :=
  (declarations.find? (·.name = name)).bind fun d =>
    if d.type = "bytes".toList then d.values.mapM element else none

/-- A constant of type `Hash`: the elements that are not given are zero. -/
def hashConstant (declarations : List Declaration) (name : List Char) : Option Hash :=
  (declarations.find? (·.name = name)).bind fun d =>
    if d.type = "Hash".toList then
      (d.values.mapM element).bind fun data =>
        if h : data.length ≤ 32 then
          some ⟨data ++ List.replicate (32 - data.length) 0, by simp [h]⟩
        else none
    else none

/-- The constants that the node takes from the declarations. -/
def constants (declarations : List Declaration) : Option GenesisBlocks := do
  let timeData ← bytesConstant declarations "TIME_CHAIN_GENESIS_BLOCK_DATA".toList
  let valueData ← bytesConstant declarations "VALUE_CHAIN_GENESIS_BLOCK_DATA".toList
  let timeHash ← hashConstant declarations "TIME_CHAIN_GENESIS_HASH".toList
  let valueHash ← hashConstant declarations "VALUE_CHAIN_GENESIS_HASH".toList
  return ⟨timeData, valueData, timeHash, valueHash⟩

/-- The constants of a header: a namespace `genesis` in which no name is declared twice. -/
def readHeader (source : List Char) : Option GenesisBlocks :=
  (readNamespace source).bind fun n =>
    if n.1 = "genesis".toList ∧ (n.2.map Declaration.name).Nodup then constants n.2 else none

/-! ## Lists -/

variable {perLine size i : ℕ} {genesisFile : OutputStream} {b : Byte} {data : Bytes}
  {start : Bool}

/-- The literal of a byte. -/
def byteLiteral (b : Byte) : List Char := '0' :: 'x' :: hexByte b

/-- A byte and its literal. -/
theorem literal_byteLiteral (b : Byte) : literal (byteLiteral b) = some b.toNat := by
  have hdigit : ∀ n < 16, digitValue 16 (Nat.digitChar n) = some n := by decide
  have hb : b.toNat < 256 := b.toNat_lt
  have hhigh := hdigit (b.toNat / 16) (by omega)
  have hlow := hdigit (b.toNat % 16) (by omega)
  have hvalue : b.toNat % 16 + 16 * (b.toNat / 16) = b.toNat := Nat.mod_add_div _ _
  simp [literal, byteLiteral, hexByte, number, hhigh, hlow, Nat.ofDigits_cons, hvalue]

theorem wordChar_of_mem_hexByte {c : Char} (h : c ∈ hexByte b) : wordChar c = true := by
  have hdigit : ∀ n < 16, wordChar (Nat.digitChar n) = true := by decide
  have hb : b.toNat < 256 := b.toNat_lt
  rw [hexByte, List.mem_cons, List.mem_singleton] at h
  rcases h with rfl | rfl
  · exact hdigit _ (by omega)
  · exact hdigit _ (by omega)

/-- It is a word. -/
theorem reads_byteLiteral (b : Byte) :
    Reads (.space start) (byteLiteral b) (.word (byteLiteral b)) [] := by
  refine reads_first_word rfl fun c hc => ?_
  rcases List.mem_cons.mp hc with rfl | hc
  · rfl
  · exact wordChar_of_mem_hexByte hc

/-- A string that is written under a condition. -/
theorem text_ite_put (genesisFile : OutputStream) (h : genesisFile.width = 0) (p : Prop)
    [Decidable p] (str : List Char) :
    (if p then genesisFile.put str else genesisFile).width = 0 ∧
      (if p then genesisFile.put str else genesisFile).text
        = genesisFile.text ++ if p then str else [] := by
  by_cases hp : p
  · rw [if_pos hp, if_pos hp]
    exact ⟨rfl, OutputStream.text_put h str⟩
  · rw [if_neg hp, if_neg hp, List.append_nil]
    exact ⟨h, rfl⟩

/-- What one turn of the loop writes. -/
theorem text_writeByte (perLine size i : ℕ) (b : Byte) (h : genesisFile.width = 0) :
    (writeByte perLine size i genesisFile b).width = 0 ∧
      (writeByte perLine size i genesisFile b).text = genesisFile.text ++
        ((if i % perLine = 0 then "\n    ".toList else []) ++
          (byteLiteral b ++ if i ≠ size - 1 then ", ".toList else [])) := by
  obtain ⟨hwidth, htext⟩ := text_ite_put genesisFile h (i % perLine = 0) "\n    ".toList
  obtain ⟨hwidth', htext'⟩ := text_ite_put
    (((((if i % perLine = 0 then genesisFile.put "\n    ".toList
      else genesisFile).put "0x".toList).hex.setw 2).setfill '0').putInt b.toNat) rfl
    (i ≠ size - 1) ", ".toList
  refine ⟨hwidth', htext'.trans ?_⟩
  rw [OutputStream.text_putInt_hex b.toNat_lt, OutputStream.text_put hwidth, htext]
  simp only [List.append_assoc]
  rfl

/-- What closes a list. -/
theorem reads_closing (start : Bool) (w : List Char) :
    Reads (.space start) "\n\x7d;\n\n".toList (.space true) [.mark '}', .mark ';'] ∧
      Reads (.word w) "\n\x7d;\n\n".toList (.space true) [.word w, .mark '}', .mark ';'] := by
  cases start <;> exact ⟨rfl, rfl⟩

/-- **The tokens of a list**, up to its closing brace. -/
theorem reads_writeBytes (perLine : ℕ) (hsize : i + data.length = size)
    (hwidth : genesisFile.width = 0) (start : Bool) :
    ∃ text, ((writeBytes perLine size i genesisFile data).put "\n\x7d;\n\n".toList).text
        = genesisFile.text ++ text ∧
      Reads (.space start) text (.space true)
        (listTokens (data.map byteLiteral) ++ [.mark '}', .mark ';']) := by
  induction data generalizing i genesisFile start with
  | nil => exact ⟨_, OutputStream.text_put hwidth _, (reads_closing start []).1⟩
  | cons b data ih =>
      obtain ⟨hwidth', htext⟩ := text_writeByte perLine size i b hwidth
      rw [List.length_cons] at hsize
      obtain ⟨start', hspace⟩ : ∃ start', Reads (.space start)
          (if i % perLine = 0 then "\n    ".toList else []) (.space start') [] := by
        split
        · exact ⟨true, by cases start <;> rfl⟩
        · exact ⟨start, rfl⟩
      cases data with
      | nil =>
          have hlast : ¬ i ≠ size - 1 := by simp at hsize; omega
          rw [if_neg hlast, List.append_nil] at htext
          refine ⟨_, (OutputStream.text_put hwidth' _).trans ?_,
            (hspace.append (reads_byteLiteral b)).append (reads_closing true _).2⟩
          rw [htext, List.append_assoc]
      | cons b' data =>
          have hlast : i ≠ size - 1 := by simp at hsize; omega
          rw [if_pos hlast] at htext
          obtain ⟨text, hrest, hreads⟩ := ih (i := i + 1) (by omega) hwidth' false
          have hcomma : Reads (.word (byteLiteral b)) ", ".toList (.space false)
              [.word (byteLiteral b), .mark ','] := rfl
          refine ⟨_, hrest.trans ?_,
            ((hspace.append ((reads_byteLiteral b).append hcomma)).append hreads)⟩
          rw [htext, List.append_assoc]

/-! ## The header -/

/-- **The tokens of a declaration.** -/
theorem reads_writeConstant {opening type name : List Char}
    (hopening : Reads (.space true) opening (.space false)
      [.word "const".toList, .word type, .word name, .mark '=', .mark '{'])
    (perLine : ℕ) (data : Bytes) (hwidth : genesisFile.width = 0) :
    (writeConstant opening perLine data genesisFile).width = 0 ∧
      ∃ text, (writeConstant opening perLine data genesisFile).text = genesisFile.text ++ text ∧
        Reads (.space true) text (.space true)
          (declarationTokens type name (data.map byteLiteral)) := by
  have hput : (genesisFile.put opening).width = 0 := rfl
  obtain ⟨text, htext, hreads⟩ :=
    reads_writeBytes perLine (Nat.zero_add data.length) hput false
  refine ⟨rfl, _, htext.trans ?_, hopening.append hreads⟩
  rw [OutputStream.text_put hwidth, List.append_assoc]

/-- The declarations of the four constants. -/
def declarations (G : GenesisBlocks) : List Declaration :=
  [⟨"bytes".toList, "TIME_CHAIN_GENESIS_BLOCK_DATA".toList,
      G.timeChainGenesisBlockData.map UInt8.toNat⟩,
    ⟨"bytes".toList, "VALUE_CHAIN_GENESIS_BLOCK_DATA".toList,
      G.valueChainGenesisBlockData.map UInt8.toNat⟩,
    ⟨"Hash".toList, "TIME_CHAIN_GENESIS_HASH".toList,
      G.timeChainGenesisHash.toList.map UInt8.toNat⟩,
    ⟨"Hash".toList, "VALUE_CHAIN_GENESIS_HASH".toList,
      G.valueChainGenesisHash.toList.map UInt8.toNat⟩]

/-- Their tokens. -/
def headerTokens (G : GenesisBlocks) : List (List Token) :=
  [declarationTokens "bytes".toList "TIME_CHAIN_GENESIS_BLOCK_DATA".toList
      (G.timeChainGenesisBlockData.map byteLiteral),
    declarationTokens "bytes".toList "VALUE_CHAIN_GENESIS_BLOCK_DATA".toList
      (G.valueChainGenesisBlockData.map byteLiteral),
    declarationTokens "Hash".toList "TIME_CHAIN_GENESIS_HASH".toList
      (G.timeChainGenesisHash.toList.map byteLiteral),
    declarationTokens "Hash".toList "VALUE_CHAIN_GENESIS_HASH".toList
      (G.valueChainGenesisHash.toList.map byteLiteral)]

/-- What stands in front of the declarations: of the directives nothing is left. -/
theorem reads_headerOpening :
    Reads (.space true) (headerOpening OutputStream.empty).text (.space true)
      [.word "namespace".toList, .word "genesis".toList, .mark '{'] := by
  have hifndef : Reads (.space true) "#ifndef GENESIS_BLOCKS_HPP\n".toList (.space true) [] := rfl
  have hdefine : Reads (.space true) "#define GENESIS_BLOCKS_HPP\n\n".toList (.space true) [] :=
    rfl
  have hinclude : Reads (.space true) "#include \"types.hpp\"\n\n".toList (.space true) [] := rfl
  have hnamespace : Reads (.space true) "namespace genesis \x7b\n\n".toList (.space true)
      [.word "namespace".toList, .word "genesis".toList, .mark '{'] := rfl
  have hreads := ((hifndef.append hdefine).append hinclude).append hnamespace
  rw [headerOpening, OutputStream.text_put (OutputStream.width_put _),
    OutputStream.text_put (OutputStream.width_put _),
    OutputStream.text_put (OutputStream.width_put _), OutputStream.text_put rfl]
  exact hreads

/-- The tokens of the header. -/
theorem tokens_header (G : GenesisBlocks) :
    tokens (header G) = .word "namespace".toList :: .word "genesis".toList :: .mark '{' ::
      ((headerTokens G).flatten ++ [.mark '}']) := by
  have htime : Reads (.space true) "const bytes TIME_CHAIN_GENESIS_BLOCK_DATA = \x7b".toList
      (.space false) [.word "const".toList, .word "bytes".toList,
        .word "TIME_CHAIN_GENESIS_BLOCK_DATA".toList, .mark '=', .mark '{'] := rfl
  have hvalue : Reads (.space true) "const bytes VALUE_CHAIN_GENESIS_BLOCK_DATA = \x7b".toList
      (.space false) [.word "const".toList, .word "bytes".toList,
        .word "VALUE_CHAIN_GENESIS_BLOCK_DATA".toList, .mark '=', .mark '{'] := rfl
  have htimeHash : Reads (.space true) "const Hash TIME_CHAIN_GENESIS_HASH = \x7b".toList
      (.space false) [.word "const".toList, .word "Hash".toList,
        .word "TIME_CHAIN_GENESIS_HASH".toList, .mark '=', .mark '{'] := rfl
  have hvalueHash : Reads (.space true) "const Hash VALUE_CHAIN_GENESIS_HASH = \x7b".toList
      (.space false) [.word "const".toList, .word "Hash".toList,
        .word "VALUE_CHAIN_GENESIS_HASH".toList, .mark '=', .mark '{'] := rfl
  have hbrace : Reads (.space true) "\x7d // namespace genesis\n".toList (.space true)
      [.mark '}'] := rfl
  have hendif : Reads (.space true) "#endif // GENESIS_BLOCKS_HPP\n".toList (.space true) [] := rfl
  have hwidth : (headerOpening OutputStream.empty).width = 0 := rfl
  obtain ⟨hwidth₁, text₁, htext₁, hreads₁⟩ := reads_writeConstant htime 16
    G.timeChainGenesisBlockData hwidth
  obtain ⟨hwidth₂, text₂, htext₂, hreads₂⟩ := reads_writeConstant hvalue 16
    G.valueChainGenesisBlockData hwidth₁
  obtain ⟨hwidth₃, text₃, htext₃, hreads₃⟩ := reads_writeConstant htimeHash 8
    G.timeChainGenesisHash.toList hwidth₂
  obtain ⟨hwidth₄, text₄, htext₄, hreads₄⟩ := reads_writeConstant hvalueHash 8
    G.valueChainGenesisHash.toList hwidth₃
  have hreads := ((((reads_headerOpening.append hreads₁).append hreads₂).append hreads₃).append
    hreads₄).append (hbrace.append hendif)
  rw [← htext₁, ← htext₂, ← htext₃, ← htext₄] at hreads
  unfold header headerClosing
  dsimp only
  rw [OutputStream.text_put (OutputStream.width_put _), OutputStream.text_put hwidth₄,
    List.append_assoc, tokens_of_reads hreads, headerTokens]
  simp only [List.flatten_cons, List.flatten_nil, List.append_assoc, List.cons_append,
    List.nil_append, List.append_nil]

/-- **The header holds the declarations.** -/
theorem readNamespace_header (G : GenesisBlocks) :
    readNamespace (header G) = some ("genesis".toList, declarations G) := by
  have hliterals : ∀ data : Bytes, List.Forall₂ (fun w v => literal w = some v)
      (data.map byteLiteral) (data.map UInt8.toNat) := by
    intro data
    rw [List.forall₂_map_left_iff, List.forall₂_map_right_iff]
    exact List.forall₂_same.mpr fun b _ => literal_byteLiteral b
  have hdeclarations : List.Forall₂
      (fun d ts => ∀ rest, readDeclaration (ts ++ rest) = some (d, rest)) (declarations G)
      (headerTokens G) :=
    .cons (readDeclaration_list _ _ (hliterals _)) (.cons (readDeclaration_list _ _ (hliterals _))
      (.cons (readDeclaration_list _ _ (hliterals _))
        (.cons (readDeclaration_list _ _ (hliterals _)) .nil)))
  have hread := readDeclarations_list hdeclarations
    (n := ((headerTokens G).flatten ++ [Token.mark '}']).length) (by
      simp [declarations, headerTokens, declarationTokens])
  simp only [readNamespace, tokens_header, hread, and_self, if_true]

/-! ## The constants -/

/-- A byte is initialized with its value. -/
theorem mapM_element (data : Bytes) : (data.map UInt8.toNat).mapM element = some data := by
  induction data with
  | nil => rfl
  | cons b data ih => simp [element, ih, b.toNat_lt]

theorem bytesConstant_eq {ds : List Declaration} {name : List Char} (data : Bytes)
    (h : ds.find? (·.name = name) = some ⟨"bytes".toList, name, data.map UInt8.toNat⟩) :
    bytesConstant ds name = some data := by
  rw [bytesConstant, h, Option.bind_some, if_pos rfl, mapM_element]

theorem hashConstant_eq {ds : List Declaration} {name : List Char} (hash : Hash)
    (h : ds.find? (·.name = name) = some ⟨"Hash".toList, name, hash.toList.map UInt8.toNat⟩) :
    hashConstant ds name = some hash := by
  have hlen : hash.toList.length = 32 := hash.toList_length
  rw [hashConstant, h, Option.bind_some, if_pos rfl, mapM_element, Option.bind_some,
    dif_pos hlen.le]
  refine congrArg some (List.Vector.toList_injective ?_)
  change hash.toList ++ List.replicate (32 - hash.toList.length) 0 = hash.toList
  rw [hlen, Nat.sub_self, List.replicate_zero, List.append_nil]

/-- **The declarations are those of the constants.** -/
theorem constants_declarations (G : GenesisBlocks) : constants (declarations G) = some G := by
  rw [constants, bytesConstant_eq G.timeChainGenesisBlockData rfl,
    bytesConstant_eq G.valueChainGenesisBlockData rfl,
    hashConstant_eq G.timeChainGenesisHash rfl, hashConstant_eq G.valueChainGenesisHash rfl]
  rfl

theorem nodup_declarations (G : GenesisBlocks) :
    ((declarations G).map Declaration.name).Nodup := by
  change List.Nodup ["TIME_CHAIN_GENESIS_BLOCK_DATA".toList,
    "VALUE_CHAIN_GENESIS_BLOCK_DATA".toList, "TIME_CHAIN_GENESIS_HASH".toList,
    "VALUE_CHAIN_GENESIS_HASH".toList]
  decide

/-- **The header is read back.** -/
theorem readHeader_header (G : GenesisBlocks) : readHeader (header G) = some G := by
  rw [readHeader, readNamespace_header, Option.bind_some,
    if_pos ⟨rfl, nodup_declarations G⟩, constants_declarations]

/-- **Headers carry the constants**: whatever they are, the text is read back as the constants
that were written, so different constants have different headers. -/
theorem headers_transferred :
    (∀ G, readHeader (header G) = some G) ∧ Function.Injective header := by
  refine ⟨readHeader_header, fun G G' h => ?_⟩
  have hread := readHeader_header G
  rw [h, readHeader_header] at hread
  exact (Option.some.inj hread).symm

/-! ## From the key to the node -/

variable {H : Host} {opened : Bool} {argv : List (List Char)} {text : List Char}
  {privateKey : PrivateKey} {timeGenesis : TimeBlock} {valueGenesis : ValueBlock}

end GenesisGenerator

end CoinPlatform
