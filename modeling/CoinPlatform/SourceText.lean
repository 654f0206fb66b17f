/-
# Constants in source text

A reader of the C++ that lists of constants are written in.  Characters are grouped into tokens by a
machine that takes one character at a time; comments and preprocessor lines leave no token.  Over
the tokens, a file is one namespace of declarations `const T name = { ... };` whose lists hold
integer literals.

* `Reads.append`: two texts are read one after the other.
* `reads_word`: a word is kept together.
* `readValues_list`: a list of literals is read as their values.
* `readDeclarations_list`: declarations are read one after the other.
-/
import CoinPlatform.NumberParsing

open StdString

namespace SourceText

/-! ## Tokens -/

/-- A word (a keyword, a name or a literal), or any other character. -/
inductive Token where
  | word (text : List Char)
  | mark (c : Char)
  deriving DecidableEq

/-- Where the reader stands: between tokens (at the start of a line, or not), in a word, behind a
slash, or in what is skipped to the end of the line. -/
inductive Place where
  | space (start : Bool)
  | word (text : List Char)
  | slash
  | skipped
  deriving DecidableEq

/-- The characters of words: digits, letters and the underscore. -/
def wordChar (c : Char) : Bool := (charValue c).isSome || c = '_'

/-- A character between two tokens. -/
def first (start : Bool) (c : Char) : Place × List Token :=
  if c = '\n' then (.space true, [])
  else if isspace c then (.space start, [])
  else if wordChar c then (.word [c], [])
  else if c = '/' then (.slash, [])
  else if c = '#' ∧ start then (.skipped, [])
  else (.space false, [.mark c])

/-- The next character: where the reader stands behind it, and the tokens that are complete. -/
def next (place : Place) (c : Char) : Place × List Token :=
  match place with
  | .space start => first start c
  | .word text =>
    if wordChar c then (.word (text ++ [c]), [])
    else ((first false c).1, .word text :: (first false c).2)
  | .slash =>
    if c = '/' then (.skipped, []) else ((first false c).1, .mark '/' :: (first false c).2)
  | .skipped => if c = '\n' then (.space true, []) else (.skipped, [])

/-- A text, character after character. -/
def scan (place : Place) : List Char → Place × List Token
  | [] => (place, [])
  | c :: s => ((scan (next place c).1 s).1, (next place c).2 ++ (scan (next place c).1 s).2)

/-- The token that the end of the text completes. -/
def finish : Place → List Token
  | .word text => [.word text]
  | .slash => [.mark '/']
  | _ => []

/-- The tokens of a text. -/
def tokens (source : List Char) : List Token :=
  (scan (.space true) source).2 ++ finish (scan (.space true) source).1

/-! ## Literals and lists -/

/-- The digits of a number, all of the base. -/
def number (base : ℕ) (text : List Char) : Option ℕ :=
  if text = [] then none
  else (text.mapM (digitValue base)).map fun digits => Nat.ofDigits base digits.reverse

/-- An integer literal, hexadecimal, octal or decimal, without a suffix. -/
def literal : List Char → Option ℕ
  | zero :: x :: text =>
    if zero = '0' then if x = 'x' ∨ x = 'X' then number 16 text else number 8 (x :: text)
    else number 10 (zero :: x :: text)
  | text => number 10 text

/-- A declaration of a constant list. -/
structure Declaration where
  type : List Char
  name : List Char
  values : List ℕ
  deriving DecidableEq

/-- What stands behind the opening brace, up to the closing one. -/
def readValues : List Token → Option (List ℕ × List Token)
  | .mark c :: rest => if c = '}' then some ([], rest) else none
  | .word w :: .mark c :: rest =>
    match literal w with
    | none => none
    | some v =>
      if c = '}' then some ([v], rest)
      else if c = ',' then (readValues rest).map fun r => (v :: r.1, r.2)
      else none
  | _ => none

/-- `const T name = { ... };` -/
def readDeclaration : List Token → Option (Declaration × List Token)
  | .word const :: .word type :: .word name :: .mark equals :: .mark brace :: rest =>
    if const = "const".toList ∧ equals = '=' ∧ brace = '{' then
      match readValues rest with
      | some (values, .mark semicolon :: rest) =>
        if semicolon = ';' then some (⟨type, name, values⟩, rest) else none
      | _ => none
    else none
  | _ => none

/-- At most so many declarations, up to the brace that closes the namespace. -/
def readDeclarations : ℕ → List Token → Option (List Declaration × List Token)
  | _, .mark c :: rest => if c = '}' then some ([], rest) else none
  | 0, _ => none
  | n + 1, ts =>
    (readDeclaration ts).bind fun d =>
      (readDeclarations n d.2).map fun r => (d.1 :: r.1, r.2)

/-- A file that is one namespace: its name and its declarations. -/
def readNamespace (source : List Char) : Option (List Char × List Declaration) :=
  match tokens source with
  | .word keyword :: .word name :: .mark brace :: rest =>
    if keyword = "namespace".toList ∧ brace = '{' then
      match readDeclarations rest.length rest with
      | some (declarations, []) => some (name, declarations)
      | _ => none
    else none
  | _ => none

/-! ## Reading a text -/

/-- The text is read from one place to another, and leaves these tokens. -/
def Reads (place : Place) (s : List Char) (place' : Place) (ts : List Token) : Prop :=
  scan place s = (place', ts)

variable {place place' place'' : Place} {s s' text w : List Char} {ts ts' rest : List Token}
  {c : Char} {start : Bool}

theorem Reads.cons {place₁ : Place} {ts₁ : List Token} (hnext : next place c = (place₁, ts₁))
    (h : Reads place₁ s place' ts) : Reads place (c :: s) place' (ts₁ ++ ts) := by
  rw [Reads, scan, hnext, h]

/-- **One text behind another.** -/
theorem Reads.append (h : Reads place s place' ts) (h' : Reads place' s' place'' ts') :
    Reads place (s ++ s') place'' (ts ++ ts') := by
  induction s generalizing place ts with
  | nil =>
      obtain ⟨rfl, rfl⟩ := Prod.mk.inj h
      exact h'
  | cons c s ih =>
      obtain ⟨rfl, rfl⟩ := Prod.mk.inj h
      rw [List.append_assoc]
      exact .cons rfl (ih rfl)

theorem tokens_of_reads (h : Reads (.space true) s (.space start) ts) : tokens s = ts := by
  rw [tokens, h]
  exact List.append_nil ts

theorem le_toNat_of_wordChar (h : wordChar c = true) : 48 ≤ c.toNat := by
  rw [wordChar, Bool.or_eq_true, decide_eq_true_eq] at h
  rcases h with h | rfl
  · by_contra hlt
    have hnone : charValue c = none := by
      rw [charValue, if_neg (by omega), if_neg (by omega), if_neg (by omega)]
    rw [hnone] at h
    cases h
  · decide

/-- A character of a word is no white space. -/
theorem isspace_of_wordChar (h : wordChar c = true) : isspace c = false := by
  have hle := le_toNat_of_wordChar h
  rw [Bool.eq_false_iff]
  intro hspace
  rw [isspace, Bool.or_eq_true, Bool.and_eq_true, decide_eq_true_eq, decide_eq_true_eq,
    decide_eq_true_eq] at hspace
  rcases hspace with rfl | hspace
  · exact absurd hle (by decide)
  · omega

/-- A word is kept together. -/
theorem reads_word (h : ∀ c ∈ text, wordChar c = true) :
    Reads (.word w) text (.word (w ++ text)) [] := by
  induction text generalizing w with
  | nil => rw [List.append_nil]; rfl
  | cons c text ih =>
      have hnext : next (.word w) c = (.word (w ++ [c]), []) := by
        rw [next, if_pos (h c List.mem_cons_self)]
      have hrest := ih (w := w ++ [c]) fun c hc => h c (List.mem_cons_of_mem _ hc)
      rw [List.append_assoc] at hrest
      exact .cons hnext hrest

/-- A word starts between two tokens. -/
theorem reads_first_word (hc : wordChar c = true) (h : ∀ c ∈ text, wordChar c = true) :
    Reads (.space start) (c :: text) (.word (c :: text)) [] := by
  have hspace := isspace_of_wordChar hc
  have hline : c ≠ '\n' := by
    rintro rfl
    cases hspace
  have hnext : next (.space start) c = (.word [c], []) := by
    rw [next, first, if_neg hline, hspace, if_neg Bool.false_ne_true, if_pos hc]
  exact .cons hnext (reads_word h)

/-! ## Reading a list -/

/-- The tokens of a list of literals. -/
def listTokens (ws : List (List Char)) : List Token :=
  (ws.map Token.word).intersperse (.mark ',')

/-- **A list is read** up to its brace. -/
theorem readValues_list {ws : List (List Char)} {vs : List ℕ}
    (h : List.Forall₂ (fun w v => literal w = some v) ws vs) (rest : List Token) :
    readValues (listTokens ws ++ .mark '}' :: rest) = some (vs, rest) := by
  induction h with
  | nil => rfl
  | @cons w v ws vs hw hws ih =>
      cases ws with
      | nil =>
          cases hws
          change readValues (.word w :: .mark '}' :: rest) = _
          simp [readValues, hw]
      | cons w' ws =>
          change readValues (.word w :: .mark ',' :: (listTokens (w' :: ws) ++ _)) = _
          simp [readValues, hw, ih]

/-- The tokens of a declaration. -/
def declarationTokens (type name : List Char) (ws : List (List Char)) : List Token :=
  .word "const".toList :: .word type :: .word name :: .mark '=' :: .mark '{' ::
    (listTokens ws ++ [.mark '}', .mark ';'])

theorem readDeclaration_list {ws : List (List Char)} {vs : List ℕ} (type name : List Char)
    (h : List.Forall₂ (fun w v => literal w = some v) ws vs) (rest : List Token) :
    readDeclaration (declarationTokens type name ws ++ rest) = some (⟨type, name, vs⟩, rest) := by
  have hvalues := readValues_list h (.mark ';' :: rest)
  simp only [declarationTokens, List.cons_append, List.append_assoc, List.nil_append,
    readDeclaration, and_self, if_true, hvalues]

/-- A declaration starts with a word. -/
theorem readDeclarations_succ {n : ℕ} {declaration : Declaration}
    (h : readDeclaration ts = some (declaration, rest)) :
    readDeclarations (n + 1) ts
      = (readDeclarations n rest).map fun r => (declaration :: r.1, r.2) := by
  cases ts with
  | nil => cases h
  | cons t ts =>
      cases t with
      | mark c => cases h
      | word w =>
          rw [readDeclarations, h, Option.bind_some]
          rintro _ _ ⟨⟩

/-- **Declarations are read** one after the other. -/
theorem readDeclarations_list {declarations : List Declaration} {tss : List (List Token)}
    (h : List.Forall₂ (fun d ts => ∀ rest, readDeclaration (ts ++ rest) = some (d, rest))
      declarations tss) {n : ℕ} (hn : declarations.length ≤ n) :
    readDeclarations n (tss.flatten ++ [.mark '}']) = some (declarations, []) := by
  induction h generalizing n with
  | nil =>
      cases n <;> rfl
  | @cons d ts declarations tss hd hrest ih =>
      cases n with
      | zero => simp at hn
      | succ n =>
          rw [List.flatten_cons, List.append_assoc, readDeclarations_succ (hd _),
            ih (Nat.le_of_succ_le_succ hn)]
          rfl

end SourceText
