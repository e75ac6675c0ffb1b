import FieldRules.Proofs.Numeral
import FieldRules.Scalar
import FieldRules.Token
import Mathlib.Data.List.TakeWhile
import Mathlib.Data.String.Basic

/-!
Cutting a text that is spelled out of lexemes. No character is in two of the classes that a text is cut
by, a lexeme is cut off the head of a text if what follows does not go on with it, and blanks before it
only move it.
-/

namespace FieldRules

namespace Text

def codesBetween : List Nat → List Nat
  | low :: high :: later => List.range' low (high - low) ++ codesBetween later
  | _ => []

theorem mem_codesBetween {code : Nat} {changes : List Nat} (bounded : changes.length % 2 = 0)
    (inside : insideAfter code changes false = true) : code ∈ codesBetween changes := by
  fun_induction codesBetween changes with
  | case1 low high later ih =>
      have laterBounded : later.length % 2 = 0 := by
        simp only [List.length_cons] at bounded
        omega
      rw [List.mem_append, List.mem_range'_1]
      rcases Nat.lt_or_ge code low with below | aboveLow
      · rw [insideAfter_cons_of_lt below] at inside
        exact absurd inside (by decide)
      · rw [insideAfter_cons_of_le aboveLow] at inside
        rcases Nat.lt_or_ge code high with belowHigh | aboveHigh
        · exact Or.inl ⟨aboveLow, by omega⟩
        · rw [insideAfter_cons_of_le aboveHigh] at inside
          exact Or.inr (ih laterBounded inside)
  | case2 changes single =>
      cases changes with
      | nil => exact absurd inside Bool.false_ne_true
      | cons low later =>
          cases later with
          | nil => exact absurd bounded (by simp)
          | cons high later => exact absurd rfl (single low high later)

theorem eq_false_of_isBlank (p : Char → Bool)
    (none : ∀ code ∈ codesBetween blank.changes, p (Char.ofNat code) = false) {c : Char}
    (isBlank : isBlank c = true) : p c = false := by
  have found := none c.toNat (mem_codesBetween (by decide) isBlank)
  rwa [Char.ofNat_toNat] at found

theorem allBlank_takeWhile (text : List Char) : allBlank (text.takeWhile isBlank) = true :=
  List.all_eq_true.mpr fun _ => List.mem_takeWhile_imp

theorem utf8Size_blank : (' ').utf8Size = 1 := by decide

end Text

namespace Lexeme

open Text
open String (utf8Len)
open Scalar (escapeQuoted)

theorem isWordChar_of_isBlank {c : Char} (blank : isBlank c = true) : isWordChar c = false :=
  eq_false_of_isBlank isWordChar (by decide +kernel) blank

theorem isSymbol_of_isBlank {c : Char} (blank : isBlank c = true) : isSymbol c = false :=
  eq_false_of_isBlank isSymbol (by decide +kernel) blank

theorem isQuote_of_isBlank {c : Char} (blank : isBlank c = true) : isQuote c = false :=
  eq_false_of_isBlank isQuote (by decide +kernel) blank

theorem isWordChar_of_isQuote {c : Char} (quote : isQuote c = true) : isWordChar c = false := by
  simp only [isQuote, Bool.or_eq_true, beq_iff_eq] at quote
  rcases quote with rfl | rfl <;> decide +kernel

theorem isSymbol_of_isQuote {c : Char} (quote : isQuote c = true) : isSymbol c = false := by
  simp only [isQuote, Bool.or_eq_true, beq_iff_eq] at quote
  rcases quote with rfl | rfl <;> decide

theorem isWordChar_of_isSymbol {c : Char} (symbol : isSymbol c = true) : isWordChar c = false := by
  simp only [isSymbol, Bool.or_eq_true, beq_iff_eq] at symbol
  rcases symbol with ((rfl | rfl) | rfl) | rfl <;> decide +kernel

def WellFormed : Lexeme → Prop
  | quoted mark body => isQuote mark = true ∧ quotedBody? mark (body ++ [mark]) = some (body, [])
  | symbols run => run ≠ [] ∧ ∀ c ∈ run, isSymbol c = true
  | word run => run ≠ [] ∧ ∀ c ∈ run, isWordChar c = true

def EndsBefore (rest : List Char) : Lexeme → Prop
  | quoted _ _ => True
  | symbols _ => ∀ c ∈ rest.head?, isSymbol c = false
  | word _ => ∀ c ∈ rest.head?, isWordChar c = false

def EndsRuns (rest : List Char) : Prop :=
  ∀ c ∈ rest.head?, isSymbol c = false ∧ isWordChar c = false

theorem endsRuns_nil : EndsRuns [] := nofun

theorem EndsRuns.endsBefore {rest : List Char} (ends : EndsRuns rest) (lexeme : Lexeme) :
    lexeme.EndsBefore rest := by
  cases lexeme with
  | quoted mark body => trivial
  | symbols run =>
      intro c head
      exact (ends c head).1
  | word run =>
      intro c head
      exact (ends c head).2

theorem endsRuns_of_isBlank {rest : List Char} (blank : ∀ c ∈ rest.head?, isBlank c = true) :
    EndsRuns rest := by
  intro c head
  exact ⟨isSymbol_of_isBlank (blank c head), isWordChar_of_isBlank (blank c head)⟩

theorem eq_false_of_apart {here other : Bool} (apart : other = true → here = false)
    (inside : here = true) : other = false := by
  cases other with
  | false => rfl
  | true => exact absurd (apart rfl) (by simp [inside])

theorem quotedBody?_cons {mark c : Char} (rest : List Char) (plain : c ≠ '\\') :
    quotedBody? mark (c :: rest) =
      if c = mark then some ([], rest)
      else (quotedBody? mark rest).map fun (body, after) => (c :: body, after) := by
  rw [quotedBody?]
  intro d later escape
  exact absurd escape plain

theorem ne_backslash_of_isQuote {mark : Char} (quote : isQuote mark = true) : mark ≠ '\\' := by
  rintro rfl
  exact absurd quote (by decide)

theorem quotedBody?_append {mark : Char} (quote : isQuote mark = true)
    {text body after : List Char} (found : quotedBody? mark text = some (body, after))
    (rest : List Char) : quotedBody? mark (text ++ rest) = some (body, after ++ rest) := by
  fun_induction quotedBody? mark text generalizing body after with
  | case1 => simp at found
  | case2 c text ih =>
      obtain ⟨⟨innerBody, innerAfter⟩, inner, same⟩ := Option.map_eq_some_iff.mp found
      obtain ⟨rfl, rfl⟩ := Prod.mk.inj same
      rw [List.cons_append, List.cons_append, quotedBody?, ih inner]
      rfl
  | case3 text notEscape =>
      simp only [Option.some.injEq, Prod.mk.injEq] at found
      obtain ⟨rfl, rfl⟩ := found
      rw [List.cons_append, quotedBody?_cons _ (ne_backslash_of_isQuote quote), if_pos rfl]
  | case4 c text notEscape notMark ih =>
      obtain ⟨⟨innerBody, innerAfter⟩, inner, same⟩ := Option.map_eq_some_iff.mp found
      obtain ⟨rfl, rfl⟩ := Prod.mk.inj same
      -- A backslash at the very end would leave the text open.
      have plain : c ≠ '\\' := by
        rintro rfl
        cases text with
        | nil => simp [quotedBody?] at inner
        | cons d text => exact notEscape d text rfl rfl
      rw [List.cons_append, quotedBody?_cons _ plain, if_neg notMark, ih inner]
      rfl

theorem first_spelling {lexeme : Lexeme} {rest : List Char} (wellFormed : lexeme.WellFormed)
    (ends : lexeme.EndsBefore rest) : ∃ c more, lexeme.spelling = c :: more ∧
      isBlank c = false ∧ first c (more ++ rest) = .ok (lexeme, rest) := by
  cases lexeme with
  | quoted mark body =>
      obtain ⟨quote, closed⟩ := wellFormed
      refine ⟨mark, body ++ [mark], rfl, eq_false_of_apart isQuote_of_isBlank quote, ?_⟩
      rw [first, if_pos quote, quotedBody?_append quote closed]
      rfl
  | symbols run =>
      obtain ⟨nonempty, inside⟩ := wellFormed
      obtain ⟨c, more, rfl⟩ := List.exists_cons_of_ne_nil nonempty
      have symbol : isSymbol c = true := inside c List.mem_cons_self
      have later := fun d member => inside d (List.mem_cons_of_mem c member)
      refine ⟨c, more, rfl, eq_false_of_apart isSymbol_of_isBlank symbol, ?_⟩
      rw [first, if_neg (by simp [eq_false_of_apart isSymbol_of_isQuote symbol]), if_pos symbol,
        takeWhile_run later ends, dropWhile_run later ends]
  | word run =>
      obtain ⟨nonempty, inside⟩ := wellFormed
      obtain ⟨c, more, rfl⟩ := List.exists_cons_of_ne_nil nonempty
      have word : isWordChar c = true := inside c List.mem_cons_self
      have later := fun d member => inside d (List.mem_cons_of_mem c member)
      refine ⟨c, more, rfl, eq_false_of_apart isWordChar_of_isBlank word, ?_⟩
      rw [first, if_neg (by simp [eq_false_of_apart isWordChar_of_isQuote word]),
        if_neg (by simp [eq_false_of_apart isWordChar_of_isSymbol word]), if_pos word,
        takeWhile_run later ends, dropWhile_run later ends]

/-- Two texts that start with a whole lexeme each are the same only if the lexemes are, and what follows. -/
theorem spelling_append_inj {first second : Lexeme} {rest rest' : List Char}
    (firstFormed : first.WellFormed) (firstEnds : first.EndsBefore rest)
    (secondFormed : second.WellFormed) (secondEnds : second.EndsBefore rest')
    (same : first.spelling ++ rest = second.spelling ++ rest') : first = second ∧ rest = rest' := by
  obtain ⟨c, more, spelled, _, found⟩ := first_spelling firstFormed firstEnds
  obtain ⟨d, more', spelled', _, found'⟩ := first_spelling secondFormed secondEnds
  rw [spelled, spelled', List.cons_append, List.cons_append] at same
  obtain ⟨rfl, sameMore⟩ := List.cons.inj same
  rw [sameMore, found'] at found
  obtain ⟨rfl, rfl⟩ := Prod.mk.inj (Except.ok.inj found)
  exact ⟨rfl, rfl⟩

theorem cutFrom_of_trimStart_nil {position : Nat} {text : List Char}
    (trimmed : trimStart text = []) : cutFrom position text = .ok [] := by
  rw [cutFrom]
  split
  · rfl
  · simp_all

theorem cutFrom_of_trimStart_cons {position : Nat} {c : Char} {text rest : List Char}
    (trimmed : trimStart text = c :: rest) :
    cutFrom position text =
      match first c rest with
      | .error fault => .error ⟨fault, position + utf8Len (text.takeWhile isBlank)⟩
      | .ok (lexeme, after) =>
          (cutFrom (position + utf8Len (text.takeWhile isBlank) + utf8Len lexeme.spelling) after).map
            (⟨lexeme, position + utf8Len (text.takeWhile isBlank)⟩ :: ·) := by
  rw [cutFrom]
  split
  · simp_all
  · rename_i d later same
    obtain ⟨rfl, rfl⟩ := List.cons.inj (same.symm.trans trimmed)
    split <;> simp_all [String.utf8ByteSize_ofList]

theorem cutFrom_nil (position : Nat) : cutFrom position [] = .ok [] :=
  cutFrom_of_trimStart_nil rfl

theorem cutFrom_blank (position : Nat) {c : Char} (rest : List Char) (blank : isBlank c = true) :
    cutFrom position (c :: rest) = cutFrom (position + c.utf8Size) rest := by
  have trimmed : trimStart (c :: rest) = trimStart rest := List.dropWhile_cons_of_pos blank
  have taken : (c :: rest).takeWhile isBlank = c :: rest.takeWhile isBlank :=
    List.takeWhile_cons_of_pos blank
  cases later : trimStart rest with
  | nil => rw [cutFrom_of_trimStart_nil later, cutFrom_of_trimStart_nil (trimmed.trans later)]
  | cons d more =>
      rw [cutFrom_of_trimStart_cons later, cutFrom_of_trimStart_cons (trimmed.trans later), taken,
        String.utf8Len_cons, Nat.add_comm _ c.utf8Size, Nat.add_assoc position]

theorem cutFrom_cons {position : Nat} {c : Char} {rest : List Char} (visible : isBlank c = false) :
    cutFrom position (c :: rest) =
      match first c rest with
      | .error fault => .error ⟨fault, position⟩
      | .ok (lexeme, after) =>
          (cutFrom (position + utf8Len lexeme.spelling) after).map (⟨lexeme, position⟩ :: ·) := by
  have trimmed : trimStart (c :: rest) = c :: rest :=
    List.dropWhile_cons_of_neg (by simp [visible])
  have taken : (c :: rest).takeWhile isBlank = [] :=
    List.takeWhile_cons_of_neg (by simp [visible])
  rw [cutFrom_of_trimStart_cons trimmed, taken]
  rfl

theorem cutFrom_spelling {lexeme : Lexeme} {rest : List Char} (position : Nat)
    (wellFormed : lexeme.WellFormed) (ends : lexeme.EndsBefore rest) :
    cutFrom position (lexeme.spelling ++ rest) =
      (cutFrom (position + utf8Len lexeme.spelling) rest).map (⟨lexeme, position⟩ :: ·) := by
  obtain ⟨c, more, spelled, visible, found⟩ := first_spelling wellFormed ends
  rw [spelled, List.cons_append, cutFrom_cons visible, found, ← spelled]

/-- The text is cut into the lexemes, wherever it stands, if nothing or a blank follows it. -/
def CutsTo (text : List Char) (lexemes : List Lexeme) : Prop :=
  ∀ position, ∃ placed : List PlacedLexeme, placed.map PlacedLexeme.lexeme = lexemes ∧
    ∀ rest, (∀ c ∈ rest.head?, isBlank c = true) →
      cutFrom position (text ++ rest) = (cutFrom (position + utf8Len text) rest).map (placed ++ ·)

def StopsAt (text : List Char) (fault : LexFault) (offset : Nat) : Prop :=
  ∀ position rest, cutFrom position (text ++ rest) = .error ⟨fault, position + offset⟩

theorem cutsTo_spelling {lexeme : Lexeme} (wellFormed : lexeme.WellFormed) :
    CutsTo lexeme.spelling [lexeme] := by
  intro position
  refine ⟨[⟨lexeme, position⟩], rfl, ?_⟩
  intro rest blank
  exact cutFrom_spelling position wellFormed ((endsRuns_of_isBlank blank).endsBefore lexeme)

theorem CutsTo.before_blank {text : List Char} {lexemes : List Lexeme} (cuts : CutsTo text lexemes)
    (position : Nat) : ∃ placed : List PlacedLexeme, placed.map PlacedLexeme.lexeme = lexemes ∧
      ∀ rest, cutFrom position (text ++ ' ' :: rest) =
        (cutFrom (position + utf8Len text + 1) rest).map (placed ++ ·) := by
  obtain ⟨placed, same, read⟩ := cuts position
  refine ⟨placed, same, ?_⟩
  intro rest
  rw [read _ (by simp; decide), cutFrom_blank _ _ (by decide), utf8Size_blank]

theorem CutsTo.append {first second : List Char} {earlier later : List Lexeme}
    (firstCuts : CutsTo first earlier) (secondCuts : CutsTo second later) :
    CutsTo (first ++ ' ' :: second) (earlier ++ later) := by
  intro position
  obtain ⟨placed, same, read⟩ := firstCuts.before_blank position
  obtain ⟨laterPlaced, laterSame, laterRead⟩ := secondCuts (position + utf8Len first + 1)
  refine ⟨placed ++ laterPlaced, by rw [List.map_append, same, laterSame], ?_⟩
  intro rest blank
  have place : position + utf8Len first + 1 + utf8Len second =
      position + utf8Len (first ++ ' ' :: second) := by
    rw [String.utf8Len_append, String.utf8Len_cons, utf8Size_blank]
    omega
  rw [List.append_assoc, List.cons_append, read, laterRead rest blank, place]
  cases cutFrom (position + utf8Len (first ++ ' ' :: second)) rest with
  | error fault => rfl
  | ok others => simp [Except.map]

theorem StopsAt.append {text : List Char} {fault : LexFault} {offset : Nat}
    (stops : StopsAt text fault offset) (more : List Char) : StopsAt (text ++ more) fault offset := by
  intro position rest
  rw [List.append_assoc]
  exact stops position (more ++ rest)

theorem CutsTo.stopsAt {first second : List Char} {lexemes : List Lexeme} {fault : LexFault}
    {offset : Nat} (cuts : CutsTo first lexemes) (stops : StopsAt second fault offset) :
    StopsAt (first ++ ' ' :: second) fault (utf8Len first + (1 + offset)) := by
  intro position rest
  obtain ⟨placed, _, read⟩ := cuts.before_blank position
  rw [List.append_assoc, List.cons_append, read, stops]
  simp [Except.map, Nat.add_assoc]

theorem stopsAt_cons {c : Char} (text : List Char) (notBlank : isBlank c = false)
    (notQuote : isQuote c = false) (notSymbol : isSymbol c = false)
    (notWord : isWordChar c = false) :
    StopsAt (c :: text) (.unrecognizedCharacter c) 0 := by
  intro position rest
  have found : first c (text ++ rest) = .error (.unrecognizedCharacter c) := by
    simp [first, notQuote, notSymbol, notWord]
  rw [List.cons_append, cutFrom_cons notBlank, found]
  rfl

theorem quotedBody?_escapeQuoted (text rest : List Char) :
    quotedBody? '\'' (escapeQuoted text ++ '\'' :: rest) = some (escapeQuoted text, rest) := by
  induction text with
  | nil =>
      rw [escapeQuoted, List.nil_append, quotedBody?_cons _ (by decide), if_pos rfl]
  | cons c text ih =>
      by_cases escaped : c = '\'' ∨ c = '\\'
      · rw [escapeQuoted, if_pos escaped, List.cons_append, List.cons_append, quotedBody?, ih]
        rfl
      · have plain : c ≠ '\\' := fun same => escaped (Or.inr same)
        have notMark : c ≠ '\'' := fun same => escaped (Or.inl same)
        rw [escapeQuoted, if_neg escaped, List.cons_append, quotedBody?_cons _ plain,
          if_neg notMark, ih]
        rfl

theorem unescape_escape {c : Char} (text : List Char) (escaped : c = '\'' ∨ c = '\\') :
    unescape ('\\' :: c :: text) = c :: unescape text := by
  rcases escaped with rfl | rfl <;> simp [unescape, isQuote]

theorem unescape_cons {c : Char} (text : List Char) (plain : c ≠ '\\') :
    unescape (c :: text) = c :: unescape text := by
  rw [unescape]
  intro d later escape
  exact absurd escape plain

theorem unescape_escapeQuoted (text : List Char) : unescape (escapeQuoted text) = text := by
  induction text with
  | nil => rfl
  | cons c text ih =>
      by_cases escaped : c = '\'' ∨ c = '\\'
      · rw [escapeQuoted, if_pos escaped, unescape_escape _ escaped, ih]
      · have plain : c ≠ '\\' := fun same => escaped (Or.inr same)
        rw [escapeQuoted, if_neg escaped, unescape_cons _ plain, ih]

theorem wellFormed_quoted (text : List Char) : (quoted '\'' (escapeQuoted text)).WellFormed :=
  ⟨by decide, quotedBody?_escapeQuoted text []⟩

end Lexeme

end FieldRules
