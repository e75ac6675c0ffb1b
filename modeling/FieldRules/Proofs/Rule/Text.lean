import FieldRules.Proofs.Rule.Phrase
import FieldRules.Proofs.Token.Comparison

/-!
The text of a rule in pieces. A plain rule has a text without parentheses, which is cut into the
lexemes of its comparisons and connectives; in any other text cutting stops at the first parenthesis.
-/

namespace FieldRules.Rule

open Text
open String (utf8Len)

def IsWritable (rule : Rule) : Prop :=
  ∀ comparison ∈ rule.comparisons, comparison.IsWritable

theorem isWritable_join_iff {connective : Connective} {left right : Rule} :
    (join connective left right).IsWritable ↔ left.IsWritable ∧ right.IsWritable := by
  simp only [IsWritable, comparisons_join, List.mem_append, or_imp, forall_and]

inductive Piece where
  | comparison (comparison : Comparison)
  | connective (connective : Connective)
  | opening
  | closing
  deriving DecidableEq

def Piece.text : Piece → List Char
  | .comparison own => own.text.toList
  | .connective own => ' ' :: (own.keyword.toList ++ [' '])
  | .opening => ['(']
  | .closing => [')']

def pieces : Rule → List Piece
  | test comparison => [.comparison comparison]
  | join connective left right =>
      inGroup (left.grouped connective false) left.pieces ++
        .connective connective :: inGroup (right.grouped connective true) right.pieces
where
  inGroup (inParentheses : Bool) (pieces : List Piece) : List Piece :=
    if inParentheses then .opening :: (pieces ++ [.closing]) else pieces

def beforeOpening (pieces : List Piece) : List Char :=
  (pieces.takeWhile (· != .opening)).flatMap Piece.text

theorem beforeOpening_append {earlier : List Piece} (later : List Piece)
    (plain : .opening ∉ earlier) :
    beforeOpening (earlier ++ later) = earlier.flatMap Piece.text ++ beforeOpening later := by
  have passed : ∀ piece ∈ earlier, (piece != .opening) = true := by
    intro piece member
    simp only [bne_iff_ne, ne_eq]
    rintro rfl
    exact plain member
  rw [beforeOpening, List.takeWhile_append_of_pos passed, List.flatMap_append]
  rfl

theorem beforeOpening_opening (later : List Piece) : beforeOpening (.opening :: later) = [] := rfl

theorem beforeOpening_append_of_mem {earlier : List Piece} (later : List Piece)
    (grouped : .opening ∈ earlier) : beforeOpening (earlier ++ later) = beforeOpening earlier := by
  obtain ⟨start, rest, rfl, plain⟩ := List.eq_append_cons_of_mem grouped
  rw [List.append_assoc, List.cons_append, beforeOpening_append _ plain,
    beforeOpening_append _ plain, beforeOpening_opening, beforeOpening_opening]

theorem group_toList (inParentheses : Bool) (rule : Rule)
    (same : rule.text.toList = rule.pieces.flatMap Piece.text) :
    (text.group inParentheses rule.text).toList =
      (pieces.inGroup inParentheses rule.pieces).flatMap Piece.text := by
  cases inParentheses with
  | false => exact same
  | true => simp [text.group, pieces.inGroup, Piece.text, same]

theorem text_join_toList (connective : Connective) (left right : Rule) :
    (join connective left right).text.toList =
      (text.group (left.grouped connective false) left.text).toList ++ ' ' ::
        (connective.keyword.toList ++ ' ' ::
          (text.group (right.grouped connective true) right.text).toList) := by
  simp [text]

theorem text_toList (rule : Rule) : rule.text.toList = rule.pieces.flatMap Piece.text := by
  induction rule with
  | test comparison => simp [text, pieces, Piece.text]
  | join connective left right leftText rightText =>
      rw [text_join_toList, group_toList _ left leftText, group_toList _ right rightText, pieces]
      simp [Piece.text]

theorem opening_mem_inGroup_iff (inParentheses : Bool) (inner : List Piece) :
    .opening ∈ pieces.inGroup inParentheses inner ↔ inParentheses = true ∨ .opening ∈ inner := by
  cases inParentheses <;> simp [pieces.inGroup]

theorem isPlain_iff_pieces {rule : Rule} : rule.IsPlain ↔ .opening ∉ rule.pieces := by
  induction rule with
  | test comparison => simp [IsPlain, pieces]
  | join connective left right leftPlain rightPlain =>
      rw [isPlain_join_iff, leftPlain, rightPlain, pieces, List.mem_append, List.mem_cons,
        opening_mem_inGroup_iff, opening_mem_inGroup_iff]
      simp only [not_or, Bool.not_eq_true]
      constructor
      · rintro ⟨leftNone, rightNone, leftUngrouped, rightUngrouped⟩
        exact ⟨⟨leftUngrouped, leftNone⟩, by simp, rightUngrouped, rightNone⟩
      · rintro ⟨⟨leftUngrouped, leftNone⟩, _, rightUngrouped, rightNone⟩
        exact ⟨leftNone, rightNone, leftUngrouped, rightUngrouped⟩

def lexemes : Rule → List Lexeme
  | test comparison => comparison.lexemes
  | join connective left right =>
      left.lexemes ++ .word connective.keyword.toList :: right.lexemes

theorem wellFormed_keyword (connective : Connective) :
    (Lexeme.word connective.keyword.toList).WellFormed := by
  have nonempty : connective.keyword.toList ≠ [] := by cases connective <;> decide
  have inside : connective.keyword.toList.all Lexeme.isWordChar = true := by
    cases connective <;> decide +kernel
  exact ⟨nonempty, List.all_eq_true.mp inside⟩

theorem cutsTo_text {rule : Rule} (plain : rule.IsPlain) (writable : rule.IsWritable) :
    Lexeme.CutsTo rule.text.toList rule.lexemes := by
  induction rule with
  | test comparison => exact Comparison.cutsTo_text (writable comparison (by simp))
  | join connective left right leftCuts rightCuts =>
      obtain ⟨leftPlain, rightPlain, leftUngrouped, rightUngrouped⟩ := isPlain_join_iff.mp plain
      obtain ⟨leftWritable, rightWritable⟩ := isWritable_join_iff.mp writable
      rw [text_join_toList, leftUngrouped, rightUngrouped]
      exact (leftCuts leftPlain leftWritable).append
        ((Lexeme.cutsTo_spelling (wellFormed_keyword connective)).append
          (rightCuts rightPlain rightWritable))

theorem ofLexemes_lexemes {rule : Rule} (writable : rule.IsWritable) (rest : List Lexeme) :
    TokenKind.ofLexemes false (rule.lexemes ++ rest) =
      rule.kinds ++ TokenKind.ofLexemes false rest := by
  induction rule generalizing rest with
  | test comparison => exact Comparison.ofLexemes_lexemes (writable comparison (by simp)) rest
  | join connective left right leftMeaning rightMeaning =>
      obtain ⟨leftWritable, rightWritable⟩ := isWritable_join_iff.mp writable
      have keyword : TokenKind.ofLexeme false (.word connective.keyword.toList) =
          .connective connective := TokenKind.ofWord_keyword false connective
      have noSymbols : (Lexeme.word connective.keyword.toList).isSymbols = false := rfl
      rw [lexemes, List.append_assoc, leftMeaning leftWritable, List.cons_append,
        TokenKind.ofLexemes, keyword, noSymbols, rightMeaning rightWritable, kinds,
        List.append_assoc, List.cons_append]

theorem stopsAt_opening (text : List Char) :
    Lexeme.StopsAt ('(' :: text) (.unrecognizedCharacter '(') 0 := by
  apply Lexeme.stopsAt_cons text <;> decide +kernel

theorem stopsAt_group {rule : Rule} {inParentheses : Bool}
    (grouped : rule.IsPlain → inParentheses = true)
    (stops : ¬rule.IsPlain → Lexeme.StopsAt rule.text.toList (.unrecognizedCharacter '(')
      (utf8Len (beforeOpening rule.pieces))) :
    Lexeme.StopsAt (text.group inParentheses rule.text).toList (.unrecognizedCharacter '(')
      (utf8Len (beforeOpening (pieces.inGroup inParentheses rule.pieces))) := by
  cases inParentheses with
  | true =>
      have shape : (text.group true rule.text).toList = '(' :: (rule.text.toList ++ [')']) := by
        simp [text.group]
      rw [shape]
      exact stopsAt_opening _
  | false => exact stops fun plain => Bool.false_ne_true (grouped plain)

theorem opening_mem_pieces {rule : Rule} (notPlain : ¬rule.IsPlain) : .opening ∈ rule.pieces :=
  Classical.not_not.mp fun none => notPlain (isPlain_iff_pieces.mpr none)

theorem opening_mem_of_group {rule : Rule} {inParentheses : Bool}
    (grouped : rule.IsPlain → inParentheses = true) :
    .opening ∈ pieces.inGroup inParentheses rule.pieces := by
  rw [opening_mem_inGroup_iff]
  by_cases plain : rule.IsPlain
  · exact Or.inl (grouped plain)
  · exact Or.inr (opening_mem_pieces plain)

theorem utf8Len_beforeOpening_of_isPlain {left : Rule} (plain : left.IsPlain)
    (connective : Connective) (later : List Piece) :
    utf8Len (beforeOpening (left.pieces ++ .connective connective :: later)) =
      utf8Len (left.text.toList ++ ' ' :: connective.keyword.toList) +
        (1 + utf8Len (beforeOpening later)) := by
  have keyword : beforeOpening (.connective connective :: later) =
      ' ' :: (connective.keyword.toList ++ ' ' :: beforeOpening later) := by
    simp [beforeOpening, Piece.text]
  rw [beforeOpening_append _ (isPlain_iff_pieces.mp plain), ← text_toList, keyword]
  simp only [String.utf8Len_append, String.utf8Len_cons, utf8Size_blank]
  omega

theorem stopsAt_text {rule : Rule} (writable : rule.IsWritable) (notPlain : ¬rule.IsPlain) :
    Lexeme.StopsAt rule.text.toList (.unrecognizedCharacter '(')
      (utf8Len (beforeOpening rule.pieces)) := by
  induction rule with
  | test comparison => exact absurd trivial notPlain
  | join connective left right leftStops rightStops =>
      obtain ⟨leftWritable, rightWritable⟩ := isWritable_join_iff.mp writable
      rw [text_join_toList, pieces]
      by_cases leftGrouped : left.IsPlain → left.grouped connective false = true
      · rw [beforeOpening_append_of_mem _ (opening_mem_of_group leftGrouped)]
        exact (stopsAt_group leftGrouped (leftStops leftWritable)).append _
      · -- The left operand is cut whole, and cutting stops in the right one.
        simp only [Classical.not_imp, Bool.not_eq_true] at leftGrouped
        obtain ⟨leftPlain, leftUngrouped⟩ := leftGrouped
        have rightGrouped : right.IsPlain → right.grouped connective true = true := by
          intro rightPlain
          cases grouped : right.grouped connective true with
          | true => rfl
          | false =>
              exact absurd (isPlain_join_iff.mpr ⟨leftPlain, rightPlain, leftUngrouped, grouped⟩)
                notPlain
        have stops := ((cutsTo_text leftPlain leftWritable).append
          (Lexeme.cutsTo_spelling (wellFormed_keyword connective))).stopsAt
            (stopsAt_group rightGrouped (rightStops rightWritable))
        have shape (more : List Char) : (text.group false left.text).toList ++ ' ' ::
            (connective.keyword.toList ++ ' ' :: more) =
              (left.text.toList ++ ' ' :: connective.keyword.toList) ++ ' ' :: more := by
          simp [text.group]
        have ungrouped : pieces.inGroup false left.pieces = left.pieces := rfl
        rw [leftUngrouped, shape, ungrouped, utf8Len_beforeOpening_of_isPlain leftPlain]
        exact stops

end FieldRules.Rule
