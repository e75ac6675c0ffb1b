import FieldRules.Proofs.Rule.Grammar
import FieldRules.Proofs.Rule.Text
import Mathlib.Data.List.Chain

/-!
No two rules have the same text, if their fields have names and their floats are finite. The text is
cut into the pieces of the rule in one way only, whatever quoted texts imitate, and the rule is put
together again from them: reading goes once through the pieces and keeps, for each open parenthesis,
what is joined so far, with "and" closer than "or".
-/

namespace FieldRules

open Text

namespace Rule

/-- What stands between a parenthesis, or the start, and the place of reading: the rule in front of the
last "or", and the rule that is joined by "and" since. -/
structure Pending where
  alternatives : Option Rule
  group : Option Rule

namespace Pending

def empty : Pending := ⟨none, none⟩

def joinOnto (connective : Connective) : Option Rule → Rule → Rule
  | none, rule => rule
  | some left, rule => join connective left rule

def add (pending : Pending) (operand : Rule) : Pending :=
  ⟨pending.alternatives, some (joinOnto .and pending.group operand)⟩

def rule? (pending : Pending) : Option Rule :=
  pending.group.map (joinOnto .or pending.alternatives)

end Pending

/-- The rule of a text of which these pieces are left to read: `pending` is read since the innermost open
parenthesis, and `outer` before it and before the ones around it. Operands without a connective between
them are taken as if "and" stood there. -/
def ofPiecesAfter? (pending : Pending) (outer : List Pending) : List Piece → Option Rule
  | [] => if outer.isEmpty then pending.rule? else none
  | .comparison comparison :: rest => ofPiecesAfter? (pending.add (test comparison)) outer rest
  | .connective .and :: rest => ofPiecesAfter? pending outer rest
  | .connective .or :: rest => ofPiecesAfter? ⟨pending.rule?, none⟩ outer rest
  | .opening :: rest => ofPiecesAfter? .empty (pending :: outer) rest
  | .closing :: rest =>
      match pending.rule?, outer with
      | some operand, before :: outer => ofPiecesAfter? (before.add operand) outer rest
      | _, _ => none

def ofPieces? (pieces : List Piece) : Option Rule :=
  ofPiecesAfter? .empty [] pieces

def IsReadAfter (pending : Pending) (inParentheses : Bool) (rule : Rule) : Prop :=
  ∀ outer rest, ofPiecesAfter? pending outer (pieces.inGroup inParentheses rule.pieces ++ rest) =
    ofPiecesAfter? (pending.add rule) outer rest

/-- How the pieces of a rule are read where no group is pending: after nothing they leave the rule
pending, and after alternatives they are one operand unless the rule is an "or" itself. -/
structure IsRead (rule : Rule) : Prop where
  whole : ∀ outer rest, ∃ pending : Pending, pending.rule? = some rule ∧
    ofPiecesAfter? .empty outer (rule.pieces ++ rest) = ofPiecesAfter? pending outer rest
  after : rule.root? ≠ some .or → ∀ alternatives, rule.IsReadAfter ⟨alternatives, none⟩ false

namespace IsRead

variable {rule left right : Rule}

theorem of_after (after : ∀ alternatives, rule.IsReadAfter ⟨alternatives, none⟩ false) :
    rule.IsRead where
  whole outer rest := ⟨Pending.empty.add rule, rfl, after none outer rest⟩
  after _ := after

theorem inParentheses (read : rule.IsRead) (pending : Pending) : rule.IsReadAfter pending true := by
  intro outer rest
  obtain ⟨inner, closed, inside⟩ := read.whole (pending :: outer) (.closing :: rest)
  rw [pieces.inGroup, if_pos rfl, List.cons_append, List.append_assoc, List.singleton_append,
    ofPiecesAfter?, inside]
  simp only [ofPiecesAfter?, closed]

theorem operand (read : rule.IsRead) {inParentheses : Bool}
    (noOr : inParentheses = false → rule.root? ≠ some .or) (alternatives : Option Rule) :
    rule.IsReadAfter ⟨alternatives, none⟩ inParentheses := by
  cases inParentheses with
  | true => exact read.inParentheses _
  | false => exact read.after (noOr rfl) alternatives

theorem rightOfAnd (read : rule.IsRead) (pending : Pending) :
    rule.IsReadAfter pending (rule.grouped .and true) := by
  cases rule with
  | test comparison => exact fun _ _ => rfl
  | join own _ _ => cases own <;> exact read.inParentheses pending

theorem test (comparison : Comparison) : (Rule.test comparison).IsRead :=
  of_after fun _ _ _ => rfl

theorem join_and (leftRead : left.IsRead) (rightRead : right.IsRead) :
    (join .and left right).IsRead := by
  apply of_after
  intro alternatives outer rest
  have noOr (bare : left.grouped .and false = false) : left.root? ≠ some .or :=
    (grouped_eq_false_iff.mp bare).1 rfl
  calc ofPiecesAfter? ⟨alternatives, none⟩ outer ((join .and left right).pieces ++ rest)
    _ = ofPiecesAfter? ⟨alternatives, none⟩ outer
          (pieces.inGroup (left.grouped .and false) left.pieces ++ .connective .and ::
            (pieces.inGroup (right.grouped .and true) right.pieces ++ rest)) := by
      rw [pieces, List.append_assoc, List.cons_append]
    _ = ofPiecesAfter? ⟨alternatives, some left⟩ outer (.connective .and ::
          (pieces.inGroup (right.grouped .and true) right.pieces ++ rest)) :=
      leftRead.operand noOr alternatives outer _
    _ = ofPiecesAfter? ⟨alternatives, some (join .and left right)⟩ outer rest :=
      rightRead.rightOfAnd ⟨alternatives, some left⟩ outer rest

theorem join_or (leftRead : left.IsRead) (rightRead : right.IsRead) :
    (join .or left right).IsRead where
  after noOr := absurd rfl noOr
  whole outer rest := by
    have leftBare : left.grouped .or false = false := grouped_eq_false_iff.mpr ⟨nofun, nofun⟩
    have noOr (bare : right.grouped .or true = false) : right.root? ≠ some .or :=
      (grouped_eq_false_iff.mp bare).2 rfl
    obtain ⟨pending, isLeft, leftTaken⟩ := leftRead.whole outer (.connective .or ::
      (pieces.inGroup (right.grouped .or true) right.pieces ++ rest))
    refine ⟨⟨some left, some right⟩, rfl, ?_⟩
    calc ofPiecesAfter? .empty outer ((join .or left right).pieces ++ rest)
      _ = ofPiecesAfter? .empty outer (left.pieces ++ .connective .or ::
            (pieces.inGroup (right.grouped .or true) right.pieces ++ rest)) := by
        rw [pieces, leftBare, List.append_assoc, List.cons_append]
        rfl
      _ = ofPiecesAfter? ⟨some left, none⟩ outer
            (pieces.inGroup (right.grouped .or true) right.pieces ++ rest) := by
        rw [leftTaken, ofPiecesAfter?, isLeft]
      _ = ofPiecesAfter? ⟨some left, some right⟩ outer rest :=
        rightRead.operand noOr (some left) outer rest

end IsRead

theorem isRead (rule : Rule) : rule.IsRead := by
  induction rule with
  | test comparison => exact .test comparison
  | join connective left right leftRead rightRead =>
      cases connective with
      | and => exact leftRead.join_and rightRead
      | or => exact leftRead.join_or rightRead

/-- A rule is read from its pieces. -/
theorem ofPieces?_pieces (rule : Rule) : ofPieces? rule.pieces = some rule := by
  obtain ⟨pending, isRule, read⟩ := rule.isRead.whole [] []
  rw [List.append_nil] at read
  rw [ofPieces?, read, ofPiecesAfter?, List.isEmpty_nil, if_pos rfl, isRule]

example (a b c : Comparison) :
    ofPieces? [.comparison a, .connective .or, .comparison b, .connective .and, .comparison c] =
      some (join .or (test a) (join .and (test b) (test c))) := rfl

theorem pieces_inj {first second : Rule} : first.pieces = second.pieces ↔ first = second := by
  constructor
  · intro same
    have read := ofPieces?_pieces first
    rw [same, ofPieces?_pieces] at read
    exact (Option.some.inj read).symm
  · exact congrArg pieces

end Rule

/-! ### Comparisons -/

theorem Scalar.lexeme_inj {first second : Scalar} (firstFinite : first.IsFinite)
    (secondFinite : second.IsFinite) (same : first.lexeme = second.lexeme) : first = second := by
  have meaning := Scalar.ofLexeme_lexeme firstFinite false
  rw [same, Scalar.ofLexeme_lexeme secondFinite] at meaning
  exact (TokenKind.literal.inj meaning).symm

namespace Comparison

/-- The field is a word that can be a name, even if it is a keyword, and the literal is no NaN and no
infinity. -/
structure IsLegible (comparison : Comparison) : Prop where
  named : isIdentifier comparison.field.toList = true
  finite : comparison.literal.IsFinite

theorem text_append_inj {first second : Comparison} (firstLegible : first.IsLegible)
    (secondLegible : second.IsLegible) {rest rest' : List Char} (ends : Lexeme.EndsRuns rest)
    (ends' : Lexeme.EndsRuns rest')
    (same : first.text.toList ++ rest = second.text.toList ++ rest') :
    first = second ∧ rest = rest' := by
  have blank (more : List Char) : Lexeme.EndsRuns (' ' :: more) :=
    Lexeme.endsRuns_of_isBlank fun c head => Option.some.inj head ▸ by decide
  simp only [text_toList, List.append_assoc, List.cons_append] at same
  obtain ⟨field, afterField⟩ := Lexeme.spelling_append_inj (wellFormed_field firstLegible.named)
    ((blank _).endsBefore _) (wellFormed_field secondLegible.named) ((blank _).endsBefore _) same
  obtain ⟨symbols, afterSymbols⟩ := Lexeme.spelling_append_inj (wellFormed_symbols first.comparator)
    ((blank _).endsBefore _) (wellFormed_symbols second.comparator) ((blank _).endsBefore _)
    (List.cons.inj afterField).2
  have literals := (List.cons.inj afterSymbols).2
  rw [← Scalar.spelling_lexeme, ← Scalar.spelling_lexeme] at literals
  obtain ⟨lexeme, afterLiteral⟩ := Lexeme.spelling_append_inj
    (Scalar.wellFormed_lexeme firstLegible.finite) (ends.endsBefore _)
    (Scalar.wellFormed_lexeme secondLegible.finite) (ends'.endsBefore _) literals
  refine ⟨?_, afterLiteral⟩
  obtain ⟨firstField, firstComparator, firstLiteral⟩ := first
  obtain ⟨secondField, secondComparator, secondLiteral⟩ := second
  obtain rfl := String.toList_inj.mp (Lexeme.word.inj field)
  obtain rfl := Grammar.symbol_injective (String.toList_inj.mp (Lexeme.symbols.inj symbols))
  obtain rfl := Scalar.lexeme_inj firstLegible.finite secondLegible.finite lexeme
  rfl

end Comparison

namespace Rule

def IsLegible (rule : Rule) : Prop :=
  ∀ comparison ∈ rule.comparisons, comparison.IsLegible

namespace Piece

def comparison? : Piece → Option Comparison
  | comparison own => some own
  | _ => none

def IsLegible (piece : Piece) : Prop :=
  ∀ own ∈ piece.comparison?, own.IsLegible

def Apart (piece next : Piece) : Prop :=
  piece.comparison? = none ∨ next.comparison? = none

theorem exists_text_eq_cons {piece : Piece} (legible : piece.IsLegible) :
    ∃ c more, piece.text = c :: more ∧ Lexeme.isSymbol c = false ∧
      Lexeme.isWordChar c = piece.comparison?.isSome := by
  cases piece with
  | comparison own =>
      obtain ⟨c, more, spelled⟩ := List.exists_cons_of_ne_nil
        (Comparison.wellFormed_field (legible own rfl).named).1
      have inside := isWordChar_of_isIdentifier (legible own rfl).named c (by simp [spelled])
      refine ⟨c, more ++ ' ' :: (own.comparator.symbol.toList ++ ' ' :: own.literal.ruleText.toList),
        ?_, ?_, inside⟩
      · rw [text, Comparison.text_toList, spelled, List.cons_append]
      · cases symbol : Lexeme.isSymbol c with
        | false => rfl
        | true => exact absurd inside (by simp [Lexeme.isWordChar_of_isSymbol symbol])
  | connective own => exact ⟨' ', _, rfl, by decide, Lexeme.isWordChar_of_isBlank (by decide)⟩
  | opening => exact ⟨'(', _, rfl, by decide, show Lexeme.isWordChar '(' = false by decide +kernel⟩
  | closing => exact ⟨')', _, rfl, by decide, show Lexeme.isWordChar ')' = false by decide +kernel⟩

theorem text_append_inj {first second : Piece} (firstLegible : first.IsLegible)
    (secondLegible : second.IsLegible) {rest rest' : List Char}
    (ends : first.comparison?.isSome → Lexeme.EndsRuns rest)
    (ends' : second.comparison?.isSome → Lexeme.EndsRuns rest')
    (same : first.text ++ rest = second.text ++ rest') : first = second ∧ rest = rest' := by
  -- The first character tells whether there is a comparison.
  have both : first.comparison?.isSome = second.comparison?.isSome := by
    obtain ⟨c, more, spelled, _, word⟩ := exists_text_eq_cons firstLegible
    obtain ⟨d, more', spelled', _, word'⟩ := exists_text_eq_cons secondLegible
    rw [spelled, spelled'] at same
    obtain rfl := (List.cons.inj same).1
    exact word.symm.trans word'
  cases first with
  | comparison own =>
      cases second with
      | comparison other =>
          obtain ⟨rfl, sameRest⟩ := Comparison.text_append_inj (firstLegible own rfl)
            (secondLegible other rfl) (ends rfl) (ends' rfl) same
          exact ⟨rfl, sameRest⟩
      | connective other => cases both
      | opening => cases both
      | closing => cases both
  | connective own =>
      cases second with
      | comparison other => cases both
      | connective other =>
          cases own <;> cases other <;> simp_all [text, Connective.keyword]
      | opening => simp [text] at same
      | closing => simp [text] at same
  | opening =>
      cases second with
      | comparison other => cases both
      | connective other => simp [text] at same
      | opening => exact ⟨rfl, (List.cons.inj same).2⟩
      | closing => simp [text] at same
  | closing =>
      cases second with
      | comparison other => cases both
      | connective other => simp [text] at same
      | opening => simp [text] at same
      | closing => exact ⟨rfl, (List.cons.inj same).2⟩

theorem endsRuns_flatMap_text {piece : Piece} {later : List Piece}
    (legible : ∀ next ∈ later, next.IsLegible) (apart : (piece :: later).IsChain Apart)
    (compares : piece.comparison?.isSome) : Lexeme.EndsRuns (later.flatMap text) := by
  cases later with
  | nil => exact Lexeme.endsRuns_nil
  | cons next later =>
      obtain ⟨c, more, spelled, noSymbol, word⟩ := exists_text_eq_cons (legible next List.mem_cons_self)
      have noComparison : next.comparison? = none :=
        (List.isChain_cons_cons.mp apart).1.resolve_left (Option.isSome_iff_ne_none.mp compares)
      rw [noComparison] at word
      rw [List.flatMap_cons, spelled, List.cons_append]
      rintro d head
      obtain rfl := Option.some.inj head
      exact ⟨noSymbol, word⟩

/-- A text is cut into legible pieces in one way, if no two comparisons stand side by side. -/
theorem flatMap_text_inj {first second : List Piece} (firstLegible : ∀ piece ∈ first, piece.IsLegible)
    (secondLegible : ∀ piece ∈ second, piece.IsLegible) (firstApart : first.IsChain Apart)
    (secondApart : second.IsChain Apart) (same : first.flatMap text = second.flatMap text) :
    first = second := by
  induction first generalizing second with
  | nil =>
      cases second with
      | nil => rfl
      | cons other others =>
          obtain ⟨c, more, spelled, _⟩ := exists_text_eq_cons (secondLegible other List.mem_cons_self)
          simp [spelled] at same
  | cons piece pieces ih =>
      cases second with
      | nil =>
          obtain ⟨c, more, spelled, _⟩ := exists_text_eq_cons (firstLegible piece List.mem_cons_self)
          simp [spelled] at same
      | cons other others =>
          obtain ⟨pieceLegible, piecesLegible⟩ := List.forall_mem_cons.mp firstLegible
          obtain ⟨otherLegible, othersLegible⟩ := List.forall_mem_cons.mp secondLegible
          obtain ⟨rfl, sameRest⟩ := text_append_inj pieceLegible otherLegible
            (endsRuns_flatMap_text piecesLegible firstApart)
            (endsRuns_flatMap_text othersLegible secondApart) same
          rw [ih piecesLegible othersLegible firstApart.tail secondApart.tail sameRest]

theorem isChain_append_cons {earlier later : List Piece} {piece : Piece}
    (noComparison : piece.comparison? = none) (earlierApart : earlier.IsChain Apart)
    (laterApart : later.IsChain Apart) : (earlier ++ piece :: later).IsChain Apart := by
  refine earlierApart.append (List.isChain_cons.mpr ⟨?_, laterApart⟩) ?_
  · exact fun next _ => Or.inl noComparison
  · intro last _ next head
    obtain rfl := Option.some.inj head
    exact Or.inr noComparison

end Piece

/-! ### Rules -/

theorem isChain_inGroup (inParentheses : Bool) {inner : List Piece}
    (apart : inner.IsChain Piece.Apart) :
    (pieces.inGroup inParentheses inner).IsChain Piece.Apart := by
  cases inParentheses with
  | false => exact apart
  | true =>
      exact Piece.isChain_append_cons rfl .nil (Piece.isChain_append_cons rfl apart .nil)

theorem isChain_pieces (rule : Rule) : rule.pieces.IsChain Piece.Apart := by
  induction rule with
  | test comparison => exact .singleton _
  | join connective left right leftApart rightApart =>
      exact Piece.isChain_append_cons rfl (isChain_inGroup _ leftApart)
        (isChain_inGroup _ rightApart)

theorem filterMap_comparison?_inGroup (inParentheses : Bool) (inner : List Piece) :
    (pieces.inGroup inParentheses inner).filterMap Piece.comparison? =
      inner.filterMap Piece.comparison? := by
  cases inParentheses with
  | false => rfl
  | true =>
      rw [pieces.inGroup, if_pos rfl, List.filterMap_cons_none rfl, List.filterMap_append,
        List.filterMap_cons_none rfl, List.filterMap_nil, List.append_nil]

theorem filterMap_comparison?_pieces (rule : Rule) :
    rule.pieces.filterMap Piece.comparison? = rule.comparisons := by
  induction rule with
  | test comparison => rfl
  | join connective left right leftSame rightSame =>
      rw [pieces, List.filterMap_append, List.filterMap_cons_none rfl, filterMap_comparison?_inGroup,
        filterMap_comparison?_inGroup, leftSame, rightSame, comparisons_join]

theorem IsLegible.pieces {rule : Rule} (legible : rule.IsLegible) :
    ∀ piece ∈ rule.pieces, piece.IsLegible := by
  intro piece member own isOwn
  apply legible
  rw [← filterMap_comparison?_pieces]
  exact List.mem_filterMap.mpr ⟨piece, member, isOwn⟩

/-- Two legible rules have the same text only if they are the same rule, of one shape, with the same
fields, symbols and literals. The rules need not be such as can be parsed. -/
theorem text_inj {first second : Rule} (firstLegible : first.IsLegible)
    (secondLegible : second.IsLegible) : first.text = second.text ↔ first = second := by
  constructor
  · intro same
    have spelled : first.pieces.flatMap Piece.text = second.pieces.flatMap Piece.text := by
      rw [← text_toList, ← text_toList, same]
    exact pieces_inj.mp (Piece.flatMap_text_inj firstLegible.pieces secondLegible.pieces
      (isChain_pieces first) (isChain_pieces second) spelled)
  · exact congrArg text

theorem text_inj_regrouped :
    let a := test ⟨"AND", .eq, .text "x') AND (b != 1.0 AND b != '"⟩
    let b := test ⟨"b", .ne, .float ⟨0x3ff0000000000000⟩⟩
    let c := test ⟨"b", .ne, .int 1⟩
    let grouped := join .and a (join .and b c)
    let regrouped := join .and (join .and a b) c
    ¬grouped.IsPlain ∧ grouped.IsLegible ∧ regrouped.IsLegible ∧
      grouped.text ≠ regrouped.text := by
  intro a b c grouped regrouped
  have keyword : (Comparison.mk "AND" .eq (.text "x') AND (b != 1.0 AND b != '")).IsLegible :=
    ⟨by decide +kernel, by rintro x ⟨⟩⟩
  have float : (Comparison.mk "b" .ne (.float ⟨0x3ff0000000000000⟩)).IsLegible :=
    ⟨by decide +kernel, by rintro x ⟨⟩; decide⟩
  have whole : (Comparison.mk "b" .ne (.int 1)).IsLegible := ⟨by decide +kernel, by rintro x ⟨⟩⟩
  have groupedLegible : grouped.IsLegible := by
    simp [IsLegible, grouped, a, b, c, keyword, float, whole]
  have regroupedLegible : regrouped.IsLegible := by
    simp [IsLegible, regrouped, a, b, c, keyword, float, whole]
  exact ⟨by decide, groupedLegible, regroupedLegible,
    (text_inj groupedLegible regroupedLegible).not.mpr (by decide)⟩

end Rule

end FieldRules
