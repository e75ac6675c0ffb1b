import FieldRules.Proofs.Rule.Grammar
import FieldRules.Proofs.Rule.Text
import FieldRules.Rule.Grammar

/-!
A rule that is read from a text is plain, and the text of a plain rule is read as that rule. The text of
any other rule is refused, so no text of a rule is read as another rule.
-/

namespace FieldRules

open Text
open String (utf8Len)

def TokenKind.IsSound : TokenKind → Prop
  | .identifier name => isIdentifier name.toList = true ∧ Connective.ofKeyword? name = none
  | .literal value => value.IsFinite
  | _ => True

theorem isFinite_of_numberOfWord? {word : List Char} {value : Scalar}
    (number : numberOfWord? word = some value) : value.IsFinite := by
  rintro x rfl
  rw [numberOfWord?] at number
  split at number
  · split at number <;> simp at number
  · obtain ⟨y, found, same⟩ := Option.map_eq_some_iff.mp number
    cases same
    have read := (Option.filter_eq_some_iff.mp found).1
    exact (Option.filter_eq_some_iff.mp read).2

theorem TokenKind.isSound_ofLexeme (afterSymbols : Bool) (lexeme : Lexeme) :
    (ofLexeme afterSymbols lexeme).IsSound := by
  cases lexeme with
  | quoted mark body =>
      intro x same
      cases same
  | symbols run => trivial
  | word run =>
      rw [ofLexeme, ofWord]
      split
      · trivial
      · rename_i notKeyword
        split
        · rename_i number found
          exact isFinite_of_numberOfWord? found
        · by_cases name : (!afterSymbols && isIdentifier run) = true
          · rw [if_pos name]
            simp only [Bool.and_eq_true] at name
            exact ⟨by rw [String.toList_ofList]; exact name.2, notKeyword⟩
          · rw [if_neg name]
            intro x same
            cases same

theorem Token.scan_eq_ok_iff {source : String} {tokens : List Token} :
    scan source = .ok tokens ↔
      ∃ placed, Lexeme.cut source.toList = .ok placed ∧ tokens = ofLexemes false placed := by
  rw [scan]
  cases Lexeme.cut source.toList with
  | error fault => simp [Except.map]
  | ok placed => simp [Except.map, eq_comm]

theorem Token.isSound_of_mem_ofLexemes {afterSymbols : Bool} {placed : List PlacedLexeme}
    {token : Token} (member : token ∈ ofLexemes afterSymbols placed) : token.kind.IsSound := by
  induction placed generalizing afterSymbols with
  | nil => simp [ofLexemes] at member
  | cons head placed ih =>
      rcases List.mem_cons.mp member with rfl | later
      · exact TokenKind.isSound_ofLexeme afterSymbols head.lexeme
      · exact ih later

namespace Rule

theorem isWritable_of_kinds {rule : Rule} (sound : ∀ kind ∈ rule.kinds, kind.IsSound) :
    rule.IsWritable := by
  induction rule with
  | test comparison =>
      intro own member
      obtain rfl := List.mem_singleton.mp member
      have named := sound (.identifier own.field) (by simp [kinds, Comparison.kinds])
      have literal := sound (.literal own.literal) (by simp [kinds, Comparison.kinds])
      exact ⟨named.1, named.2, literal⟩
  | join connective left right leftWritable rightWritable =>
      refine isWritable_join_iff.mpr ⟨leftWritable ?_, rightWritable ?_⟩
      · intro kind member
        exact sound kind (by simp [kinds, member])
      · intro kind member
        exact sound kind (by simp [kinds, member])

theorem parse_eq_ok_iff {limits : Limits} {source : String} {rule : Rule} :
    parse limits source = .ok rule ↔ ∃ tokens, Token.scan source = .ok tokens ∧
      ofTokens limits source.utf8ByteSize tokens = .ok rule := by
  simp only [parse, bind_eq_ok_iff, mapError_eq_ok_iff]

/-- A text is read as a rule just if the rule is plain and its tokens are those of the text. -/
theorem parse_eq_ok_iff_kinds {limits : Limits} {source : String} {rule : Rule} :
    parse limits source = .ok rule ↔ ∃ tokens, Token.scan source = .ok tokens ∧
      tokens.map Token.kind = rule.kinds ∧ rule.IsPlain ∧ rule.depth ≤ limits.maxDepth := by
  simp only [parse_eq_ok_iff, ofTokens_eq_ok_iff_groups]
  constructor
  · rintro ⟨tokens, scanned, groups, spelled, rfl, fits⟩
    exact ⟨tokens, scanned, spelled.trans (kinds_joined_groups groups).symm, isPlain_joined groups,
      fits⟩
  · rintro ⟨tokens, scanned, spelled, plain, fits⟩
    obtain ⟨groups, rfl⟩ := exists_groups_of_isPlain plain
    exact ⟨tokens, scanned, groups, spelled.trans (kinds_joined_groups groups), rfl, fits⟩

theorem isPlain_of_parse {limits : Limits} {source : String} {rule : Rule}
    (read : parse limits source = .ok rule) :
    rule.IsPlain ∧ rule.IsWritable ∧ rule.depth ≤ limits.maxDepth := by
  obtain ⟨tokens, scanned, spelled, plain, fits⟩ := parse_eq_ok_iff_kinds.mp read
  refine ⟨plain, ?_, fits⟩
  obtain ⟨placed, _, rfl⟩ := Token.scan_eq_ok_iff.mp scanned
  apply isWritable_of_kinds
  rw [← spelled]
  intro kind member
  obtain ⟨token, own, rfl⟩ := List.mem_map.mp member
  exact Token.isSound_of_mem_ofLexemes own

theorem scan_text {rule : Rule} (plain : rule.IsPlain) (writable : rule.IsWritable) :
    ∃ tokens, Token.scan rule.text = .ok tokens ∧ tokens.map Token.kind = rule.kinds := by
  obtain ⟨placed, same, read⟩ := cutsTo_text plain writable 0
  have cut := read [] (by simp)
  rw [List.append_nil, Lexeme.cutFrom_nil] at cut
  have meaning := ofLexemes_lexemes writable []
  rw [List.append_nil, ← same, ← TokenKind.map_kind_ofLexemes] at meaning
  refine ⟨Token.ofLexemes false placed, ?_, ?_⟩
  · refine Token.scan_eq_ok_iff.mpr ⟨placed, ?_, rfl⟩
    rw [Lexeme.cut, cut]
    simp [Except.map]
  · simpa [TokenKind.ofLexemes] using meaning

theorem parse_text_of_isPlain {limits : Limits} {rule : Rule} (plain : rule.IsPlain)
    (writable : rule.IsWritable) (fits : rule.depth ≤ limits.maxDepth) :
    parse limits rule.text = .ok rule := by
  obtain ⟨tokens, scanned, spelled⟩ := scan_text plain writable
  exact parse_eq_ok_iff_kinds.mpr ⟨tokens, scanned, spelled, plain, fits⟩

/-- The text of a rule that is not plain is refused at the first parenthesis that groups. -/
theorem parse_text_of_not_isPlain (limits : Limits) {rule : Rule} (notPlain : ¬rule.IsPlain)
    (writable : rule.IsWritable) :
    ∃ earlier later, rule.pieces = earlier ++ .opening :: later ∧ .opening ∉ earlier ∧
      rule.text.toList = earlier.flatMap Piece.text ++ '(' :: later.flatMap Piece.text ∧
      parse limits rule.text =
        .error (.lexical ⟨.unrecognizedCharacter '(', utf8Len (earlier.flatMap Piece.text)⟩) := by
  obtain ⟨earlier, later, split, plain⟩ :=
    List.eq_append_cons_of_mem (opening_mem_pieces notPlain)
  have stops := stopsAt_text writable notPlain 0 []
  rw [List.append_nil, Nat.zero_add, split, beforeOpening_append _ plain, beforeOpening_opening,
    List.append_nil] at stops
  refine ⟨earlier, later, split, plain, ?_, ?_⟩
  · rw [text_toList, split, List.flatMap_append, List.flatMap_cons]
    rfl
  · rw [parse, Token.scan, Lexeme.cut, stops]
    rfl

/-- A rule that can be written is read back from its text if it is plain and within the limits, and
else the text is refused at the first parenthesis that groups. Every rule that is read is plain, so
its own text is read as that rule again. -/
theorem parse_text (limits : Limits) :
    (∀ rule : Rule, rule.IsWritable → rule.depth ≤ limits.maxDepth →
      (rule.IsPlain → parse limits rule.text = .ok rule) ∧
      (¬rule.IsPlain → ∃ earlier later, rule.pieces = earlier ++ .opening :: later ∧
        .opening ∉ earlier ∧
        rule.text.toList = earlier.flatMap Piece.text ++ '(' :: later.flatMap Piece.text ∧
        parse limits rule.text =
          .error (.lexical ⟨.unrecognizedCharacter '(', utf8Len (earlier.flatMap Piece.text)⟩))) ∧
    ∀ (source : String) (rule : Rule), parse limits source = .ok rule →
      rule.IsPlain ∧ parse limits rule.text = .ok rule := by
  constructor
  · intro rule writable fits
    exact ⟨fun plain => parse_text_of_isPlain plain writable fits,
      fun notPlain => parse_text_of_not_isPlain limits notPlain writable⟩
  · intro source rule read
    obtain ⟨plain, writable, fits⟩ := isPlain_of_parse read
    exact ⟨plain, parse_text_of_isPlain plain writable fits⟩

theorem parse_text_quoted_and_grouped :
    let quoted := join .or (test ⟨"a.b", .eq, .text "it's \\ (so)"⟩)
      (test ⟨"c", .le, .float ⟨0xbfb999999999999a⟩⟩)
    let grouped := join .and (test ⟨"d", .ne, .text "("⟩) quoted
    (quoted.IsPlain ∧ parse ⟨2⟩ quoted.text = .ok quoted) ∧
      parse ⟨3⟩ grouped.text = .error (.lexical ⟨.unrecognizedCharacter '(', 13⟩) := by
  have first : (Comparison.mk "a.b" .eq (.text "it's \\ (so)")).IsWritable :=
    ⟨by decide +kernel, by decide, by rintro x ⟨⟩⟩
  have second : (Comparison.mk "c" .le (.float ⟨0xbfb999999999999a⟩)).IsWritable :=
    ⟨by decide +kernel, by decide, by rintro x ⟨⟩; decide⟩
  have third : (Comparison.mk "d" .ne (.text "(")).IsWritable :=
    ⟨by decide +kernel, by decide, by rintro x ⟨⟩⟩
  intro quoted grouped
  have quotedWritable : quoted.IsWritable :=
    isWritable_join_iff.mpr ⟨by simpa [IsWritable] using first, by simpa [IsWritable] using second⟩
  have groupedWritable : grouped.IsWritable :=
    isWritable_join_iff.mpr ⟨by simpa [IsWritable] using third, quotedWritable⟩
  constructor
  · have read := ((parse_text ⟨2⟩).1 quoted quotedWritable (by decide)).1 (by decide)
    exact (parse_text ⟨2⟩).2 quoted.text quoted read
  · obtain ⟨earlier, later, split, plain, -, refused⟩ :=
      ((parse_text ⟨3⟩).1 grouped groupedWritable (by decide)).2 (by decide)
    have before : earlier.flatMap Piece.text = beforeOpening grouped.pieces := by
      rw [split, beforeOpening_append _ plain, beforeOpening_opening, List.append_nil]
    have place : utf8Len (beforeOpening grouped.pieces) = 13 := by decide +kernel
    rw [refused, before, place]

end Rule

end FieldRules
