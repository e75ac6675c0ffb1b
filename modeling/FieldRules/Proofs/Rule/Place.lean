import FieldRules.Proofs.Rule.Refusal
import FieldRules.Proofs.Token.Scan
import FieldRules.Proofs.Token.Stop
import FieldRules.Rule.Grammar

/-!
Where the errors of a text stand. An error points at what it names, and all tokens before the error of a
grammatical fault are the beginning of some rule.
-/

namespace FieldRules

open Lexeme Text
open String (utf8Len)

theorem Rule.exists_ofTokens_append {taken : List Token} {expected : Expectation}
    (reached : Expectation.fieldName.after? (taken.map Token.kind) = some expected) :
    ∃ more rule, ∀ limits ending,
      TokenKind.wholeComparisons (taken.map Token.kind) < limits.maxDepth →
        ofTokens limits ending (taken ++ more) = .ok rule := by
  obtain ⟨phrase, spelled, bound⟩ := TokenKind.exists_rule_of_after? reached
  refine ⟨expected.completion.map fun kind => ⟨kind, 0⟩, phrase.rule, ?_⟩
  intro limits ending roomy
  refine ofTokens_eq_ok_iff_groups.mpr ⟨phrase.groups, ?_, rfl, by omega⟩
  rw [phrase.groupKinds_groups, spelled, List.map_append, List.map_map]
  exact congrArg _ (List.map_id _)

theorem TokenKind.wholeComparisons_le_length (kinds : List TokenKind) :
    wholeComparisons kinds ≤ kinds.length :=
  List.length_filterMap_le _ _

theorem Token.filter_position_lt {taken rest : List Token} {token : Token}
    (ascending : (taken ++ token :: rest).Pairwise fun first second =>
      first.position < second.position) :
    (taken ++ token :: rest).filter (fun other => decide (other.position < token.position)) =
      taken := by
  obtain ⟨-, behind, before⟩ := List.pairwise_append.mp ascending
  obtain ⟨later, -⟩ := List.pairwise_cons.mp behind
  have kept : taken.filter (fun other => decide (other.position < token.position)) = taken := by
    rw [List.filter_eq_self]
    intro other member
    exact decide_eq_true (before other member token List.mem_cons_self)
  have dropped : rest.filter (fun other => decide (other.position < token.position)) = [] := by
    rw [List.filter_eq_nil_iff]
    intro other member
    have := later other member
    simp only [decide_eq_true_eq]
    omega
  rw [List.filter_append, kept, List.filter_cons_of_neg (by simp), dropped, List.append_nil]

namespace LexError

def PointsInto (source : String) (error : LexError) : Prop :=
  match error.fault with
  | .unrecognizedCharacter c => StandsAt [c] error.position source.toList ∧ IsForeign c
  | .unterminatedText =>
      ∃ mark, isQuote mark = true ∧ StandsAt [mark] error.position source.toList

theorem pointsInto_of_scan {source : String} {error : LexError}
    (failed : Token.scan source = .error error) : error.PointsInto source := by
  obtain ⟨fault, position⟩ := error
  obtain ⟨before, c, after, pieces, split, rfl, -, visible, faulty⟩ :=
    exists_cutting_of_error (map_eq_error_iff.mp failed)
  have stands : StandsAt [c] (0 + utf8Len before) source.toList :=
    ⟨before, after, split, (Nat.zero_add _).symm⟩
  rcases first_eq_error_iff.mp faulty with ⟨quote, -, rfl⟩ | ⟨notQuote, notSymbol, notWord, rfl⟩
  · exact ⟨c, quote, stands⟩
  · exact ⟨stands, ⟨visible, notQuote, notSymbol, notWord⟩⟩

theorem PointsInto.exists_standsAt {source : String} {error : LexError}
    (points : error.PointsInto source) :
    ∃ piece, StandsAt piece error.position source.toList := by
  obtain ⟨fault, position⟩ := error
  cases fault with
  | unrecognizedCharacter c => exact ⟨[c], points.1⟩
  | unterminatedText =>
      obtain ⟨mark, -, stands⟩ := points
      exact ⟨[mark], stands⟩

end LexError

namespace ParseError

/-- The error is of a token that it names, or of the end of the text. A rule that is too deep is charged to
a connective, or to a comparator if the limit is zero. -/
def PointsInto (limits : Limits) (source : String) (tokens : List Token) (error : ParseError) : Prop :=
  match error.fault with
  | .unexpected expected found =>
      (∃ token ∈ tokens, error.position = token.position ∧ found = some token.kind ∧
        error.fault.message = s!"expected {expected.text}, found {token.kind.text}") ∨
      error.position = source.utf8ByteSize ∧ found = none ∧
        error.fault.message = s!"expected {expected.text}, found end of input"
  | .missingOperand =>
      (∃ token ∈ tokens, error.position = token.position ∧
        ∃ connective, token.kind = .connective connective) ∨
      error.position = source.utf8ByteSize
  | .unknownComparator run =>
      StandsAt run.toList error.position source.toList ∧
        ∀ comparator : Comparator, comparator.symbol ≠ run
  | .tooDeep limit =>
      limit = limits.maxDepth ∧ ∃ token ∈ tokens, error.position = token.position ∧
        ((∃ connective, token.kind = .connective connective) ∨
          limits.maxDepth = 0 ∧ ∃ comparator : Comparator, token.kind = .symbols comparator.symbol)

end ParseError

theorem Expectation.fault_none (expected : Expectation) :
    expected.fault none = .missingOperand ∨ expected.fault none = .unexpected expected none := by
  cases expected <;> simp [fault]

theorem Expectation.fault_some (expected : Expectation) (kind : TokenKind) :
    (expected.fault (some kind) = .missingOperand ∧ ∃ connective, kind = .connective connective) ∨
    (∃ run, expected = comparator ∧ kind = .symbols run ∧
      expected.fault (some kind) = .unknownComparator run) ∨
    expected.fault (some kind) = .unexpected expected kind := by
  cases expected <;> cases kind <;> simp [fault]

namespace Token

theorem StandsIn.standsAt_symbols {source run : String} {position : Nat}
    (stands : StandsIn source ⟨.symbols run, position⟩) :
    StandsAt run.toList position source.toList := by
  obtain ⟨lexeme, -, stands, afterSymbols, kind⟩ := stands
  have symbols : lexeme.isSymbols = true := by
    rw [← TokenKind.isSymbols_ofLexeme afterSymbols lexeme, ← kind]
    rfl
  cases lexeme with
  | symbols characters =>
      obtain rfl : run = String.ofList characters := TokenKind.symbols.inj kind
      rwa [String.toList_ofList]
  | quoted mark body => exact absurd symbols (by simp [Lexeme.isSymbols])
  | word characters => exact absurd symbols (by simp [Lexeme.isSymbols])

theorem StandsIn.position_lt {source : String} {token : Token} (stands : token.StandsIn source) :
    token.position < source.utf8ByteSize := by
  obtain ⟨lexeme, form, stands, -⟩ := stands
  have bound := stands.size_le
  have spelled := form.utf8Len_pos
  rw [String.utf8Len_toList] at bound
  omega

end Token

variable {limits : Limits} {source : String} {tokens : List Token} {error : ParseError}

theorem ParseError.pointsInto_of_misfit (standing : ∀ token ∈ tokens, token.StandsIn source)
    (misfit : Grammar.Misfit source.utf8ByteSize tokens error) :
    error.PointsInto limits source tokens := by
  obtain ⟨taken, rest, expected, rfl, -, unfit, rfl⟩ := misfit
  cases rest with
  | nil =>
      rcases expected.fault_none with missing | unexpected
      · simp only [PointsInto, Expectation.errorAt, List.head?_nil, Option.map_none, missing,
          Option.getD_none]
        exact .inr trivial
      · simp only [PointsInto, Expectation.errorAt, List.head?_nil, Option.map_none, unexpected,
          Option.getD_none]
        exact .inr ⟨trivial, trivial, rfl⟩
  | cons token rest =>
      have member : token ∈ taken ++ token :: rest := by simp
      have unfit := unfit token rfl
      obtain ⟨kind, position⟩ := token
      rcases expected.fault_some kind with ⟨missing, connective, rfl⟩ | ⟨run, rfl, rfl, unknown⟩ |
        unexpected
      · simp only [PointsInto, Expectation.errorAt, List.head?_cons, Option.map_some, missing,
          Option.getD_some]
        exact .inl ⟨_, member, rfl, connective, rfl⟩
      · simp only [PointsInto, Expectation.errorAt, List.head?_cons, Option.map_some, unknown,
          Option.getD_some]
        refine ⟨(standing _ member).standsAt_symbols, ?_⟩
        rintro comparator rfl
        rw [Expectation.admits_symbol] at unfit
        cases unfit
      · simp only [PointsInto, Expectation.errorAt, List.head?_cons, Option.map_some, unexpected,
          Option.getD_some]
        exact .inl ⟨_, member, rfl, rfl, rfl⟩

theorem ParseError.pointsInto_of_excess (excess : Grammar.Excess limits tokens error) :
    error.PointsInto limits source tokens := by
  obtain ⟨taken, token, rest, expected, rfl, -, blamed, rfl, -⟩ := excess
  exact ⟨rfl, token, by simp, rfl, blamed⟩

theorem ParseError.PointsInto.exists_standsAt (standing : ∀ token ∈ tokens, token.StandsIn source)
    (points : error.PointsInto limits source tokens) :
    ∃ piece, StandsAt piece error.position source.toList := by
  have ofToken {token : Token} (member : token ∈ tokens) (same : error.position = token.position) :
      ∃ piece, StandsAt piece error.position source.toList := by
    obtain ⟨lexeme, -, stands, -⟩ := standing token member
    exact ⟨lexeme.spelling, same ▸ stands⟩
  have ofEnd (same : error.position = source.utf8ByteSize) :
      ∃ piece, StandsAt piece error.position source.toList := by
    rw [same, ← String.utf8Len_toList]
    exact ⟨[], standsAt_ending _⟩
  unfold PointsInto at points
  split at points
  · rcases points with ⟨token, member, same, -⟩ | ⟨same, -⟩
    · exact ofToken member same
    · exact ofEnd same
  · rcases points with ⟨token, member, same, -⟩ | same
    · exact ofToken member same
    · exact ofEnd same
  · exact ⟨_, points.1⟩
  · obtain ⟨-, token, member, same, -⟩ := points
    exact ofToken member same

/-- Where an error stands, the tokens before it have all come as expected. -/
theorem Grammar.Refused.after?_filter (standing : ∀ token ∈ tokens, token.StandsIn source)
    (ascending : tokens.Pairwise fun first second => first.position < second.position)
    (refused : Refused limits source.utf8ByteSize tokens error) :
    ∃ expected, Expectation.fieldName.after? ((tokens.filter fun token =>
      decide (token.position < error.position)).map Token.kind) = some expected := by
  rcases refused with ⟨taken, rest, expected, rfl, reached, -, rfl⟩ |
    ⟨taken, token, rest, expected, rfl, reached, -, rfl, -⟩
  · refine ⟨expected, ?_⟩
    cases rest with
    | nil =>
        have all : (taken ++ []).filter (fun token => decide
            (token.position < (expected.errorAt source.utf8ByteSize []).position)) = taken ++ [] := by
          rw [List.filter_eq_self]
          intro token member
          exact decide_eq_true (standing token member).position_lt
        rw [all, List.append_nil, reached]
    | cons token rest =>
        have before := Token.filter_position_lt ascending
        exact (congrArg (fun kept => Expectation.fieldName.after? (kept.map Token.kind)) before).trans
          reached
  · refine ⟨expected, ?_⟩
    rw [Token.filter_position_lt ascending, reached]

theorem Grammar.Refused.exists_ofTokens_append {pieces : List SpacedLexeme}
    (cutting : Cutting source.toList pieces)
    (refused : Refused limits source.utf8ByteSize (Token.ofPieces pieces) error) :
    ∃ more rule, ∀ wide ending, source.utf8ByteSize < wide.maxDepth →
      Rule.ofTokens wide ending ((Token.ofPieces pieces).filter
        (fun token => decide (token.position < error.position)) ++ more) = .ok rule := by
  have standing : ∀ token ∈ Token.ofPieces pieces, token.StandsIn source :=
    fun token => Token.standsIn_of_mem cutting
  obtain ⟨expected, reached⟩ :=
    refused.after?_filter standing (Token.pairwise_position_ofPieces cutting)
  obtain ⟨more, rule, accepted⟩ := Rule.exists_ofTokens_append reached
  refine ⟨more, rule, ?_⟩
  intro wide ending roomy
  apply accepted
  have whole := TokenKind.wholeComparisons_le_length (((Token.ofPieces pieces).filter
    fun token => decide (token.position < error.position)).map Token.kind)
  have kept := List.length_filter_le
    (fun token => decide (token.position < error.position)) (Token.ofPieces pieces)
  have bytes := cutting.length_le
  rw [List.length_map] at whole
  rw [Token.length_ofPieces] at kept
  rw [String.utf8Len_toList] at bytes
  omega

/-- An error stands inside its text, between two characters, at what it names. The tokens before the
error of a grammatical fault can be continued to a rule, which is accepted under any limit above the size
of the text. -/
theorem Rule.parse_error_points {limits : Limits} {source : String} {error : SyntaxError}
    (failed : parse limits source = .error error) :
    error.position ≤ source.utf8ByteSize ∧ (⟨error.position⟩ : String.Pos.Raw).IsValid source ∧
      match error with
      | .lexical error => error.PointsInto source
      | .grammatical error => ∃ tokens, Token.scan source = .ok tokens ∧
          (∀ token ∈ tokens, token.StandsIn source) ∧ error.PointsInto limits source tokens ∧
          ∃ more rule, ∀ wide ending, source.utf8ByteSize < wide.maxDepth →
            ofTokens wide ending
              (tokens.filter (fun token => decide (token.position < error.position)) ++ more) =
                .ok rule := by
  rcases bind_eq_error_iff.mp failed with unscanned | ⟨tokens, scanned, unread⟩
  · obtain ⟨own, lexFailed, rfl⟩ := mapError_eq_error_iff.mp unscanned
    have points := LexError.pointsInto_of_scan lexFailed
    obtain ⟨piece, stands⟩ := points.exists_standsAt
    exact ⟨stands.le_utf8ByteSize, stands.isValid, points⟩
  · obtain ⟨own, readFailed, rfl⟩ := mapError_eq_error_iff.mp unread
    replace scanned := mapError_eq_ok_iff.mp scanned
    obtain ⟨pieces, cutting, rfl⟩ := Token.exists_cutting_of_scan scanned
    have refused := refused_of_ofTokens readFailed
    have standing : ∀ token ∈ Token.ofPieces pieces, token.StandsIn source :=
      fun token => Token.standsIn_of_mem cutting
    have points : own.PointsInto limits source (Token.ofPieces pieces) := by
      rcases refused with misfit | excess
      · exact ParseError.pointsInto_of_misfit standing misfit
      · exact ParseError.pointsInto_of_excess excess
    obtain ⟨piece, stands⟩ := points.exists_standsAt standing
    exact ⟨stands.le_utf8ByteSize, stands.isValid, _, scanned, standing, points,
      refused.exists_ofTokens_append cutting⟩

theorem Rule.parse_error_points_unknown_comparator :
    parse ⟨4⟩ "name = 'é' OR b <> 1" = .error (.grammatical ⟨.unknownComparator "<>", 17⟩) ∧
      StandsAt "<>".toList 17 "name = 'é' OR b <> 1".toList ∧
      (∀ comparator : Comparator, comparator.symbol ≠ "<>") ∧
      ∃ tokens more rule, Token.scan "name = 'é' OR b <> 1" = .ok tokens ∧
        ofTokens ⟨99⟩ 0 (tokens.filter (fun token => decide (token.position < 17)) ++ more) =
          .ok rule := by
  have failed : parse ⟨4⟩ "name = 'é' OR b <> 1" =
      .error (.grammatical ⟨.unknownComparator "<>", 17⟩) := by
    decide +kernel
  obtain ⟨-, -, tokens, scanned, -, ⟨stands, unknown⟩, more, rule, accepted⟩ :=
    parse_error_points failed
  exact ⟨failed, stands, unknown, tokens, more, rule, scanned, accepted _ _ (by decide)⟩

end FieldRules
