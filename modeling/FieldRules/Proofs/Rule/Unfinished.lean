import FieldRules.Proofs.Rule.Refusal
import FieldRules.Proofs.Token.Scan
import FieldRules.Rule.Grammar

/-!
Texts that stop before their rule does. What such a text lacks is missed at its end, also in a text that
is blank.
-/

namespace FieldRules

/-- The tokens are the beginning of a rule, and not a rule themselves. -/
structure TokenKind.IsUnfinished (kinds : List TokenKind) : Prop where
  begins : ∃ phrase : Phrase, kinds <+: phrase.kinds
  notWhole : ∀ phrase : Phrase, kinds ≠ phrase.kinds

namespace Expectation

theorem after?_concat {first reached : Expectation} {kinds : List TokenKind} {kind : TokenKind}
    (expected : first.after? (kinds ++ [kind]) = some reached) :
    ∃ last : Expectation, last.admits kind = true ∧ last.next = reached := by
  rw [after?_append] at expected
  obtain ⟨last, -, admitted⟩ := Option.bind_eq_some_iff.mp expected
  rw [after?] at admitted
  split at admitted
  · rename_i fits
    exact ⟨last, fits, Option.some.inj admitted⟩
  · cases admitted

def Follows : Expectation → Option TokenKind → Prop
  | fieldName, last => ∀ kind ∈ last, ∃ k, kind = .connective k
  | comparator, last => ∃ name, last = some (.identifier name)
  | value, last => ∃ known : Comparator, last = some (.symbols known.symbol)
  | connective, last => ∃ literal, last = some (.literal literal)

theorem follows_of_after? {kinds : List TokenKind} {reached : Expectation}
    (expected : fieldName.after? kinds = some reached) : reached.Follows kinds.getLast? := by
  rcases kinds.eq_nil_or_concat with rfl | ⟨earlier, kind, rfl⟩
  · obtain rfl := Option.some.inj expected
    exact nofun
  · rw [List.concat_eq_append] at expected ⊢
    obtain ⟨last, admitted, rfl⟩ := after?_concat expected
    rw [List.getLast?_concat]
    cases last with
    | fieldName =>
        cases kind with
        | identifier name => exact ⟨name, rfl⟩
        | _ => cases admitted
    | comparator =>
        cases kind with
        | symbols run =>
            obtain ⟨known, found⟩ := Option.isSome_iff_exists.mp admitted
            obtain rfl := Grammar.ofSymbol?_eq_some_iff.mp found
            exact ⟨known, rfl⟩
        | _ => cases admitted
    | value =>
        cases kind with
        | literal literal => exact ⟨literal, rfl⟩
        | _ => cases admitted
    | connective =>
        cases kind with
        | connective k =>
            rintro _ ⟨⟩
            exact ⟨k, rfl⟩
        | _ => cases admitted

end Expectation

theorem TokenKind.IsUnfinished.exists_after? {kinds : List TokenKind} (unfinished : IsUnfinished kinds) :
    ∃ expected ≠ Expectation.connective, Expectation.fieldName.after? kinds = some expected := by
  obtain ⟨phrase, more, whole⟩ := unfinished.begins
  have reached := Expectation.exists_phrase_iff.mp ⟨phrase, whole⟩
  rw [Expectation.after?_append] at reached
  obtain ⟨expected, begun, -⟩ := Option.bind_eq_some_iff.mp reached
  refine ⟨expected, ?_, begun⟩
  rintro rfl
  obtain ⟨own, same⟩ := Expectation.exists_phrase_iff.mpr begun
  exact unfinished.notWhole own same

namespace Grammar

variable {limits : Limits} {ending : Nat} {tokens : List Token} {error : ParseError}

theorem not_excess_of_le
    (roomy : TokenKind.wholeComparisons (tokens.map Token.kind) ≤ limits.maxDepth) :
    ¬Excess limits tokens error := by
  rintro ⟨-, -, -, -, -, -, -, -, rule, others, begins, beyond⟩
  have size := rule.wholeComparisons_kinds
  have bound := rule.depth_le_size
  rw [begins, TokenKind.wholeComparisons_append] at roomy
  omega

theorem Misfit.eq_errorAt {expected : Expectation}
    (reached : Expectation.fieldName.after? (tokens.map Token.kind) = some expected)
    (misfit : Misfit ending tokens error) : error = expected.errorAt ending [] := by
  obtain ⟨taken, rest, stopped, rfl, before, unfit, rfl⟩ := misfit
  rw [List.map_append, Expectation.after?_append, before, Option.bind_some] at reached
  cases rest with
  | nil =>
      obtain rfl := Option.some.inj reached
      rfl
  | cons token rest =>
      rw [List.map_cons, Expectation.after?, unfit token rfl] at reached
      cases reached

end Grammar

theorem Rule.ofTokens_of_after? {limits : Limits} {ending : Nat} {tokens : List Token}
    {expected : Expectation} (stops : expected ≠ .connective)
    (reached : Expectation.fieldName.after? (tokens.map Token.kind) = some expected)
    (roomy : TokenKind.wholeComparisons (tokens.map Token.kind) ≤ limits.maxDepth) :
    ofTokens limits ending tokens = .error (expected.errorAt ending []) := by
  cases found : ofTokens limits ending tokens with
  | ok rule =>
      obtain ⟨groups, spelled, -, -⟩ := ofTokens_eq_ok_iff_groups.mp found
      rw [spelled, ← kinds_joined_groups, Expectation.after?_kinds] at reached
      exact absurd (Option.some.inj reached).symm stops
  | error error =>
      rcases refused_of_ofTokens found with misfit | excess
      · rw [misfit.eq_errorAt reached]
      · exact absurd excess (Grammar.not_excess_of_le roomy)

/-- A text that stops before its rule does is refused at its end, for a comparator behind a field name and
for an operand elsewhere. It is no matter how long the rule is so far, how its parts are grouped or what
blanks follow. -/
theorem Rule.parse_unfinished {limits : Limits} {source : String} {tokens : List Token}
    (scanned : Token.scan source = .ok tokens)
    (unfinished : TokenKind.IsUnfinished (tokens.map Token.kind))
    (roomy : TokenKind.wholeComparisons (tokens.map Token.kind) ≤ limits.maxDepth) :
    let last := (tokens.map Token.kind).getLast?
    (∃ name, last = some (.identifier name)) ∧
        parse limits source =
          .error (.grammatical ⟨.unexpected .comparator none, source.utf8ByteSize⟩) ∧
        (ParseFault.unexpected .comparator none).message =
          "expected comparison operator, found end of input" ∨
      (tokens = [] ∨ (∃ k, last = some (.connective k)) ∨
        ∃ comparator : Comparator, last = some (.symbols comparator.symbol)) ∧
        parse limits source = .error (.grammatical ⟨.missingOperand, source.utf8ByteSize⟩) := by
  obtain ⟨expected, stops, reached⟩ := unfinished.exists_after?
  have follows := Expectation.follows_of_after? reached
  have refused : parse limits source =
      .error (.grammatical (expected.errorAt source.utf8ByteSize [])) := by
    rw [parse, scanned]
    exact congrArg (Except.mapError SyntaxError.grammatical) (ofTokens_of_after? stops reached roomy)
  cases expected with
  | fieldName =>
      refine .inr ⟨?_, refused⟩
      rcases tokens.eq_nil_or_concat with rfl | ⟨earlier, token, rfl⟩
      · exact .inl rfl
      · have last : ((earlier.concat token).map Token.kind).getLast? = some token.kind := by simp
        obtain ⟨k, own⟩ := follows _ last
        exact .inr (.inl ⟨k, own ▸ last⟩)
  | comparator => exact .inl ⟨follows, refused, rfl⟩
  | value => exact .inr ⟨.inr (.inr follows), refused⟩
  | connective => exact absurd rfl stops

theorem Rule.parse_unfinished_trailing_blank :
    ∃ tokens, Token.scan "a = 1 OR b >= " = .ok tokens ∧
      TokenKind.IsUnfinished (tokens.map Token.kind) ∧
      parse ⟨1⟩ "a = 1 OR b >= " = .error (.grammatical ⟨.missingOperand, 14⟩) := by
  have scanned : Token.scan "a = 1 OR b >= " =
      .ok [⟨.identifier "a", 0⟩, ⟨.symbols "=", 2⟩, ⟨.literal (.int 1), 4⟩, ⟨.connective .or, 6⟩,
        ⟨.identifier "b", 9⟩, ⟨.symbols ">=", 11⟩] := by
    decide +kernel
  refine ⟨_, scanned, ?_⟩
  have unfinished : TokenKind.IsUnfinished [.identifier "a", .symbols "=", .literal (.int 1),
      .connective .or, .identifier "b", .symbols ">="] := by
    refine ⟨⟨⟨⟨"a", .eq, .int 1⟩, [(.or, ⟨"b", .ge, .int 0⟩)]⟩, ⟨[.literal (.int 0)], rfl⟩⟩, ?_⟩
    intro phrase same
    have whole := Expectation.exists_phrase_iff.mp ⟨phrase, same⟩
    exact absurd whole (by decide)
  have roomy : 1 ≤ (⟨1⟩ : Limits).maxDepth := Nat.le_refl 1
  refine ⟨unfinished, ?_⟩
  rcases parse_unfinished scanned unfinished roomy with ⟨⟨name, identifier⟩, -⟩ | ⟨-, refused⟩
  · cases identifier
  · exact refused

/-- A text of blanks is no exception. -/
theorem Rule.not_parse_blank_at_start :
    parse {} "   " = .error (.grammatical ⟨.missingOperand, 3⟩) ∧
      parse {} "   " ≠ .error (.grammatical ⟨.missingOperand, 0⟩) := by
  decide +kernel

end FieldRules
