import FieldRules.Proofs.Rule.Grammar

/-!
Why tokens are refused. After any tokens of a rule one kind of token is expected. Either some token is
not what is expected there, and the ones before it begin a rule; or a rule has been read that is too
deep.
-/

namespace FieldRules

namespace Expectation

def next : Expectation → Expectation
  | fieldName => comparator
  | comparator => value
  | value => connective
  | connective => fieldName

def admits : Expectation → TokenKind → Bool
  | fieldName, .identifier _ => true
  | comparator, .symbols run => (Comparator.ofSymbol? run).isSome
  | value, .literal _ => true
  | connective, .connective _ => true
  | _, _ => false

def after? : Expectation → List TokenKind → Option Expectation
  | expected, [] => some expected
  | expected, kind :: rest => if expected.admits kind then expected.next.after? rest else none

theorem after?_cons {expected : Expectation} {kind : TokenKind} (admitted : expected.admits kind = true)
    (rest : List TokenKind) : expected.after? (kind :: rest) = expected.next.after? rest :=
  if_pos admitted

theorem after?_append (expected : Expectation) (first second : List TokenKind) :
    expected.after? (first ++ second) =
      (expected.after? first).bind fun reached => reached.after? second := by
  induction first generalizing expected with
  | nil => rfl
  | cons kind first ih =>
      rw [List.cons_append, after?, after?, ih]
      split <;> rfl

theorem admits_symbol (comparator : Comparator) :
    Expectation.comparator.admits (.symbols comparator.symbol) = true := by
  rw [admits, Grammar.ofSymbol?_eq_some_iff.mpr rfl, Option.isSome_some]

theorem after?_kinds (rule : Rule) : fieldName.after? rule.kinds = some connective := by
  induction rule with
  | test comparison =>
      rw [Rule.kinds, Comparison.kinds, after?_cons rfl, next, after?_cons (admits_symbol _)]
      rfl
  | join k left right leftReached rightReached =>
      rw [Rule.kinds, after?_append, leftReached, Option.bind_some, after?_cons rfl]
      exact rightReached

def Completes : Expectation → List TokenKind → Prop
  | fieldName, kinds => ∃ phrase : Phrase, kinds = phrase.kinds
  | comparator, kinds => ∃ (known : Comparator) (literal : Scalar) (rest : List (Connective × Comparison)),
      kinds = .symbols known.symbol :: .literal literal ::
        rest.flatMap fun next => .connective next.1 :: next.2.kinds
  | value, kinds => ∃ (literal : Scalar) (rest : List (Connective × Comparison)),
      kinds = .literal literal :: rest.flatMap fun next => .connective next.1 :: next.2.kinds
  | connective, kinds => ∃ rest : List (Connective × Comparison),
      kinds = rest.flatMap fun next => .connective next.1 :: next.2.kinds

theorem completes_cons {expected : Expectation} {kind : TokenKind} {kinds : List TokenKind}
    (admitted : expected.admits kind = true) (completes : expected.next.Completes kinds) :
    expected.Completes (kind :: kinds) := by
  cases expected with
  | fieldName =>
      cases kind with
      | identifier name =>
          obtain ⟨known, literal, rest, rfl⟩ := completes
          exact ⟨⟨⟨name, known, literal⟩, rest⟩, rfl⟩
      | _ => cases admitted
  | comparator =>
      cases kind with
      | symbols run =>
          obtain ⟨known, found⟩ := Option.isSome_iff_exists.mp admitted
          obtain rfl := Grammar.ofSymbol?_eq_some_iff.mp found
          obtain ⟨literal, rest, rfl⟩ := completes
          exact ⟨known, literal, rest, rfl⟩
      | _ => cases admitted
  | value =>
      cases kind with
      | literal literal =>
          obtain ⟨rest, rfl⟩ := completes
          exact ⟨literal, rest, rfl⟩
      | _ => cases admitted
  | connective =>
      cases kind with
      | connective k =>
          obtain ⟨phrase, rfl⟩ := completes
          exact ⟨(k, phrase.first) :: phrase.rest, rfl⟩
      | _ => cases admitted

theorem completes_of_after? {expected : Expectation} {kinds : List TokenKind}
    (reached : expected.after? kinds = some connective) : expected.Completes kinds := by
  induction kinds generalizing expected with
  | nil =>
      obtain rfl := Option.some.inj reached
      exact ⟨[], rfl⟩
  | cons kind kinds ih =>
      rw [after?] at reached
      split at reached
      · rename_i admitted
        exact completes_cons admitted (ih reached)
      · cases reached

/-- Tokens are a phrase exactly if all of them are admitted and a connective is expected next. -/
theorem exists_phrase_iff {kinds : List TokenKind} :
    (∃ phrase : Phrase, kinds = phrase.kinds) ↔ fieldName.after? kinds = some connective := by
  constructor
  · rintro ⟨phrase, rfl⟩
    rw [← phrase.kinds_rule]
    exact after?_kinds phrase.rule
  · exact completes_of_after?

def completion : Expectation → List TokenKind
  | fieldName => [.identifier "a", .symbols "=", .literal (.int 0)]
  | comparator => [.symbols "=", .literal (.int 0)]
  | value => [.literal (.int 0)]
  | connective => []

theorem after?_completion (expected : Expectation) :
    expected.after? expected.completion = some connective := by
  cases expected <;> decide

end Expectation

def TokenKind.wholeComparisons (kinds : List TokenKind) : Nat :=
  (kinds.filterMap literal?).length

theorem Rule.wholeComparisons_kinds (rule : Rule) :
    TokenKind.wholeComparisons rule.kinds = rule.size := by
  rw [TokenKind.wholeComparisons, filterMap_literal?_kinds, List.length_map, length_comparisons]

namespace TokenKind

theorem wholeComparisons_append (first second : List TokenKind) :
    wholeComparisons (first ++ second) = wholeComparisons first + wholeComparisons second := by
  rw [wholeComparisons, List.filterMap_append, List.length_append]
  rfl

theorem wholeComparisons_completion_le (expected : Expectation) :
    wholeComparisons expected.completion ≤ 1 := by
  cases expected <;> decide

theorem exists_rule_of_after? {kinds : List TokenKind} {expected : Expectation}
    (reached : Expectation.fieldName.after? kinds = some expected) :
    ∃ phrase : Phrase, phrase.kinds = kinds ++ expected.completion ∧
      phrase.rule.depth ≤ wholeComparisons kinds + 1 := by
  have whole : Expectation.fieldName.after? (kinds ++ expected.completion) = some .connective := by
    rw [Expectation.after?_append, reached]
    exact expected.after?_completion
  obtain ⟨phrase, same⟩ := Expectation.exists_phrase_iff.mpr whole
  refine ⟨phrase, same.symm, ?_⟩
  have size := phrase.rule.wholeComparisons_kinds
  have bound := phrase.rule.depth_le_size
  have missing := wholeComparisons_completion_le expected
  rw [phrase.kinds_rule, ← same, wholeComparisons_append] at size
  omega

end TokenKind

namespace Expectation

def fault : Expectation → Option TokenKind → ParseFault
  | fieldName, none => .missingOperand
  | fieldName, some (.connective _) => .missingOperand
  | comparator, some (.symbols run) => .unknownComparator run
  | value, none => .missingOperand
  | value, some (.connective _) => .missingOperand
  | expected, found => .unexpected expected found

def errorAt (expected : Expectation) (ending : Nat) (tokens : List Token) : ParseError :=
  ⟨expected.fault (tokens.head?.map Token.kind), (tokens.head?.map Token.position).getD ending⟩

def Misses (expected : Expectation) (ending : Nat) (tokens : List Token) (error : ParseError) : Prop :=
  (∀ token ∈ tokens.head?, expected.admits token.kind = false) ∧ error = expected.errorAt ending tokens

end Expectation

namespace Grammar

def Misfit (ending : Nat) (tokens : List Token) (error : ParseError) : Prop :=
  ∃ taken rest expected, tokens = taken ++ rest ∧
    Expectation.fieldName.after? (taken.map Token.kind) = some expected ∧
    expected.Misses ending rest error

/-- The tokens start with a rule that is too deep. The error is of a connective, or of a comparator if
the limit admits no rule at all. -/
def Excess (limits : Limits) (tokens : List Token) (error : ParseError) : Prop :=
  ∃ taken token rest expected, tokens = taken ++ token :: rest ∧
    Expectation.fieldName.after? (taken.map Token.kind) = some expected ∧
    ((∃ connective, token.kind = .connective connective) ∨
      limits.maxDepth = 0 ∧ ∃ comparator : Comparator, token.kind = .symbols comparator.symbol) ∧
    error = ⟨.tooDeep limits.maxDepth, token.position⟩ ∧
    ∃ (rule : Rule) (others : List TokenKind), tokens.map Token.kind = rule.kinds ++ others ∧
      limits.maxDepth < rule.depth

def Refused (limits : Limits) (ending : Nat) (tokens : List Token) (error : ParseError) : Prop :=
  Misfit ending tokens error ∨ Excess limits tokens error

variable {limits : Limits} {ending : Nat} {tokens : List Token} {error : ParseError}

theorem Refused.behind (refused : Refused limits ending tokens error) {lead : List Token} {rule : Rule}
    (spelled : lead.map Token.kind = rule.kinds) (connective : Connective) (position : Nat) :
    Refused limits ending (lead ++ ⟨.connective connective, position⟩ :: tokens) error := by
  have shift (kinds : List TokenKind) :
      Expectation.fieldName.after? (rule.kinds ++ .connective connective :: kinds) =
        Expectation.fieldName.after? kinds := by
    rw [Expectation.after?_append, Expectation.after?_kinds]
    exact Expectation.after?_cons rfl kinds
  rcases refused with ⟨taken, rest, expected, rfl, reached, misses⟩ |
    ⟨taken, token, rest, expected, rfl, reached, blamed, same, deep, others, begins, beyond⟩
  · refine .inl ⟨lead ++ ⟨.connective connective, position⟩ :: taken, rest, expected, ?_, ?_, misses⟩
    · rw [List.append_assoc, List.cons_append]
    · rw [List.map_append, List.map_cons, spelled, shift, reached]
  · refine .inr ⟨lead ++ ⟨.connective connective, position⟩ :: taken, token, rest, expected, ?_, ?_,
      blamed, same, .join connective rule deep, others, ?_, ?_⟩
    · rw [List.append_assoc, List.cons_append]
    · rw [List.map_append, List.map_cons, spelled, shift, reached]
    · rw [List.map_append, List.map_cons, spelled, begins, Rule.kinds, List.append_assoc,
        List.cons_append]
    · rw [Rule.depth_join]
      omega

theorem checkDepth_eq_error_iff {position : Nat} {rule : MeasuredRule} :
    checkDepth limits position rule = .error error ↔
      error = ⟨.tooDeep limits.maxDepth, position⟩ ∧ limits.maxDepth < rule.rule.depth := by
  unfold checkDepth
  rw [rule.depth_eq]
  split
  · simp_all [eq_comm]
  · simp_all

/-! ### Comparisons -/

theorem misses_of_readField (failed : readField ending tokens = .error error) :
    Expectation.fieldName.Misses ending tokens error := by
  cases tokens with
  | nil =>
      cases failed
      exact ⟨nofun, rfl⟩
  | cons token rest =>
      obtain ⟨kind, position⟩ := token
      cases kind with
      | identifier name => cases failed
      | _ =>
          cases failed
          exact ⟨by simp [Expectation.admits], rfl⟩

theorem misses_of_readComparator (failed : readComparator ending tokens = .error error) :
    Expectation.comparator.Misses ending tokens error := by
  cases tokens with
  | nil =>
      cases failed
      exact ⟨nofun, rfl⟩
  | cons token rest =>
      obtain ⟨kind, position⟩ := token
      cases kind with
      | symbols run =>
          cases found : Comparator.ofSymbol? run with
          | some comparator => simp [readComparator, found] at failed
          | none =>
              simp only [readComparator, found, Except.error.injEq] at failed
              exact ⟨by simp [Expectation.admits, found], failed.symm⟩
      | _ =>
          cases failed
          exact ⟨by simp [Expectation.admits], rfl⟩

theorem misses_of_readLiteral (failed : readLiteral ending tokens = .error error) :
    Expectation.value.Misses ending tokens error := by
  cases tokens with
  | nil =>
      cases failed
      exact ⟨nofun, rfl⟩
  | cons token rest =>
      obtain ⟨kind, position⟩ := token
      cases kind with
      | literal value => cases failed
      | _ =>
          cases failed
          exact ⟨by simp [Expectation.admits], rfl⟩

theorem refused_of_readComparison (failed : readComparison limits ending tokens = .error error) :
    Refused limits ending tokens error := by
  simp only [readComparison, bind_eq_error_iff, Prod.exists, pure, Except.pure, reduceCtorEq,
    and_false, exists_false, or_false] at failed
  rcases failed with noField | ⟨name, afterField, field, failed⟩
  · exact .inl ⟨[], tokens, .fieldName, rfl, rfl, misses_of_readField noField⟩
  obtain ⟨fieldPosition, rfl⟩ := readField_eq_ok_iff.mp field
  rcases failed with noComparator | ⟨comparator, position, afterComparator, symbol, failed⟩
  · exact .inl ⟨[_], afterField, .comparator, rfl, rfl, misses_of_readComparator noComparator⟩
  obtain rfl := readComparator_eq_ok_iff.mp symbol
  have reached : Expectation.comparator.after? [.symbols comparator.symbol] = some .value :=
    Expectation.after?_cons (Expectation.admits_symbol comparator) []
  rcases failed with noLiteral | ⟨literal, afterLiteral, value, failed⟩
  · exact .inl ⟨[_, _], afterComparator, .value, rfl, reached, misses_of_readLiteral noLiteral⟩
  obtain ⟨literalPosition, rfl⟩ := readLiteral_eq_ok_iff.mp value
  -- All three tokens are there, so only the depth of the comparison can be at fault, which is 1.
  obtain ⟨rfl, deep⟩ := checkDepth_eq_error_iff.mp failed
  have none : limits.maxDepth = 0 := Nat.lt_one_iff.mp deep
  exact .inr ⟨[_], _, _, .comparator, rfl, rfl, .inr ⟨none, comparator, rfl⟩, rfl,
    .test ⟨name, comparator, literal⟩, afterLiteral.map Token.kind, rfl, deep⟩

def Refuses (limits : Limits) (ending : Nat) (operand : TokenReader MeasuredRule) : Prop :=
  ∀ tokens error, operand.read tokens = .error error → Refused limits ending tokens error

section

variable {α : Type} {connective : Connective} {kinds : α → List TokenKind} {rule : α → Rule}
  {operand : TokenReader MeasuredRule} {Follows : List Token → Prop}

theorem refused_of_continueChain (accepts : Accepts operand limits kinds rule Follows)
    (spelled : ∀ thing, (rule thing).kinds = kinds thing) (refuses : Refuses limits ending operand)
    {sofar : MeasuredRule} {lead : List Token} (sofarSpelled : lead.map Token.kind = sofar.rule.kinds)
    (failed : continueChain limits connective operand sofar tokens = .error error) :
    Refused limits ending (lead ++ tokens) error := by
  fun_induction continueChain limits connective operand sofar tokens generalizing lead with
  | case1 => cases failed
  | case2 sofar position more fault found =>
      cases failed
      exact (refuses _ _ found).behind sofarSpelled connective position
  | case3 sofar position more right after found fault checked =>
      cases failed
      obtain ⟨rfl, deep⟩ := checkDepth_eq_error_iff.mp checked
      obtain ⟨thing, taken, rfl, takenSpelled, rfl, -, -⟩ := (accepts _ _ _).mp found
      refine .inr ⟨lead, _, _, .connective, rfl, ?_, .inl ⟨connective, rfl⟩, rfl, _,
        after.map Token.kind, ?_, deep⟩
      · rw [sofarSpelled, Expectation.after?_kinds]
      · simp [MeasuredRule.join, MeasuredRule.ofRule, Rule.kinds, sofarSpelled, takenSpelled, spelled]
  | case4 sofar position more right after found joined checked shorter ih =>
      obtain ⟨thing, taken, rfl, takenSpelled, rfl, -, -⟩ := (accepts _ _ _).mp found
      obtain ⟨rfl, -⟩ := checkDepth_eq_ok_iff.mp checked
      have joinedSpelled : (lead ++ ⟨.connective connective, position⟩ :: taken).map Token.kind =
          (MeasuredRule.join connective sofar (.ofRule (rule thing))).rule.kinds := by
        simp [MeasuredRule.join, MeasuredRule.ofRule, Rule.kinds, sofarSpelled, takenSpelled, spelled]
      have refused := ih joinedSpelled failed
      rwa [List.append_assoc, List.cons_append] at refused
  | case5 => cases failed

theorem refuses_chain (accepts : Accepts operand limits kinds rule Follows)
    (spelled : ∀ thing, (rule thing).kinds = kinds thing) (refuses : Refuses limits ending operand) :
    Refuses limits ending (chain limits connective operand) := by
  intro tokens error failed
  simp only [chain, bind_eq_error_iff, Prod.exists] at failed
  rcases failed with failed | ⟨first, rest, found, failed⟩
  · exact refuses _ _ failed
  · obtain ⟨thing, taken, rfl, takenSpelled, rfl, -, -⟩ := (accepts _ _ _).mp found
    have firstSpelled := takenSpelled.trans (spelled thing).symm
    exact refused_of_continueChain accepts spelled refuses firstSpelled failed

end

theorem refuses_disjunction (limits : Limits) (ending : Nat) :
    Refuses limits ending (disjunction limits ending) := by
  have comparison : Refuses limits ending (comparison limits ending) := by
    intro tokens error failed
    exact refused_of_readComparison failed
  have conjunction : Refuses limits ending (conjunction limits ending) :=
    refuses_chain (accepts_comparison limits ending) (fun _ => rfl) comparison
  exact refuses_chain (accepts_conjunction limits ending)
    (fun group => Several.kinds_joined .and Rule.test group) conjunction

end Grammar

/-- Tokens that are no rule within the limits are refused for the first one that does not fit, or for a
rule at their start that is too deep. -/
theorem Rule.refused_of_ofTokens {limits : Limits} {ending : Nat} {tokens : List Token}
    {error : ParseError} (failed : ofTokens limits ending tokens = .error error) :
    Grammar.Refused limits ending tokens error := by
  simp only [ofTokens, bind_eq_error_iff, Prod.exists] at failed
  rcases failed with failed | ⟨measured, rest, read, failed⟩
  · exact Grammar.refuses_disjunction limits ending _ _ failed
  · cases rest with
    | nil => cases failed
    | cons token rest =>
        obtain ⟨groups, taken, rfl, spelled, rfl, -, ⟨-, noAnd⟩, noOr⟩ :=
          (Grammar.accepts_disjunction limits ending _ _ _).mp read
        obtain ⟨kind, position⟩ := token
        cases failed
        refine .inl ⟨taken, _, .connective, rfl, ?_, ?_, ?_⟩
        · rw [spelled, ← kinds_joined_groups, Expectation.after?_kinds]
        · rintro _ ⟨⟩
          cases kind with
          | connective connective => cases connective <;> simp [Grammar.Opens] at noAnd noOr
          | _ => rfl
        · cases kind <;> rfl

end FieldRules
