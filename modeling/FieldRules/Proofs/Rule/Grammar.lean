import FieldRules.Proofs.Except
import FieldRules.Proofs.Rule.Phrase
import FieldRules.Rule.Grammar

/-!
Reading a rule off tokens succeeds exactly on the tokens of a phrase whose rule is within the limits,
and gives that rule. Both chains, of comparisons and of groups, are covered by one statement about
chains of any operands.
-/

namespace FieldRules

theorem MeasuredRule.eq_ofRule (measured : MeasuredRule) : measured = .ofRule measured.rule := by
  obtain ⟨rule, depth, same⟩ := measured
  subst same
  rfl

namespace Grammar

def Opens (connective : Connective) (tokens : List Token) : Prop :=
  tokens.head?.map Token.kind = some (.connective connective)

/-- A reader accepts just the tokens of some thing whose rule is within the limits, and stops where
`Follows` holds. -/
def Accepts {α : Type} (operand : TokenReader MeasuredRule) (limits : Limits)
    (kinds : α → List TokenKind) (rule : α → Rule) (Follows : List Token → Prop) : Prop :=
  ∀ tokens measured rest, operand.read tokens = .ok (measured, rest) ↔
    ∃ thing taken, tokens = taken ++ rest ∧ taken.map Token.kind = kinds thing ∧
      measured = .ofRule (rule thing) ∧ (rule thing).depth ≤ limits.maxDepth ∧ Follows rest

theorem checkDepth_eq_ok_iff {limits : Limits} {position : Nat} {rule accepted : MeasuredRule} :
    checkDepth limits position rule = .ok accepted ↔
      accepted = rule ∧ rule.rule.depth ≤ limits.maxDepth := by
  unfold checkDepth
  rw [rule.depth_eq]
  split
  · simp_all
  · simp_all [eq_comm]

theorem readField_eq_ok_iff {ending : Nat} {tokens rest : List Token} {name : String} :
    readField ending tokens = .ok (name, rest) ↔
      ∃ position, tokens = ⟨.identifier name, position⟩ :: rest := by
  unfold readField
  split
  · simp
  · split <;> simp_all

theorem readLiteral_eq_ok_iff {ending : Nat} {tokens rest : List Token} {value : Scalar} :
    readLiteral ending tokens = .ok (value, rest) ↔
      ∃ position, tokens = ⟨.literal value, position⟩ :: rest := by
  unfold readLiteral
  split
  · simp
  · split <;> simp_all

theorem ofSymbol?_eq_some_iff {run : String} {comparator : Comparator} :
    Comparator.ofSymbol? run = some comparator ↔ run = comparator.symbol := by
  constructor
  · intro found
    have same := List.find?_some found
    exact (beq_iff_eq.mp same).symm
  · intro same
    subst same
    cases comparator <;> decide

theorem symbol_injective {first second : Comparator} (same : first.symbol = second.symbol) :
    first = second := by
  have found := ofSymbol?_eq_some_iff.mpr same
  rw [ofSymbol?_eq_some_iff.mpr rfl] at found
  exact Option.some.inj found

theorem readComparator_eq_ok_iff {ending position : Nat} {tokens rest : List Token}
    {comparator : Comparator} :
    readComparator ending tokens = .ok ((comparator, position), rest) ↔
      tokens = ⟨.symbols comparator.symbol, position⟩ :: rest := by
  unfold readComparator
  split
  · simp
  · split
    · rename_i run
      cases found : Comparator.ofSymbol? run with
      | none =>
          have other : run ≠ comparator.symbol := by
            intro same
            rw [ofSymbol?_eq_some_iff.mpr same] at found
            simp at found
          simp [other]
      | some known =>
          rw [ofSymbol?_eq_some_iff] at found
          subst found
          constructor
          · simp_all
          · simp only [List.cons.injEq, Token.mk.injEq, TokenKind.symbols.injEq]
            rintro ⟨⟨same, rfl⟩, rfl⟩
            rw [symbol_injective same]
    · simp_all

theorem readComparison_eq_ok_iff {limits : Limits} {ending : Nat} {tokens rest : List Token}
    {measured : MeasuredRule} :
    readComparison limits ending tokens = .ok (measured, rest) ↔
      ∃ comparison taken, tokens = taken ++ rest ∧ taken.map Token.kind = comparison.kinds ∧
        measured = .ofRule (.test comparison) ∧ (Rule.test comparison).depth ≤ limits.maxDepth := by
  constructor
  · intro read
    simp only [readComparison, bind_eq_ok_iff, Prod.exists, pure, Except.pure, Except.ok.injEq,
      Prod.mk.injEq] at read
    obtain ⟨name, _, field, comparator, position, _, symbol, literal, _, value, _, checked, rfl, rfl⟩ :=
      read
    obtain ⟨fieldPosition, rfl⟩ := readField_eq_ok_iff.mp field
    obtain rfl := readComparator_eq_ok_iff.mp symbol
    obtain ⟨literalPosition, rfl⟩ := readLiteral_eq_ok_iff.mp value
    obtain ⟨rfl, fits⟩ := checkDepth_eq_ok_iff.mp checked
    exact ⟨⟨name, comparator, literal⟩,
      [⟨.identifier name, fieldPosition⟩, ⟨.symbols comparator.symbol, position⟩,
        ⟨.literal literal, literalPosition⟩], rfl, rfl, rfl, fits⟩
  · rintro ⟨comparison, taken, rfl, spelled, rfl, fits⟩
    simp only [Comparison.kinds, List.map_eq_cons_iff, List.map_eq_nil_iff] at spelled
    obtain ⟨first, _, rfl, firstKind, second, _, rfl, secondKind, third, _, rfl, thirdKind, rfl⟩ :=
      spelled
    have field : readField ending (first :: second :: third :: rest)
        = .ok (comparison.field, second :: third :: rest) :=
      readField_eq_ok_iff.mpr ⟨first.position, by rw [← firstKind]⟩
    have symbol : readComparator ending (second :: third :: rest)
        = .ok ((comparison.comparator, second.position), third :: rest) :=
      readComparator_eq_ok_iff.mpr (by rw [← secondKind])
    have value : readLiteral ending (third :: rest) = .ok (comparison.literal, rest) :=
      readLiteral_eq_ok_iff.mpr ⟨third.position, by rw [← thirdKind]⟩
    have checked : checkDepth limits second.position (.test comparison)
        = .ok (.test comparison) := checkDepth_eq_ok_iff.mpr ⟨rfl, fits⟩
    simp only [readComparison, List.cons_append, List.nil_append, field, symbol, value, checked,
      bind, Except.bind, pure, Except.pure]
    rfl

theorem accepts_comparison (limits : Limits) (ending : Nat) :
    Accepts (comparison limits ending) limits Comparison.kinds Rule.test fun _ => True := by
  intro tokens measured rest
  have spec : readComparison limits ending tokens = .ok (measured, rest) ↔ _ :=
    readComparison_eq_ok_iff
  simpa only [comparison, and_true] using spec

section

variable {α : Type} {limits : Limits} {connective : Connective} {kinds : α → List TokenKind}
  {rule : α → Rule} {operand : TokenReader MeasuredRule} {Follows : List Token → Prop}

theorem continueChain_of_not_opens {tokens : List Token} (sofar : MeasuredRule)
    (stops : ¬Opens connective tokens) :
    continueChain limits connective operand sofar tokens = .ok (sofar, tokens) := by
  cases tokens with
  | nil => rw [continueChain]
  | cons token rest =>
      have other : token.kind ≠ .connective connective := by
        intro same
        exact stops (by simp [Opens, same])
      rw [continueChain, if_neg other]

theorem continueChain_of_opens {position : Nat} {rest after : List Token}
    {sofar right : MeasuredRule} (read : operand.read rest = .ok (right, after)) :
    continueChain limits connective operand sofar (⟨.connective connective, position⟩ :: rest) =
      (checkDepth limits position (.join connective sofar right)).bind fun joined =>
        continueChain limits connective operand joined after := by
  rw [continueChain, if_pos rfl]
  split
  · simp_all
  · rename_i other otherAfter same
    rw [read] at same
    simp only [Except.ok.injEq, Prod.mk.injEq] at same
    obtain ⟨rfl, rfl⟩ := same
    cases checkDepth limits position (.join connective sofar right) <;> rfl

theorem exists_of_continueChain (accepts : Accepts operand limits kinds rule Follows)
    {sofar measured : MeasuredRule} {tokens rest : List Token}
    (fits : sofar.rule.depth ≤ limits.maxDepth) (follows : Follows tokens)
    (read : continueChain limits connective operand sofar tokens = .ok (measured, rest)) :
    ∃ (things : List α) (taken : List Token), tokens = taken ++ rest ∧
      taken.map Token.kind = things.flatMap (fun next => .connective connective :: kinds next) ∧
      measured.rule = things.foldl (fun left next => .join connective left (rule next)) sofar.rule ∧
      measured.rule.depth ≤ limits.maxDepth ∧ Follows rest ∧ ¬Opens connective rest := by
  fun_induction continueChain limits connective operand sofar tokens with
  | case1 sofar =>
      simp only [Except.ok.injEq, Prod.mk.injEq] at read
      obtain ⟨rfl, rfl⟩ := read
      exact ⟨[], [], rfl, rfl, rfl, fits, follows, by simp [Opens]⟩
  | case2 => simp at read
  | case3 => simp at read
  | case4 sofar position more right after found joined checked shorter ih =>
      obtain ⟨thing, taken, rfl, spelled, rfl, _, operandFollows⟩ := (accepts _ _ _).mp found
      obtain ⟨rfl, joinedFits⟩ := checkDepth_eq_ok_iff.mp checked
      obtain ⟨things, later, rfl, laterSpelled, same, wholeFits, restFollows, stops⟩ :=
        ih joinedFits operandFollows read
      refine ⟨thing :: things, ⟨.connective connective, position⟩ :: (taken ++ later), ?_, ?_, ?_,
        wholeFits, restFollows, stops⟩
      · simp
      · simp [spelled, laterSpelled]
      · rw [same]
        rfl
  | case5 sofar kind position more other =>
      simp only [Except.ok.injEq, Prod.mk.injEq] at read
      obtain ⟨rfl, rfl⟩ := read
      exact ⟨[], [], rfl, rfl, rfl, fits, follows, by simpa [Opens] using other⟩

theorem follows_append
    (between : ∀ position tokens, Follows (⟨.connective connective, position⟩ :: tokens))
    {rest : List Token} (follows : Follows rest) {things : List α} {taken : List Token}
    (spelled : taken.map Token.kind =
      things.flatMap fun next => .connective connective :: kinds next) :
    Follows (taken ++ rest) := by
  cases things with
  | nil =>
      rw [List.flatMap_nil, List.map_eq_nil_iff] at spelled
      subst spelled
      exact follows
  | cons next things =>
      rw [List.flatMap_cons, List.cons_append, List.map_eq_cons_iff] at spelled
      obtain ⟨⟨_, position⟩, _, rfl, rfl, _⟩ := spelled
      exact between position _

theorem continueChain_eq_ok (accepts : Accepts operand limits kinds rule Follows)
    (between : ∀ position tokens, Follows (⟨.connective connective, position⟩ :: tokens))
    {rest : List Token} (follows : Follows rest) (stops : ¬Opens connective rest) (things : List α)
    (sofar : MeasuredRule) {taken : List Token}
    (spelled : taken.map Token.kind =
      things.flatMap fun next => .connective connective :: kinds next)
    (fits : (things.foldl (fun left next => Rule.join connective left (rule next))
      sofar.rule).depth ≤ limits.maxDepth) :
    continueChain limits connective operand sofar (taken ++ rest) =
      .ok (.ofRule (things.foldl (fun left next => .join connective left (rule next)) sofar.rule),
        rest) := by
  induction things generalizing taken sofar with
  | nil =>
      rw [List.flatMap_nil, List.map_eq_nil_iff] at spelled
      subst spelled
      rw [List.nil_append, continueChain_of_not_opens sofar stops, List.foldl_nil,
        ← MeasuredRule.eq_ofRule]
  | cons thing things ih =>
      rw [List.flatMap_cons, List.cons_append, List.map_eq_cons_iff] at spelled
      obtain ⟨⟨_, position⟩, others, rfl, rfl, othersSpelled⟩ := spelled
      obtain ⟨own, later, rfl, ownSpelled, laterSpelled⟩ := List.map_eq_append_iff.mp othersSpelled
      rw [List.foldl_cons] at fits
      have joinedFits : (Rule.join connective sofar.rule (rule thing)).depth ≤ limits.maxDepth :=
        Nat.le_trans (Rule.depth_le_foldl connective rule _ things) fits
      have ownFits : (rule thing).depth ≤ limits.maxDepth := by
        rw [Rule.depth_join] at joinedFits
        omega
      have laterFollows : Follows (later ++ rest) := follows_append between follows laterSpelled
      have read : operand.read (own ++ (later ++ rest)) =
          .ok (.ofRule (rule thing), later ++ rest) :=
        (accepts _ _ _).mpr ⟨thing, own, rfl, ownSpelled, rfl, ownFits, laterFollows⟩
      have checked : checkDepth limits position (.join connective sofar (.ofRule (rule thing))) =
          .ok (.join connective sofar (.ofRule (rule thing))) :=
        checkDepth_eq_ok_iff.mpr ⟨rfl, joinedFits⟩
      rw [List.cons_append, List.append_assoc, continueChain_of_opens read, checked]
      exact ih _ laterSpelled fits

/-- A chain accepts one or more operands with its connective between them, and stops where an operand
may stop and the connective does not come next. -/
theorem accepts_chain (accepts : Accepts operand limits kinds rule Follows)
    (between : ∀ position tokens, Follows (⟨.connective connective, position⟩ :: tokens)) :
    Accepts (chain limits connective operand) limits (Several.spelled connective kinds)
      (Several.joined connective rule) fun rest => Follows rest ∧ ¬Opens connective rest := by
  intro tokens measured rest
  constructor
  · intro read
    simp only [chain, bind_eq_ok_iff, Prod.exists] at read
    obtain ⟨first, afterFirst, found, continued⟩ := read
    obtain ⟨thing, taken, rfl, spelled, rfl, fits, follows⟩ := (accepts _ _ _).mp found
    obtain ⟨things, later, rfl, laterSpelled, same, wholeFits, restFollows, stops⟩ :=
      exists_of_continueChain accepts fits follows continued
    refine ⟨⟨thing, things⟩, taken ++ later, ?_, ?_, ?_, ?_, restFollows, stops⟩
    · rw [List.append_assoc]
    · simp [Several.spelled, spelled, laterSpelled]
    · rw [MeasuredRule.eq_ofRule measured, same]
      rfl
    · rw [same] at wholeFits
      exact wholeFits
  · rintro ⟨⟨thing, things⟩, taken, rfl, spelled, rfl, fits, follows, stops⟩
    obtain ⟨own, later, rfl, ownSpelled, laterSpelled⟩ := List.map_eq_append_iff.mp spelled
    have ownFits : (rule thing).depth ≤ limits.maxDepth :=
      Nat.le_trans (Rule.depth_le_foldl connective rule (rule thing) things) fits
    have laterFollows : Follows (later ++ rest) := follows_append between follows laterSpelled
    have read : operand.read (own ++ (later ++ rest)) =
        .ok (.ofRule (rule thing), later ++ rest) :=
      (accepts _ _ _).mpr ⟨thing, own, rfl, ownSpelled, rfl, ownFits, laterFollows⟩
    have continued := continueChain_eq_ok accepts between follows stops things
      (.ofRule (rule thing)) laterSpelled fits
    simp only [chain, List.append_assoc, read, bind, Except.bind, continued]
    rfl

end

theorem accepts_conjunction (limits : Limits) (ending : Nat) :
    Accepts (conjunction limits ending) limits (Several.spelled .and Comparison.kinds)
      (Several.joined .and Rule.test) fun rest => True ∧ ¬Opens .and rest :=
  accepts_chain (accepts_comparison limits ending) fun _ _ => True.intro

theorem accepts_disjunction (limits : Limits) (ending : Nat) :
    Accepts (disjunction limits ending) limits groupKinds
      (Several.joined .or (Several.joined .and Rule.test))
      fun rest => (True ∧ ¬Opens .and rest) ∧ ¬Opens .or rest :=
  accepts_chain (accepts_conjunction limits ending) fun _ _ => ⟨True.intro, by simp [Opens]⟩

end Grammar

/-! ### Whole rules -/

namespace Rule

theorem ofTokens_eq_ok_iff_groups {limits : Limits} {ending : Nat} {tokens : List Token}
    {rule : Rule} :
    ofTokens limits ending tokens = .ok rule ↔
      ∃ groups, tokens.map Token.kind = groupKinds groups ∧
        rule = Several.joined .or (Several.joined .and Rule.test) groups ∧
        rule.depth ≤ limits.maxDepth := by
  have whole : ofTokens limits ending tokens = .ok rule ↔
      ∃ measured, (Grammar.disjunction limits ending).read tokens = .ok (measured, []) ∧
        measured.rule = rule := by
    simp only [ofTokens, bind_eq_ok_iff, Prod.exists]
    constructor
    · rintro ⟨measured, rest, read, accepted⟩
      cases rest with
      | nil => exact ⟨measured, read, Except.ok.inj accepted⟩
      | cons token rest => cases accepted
    · rintro ⟨measured, read, rfl⟩
      exact ⟨measured, [], read, rfl⟩
  rw [whole]
  constructor
  · rintro ⟨measured, read, rfl⟩
    obtain ⟨groups, taken, rfl, spelled, rfl, fits, _⟩ :=
      (Grammar.accepts_disjunction limits ending _ _ _).mp read
    rw [List.append_nil]
    exact ⟨groups, spelled, rfl, fits⟩
  · rintro ⟨groups, spelled, rfl, fits⟩
    refine ⟨_, (Grammar.accepts_disjunction limits ending _ _ _).mpr
      ⟨groups, tokens, (List.append_nil tokens).symm, spelled, rfl, fits, ?_⟩, rfl⟩
    simp [Grammar.Opens]

/-- Tokens are a rule within the limits just if they are a phrase of that rule, and then the rule
holds them all in their order. -/
theorem ofTokens_eq_ok_iff (limits : Limits) (ending : Nat) (tokens : List Token) (rule : Rule) :
    (ofTokens limits ending tokens = .ok rule ↔
      ∃ phrase : Phrase, tokens.map Token.kind = phrase.kinds ∧ rule = phrase.rule ∧
        rule.depth ≤ limits.maxDepth) ∧
    (ofTokens limits ending tokens = .ok rule → rule.kinds = tokens.map Token.kind) := by
  have accepted : ofTokens limits ending tokens = .ok rule ↔
      ∃ phrase : Phrase, tokens.map Token.kind = phrase.kinds ∧ rule = phrase.rule ∧
        rule.depth ≤ limits.maxDepth := by
    rw [ofTokens_eq_ok_iff_groups]
    constructor
    · rintro ⟨groups, spelled, same, fits⟩
      obtain ⟨phrase, rfl⟩ := Phrase.exists_groups_eq groups
      exact ⟨phrase, spelled.trans phrase.groupKinds_groups, same, fits⟩
    · rintro ⟨phrase, spelled, same, fits⟩
      exact ⟨phrase.groups, spelled.trans phrase.groupKinds_groups.symm, same, fits⟩
  refine ⟨accepted, ?_⟩
  intro read
  obtain ⟨phrase, spelled, rfl, _⟩ := accepted.mp read
  rw [phrase.kinds_rule, spelled]

theorem ofTokens_eq_ok_or_before_and :
    let tokens : List Token := [⟨.identifier "a", 0⟩, ⟨.symbols "=", 2⟩, ⟨.literal (.int 1), 4⟩,
      ⟨.connective .or, 6⟩, ⟨.identifier "b", 9⟩, ⟨.symbols "<", 11⟩, ⟨.literal (.int 2), 13⟩,
      ⟨.connective .and, 15⟩, ⟨.identifier "c", 19⟩, ⟨.symbols "!=", 21⟩, ⟨.literal (.text ""), 24⟩]
    let rule := join .or (test ⟨"a", .eq, .int 1⟩)
      (join .and (test ⟨"b", .lt, .int 2⟩) (test ⟨"c", .ne, .text ""⟩))
    ofTokens ⟨3⟩ 26 tokens = .ok rule ∧ rule.kinds = tokens.map Token.kind := by
  intro tokens rule
  have phrase : ∃ phrase : Phrase, tokens.map Token.kind = phrase.kinds ∧ rule = phrase.rule ∧
      rule.depth ≤ 3 :=
    ⟨⟨⟨"a", .eq, .int 1⟩, [(.or, ⟨"b", .lt, .int 2⟩), (.and, ⟨"c", .ne, .text ""⟩)]⟩, rfl, rfl,
      by decide⟩
  have read := (ofTokens_eq_ok_iff ⟨3⟩ 26 tokens rule).1.mpr phrase
  exact ⟨read, (ofTokens_eq_ok_iff ⟨3⟩ 26 tokens rule).2 read⟩

end Rule

end FieldRules
