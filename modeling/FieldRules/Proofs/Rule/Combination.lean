import FieldRules.Proofs.Rule.Evaluation
import FieldRules.Proofs.Rule.RoundTrip
import FieldRules.Rule.Combination
import Mathlib.Data.List.Forall2
import Mathlib.Data.List.TakeWhile

/-!
Combining succeeds on sources that are rules, if those joined from the left are within the limits. The
combination is evaluated as its sources are, one after the other.
-/

namespace FieldRules

theorem MeasuredRule.within_eq_ok_iff {limits : Limits} {measured accepted : MeasuredRule} :
    measured.within limits = .ok accepted ↔
      accepted = measured ∧ measured.rule.depth ≤ limits.maxDepth := by
  rw [within, measured.depth_eq]
  split
  · simp_all
  · simp_all [eq_comm]

theorem Rule.parse_ne_ok_of_allBlank {limits : Limits} {source : String}
    (blank : Text.allBlank source.toList = true) (rule : Rule) : parse limits source ≠ .ok rule := by
  have trimmed : Text.trimStart source.toList = [] :=
    List.dropWhile_eq_nil_iff.mpr (List.all_eq_true.mp blank)
  intro read
  obtain ⟨tokens, scanned, accepted⟩ := parse_eq_ok_iff.mp read
  obtain ⟨placed, cut, rfl⟩ := Token.scan_eq_ok_iff.mp scanned
  rw [Lexeme.cut, Lexeme.cutFrom_of_trimStart_nil trimmed] at cut
  cases cut
  cases accepted

namespace RuleSource

def Denotes (limits : Limits) : RuleSource → Rule → Prop
  | text source, rule => Rule.parse limits source = .ok rule
  | tree own, rule => rule = own

theorem rule_eq_ok_iff {limits : Limits} {index : Nat} {source : RuleSource} {rule : Rule} :
    source.rule limits index = .ok rule ↔ source.Denotes limits rule := by
  cases source with
  | tree own => simp [RuleSource.rule, Denotes, eq_comm]
  | text source =>
      rw [RuleSource.rule, Denotes]
      split
      · rename_i blank
        simp [Rule.parse_ne_ok_of_allBlank blank rule]
      · exact mapError_eq_ok_iff

theorem measured_eq_ok_iff {limits : Limits} {index : Nat} {source : RuleSource}
    {measured : MeasuredRule} :
    source.measured limits index = .ok measured ↔
      source.Denotes limits measured.rule ∧ measured.rule.depth ≤ limits.maxDepth := by
  simp only [RuleSource.measured, bind_eq_ok_iff, mapError_eq_ok_iff, rule_eq_ok_iff,
    MeasuredRule.within_eq_ok_iff]
  constructor
  · rintro ⟨own, denotes, rfl, fits⟩
    exact ⟨denotes, fits⟩
  · rintro ⟨denotes, fits⟩
    exact ⟨measured.rule, denotes, measured.eq_ofRule, fits⟩

end RuleSource

namespace Rule

theorem combineOnto_eq_ok_iff {limits : Limits} {connective : Connective}
    {sofar measured : MeasuredRule} {index : Nat} {sources : List RuleSource}
    (fits : sofar.rule.depth ≤ limits.maxDepth) :
    combineOnto limits connective sofar index sources = .ok measured ↔
      ∃ rules, List.Forall₂ (RuleSource.Denotes limits) sources rules ∧
        measured.rule = rules.foldl (join connective) sofar.rule ∧
        measured.rule.depth ≤ limits.maxDepth := by
  induction sources generalizing sofar index with
  | nil =>
      simp only [combineOnto, Except.ok.injEq, List.forall₂_nil_left_iff, exists_eq_left,
        List.foldl_nil]
      constructor
      · rintro rfl
        exact ⟨rfl, fits⟩
      · rintro ⟨same, _⟩
        rw [sofar.eq_ofRule, measured.eq_ofRule, same]
  | cons source sources ih =>
      simp only [combineOnto, bind_eq_ok_iff, mapError_eq_ok_iff, RuleSource.measured_eq_ok_iff,
        MeasuredRule.within_eq_ok_iff]
      constructor
      · rintro ⟨right, ⟨denotes, _⟩, joined, ⟨rfl, joinedFits⟩, continued⟩
        obtain ⟨rules, others, same, wholeFits⟩ := (ih joinedFits).mp continued
        exact ⟨right.rule :: rules, .cons denotes others, same, wholeFits⟩
      · rintro ⟨rules, sourcesDenote, same, wholeFits⟩
        obtain ⟨right, rest, denotes, others, rfl⟩ := List.forall₂_cons_left_iff.mp sourcesDenote
        have joinedFits : (join connective sofar.rule right).depth ≤ limits.maxDepth := by
          rw [same] at wholeFits
          exact Nat.le_trans (depth_le_foldl connective id _ rest) wholeFits
        have rightFits : right.depth ≤ limits.maxDepth := by
          rw [depth_join] at joinedFits
          omega
        exact ⟨.ofRule right, ⟨denotes, rightFits⟩, _, ⟨rfl, joinedFits⟩,
          (ih joinedFits).mpr ⟨rest, others, same, wholeFits⟩⟩

/-- Combining gives the rules of the sources, at least one, joined from the left. -/
theorem combine_eq_ok_iff {limits : Limits} {connective : Connective} {sources : List RuleSource}
    {rule : Rule} :
    combine limits connective sources = .ok rule ↔
      ∃ first rest, List.Forall₂ (RuleSource.Denotes limits) sources (first :: rest) ∧
        rule = rest.foldl (join connective) first ∧ rule.depth ≤ limits.maxDepth := by
  cases sources with
  | nil =>
      simp [combine]
  | cons source sources =>
      simp only [combine, bind_eq_ok_iff, RuleSource.measured_eq_ok_iff, List.forall₂_cons]
      constructor
      · rintro ⟨first, ⟨denotes, fits⟩, combined, continued, accepted⟩
        cases accepted
        obtain ⟨rules, others, same, wholeFits⟩ := (combineOnto_eq_ok_iff fits).mp continued
        exact ⟨first.rule, rules, ⟨denotes, others⟩, same, wholeFits⟩
      · rintro ⟨first, rest, ⟨denotes, others⟩, rfl, wholeFits⟩
        have fits : first.depth ≤ limits.maxDepth :=
          Nat.le_trans (depth_le_foldl connective id first rest) wholeFits
        exact ⟨.ofRule first, ⟨denotes, fits⟩, .ofRule (rest.foldl (join connective) first),
          (combineOnto_eq_ok_iff fits).mpr ⟨rest, others, rfl, wholeFits⟩, rfl⟩

theorem comparisons_foldl_join (connective : Connective) (first : Rule) (rest : List Rule) :
    (rest.foldl (join connective) first).comparisons = (first :: rest).flatMap comparisons := by
  induction rest generalizing first with
  | nil => simp
  | cons next rest ih => simp [ih]

end Rule

def Connective.applyAll : Connective → List Bool → Bool
  | .and, values => values.all id
  | .or, values => values.any id

theorem Connective.applyAll_singleton (connective : Connective) (value : Bool) :
    connective.applyAll [value] = value := by
  cases connective <;> simp [applyAll]

theorem Connective.applyAll_apply (connective : Connective) (first second : Bool)
    (rest : List Bool) :
    connective.applyAll (connective.apply first second :: rest) =
      connective.applyAll (first :: second :: rest) := by
  cases connective with
  | and => simp [applyAll, apply, Bool.and_assoc]
  | or => simp [applyAll, apply, Bool.or_assoc]

namespace Rule

theorem evaluate_foldl_join (connective : Connective) (first : Rule) (rest : List Rule)
    (context : Context) :
    (rest.foldl (join connective) first).evaluate context =
      ((first :: rest).mapM fun rule : Rule => rule.evaluate context).map connective.applyAll := by
  induction rest generalizing first with
  | nil =>
      rw [List.foldl_nil, List.mapM_cons, List.mapM_nil]
      cases first.evaluate context with
      | error error => rfl
      | ok value => exact congrArg Except.ok (connective.applyAll_singleton value).symm
  | cons next rest ih =>
      rw [List.foldl_cons, ih, List.mapM_cons, List.mapM_cons, List.mapM_cons, evaluate_join]
      cases first.evaluate context with
      | error error => rfl
      | ok firstValue =>
          cases next.evaluate context with
          | error error => rfl
          | ok nextValue =>
              cases rest.mapM fun rule : Rule => rule.evaluate context with
              | error error => rfl
              | ok values =>
                  exact congrArg Except.ok (connective.applyAll_apply firstValue nextValue values)

/-- A combination fails with the error of the first source whose rule fails, and is else true if all
the sources are ("and") or one of them is ("or"). One source alone is its own combination, and the
comparisons are those of the sources in their order. -/
theorem evaluate_combine {limits : Limits} {connective : Connective} {sources : List RuleSource}
    {rule : Rule} (combined : combine limits connective sources = .ok rule) :
    ∃ rules, List.Forall₂ (RuleSource.Denotes limits) sources rules ∧
      (∀ context, rule.evaluate context =
        (rules.mapM fun own : Rule => own.evaluate context).map connective.applyAll) ∧
      (∀ own, rules = [own] → rule = own) ∧
      rule.comparisons = rules.flatMap comparisons := by
  obtain ⟨first, rest, denote, rfl, _⟩ := combine_eq_ok_iff.mp combined
  refine ⟨first :: rest, denote, evaluate_foldl_join connective first rest, ?_,
    comparisons_foldl_join connective first rest⟩
  intro own single
  cases single
  rfl

theorem evaluate_combine_text_and_trees :
    let written := test ⟨"a", .eq, .int 1⟩
    let second := join .and (test ⟨"b", .eq, .int 1⟩) (test ⟨"a", .eq, .int 1⟩)
    let third := test ⟨"c", .eq, .int 1⟩
    let whole := join .or (join .or written second) third
    combine ⟨4⟩ .or [.text written.text, .tree second, .tree third] = .ok whole ∧
      whole.evaluate (Fields.empty.insert "a" (.int 1)) = .error (.unknownField "b") ∧
      whole.comparisons = written.comparisons ++ second.comparisons ++ third.comparisons := by
  intro written second third whole
  have writable : written.IsWritable := by
    have own : (Comparison.mk "a" .eq (.int 1)).IsWritable :=
      ⟨by decide +kernel, by decide, by rintro x ⟨⟩⟩
    simpa [IsWritable, written] using own
  have read : parse ⟨4⟩ written.text = .ok written :=
    parse_text_of_isPlain (by decide) writable (by decide)
  have combined : combine ⟨4⟩ .or [.text written.text, .tree second, .tree third] = .ok whole :=
    combine_eq_ok_iff.mpr
      ⟨written, [second, third], .cons read (.cons rfl (.cons rfl .nil)), rfl, by decide⟩
  obtain ⟨rules, denote, evaluated, _, comparisons⟩ := evaluate_combine combined
  obtain ⟨first, _, denotes, denoteTrees, rfl⟩ := List.forall₂_cons_left_iff.mp denote
  obtain ⟨_, _, rfl, denoteLast, rfl⟩ := List.forall₂_cons_left_iff.mp denoteTrees
  obtain ⟨_, _, rfl, ⟨⟩, rfl⟩ := List.forall₂_cons_left_iff.mp denoteLast
  have same : first = written := Except.ok.inj (denotes.symm.trans read)
  subst same
  refine ⟨combined, (evaluated _).trans rfl, ?_⟩
  rw [comparisons]
  rfl

end Rule

end FieldRules
