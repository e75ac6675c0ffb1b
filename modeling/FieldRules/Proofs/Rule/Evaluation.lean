import FieldRules.Context

/-!
Evaluation sees of a rule only its comparisons, from left to right: the first that fails gives the
error, and if none fails the result is the formula of the connectives over the truth of each.
-/

namespace FieldRules

open Text

theorem Number.ofText?_eq_none_iff {text : List Char} :
    ofText? text = none ↔
      int64OfText? (trim text) = none ∧ Binary64.finiteOfText? (trim text) = none := by
  rw [ofText?]
  cases int64OfText? (trim text) with
  | some value => simp
  | none => simp

theorem Scalar.number?_eq_none_iff {literal : Scalar} :
    literal.number? = none ↔ ∃ text, literal = .text text ∧
      int64OfText? (trim text.toList) = none ∧ Binary64.finiteOfText? (trim text.toList) = none := by
  cases literal with
  | int value => simp [number?]
  | float value => simp [number?]
  | text value => simp [number?, Number.ofText?_eq_none_iff]

theorem Scalar.exists_number?_of_kind {value : Scalar} (numeric : value.kind ≠ .string) :
    ∃ actual, value.number? = some actual := by
  cases value with
  | int value => exact ⟨_, rfl⟩
  | float value => exact ⟨_, rfl⟩
  | text value => exact absurd rfl numeric

namespace Comparison

variable {context : Context} {comparison : Comparison}

inductive Fails (context : Context) (comparison : Comparison) : EvalError → Prop
  | absent : context.get? comparison.field = none →
      Fails context comparison (.unknownField comparison.field)
  | mismatch {value : Scalar} {text : String} : context.get? comparison.field = some value →
      value.kind ≠ .string → comparison.literal = .text text →
      int64OfText? (trim text.toList) = none → Binary64.finiteOfText? (trim text.toList) = none →
      Fails context comparison (.typeMismatch comparison.field value.kind comparison.literal)

/-- The truth of a comparison that does not fail: a text is compared with the text of the literal, and
a number with the number that the literal is or writes. -/
def holds (context : Context) (comparison : Comparison) : Bool :=
  match context.get? comparison.field with
  | none => false
  | some (.text actual) =>
      comparison.comparator.accepts (some (compare actual comparison.literal.plainText))
  | some number =>
      comparison.comparator.accepts do
        let actual ← number.number?
        let wanted ← comparison.literal.number?
        actual.compare? wanted

theorem fails_iff_of_absent (missing : context.get? comparison.field = none) {error : EvalError} :
    comparison.Fails context error ↔ error = .unknownField comparison.field := by
  constructor
  · intro fails
    cases fails with
    | absent => rfl
    | mismatch present => simp [missing] at present
  · rintro rfl
    exact .absent missing

theorem not_fails_of_text {text : String} (found : context.get? comparison.field = some (.text text))
    (error : EvalError) : ¬comparison.Fails context error := by
  intro fails
  cases fails with
  | absent missing => simp [found] at missing
  | mismatch other numeric =>
      rw [found] at other
      cases other
      exact numeric rfl

theorem fails_iff_of_number {value : Scalar} (found : context.get? comparison.field = some value)
    (numeric : value.kind ≠ .string) {error : EvalError} :
    comparison.Fails context error ↔ comparison.literal.number? = none ∧
      error = .typeMismatch comparison.field value.kind comparison.literal := by
  rw [Scalar.number?_eq_none_iff]
  constructor
  · intro fails
    cases fails with
    | absent missing => simp [found] at missing
    | mismatch other _ quoted noInteger noFloat =>
        rw [found] at other
        cases other
        exact ⟨⟨_, quoted, noInteger, noFloat⟩, rfl⟩
  · rintro ⟨⟨text, quoted, noInteger, noFloat⟩, rfl⟩
    exact .mismatch found numeric quoted noInteger noFloat

theorem evaluateAt_of_number {value : Scalar} {actual : Number} (numeric : value.kind ≠ .string)
    (own : value.number? = some actual) :
    comparison.evaluateAt value = comparison.evaluateNumber value.kind actual := by
  cases value with
  | int value => cases own; rfl
  | float value => cases own; rfl
  | text value => exact absurd rfl numeric

theorem holds_of_number {value : Scalar} {actual wanted : Number}
    (found : context.get? comparison.field = some value) (numeric : value.kind ≠ .string)
    (own : value.number? = some actual) (literal : comparison.literal.number? = some wanted) :
    comparison.holds context = comparison.comparator.accepts (actual.compare? wanted) := by
  cases value with
  | int value => simp [holds, found, own, literal]
  | float value => simp [holds, found, own, literal]
  | text value => exact absurd rfl numeric

theorem evaluate_cases (context : Context) (comparison : Comparison) :
    (∃ error, comparison.evaluate context = .error error ∧
      ∀ other, comparison.Fails context other ↔ other = error) ∨
    (comparison.evaluate context = .ok (comparison.holds context) ∧
      ∀ error, ¬comparison.Fails context error) := by
  cases found : context.get? comparison.field with
  | none =>
      exact Or.inl ⟨.unknownField comparison.field, by simp [evaluate, found],
        fun other => fails_iff_of_absent found⟩
  | some value =>
      have evaluated : comparison.evaluate context = comparison.evaluateAt value := by
        simp only [evaluate, found]
      by_cases numeric : value.kind = .string
      · cases value with
        | int value => simp [Scalar.kind] at numeric
        | float value => simp [Scalar.kind] at numeric
        | text text =>
            refine Or.inr ⟨?_, not_fails_of_text found⟩
            simp [evaluated, evaluateAt, holds, found]
      -- Whether a number fails is decided by the literal alone, whatever the number is.
      · obtain ⟨actual, own⟩ := Scalar.exists_number?_of_kind numeric
        rw [evaluated, evaluateAt_of_number numeric own]
        cases literal : comparison.literal.number? with
        | none =>
            refine Or.inl ⟨.typeMismatch comparison.field value.kind comparison.literal,
              by simp only [evaluateNumber, literal], ?_⟩
            intro other
            simp [fails_iff_of_number found numeric, literal]
        | some wanted =>
            refine Or.inr ⟨?_, ?_⟩
            · simp only [evaluateNumber, literal, holds_of_number found numeric own literal]
            · intro error
              simp [fails_iff_of_number found numeric, literal]

theorem evaluate_eq_error_iff {error : EvalError} :
    comparison.evaluate context = .error error ↔ comparison.Fails context error := by
  rcases evaluate_cases context comparison with ⟨own, evaluated, fails⟩ | ⟨evaluated, holds⟩
  · rw [evaluated, fails]
    simp [eq_comm]
  · simp [evaluated, holds]

theorem evaluate_eq_ok_iff {value : Bool} :
    comparison.evaluate context = .ok value ↔
      (∀ error, ¬comparison.Fails context error) ∧ value = comparison.holds context := by
  rcases evaluate_cases context comparison with ⟨own, evaluated, fails⟩ | ⟨evaluated, holds⟩
  · simp [evaluated, fails]
  · simp [evaluated, holds, eq_comm]

end Comparison

inductive FailFirst (context : Context) : List Comparison → EvalError → Prop
  | here {comparison : Comparison} {error : EvalError} (rest : List Comparison) :
      comparison.Fails context error → FailFirst context (comparison :: rest) error
  | later {comparison : Comparison} {rest : List Comparison} {error : EvalError} :
      (∀ own, ¬comparison.Fails context own) → FailFirst context rest error →
      FailFirst context (comparison :: rest) error

theorem failFirst_append_iff {context : Context} {before after : List Comparison}
    {error : EvalError} :
    FailFirst context (before ++ after) error ↔ FailFirst context before error ∨
      (∀ comparison ∈ before, ∀ own, ¬comparison.Fails context own) ∧
        FailFirst context after error := by
  induction before with
  | nil =>
      constructor
      · intro fails
        exact Or.inr ⟨by simp, fails⟩
      · rintro (fails | ⟨_, fails⟩)
        · cases fails
        · exact fails
  | cons comparison before ih =>
      constructor
      · intro fails
        cases fails with
        | here _ own => exact Or.inl (.here before own)
        | later holds others =>
            rcases ih.mp others with first | ⟨allHold, second⟩
            · exact Or.inl (.later holds first)
            · exact Or.inr ⟨List.forall_mem_cons.mpr ⟨holds, allHold⟩, second⟩
      · rintro (fails | ⟨allHold, fails⟩)
        · cases fails with
          | here _ own => exact .here _ own
          | later holds others => exact .later holds (ih.mpr (Or.inl others))
        · obtain ⟨holds, othersHold⟩ := List.forall_mem_cons.mp allHold
          exact .later holds (ih.mpr (Or.inr ⟨othersHold, fails⟩))

namespace Rule

def formula (truth : Comparison → Bool) : Rule → Bool
  | test comparison => truth comparison
  | join .and left right => left.formula truth && right.formula truth
  | join .or left right => left.formula truth || right.formula truth

theorem formula_join (truth : Comparison → Bool) (connective : Connective) (left right : Rule) :
    (join connective left right).formula truth =
      connective.apply (left.formula truth) (right.formula truth) := by
  cases connective <;> rfl

theorem evaluate_join (connective : Connective) (left right : Rule) (context : Context) :
    (join connective left right).evaluate context =
      (left.evaluate context).bind fun first =>
        (right.evaluate context).map (connective.apply first) := by
  rw [evaluate]
  cases left.evaluate context with
  | error error => rfl
  | ok first => cases right.evaluate context <;> rfl

theorem evaluate_join_eq_error_iff {connective : Connective} {left right : Rule} {context : Context}
    {error : EvalError} :
    (join connective left right).evaluate context = .error error ↔
      left.evaluate context = .error error ∨
        (∃ value, left.evaluate context = .ok value) ∧ right.evaluate context = .error error := by
  rw [evaluate_join]
  cases left.evaluate context <;> cases right.evaluate context <;> simp [Except.bind, Except.map]

theorem evaluate_join_eq_ok_iff {connective : Connective} {left right : Rule} {context : Context}
    {value : Bool} :
    (join connective left right).evaluate context = .ok value ↔
      ∃ first second, left.evaluate context = .ok first ∧ right.evaluate context = .ok second ∧
        value = connective.apply first second := by
  rw [evaluate_join]
  cases left.evaluate context <;> cases right.evaluate context <;>
    simp [Except.bind, Except.map, eq_comm]

theorem evaluate_eq_ok_iff {rule : Rule} {context : Context} {value : Bool} :
    rule.evaluate context = .ok value ↔
      (∀ comparison ∈ rule.comparisons, ∀ error, ¬comparison.Fails context error) ∧
        value = rule.formula (Comparison.holds context) := by
  induction rule generalizing value with
  | test comparison =>
      rw [evaluate, Comparison.evaluate_eq_ok_iff, comparisons_test, List.forall_mem_singleton]
      rfl
  | join connective left right leftValue rightValue =>
      rw [evaluate_join_eq_ok_iff, comparisons_join, List.forall_mem_append, formula_join]
      simp only [leftValue, rightValue]
      constructor
      · rintro ⟨_, _, ⟨leftHold, rfl⟩, ⟨rightHold, rfl⟩, rfl⟩
        exact ⟨⟨leftHold, rightHold⟩, rfl⟩
      · rintro ⟨⟨leftHold, rightHold⟩, rfl⟩
        exact ⟨_, _, ⟨leftHold, rfl⟩, ⟨rightHold, rfl⟩, rfl⟩

theorem evaluate_eq_error_iff {rule : Rule} {context : Context} {error : EvalError} :
    rule.evaluate context = .error error ↔ FailFirst context rule.comparisons error := by
  induction rule with
  | test comparison =>
      rw [evaluate, Comparison.evaluate_eq_error_iff, comparisons_test]
      constructor
      · exact .here []
      · intro fails
        cases fails with
        | here _ own => exact own
        | later _ others => cases others
  | join connective left right leftError rightError =>
      have leftHolds : (∃ value, left.evaluate context = .ok value) ↔
          ∀ comparison ∈ left.comparisons, ∀ own, ¬comparison.Fails context own := by
        simp [evaluate_eq_ok_iff]
      rw [evaluate_join_eq_error_iff, leftError, rightError, leftHolds, comparisons_join,
        failFirst_append_iff]

/-- The comparisons of a rule, from left to right, determine its evaluation: the error is that of the
first comparison that fails, and if none fails the value is that of the formula. A comparison of a
text never fails. -/
theorem evaluate_determined_by_comparisons (rule : Rule) (context : Context) :
    (∀ error, rule.evaluate context = .error error ↔
      FailFirst context rule.comparisons error) ∧
    (∀ value, rule.evaluate context = .ok value ↔
      (∀ comparison ∈ rule.comparisons, ∀ error, ¬comparison.Fails context error) ∧
        value = rule.formula (Comparison.holds context)) ∧
    ∀ comparison ∈ rule.comparisons, ∀ text, context.get? comparison.field = some (.text text) →
      (test comparison).evaluate context =
        .ok (comparison.comparator.accepts (some (compare text comparison.literal.plainText))) := by
  refine ⟨fun error => evaluate_eq_error_iff, fun value => evaluate_eq_ok_iff, ?_⟩
  intro comparison _ text found
  simp [evaluate, Comparison.evaluate, Comparison.evaluateAt, found]

theorem evaluate_determined_mismatch_before_absent :
    let context : Context := (Fields.empty.insert "a" (.text "x")).insert "b" (.int 2)
    let first : Comparison := ⟨"a", .le, .text "y"⟩
    let second : Comparison := ⟨"b", .gt, .text " two "⟩
    let rule := join .or (test first) (join .and (test second) (test ⟨"c", .eq, .int 1⟩))
    (test first).evaluate context = .ok true ∧
      rule.evaluate context = .error (.typeMismatch "b" .integer (.text " two ")) := by
  intro context first second rule
  have text : context.get? "a" = some (.text "x") := by decide
  have number : context.get? "b" = some (.int 2) := by decide
  have numeric : (Scalar.int 2).kind ≠ .string := by decide
  have noInteger : int64OfText? (trim " two ".toList) = none := by decide +kernel
  have noFloat : Binary64.finiteOfText? (trim " two ".toList) = none := by decide +kernel
  have mismatch : second.Fails context (.typeMismatch "b" .integer (.text " two ")) :=
    .mismatch number numeric rfl noInteger noFloat
  obtain ⟨errors, _, texts⟩ := evaluate_determined_by_comparisons rule context
  have isTrue : first.comparator.accepts (some (compare "x" first.literal.plainText)) = true := by
    decide
  refine ⟨?_, ?_⟩
  · rw [texts first (by simp [rule]) "x" text, isTrue]
  · exact (errors _).mpr (.later (Comparison.not_fails_of_text text) (.here _ mismatch))

end Rule

end FieldRules
