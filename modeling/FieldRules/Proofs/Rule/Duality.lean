import FieldRules.Proofs.Binary64.Text
import FieldRules.Proofs.Fields
import FieldRules.Proofs.Rule.Evaluation

/-!
Duality. A rule whose connectives are exchanged and whose comparators are turned into their
complements has the opposite value, as long as no NaN is compared, and fails just as the rule does.
-/

namespace FieldRules

namespace Binary64

theorem magnitude_ofMagnitude (negative : Bool) {magnitude : Nat} (small : magnitude < signBit) :
    (ofMagnitude negative magnitude).magnitude = magnitude := by
  rw [Binary64.magnitude, ofMagnitude, UInt64.toNat_ofNat']
  simp only [signBit] at small ⊢
  cases negative with
  | true =>
      rw [if_pos rfl]
      omega
  | false =>
      rw [if_neg Bool.false_ne_true]
      omega

theorem isNaN_ofInt (value : Int) : (ofInt value).isNaN = false := by
  have bounded (rounded : Nat) : min rounded infinityMagnitude ≤ infinityMagnitude :=
    Nat.min_le_right _ _
  have small : infinityMagnitude < signBit := by decide
  rw [ofInt, ofRatio, isNaN, magnitude_ofMagnitude _ (Nat.lt_of_le_of_lt (bounded _) small)]
  exact decide_eq_false (Nat.not_lt.mpr (bounded _))

theorem exists_compare?_eq_some {x y : Binary64} (left : x.isNaN = false) (right : y.isNaN = false) :
    ∃ order, x.compare? y = some order :=
  ⟨compare x.place y.place, by simp [compare?, left, right]⟩

end Binary64

theorem Number.exists_compare?_eq_some {a b : Number} (left : a.toBinary64.isNaN = false)
    (right : b.toBinary64.isNaN = false) : ∃ order, a.compare? b = some order := by
  have asFloats := Binary64.exists_compare?_eq_some left right
  cases a with
  | float x => exact asFloats
  | int i =>
      cases b with
      | float y => exact asFloats
      | int j => exact ⟨_, rfl⟩

namespace Scalar

def isNaN : Scalar → Bool
  | float x => x.isNaN
  | _ => false

theorem isNaN_of_number? {value : Scalar} {number : Number} (ordered : value.isNaN = false)
    (own : value.number? = some number) : number.toBinary64.isNaN = false := by
  cases value with
  | int value =>
      obtain rfl := Option.some.inj own
      exact Binary64.isNaN_ofInt _
  | float x =>
      obtain rfl := Option.some.inj own
      exact ordered
  | text value =>
      rw [number?, Number.ofText?] at own
      split at own
      · obtain rfl := Option.some.inj own
        exact Binary64.isNaN_ofInt _
      · obtain ⟨x, read, rfl⟩ := Option.map_eq_some_iff.mp own
        exact Binary64.isNaN_eq_false (Option.filter_eq_some_iff.mp read).2

end Scalar

def Comparator.complement : Comparator → Comparator
  | eq => ne
  | ne => eq
  | gt => le
  | ge => lt
  | lt => ge
  | le => gt

theorem Comparator.accepts_complement (comparator : Comparator) (order : Ordering) :
    comparator.complement.accepts (some order) = !comparator.accepts (some order) := by
  cases comparator <;> cases order <;> rfl

def Connective.dual : Connective → Connective
  | and => or
  | or => and

theorem Connective.apply_dual (connective : Connective) (first second : Bool) :
    connective.dual.apply (!first) (!second) = !connective.apply first second := by
  cases connective with
  | and => exact (Bool.not_and first second).symm
  | or => exact (Bool.not_or first second).symm

namespace Comparison

def complement (comparison : Comparison) : Comparison :=
  { comparison with comparator := comparison.comparator.complement }

variable {comparison : Comparison} (literal : comparison.literal.isNaN = false)

include literal

theorem evaluateNumber_complement (kind : Scalar.Kind) {actual : Number}
    (ordered : actual.toBinary64.isNaN = false) :
    comparison.complement.evaluateNumber kind actual =
      (comparison.evaluateNumber kind actual).map not := by
  have same : comparison.complement.literal = comparison.literal := rfl
  rw [evaluateNumber, evaluateNumber, same]
  cases number : comparison.literal.number? with
  | none => rfl
  | some wanted =>
      obtain ⟨order, compared⟩ :=
        Number.exists_compare?_eq_some ordered (Scalar.isNaN_of_number? literal number)
      simp only [compared, complement, Comparator.accepts_complement, Except.map]

theorem evaluateAt_complement {value : Scalar} (ordered : value.isNaN = false) :
    comparison.complement.evaluateAt value = (comparison.evaluateAt value).map not := by
  cases value with
  | int actual => exact evaluateNumber_complement literal .integer (Binary64.isNaN_ofInt _)
  | float actual => exact evaluateNumber_complement literal .float ordered
  | text actual => exact congrArg Except.ok (Comparator.accepts_complement _ _)

theorem evaluate_complement {context : Context}
    (values : ∀ name value, context.get? name = some value → value.isNaN = false) :
    comparison.complement.evaluate context = (comparison.evaluate context).map not := by
  have same : comparison.complement.field = comparison.field := rfl
  rw [evaluate, evaluate, same]
  cases found : context.get? comparison.field with
  | none => rfl
  | some value => exact evaluateAt_complement literal (values _ value found)

end Comparison

namespace Rule

/-- The rule with "and" and "or" exchanged and every comparator replaced by its complement. -/
def dual : Rule → Rule
  | test comparison => test comparison.complement
  | join connective left right => join connective.dual left.dual right.dual

/-- The dual of a rule has the opposite value, and the same error where the rule has one. -/
theorem evaluate_dual {rule : Rule} {context : Context}
    (literals : ∀ comparison ∈ rule.comparisons, comparison.literal.isNaN = false)
    (values : ∀ name value, context.get? name = some value → value.isNaN = false) :
    rule.dual.evaluate context = (rule.evaluate context).map not := by
  induction rule with
  | test comparison =>
      exact Comparison.evaluate_complement (literals comparison List.mem_cons_self) values
  | join connective left right leftDual rightDual =>
      rw [comparisons_join, List.forall_mem_append] at literals
      rw [dual, evaluate_join, evaluate_join, leftDual literals.1, rightDual literals.2]
      cases left.evaluate context with
      | error error => rfl
      | ok first =>
          cases right.evaluate context with
          | error error => rfl
          | ok second => exact congrArg Except.ok (connective.apply_dual first second)

theorem evaluate_dual_mixed :
    let context : Context := ((Fields.empty.insert "age" (.int 35)).insert "rate"
      (.float (Binary64.zero true))).insert "name" (.text "x")
    let rule := join .or (join .and (test ⟨"age", .gt, .text " 30.5 "⟩) (test ⟨"rate", .eq, .int 0⟩))
      (test ⟨"name", .ge, .text "y"⟩)
    (∀ comparison ∈ rule.comparisons, comparison.literal.isNaN = false) ∧
      (∀ name value, context.get? name = some value → value.isNaN = false) ∧
      rule.evaluate context = .ok true ∧ rule.dual.evaluate context = .ok false := by
  intro context rule
  have literals : ∀ comparison ∈ rule.comparisons, comparison.literal.isNaN = false := by decide
  have entries : ∀ entry ∈ context.entries, entry.2.isNaN = false := by decide +kernel
  have values : ∀ name value, context.get? name = some value → value.isNaN = false := by
    intro name value found
    exact entries _ (Fields.get?_eq_some_iff.mp found)
  have evaluated : rule.evaluate context = .ok true := by decide +kernel
  refine ⟨literals, values, evaluated, ?_⟩
  rw [evaluate_dual literals values, evaluated]
  rfl

/-- With a NaN neither a comparison nor its complement holds. -/
example :
    let context : Context := Fields.empty.insert "a" (.float (Binary64.nan false))
    let rule := test ⟨"a", .lt, .int 1⟩
    rule.evaluate context = .ok false ∧ rule.dual.evaluate context = .ok false := by
  decide +kernel

end Rule

end FieldRules
