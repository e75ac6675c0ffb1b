import FieldRules.Proofs.Exchange.Height
import FieldRules.Proofs.Exchange.Shape
import FieldRules.Proofs.Limits

/-!
The ways of reading a stored rule agree: decoding it, evaluating it as it is stored, and reading it
without limits.
-/

namespace FieldRules

namespace ExchangeTree

theorem EqualUpToCase.height_eq {tree other : ExchangeTree} (equal : tree.EqualUpToCase other) :
    tree.height = other.height := by
  induction equal with
  | refl tree => rfl
  | logical _ _ _ _ leftHeight rightHeight => rw [height, height, leftHeight, rightHeight]

theorem depth_lt_of_ofText {text : String} {tree : ExchangeTree} {rule : Rule}
    (found : ofText text = .ok tree) (shaped : tree.toRule = .ok rule) :
    rule.depth < Json.maxNesting := by
  have high := height_le_of_read (Json.readWith_eq_ok_iff.mp found).1
  rw [(equalUpToCase_of_toRule shaped).height_eq, height_ofRule] at high
  exact high

theorem decode_eq_ok_iff {limits : Limits} {text : String} {rule : Rule} :
    decode limits text = .ok rule ↔
      ∃ tree, ofText text = .ok tree ∧ tree.toRule = .ok rule ∧ rule.depth ≤ limits.maxDepth := by
  simp only [decode, bind_eq_ok_iff, mapError_eq_ok_iff, toRuleWithin_eq_ok_iff]

end ExchangeTree

theorem Rule.ofJsonText_eq_ok_iff {text : String} {rule : Rule} :
    ofJsonText text = .ok rule ↔
      ∃ tree, ExchangeTree.ofText text = .ok tree ∧ tree.toRule = .ok rule := by
  simp only [ofJsonText, ExchangeTree.ofText, Json.readWith_eq_ok_iff, bind_eq_ok_iff,
    mapError_eq_ok_iff]
  constructor
  · rintro ⟨⟨tree, read, shaped⟩, ended⟩
    exact ⟨tree, ⟨read, ended⟩, shaped⟩
  · rintro ⟨tree, ⟨read, ended⟩, shaped⟩
    exact ⟨⟨tree, read, shaped⟩, ended⟩

namespace ExchangeTree

namespace EvaluationError

theorem ofRefusal_eq_unsupportedOperator_iff {refusal : Refusal} {value : String} :
    ofRefusal refusal = unsupportedOperator value ↔
      refusal = .shape (.unsupportedOperator value) := by
  unfold ofRefusal
  split <;> simp_all

theorem ofRefusal_eq_malformedTree_iff {refusal reason : Refusal} :
    ofRefusal refusal = malformedTree reason ↔
      refusal = reason ∧ ∀ value, reason ≠ .shape (.unsupportedOperator value) := by
  unfold ofRefusal
  split
  · constructor
    · exact nofun
    · rintro ⟨rfl, other⟩
      exact absurd rfl (other _)
  · rename_i other
    constructor
    · rintro ⟨⟩
      exact ⟨rfl, other⟩
    · rintro ⟨rfl, _⟩
      rfl

theorem ofRefusal_ne_evaluation {refusal : Refusal} {error : EvalError} :
    ofRefusal refusal ≠ evaluation error := by
  unfold ofRefusal
  split <;> simp

end EvaluationError

section

variable {limits : Limits} {text : String} (context : Context)

theorem evaluateText_of_rule {rule : Rule} (decoded : decode limits text = .ok rule) :
    evaluateText limits text context =
      (rule.evaluate context).mapError fun error => .content (.evaluation error) := by
  obtain ⟨tree, found, shaped, fits⟩ := decode_eq_ok_iff.mp decoded
  have within := toRuleWithin_eq_ok_iff.mpr ⟨shaped, fits⟩
  simp only [evaluateText, evaluate, found, within, mapError_ok, bind, Except.bind]
  cases rule.evaluate context <;> rfl

theorem evaluateText_of_fault {fault : Json.Fault}
    (refused : decode limits text = .error (.json fault)) :
    evaluateText limits text context = .error (.json fault) := by
  rcases bind_eq_error_iff.mp refused with malformed | ⟨tree, _, refused⟩
  · obtain ⟨_, unread, same⟩ := mapError_eq_error_iff.mp malformed
    cases same
    exact bind_eq_error_iff.mpr (Or.inl (mapError_eq_error_iff.mpr ⟨_, unread, rfl⟩))
  · obtain ⟨_, _, same⟩ := mapError_eq_error_iff.mp refused
    cases same

theorem evaluateText_of_refusal {refusal : Refusal}
    (refused : decode limits text = .error (.content refusal)) :
    evaluateText limits text context = .error (.content (.ofRefusal refusal)) := by
  rcases bind_eq_error_iff.mp refused with malformed | ⟨tree, found, refused⟩
  · obtain ⟨_, _, same⟩ := mapError_eq_error_iff.mp malformed
    cases same
  · obtain ⟨_, shaped, same⟩ := mapError_eq_error_iff.mp refused
    cases same
    have unread := mapError_eq_ok_iff.mp found
    simp only [evaluateText, evaluate, unread, shaped, mapError_ok, mapError_error, bind,
      Except.bind]

end

/-- Evaluating a stored rule is decoding and then evaluating it. It fails as decoding does, on a
malformed text, on an unknown operator and on any other refusal, which is the reason given; no fault of
evaluation comes before these. Reading without limits accepts what the widest limits do. -/
theorem evaluateText_agrees_with_decode (limits : Limits) (text : String) (context : Context) :
    (∀ result, evaluateText limits text context =
        result.mapError (fun error => .content (.evaluation error)) ↔
      ∃ rule, decode limits text = .ok rule ∧ rule.evaluate context = result) ∧
    (∀ fault, evaluateText limits text context = .error (.json fault) ↔
      decode limits text = .error (.json fault)) ∧
    (∀ value, evaluateText limits text context = .error (.content (.unsupportedOperator value)) ↔
      decode limits text = .error (.content (.shape (.unsupportedOperator value)))) ∧
    (∀ reason, evaluateText limits text context = .error (.content (.malformedTree reason)) ↔
      decode limits text = .error (.content reason) ∧
        ∀ value, reason ≠ .shape (.unsupportedOperator value)) ∧
    ∀ rule, Rule.ofJsonText text = .ok rule ↔ decode ⟨2 ^ 64 - 1⟩ text = .ok rule := by
  have unlimited rule : Rule.ofJsonText text = .ok rule ↔
      decode ⟨2 ^ 64 - 1⟩ text = .ok rule := by
    rw [Rule.ofJsonText_eq_ok_iff, decode_eq_ok_iff]
    constructor
    · rintro ⟨tree, found, shaped⟩
      have shallow := depth_lt_of_ofText found shaped
      exact ⟨tree, found, shaped, Nat.le_trans (Nat.le_of_lt shallow) (by decide)⟩
    · rintro ⟨tree, found, shaped, _⟩
      exact ⟨tree, found, shaped⟩
  have wraps : Function.Injective fun error : EvalError =>
      (Json.TextError.content (EvaluationError.evaluation error)) := by
    rintro first second ⟨⟩
    rfl
  cases decoded : decode limits text with
  | ok rule =>
      rw [evaluateText_of_rule context decoded]
      refine ⟨?_, ?_, ?_, ?_, unlimited⟩
      · intro result
        simp [mapError_inj wraps]
      · simp [mapError_eq_error_iff]
      · simp [mapError_eq_error_iff]
      · simp [mapError_eq_error_iff]
  | error refused =>
      cases refused with
      | json fault =>
          rw [evaluateText_of_fault context decoded]
          refine ⟨?_, ?_, ?_, ?_, unlimited⟩
          · rintro (error | value) <;> simp
          · simp
          · simp
          · simp
      | content refusal =>
          rw [evaluateText_of_refusal context decoded]
          refine ⟨?_, ?_, ?_, ?_, unlimited⟩
          · rintro (error | value) <;>
              simp [EvaluationError.ofRefusal_ne_evaluation]
          · simp
          · simp [EvaluationError.ofRefusal_eq_unsupportedOperator_iff]
          · simp [EvaluationError.ofRefusal_eq_malformedTree_iff]

end ExchangeTree

end FieldRules
