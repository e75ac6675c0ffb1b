import FieldRules.Proofs.Rule.Evaluation
import Mathlib.Data.List.Induction

/-!
The fields that a rule names, each once, in the order of their first comparisons. They are what
evaluation reads of a context, and the first of them that is absent is the one reported.
-/

namespace FieldRules

section FirstOccurrences

variable {α : Type} [BEq α] [LawfulBEq α]

theorem eraseDups_concat (list : List α) (a : α) :
    (list ++ [a]).eraseDups = if a ∈ list then list.eraseDups else list.eraseDups ++ [a] := by
  rw [List.eraseDups_append]
  by_cases known : a ∈ list
  · simp [List.removeAll, known]
  · simp [List.removeAll, known, List.eraseDups_cons]

theorem pairwise_idxOf_eraseDups (list : List α) :
    list.eraseDups.Pairwise fun a b => list.idxOf a < list.idxOf b := by
  induction list using List.reverseRecOn with
  | nil => exact .nil
  | append_singleton list last ih =>
      have kept : list.eraseDups.Pairwise fun a b =>
          (list ++ [last]).idxOf a < (list ++ [last]).idxOf b := by
        refine ih.imp_of_mem ?_
        intro a b left right before
        rwa [List.idxOf_append, List.idxOf_append, if_pos (List.mem_eraseDups.mp left),
          if_pos (List.mem_eraseDups.mp right)]
      rw [eraseDups_concat]
      by_cases known : last ∈ list
      · rw [if_pos known]
        exact kept
      · rw [if_neg known]
        refine List.pairwise_append.mpr ⟨kept, List.pairwise_singleton _ _, ?_⟩
        intro a member b isLast
        obtain rfl := List.mem_singleton.mp isLast
        have inside := List.mem_eraseDups.mp member
        rw [List.idxOf_append, List.idxOf_append, if_pos inside, if_neg known]
        exact Nat.lt_add_left _ (List.idxOf_lt_length_iff.mpr inside)

theorem nodup_eraseDups (list : List α) : list.eraseDups.Nodup := by
  refine (pairwise_idxOf_eraseDups list).imp ?_
  rintro a _ before rfl
  exact Nat.lt_irrefl _ before

theorem find?_eraseDups (p : α → Bool) (list : List α) : list.eraseDups.find? p = list.find? p := by
  induction list using List.reverseRecOn with
  | nil => rfl
  | append_singleton list last ih =>
      rw [eraseDups_concat, List.find?_append]
      by_cases known : last ∈ list
      · rw [if_pos known, ih]
        cases found : list.find? p with
        | some a => rfl
        | none =>
            have fails := List.find?_eq_none.mp found last known
            simp [fails]
      · rw [if_neg known, List.find?_append, ih]

end FirstOccurrences

theorem FailFirst.find?_absent {context : Context} {comparisons : List Comparison} {error : EvalError}
    (fails : FailFirst context comparisons error) {name : String} (own : error = .unknownField name) :
    (comparisons.map Comparison.field).find? (fun name => (context.get? name).isNone) = some name := by
  induction fails with
  | here rest fails =>
      subst own
      cases fails with
      | absent missing => simp [missing]
  | @later comparison rest error holds others ih =>
      have present : (context.get? comparison.field).isNone = false := by
        rw [Option.isNone_eq_false_iff, Option.isSome_iff_ne_none]
        intro missing
        exact holds _ (.absent missing)
      rw [List.map_cons, List.find?_cons_of_neg (by simp [present])]
      exact ih own

namespace Rule

variable {rule : Rule}

theorem mem_fields {name : String} :
    name ∈ rule.fields ↔ ∃ comparison ∈ rule.comparisons, comparison.field = name := by
  rw [fields, List.mem_eraseDups, List.mem_map]

theorem evaluate_eq_of_agree {first second : Context}
    (agree : ∀ comparison ∈ rule.comparisons,
      first.get? comparison.field = second.get? comparison.field) :
    rule.evaluate first = rule.evaluate second := by
  induction rule with
  | test comparison =>
      have same := agree comparison List.mem_cons_self
      rw [evaluate, evaluate, Comparison.evaluate, Comparison.evaluate, same]
  | join connective left right leftSame rightSame =>
      rw [comparisons_join, List.forall_mem_append] at agree
      rw [evaluate_join, evaluate_join, leftSame agree.1, rightSame agree.2]

theorem exists_error_of_absent {context : Context} {comparison : Comparison}
    (member : comparison ∈ rule.comparisons) (missing : context.get? comparison.field = none) :
    ∃ error, rule.evaluate context = .error error := by
  cases evaluated : rule.evaluate context with
  | error error => exact ⟨error, rfl⟩
  | ok value =>
      have holds := (evaluate_eq_ok_iff.mp evaluated).1 comparison member
      exact absurd (.absent missing) (holds _)

/-- The fields of a rule are those of its comparisons, each once, in the order of their first
comparisons, and evaluation reads just these: contexts that agree on them give the same result, one
that lacks any of them gives an error, and an unknown field is the first of them that is absent. -/
theorem fields_are_read (rule : Rule) :
    (rule.fields.Nodup ∧
      (∀ name, name ∈ rule.fields ↔ ∃ comparison ∈ rule.comparisons, comparison.field = name) ∧
      rule.fields.Pairwise fun earlier later =>
        (rule.comparisons.map Comparison.field).idxOf earlier <
          (rule.comparisons.map Comparison.field).idxOf later) ∧
    (∀ first second : Context, (∀ name ∈ rule.fields, first.get? name = second.get? name) →
      rule.evaluate first = rule.evaluate second) ∧
    ∀ context : Context,
      (∀ name ∈ rule.fields, context.get? name = none →
        ∃ error, rule.evaluate context = .error error) ∧
      ∀ name, rule.evaluate context = .error (.unknownField name) →
        rule.fields.find? (fun name => (context.get? name).isNone) = some name := by
  refine ⟨⟨nodup_eraseDups _, fun name => mem_fields, pairwise_idxOf_eraseDups _⟩, ?_, ?_⟩
  · intro first second agree
    apply evaluate_eq_of_agree
    intro comparison member
    exact agree comparison.field (mem_fields.mpr ⟨comparison, member, rfl⟩)
  · intro context
    constructor
    · intro name member missing
      obtain ⟨comparison, own, rfl⟩ := mem_fields.mp member
      exact exists_error_of_absent own missing
    · intro name evaluated
      rw [fields, find?_eraseDups]
      exact (evaluate_eq_error_iff.mp evaluated).find?_absent rfl

theorem fields_are_read_second_absent :
    let rule := join .or (join .and (test ⟨"b", .gt, .int 1⟩) (test ⟨"a", .eq, .text "x"⟩))
      (join .and (test ⟨"b", .lt, .int 9⟩) (test ⟨"c", .ne, .int 0⟩))
    let context : Context := Fields.empty.insert "b" (.int 2)
    rule.fields = ["b", "a", "c"] ∧
      rule.evaluate (context.insert "z" (.int 0)) = .error (.unknownField "a") ∧
      rule.fields.find? (fun name => (context.get? name).isNone) = some "a" := by
  intro rule context
  have names : rule.fields = ["b", "a", "c"] := by decide
  have evaluated : rule.evaluate context = .error (.unknownField "a") := by decide
  have agree : ∀ name ∈ rule.fields, (context.insert "z" (.int 0)).get? name = context.get? name := by
    intro name member
    refine Fields.get?_insert_of_ne context ?_ _
    rintro rfl
    rw [names] at member
    exact absurd member (by decide)
  obtain ⟨_, same, errors⟩ := fields_are_read rule
  refine ⟨names, ?_, (errors context).2 "a" evaluated⟩
  rw [same _ _ agree, evaluated]

end Rule

end FieldRules
