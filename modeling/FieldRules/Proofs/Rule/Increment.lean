import FieldRules.Proofs.Rule.Combination
import Mathlib.Data.List.Induction

/-!
Combining in several steps. Sources that are combined can be replaced by their combination, whatever
sources follow, and sources that cannot be combined fail in the same way with any sources behind them.
-/

namespace FieldRules

def CombineError.shift (offset : Nat) : CombineError → CombineError
  | emptyRule index => emptyRule (index + offset)
  | badRule index cause => badRule (index + offset) cause
  | other => other

theorem mapError_tooDeep_shift {α : Type} (found : Except TooDeep α) (offset : Nat) :
    (found.mapError CombineError.tooDeep).mapError (CombineError.shift offset) =
      found.mapError CombineError.tooDeep := by
  cases found <;> rfl

theorem RuleSource.rule_add (limits : Limits) (index offset : Nat) (source : RuleSource) :
    source.rule limits (index + offset) =
      (source.rule limits index).mapError (.shift offset) := by
  cases source with
  | tree own => rfl
  | text source =>
      rw [RuleSource.rule, RuleSource.rule]
      split
      · rfl
      · cases Rule.parse limits source <;> rfl

theorem RuleSource.measured_add (limits : Limits) (index offset : Nat) (source : RuleSource) :
    source.measured limits (index + offset) =
      (source.measured limits index).mapError (.shift offset) := by
  rw [RuleSource.measured, RuleSource.measured, source.rule_add]
  cases source.rule limits index with
  | error error => rfl
  | ok rule => exact (mapError_tooDeep_shift _ offset).symm

namespace Rule

variable (limits : Limits) (connective : Connective)

def joinSource (sofar : MeasuredRule) (index : Nat) (source : RuleSource) :
    Except CombineError MeasuredRule :=
  (source.measured limits index).bind fun right =>
    ((MeasuredRule.join connective sofar right).within limits).mapError .tooDeep

theorem joinSource_add (sofar : MeasuredRule) (index offset : Nat) (source : RuleSource) :
    joinSource limits connective sofar (index + offset) source =
      (joinSource limits connective sofar index source).mapError (.shift offset) := by
  rw [joinSource, joinSource, source.measured_add]
  cases source.measured limits index with
  | error error => rfl
  | ok right => exact (mapError_tooDeep_shift _ offset).symm

theorem combineOnto_cons (sofar : MeasuredRule) (index : Nat) (source : RuleSource)
    (rest : List RuleSource) :
    combineOnto limits connective sofar index (source :: rest) =
      (joinSource limits connective sofar index source).bind fun joined =>
        combineOnto limits connective joined (index + 1) rest := by
  rw [joinSource, combineOnto]
  cases source.measured limits index <;> rfl

theorem combineOnto_add (sofar : MeasuredRule) (index offset : Nat) (sources : List RuleSource) :
    combineOnto limits connective sofar (index + offset) sources =
      (combineOnto limits connective sofar index sources).mapError (.shift offset) := by
  induction sources generalizing sofar index with
  | nil => rfl
  | cons source sources ih =>
      rw [combineOnto_cons, combineOnto_cons, joinSource_add, Nat.add_right_comm]
      cases joinSource limits connective sofar index source with
      | error error => rfl
      | ok joined => exact ih joined (index + 1)

theorem combineOnto_append (sofar : MeasuredRule) (index : Nat) (earlier later : List RuleSource) :
    combineOnto limits connective sofar index (earlier ++ later) =
      (combineOnto limits connective sofar index earlier).bind fun joined =>
        combineOnto limits connective joined (index + earlier.length) later := by
  induction earlier generalizing sofar index with
  | nil => rfl
  | cons source earlier ih =>
      rw [List.cons_append, combineOnto_cons, combineOnto_cons, List.length_cons,
        Nat.add_comm earlier.length, ← Nat.add_assoc]
      cases joinSource limits connective sofar index source with
      | error error => rfl
      | ok joined => exact ih joined (index + 1)

def combineMeasured (source : RuleSource) (rest : List RuleSource) :
    Except CombineError MeasuredRule :=
  (source.measured limits 0).bind fun first => combineOnto limits connective first 1 rest

theorem combine_cons (source : RuleSource) (rest : List RuleSource) :
    combine limits connective (source :: rest) =
      (combineMeasured limits connective source rest).map MeasuredRule.rule := by
  rw [combine, combineMeasured]
  cases source.measured limits 0 with
  | error error => rfl
  | ok first =>
      change (combineOnto limits connective first 1 rest).bind (fun combined => .ok combined.rule) =
        (combineOnto limits connective first 1 rest).map MeasuredRule.rule
      cases combineOnto limits connective first 1 rest <;> rfl

theorem combineMeasured_append (source : RuleSource) (rest later : List RuleSource) :
    combineMeasured limits connective source (rest ++ later) =
      (combineMeasured limits connective source rest).bind fun joined =>
        combineOnto limits connective joined (rest.length + 1) later := by
  rw [combineMeasured, combineMeasured, Nat.add_comm]
  cases source.measured limits 0 with
  | error error => rfl
  | ok first => exact combineOnto_append limits connective first 1 rest later

variable {limits connective}

theorem combineMeasured_tree {measured : MeasuredRule}
    (fits : measured.rule.depth ≤ limits.maxDepth) (rest : List RuleSource) :
    combineMeasured limits connective (.tree measured.rule) rest =
      combineOnto limits connective measured 1 rest := by
  have own : (RuleSource.tree measured.rule).measured limits 0 = .ok measured :=
    RuleSource.measured_eq_ok_iff.mpr ⟨rfl, fits⟩
  rw [combineMeasured, own]
  rfl

theorem combine_append_of_error {earlier : List RuleSource} {error : CombineError}
    (nonempty : earlier ≠ []) (failed : combine limits connective earlier = .error error)
    (later : List RuleSource) :
    combine limits connective (earlier ++ later) = .error error := by
  obtain ⟨source, rest, rfl⟩ := List.exists_cons_of_ne_nil nonempty
  rw [combine_cons, map_eq_error_iff] at failed
  rw [List.cons_append, combine_cons, combineMeasured_append, failed]
  rfl

theorem combine_append_of_ok {earlier : List RuleSource} {rule : Rule}
    (combined : combine limits connective earlier = .ok rule) (later : List RuleSource) :
    combine limits connective (earlier ++ later) =
      (combine limits connective (.tree rule :: later)).mapError (.shift (earlier.length - 1)) := by
  obtain ⟨_, _, _, _, fits⟩ := combine_eq_ok_iff.mp combined
  cases earlier with
  | nil => cases combined
  | cons source rest =>
      rw [combine_cons] at combined
      obtain ⟨measured, joined, rfl⟩ := map_eq_ok_iff.mp combined
      have moved := combineOnto_add limits connective measured 1 rest.length later
      rw [List.cons_append, combine_cons, combineMeasured_append, joined, combine_cons,
        combineMeasured_tree fits, List.length_cons, Nat.add_sub_cancel]
      change (combineOnto limits connective measured (rest.length + 1) later).map _ = _
      rw [Nat.add_comm, moved]
      cases combineOnto limits connective measured 1 later <;> rfl

/-- An error is that of the shortest list of sources, from the first one on, that cannot be combined. -/
theorem exists_shortest_of_error {sources : List RuleSource} {error : CombineError}
    (nonempty : sources ≠ []) (failed : combine limits connective sources = .error error) :
    ∃ before source after, sources = before ++ source :: after ∧
      combine limits connective (before ++ [source]) = .error error ∧
      ∀ shorter, shorter <+: before → shorter ≠ [] →
        ∃ rule, combine limits connective shorter = .ok rule := by
  induction sources using List.reverseRecOn with
  | nil => exact absurd rfl nonempty
  | append_singleton before source ih =>
      by_cases first : before = []
      · subst first
        exact ⟨[], source, [], rfl, failed, fun shorter none some =>
          absurd (List.prefix_nil.mp none) some⟩
      · cases combined : combine limits connective before with
        | error earlier =>
            -- What is left out behind the failing sources stands before the last one.
            have same := combine_append_of_error first combined [source]
            obtain rfl := Except.error.inj (same.symm.trans failed)
            obtain ⟨own, last, after, rfl, lastFailed, others⟩ := ih first combined
            exact ⟨own, last, after ++ [source], by simp, lastFailed, others⟩
        | ok rule =>
            refine ⟨before, source, [], rfl, failed, ?_⟩
            rintro shorter ⟨more, rfl⟩ some
            cases part : combine limits connective shorter with
            | ok own => exact ⟨own, rfl⟩
            | error fault =>
                rw [combine_append_of_error some part more] at combined
                cases combined

/-- Combining in steps is combining at once: an error stays the same whatever sources follow, and a
combination stands for its sources in front of others, of which an error only counts the places. So an
error is that of the shortest failing list of sources from the first one on, and nothing behind hides
it. -/
theorem combine_append (limits : Limits) (connective : Connective) :
    (∀ earlier later : List RuleSource, earlier ≠ [] →
      (∀ error, combine limits connective earlier = .error error →
        combine limits connective (earlier ++ later) = .error error) ∧
      ∀ rule, combine limits connective earlier = .ok rule →
        combine limits connective (earlier ++ later) =
          (combine limits connective (.tree rule :: later)).mapError
            (.shift (earlier.length - 1))) ∧
    ∀ (sources : List RuleSource) (error : CombineError), sources ≠ [] →
      combine limits connective sources = .error error →
      ∃ before source after, sources = before ++ source :: after ∧
        combine limits connective (before ++ [source]) = .error error ∧
        ∀ shorter, shorter <+: before → shorter ≠ [] →
          ∃ rule, combine limits connective shorter = .ok rule := by
  refine ⟨?_, ?_⟩
  · intro earlier later nonempty
    exact ⟨fun error failed => combine_append_of_error nonempty failed later,
      fun rule combined => combine_append_of_ok combined later⟩
  · intro sources error nonempty failed
    exact exists_shortest_of_error nonempty failed

theorem combine_append_blank :
    let a := test ⟨"a", .eq, .int 1⟩
    let b := test ⟨"b", .eq, .int 2⟩
    let both : List RuleSource := [.tree a, .tree b]
    combine ⟨2⟩ .or (both ++ [.text " \t"]) = .error (.emptyRule 2) ∧
      combine ⟨2⟩ .or (.tree (join .or a b) :: [.text " \t"]) = .error (.emptyRule 1) ∧
      combine ⟨2⟩ .or (both ++ [.tree a] ++ [.text " \t"]) = .error (.tooDeep ⟨3, 2⟩) ∧
      ∃ before source after, both ++ [.tree a] ++ [.text " \t"] = before ++ source :: after ∧
        combine ⟨2⟩ .or (before ++ [source]) = .error (.tooDeep ⟨3, 2⟩) := by
  intro a b both
  obtain ⟨steps, shortest⟩ := combine_append ⟨2⟩ .or
  have combined : combine ⟨2⟩ .or both = .ok (join .or a b) := rfl
  have tooDeep : combine ⟨2⟩ .or (both ++ [.tree a]) = .error (.tooDeep ⟨3, 2⟩) := rfl
  have blank : combine ⟨2⟩ .or (.tree (join .or a b) :: [.text " \t"]) =
      .error (.emptyRule 1) := by decide +kernel
  have step := (steps both [.text " \t"] (by simp [both])).2 _ combined
  have whole := (steps (both ++ [.tree a]) [.text " \t"] (by simp)).1 _ tooDeep
  rw [blank] at step
  obtain ⟨before, source, after, split, failed, _⟩ := shortest _ _ (by simp) whole
  exact ⟨step, blank, whole, before, source, after, split, failed⟩

end Rule

end FieldRules
