import FieldRules.Proofs.Blob.Acceptance

/-!
What the budget of a chain bounds. A level of nesting takes one from it, but the rule grows by one
level with each operand after the first. So the rule can be deeper than the budget, by the operands
that lists have beyond two, and a blob that records too small a depth is refused only when its rule is
there.
-/

namespace FieldRules

namespace Rule

theorem depth_foldl_le (connective : Connective) {bound : Nat} {first : Rule} {rest : List Rule}
    (below : ∀ rule ∈ first :: rest, rule.depth ≤ bound) :
    (rest.foldl (join connective) first).depth ≤ bound + rest.length := by
  induction rest generalizing first bound with
  | nil => exact below first List.mem_cons_self
  | cons next rest ih =>
      obtain ⟨firstBelow, nextBelow, restBelow⟩ : first.depth ≤ bound ∧ next.depth ≤ bound ∧
          ∀ rule ∈ rest, rule.depth ≤ bound := by simpa using below
      have joined : ∀ rule ∈ join connective first next :: rest, rule.depth ≤ bound + 1 := by
        refine List.forall_mem_cons.mpr ⟨?_, fun rule member => ?_⟩
        · rw [depth_join]
          omega
        · exact Nat.le_succ_of_le (restBelow rule member)
      have deep := ih joined
      rw [List.foldl_cons, List.length_cons]
      omega

theorem depth_foldl_replicate (connective : Connective) (comparison : Comparison) (first : Rule)
    (count : Nat) :
    ((List.replicate count (test comparison)).foldl (join connective) first).depth =
      first.depth + count := by
  induction count generalizing first with
  | zero => rfl
  | succ count ih =>
      have positive := first.depth_pos
      rw [List.replicate_succ, List.foldl_cons, ih, depth_join, depth_test]
      omega

end Rule

namespace Chain

mutual

/-- The greatest number of operands beyond two that the lists along a path into the chain have
together. -/
def surplus : Chain → Nat
  | test _ => 0
  | join _ operands => (operands.length - 2) + greatestSurplus operands

def greatestSurplus : List Chain → Nat
  | [] => 0
  | chain :: rest => max chain.surplus (greatestSurplus rest)

end

theorem length_of_allFolded? {chains : List Chain} {rules : List Rule}
    (folded : allFolded? chains = some rules) : rules.length = chains.length := by
  induction chains generalizing rules with
  | nil =>
      cases folded
      rfl
  | cons chain rest ih =>
      obtain ⟨first, others, _, restFolded, rfl⟩ := allFolded?_cons_eq_some_iff.mp folded
      rw [List.length_cons, List.length_cons, ih restFolded]

mutual

theorem depth_le_nesting_add_surplus (chain : Chain) {rule : Rule} (formed : chain.IsWellFormed)
    (folded : chain.folded? = some rule) : rule.depth ≤ chain.nesting + chain.surplus := by
  cases chain with
  | test comparison =>
      cases folded
      exact Nat.le_refl 1
  | join connective operands =>
      obtain ⟨enough, allFormed⟩ := formed
      obtain ⟨rules, allFolded, joined⟩ := Option.bind_eq_some_iff.mp folded
      have below := depth_le_of_mem_allFolded? operands allFormed allFolded
      have length := length_of_allFolded? allFolded
      cases rules with
      | nil => cases joined
      | cons first rest =>
          cases joined
          -- Each operand after the first adds a level, and the nesting accounts for one of them.
          have deep := Rule.depth_foldl_le connective below
          rw [List.length_cons] at length
          rw [nesting, surplus]
          omega

theorem depth_le_of_mem_allFolded? (chains : List Chain) {rules : List Rule}
    (formed : AreWellFormed chains) (folded : allFolded? chains = some rules) :
    ∀ rule ∈ rules, rule.depth ≤ greatestNesting chains + greatestSurplus chains := by
  cases chains with
  | nil =>
      cases folded
      exact fun _ member => absurd member List.not_mem_nil
  | cons chain rest =>
      obtain ⟨first, others, firstFolded, restFolded, rfl⟩ := allFolded?_cons_eq_some_iff.mp folded
      have head := depth_le_nesting_add_surplus chain formed.1 firstFolded
      have tail := depth_le_of_mem_allFolded? rest formed.2 restFolded
      rw [greatestNesting, greatestSurplus]
      refine List.forall_mem_cons.mpr ⟨by omega, fun rule member => ?_⟩
      have bound := tail rule member
      omega

end

theorem depth_le_budget_add_surplus {chain : Chain} {budget : Nat} {rule : Rule}
    (rebuilt : chain.toRule budget = .ok rule) : rule.depth ≤ budget + chain.surplus := by
  obtain ⟨formed, folded, nests⟩ := (toRule_eq_ok_iff chain).mp rebuilt
  have bound := depth_le_nesting_add_surplus chain formed folded
  omega

theorem joinOnto_replicate {budget : Nat} (positive : budget ≠ 0) (connective : Connective)
    (comparison : Comparison) (left : Rule) (count : Nat) :
    joinOnto budget connective left (List.replicate count (test comparison)) =
      .ok ((List.replicate count (.test comparison)).foldl (.join connective) left) := by
  induction count generalizing left with
  | zero => rw [List.replicate_zero, joinOnto, List.replicate_zero, List.foldl_nil]
  | succ count ih =>
      rw [List.replicate_succ, joinOnto_cons, toRule, if_neg positive, List.replicate_succ,
        List.foldl_cons]
      exact ih _

theorem greatestSurplus_replicate (comparison : Comparison) (count : Nat) :
    greatestSurplus (List.replicate count (test comparison)) = 0 := by
  induction count with
  | zero => rfl
  | succ count ih => rw [List.replicate_succ, greatestSurplus, ih, surplus, Nat.max_self]

theorem toRule_replicate (connective : Connective) (comparison : Comparison) (excess : Nat) :
    (join connective (List.replicate (excess + 2) (test comparison))).toRule 2 =
        .ok ((List.replicate (excess + 1) (.test comparison)).foldl (.join connective)
          (.test comparison)) ∧
      (join connective (List.replicate (excess + 2) (test comparison))).surplus = excess := by
  constructor
  · rw [List.replicate_succ, List.replicate_succ, toRule_join (by decide), toRule,
      if_neg (by decide), ← List.replicate_succ]
    exact joinOnto_replicate (by decide) connective comparison (.test comparison) (excess + 1)
  · rw [surplus, greatestSurplus_replicate, List.length_replicate]
    rfl

theorem exists_depth_eq_budget_add {budget : Nat} (enough : 2 ≤ budget) (excess : Nat) :
    ∃ (chain : Chain) (rule : Rule), chain.toRule budget = .ok rule ∧ chain.surplus = excess ∧
      rule.depth = budget + excess := by
  induction enough with
  | refl =>
      let comparison : Comparison := ⟨"a", .eq, .int 1⟩
      obtain ⟨rebuilt, own⟩ := toRule_replicate .and comparison excess
      refine ⟨_, _, rebuilt, own, ?_⟩
      rw [Rule.depth_foldl_replicate, Rule.depth_test]
      omega
  | @step budget enough ih =>
      have positive : budget ≠ 0 := Nat.ne_of_gt (Nat.lt_of_lt_of_le Nat.two_pos enough)
      obtain ⟨chain, rule, rebuilt, own, deep⟩ := ih
      let last : Comparison := ⟨"b", .eq, .int 1⟩
      refine ⟨join .or [chain, test last], .join .or rule (.test last), ?_, ?_, ?_⟩
      · rw [toRule_join (Nat.succ_ne_zero budget), Nat.succ_sub_one, rebuilt]
        exact joinOnto_replicate positive .or last rule 1
      · simp [surplus, greatestSurplus, own]
      · rw [Rule.depth_join, Rule.depth_test]
        omega

/-- Three comparisons in one list are within a budget of two levels. -/
theorem not_depth_le_budget :
    ¬∀ (chain : Chain) (budget : Nat) (rule : Rule), chain.toRule budget = .ok rule →
      rule.depth ≤ budget := by
  intro bounded
  have deep := bounded _ 2 _ (toRule_replicate .and ⟨"a", .eq, .int 1⟩ 1).1
  rw [Rule.depth_foldl_replicate, Rule.depth_test] at deep
  exact absurd deep (by decide)

end Chain

namespace Blob

/-- What a chain is rebuilt to is within the budget, whatever the budget is, just if the rule that its
lists fold to is no deeper than the chain nests. In any case it is no deeper than the budget and the
operands of the chain beyond two, and some chain with as many is rebuilt as deep as that. The rule of
a blob is rebuilt before its depth is looked at, so one that is deeper than its record says is refused
for its records, when the rule is there. -/
theorem depth_of_rebuilt (chain : Chain) :
    ((∀ budget rule, chain.toRule budget = .ok rule → rule.depth ≤ budget) ↔
      ∀ rule, chain.IsWellFormed → chain.folded? = some rule → rule.depth ≤ chain.nesting) ∧
    (∀ budget rule, chain.toRule budget = .ok rule → rule.depth ≤ budget + chain.surplus) ∧
    (∀ budget, 2 ≤ budget → ∃ (other : Chain) (rule : Rule), other.toRule budget = .ok rule ∧
      other.surplus = chain.surplus ∧ rule.depth = budget + chain.surplus) ∧
    ∀ (limits : Limits) (expected : Option String) (bytes : List UInt8) (size depth : Nat)
      (digest : Option SourceDigest) (rule : Rule), Intact bytes →
      Payload.ofBytes? (bytes.drop 32) = some ⟨size, depth, digest, chain⟩ →
      checkSource expected digest = .ok () → depth ≤ limits.maxDepth →
      chain.toRule depth = .ok rule → depth < rule.depth →
      decode limits expected bytes = .error (.invalid
        (if size = rule.size then .depthDiffers depth rule.depth
          else .sizeDiffers size rule.size)) := by
  refine ⟨?_, ?_, ?_, ?_⟩
  · constructor
    · intro bounded rule formed folded
      -- The nesting is the least budget within which the chain is rebuilt.
      exact bounded chain.nesting rule
        ((Chain.toRule_eq_ok_iff chain).mpr ⟨formed, folded, Nat.le_refl _⟩)
    · intro shallow budget rule rebuilt
      obtain ⟨formed, folded, nests⟩ := (Chain.toRule_eq_ok_iff chain).mp rebuilt
      exact Nat.le_trans (shallow rule formed folded) nests
  · intro budget rule rebuilt
    exact Chain.depth_le_budget_add_surplus rebuilt
  · intro budget enough
    exact Chain.exists_depth_eq_budget_add enough chain.surplus
  · intro limits expected bytes size depth digest rule intact taken checked fits rebuilt deeper
    have opened : decode limits expected bytes = ruleOf limits ⟨size, depth, digest, chain⟩ := by
      rw [decode, payloadBytes_eq_ok_iff.mpr ⟨intact, rfl⟩]
      simp [bind, Except.bind, taken, checked]
    rw [opened, ruleOf_eq, if_neg (Nat.not_lt.mpr fits), rebuilt]
    by_cases same : size = rule.size
    · simp [Except.bind, same, Nat.ne_of_lt deeper]
    · simp [Except.bind, same]

theorem depth_of_rebuilt_list_of_three :
    let a : Comparison := ⟨"a", .eq, .int 1⟩
    let b : Comparison := ⟨"b", .eq, .int 2⟩
    let c : Comparison := ⟨"c", .eq, .int 3⟩
    let chain : Chain := .join .and [.test a, .test b, .test c]
    let rule : Rule := .join .and (.join .and (.test a) (.test b)) (.test c)
    let payload := (Payload.mk 3 2 none chain).toBytes
    chain.toRule 2 = .ok rule ∧ rule.depth ≤ 2 + chain.surplus ∧
      (¬∀ budget rule, chain.toRule budget = .ok rule → rule.depth ≤ budget) ∧
      decode ⟨2⟩ none (header payload ++ payload) = .error (.invalid (.depthDiffers 2 3)) := by
  intro a b c chain rule payload
  have rebuilt : chain.toRule 2 = .ok rule := rfl
  have taken : Payload.ofBytes? payload = some ⟨3, 2, none, chain⟩ :=
    Payload.ofBytes?_toBytes _ (by decide) (by decide) (by decide)
  have intact : Intact (header payload ++ payload) :=
    (payloadBytes_eq_ok_iff.mp (payloadBytes_header (by decide))).1
  have bytes : (header payload ++ payload).drop 32 = payload :=
    List.drop_left' (length_header payload)
  obtain ⟨met, bound, -, refused⟩ := depth_of_rebuilt chain
  obtain ⟨formed, folded, _⟩ := (Chain.toRule_eq_ok_iff chain).mp rebuilt
  refine ⟨rebuilt, bound 2 rule rebuilt, ?_, ?_⟩
  · intro bounded
    exact absurd (met.mp bounded rule formed folded) (by decide)
  · rw [← bytes] at taken
    exact refused ⟨2⟩ none _ _ _ _ rule intact taken rfl (by decide) rebuilt (by decide)

end Blob

end FieldRules
