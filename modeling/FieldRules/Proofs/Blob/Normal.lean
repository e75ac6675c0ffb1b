import FieldRules.Proofs.Blob.Acceptance
import FieldRules.Proofs.Rule.Phrase

/-!
Chains in normal form: each list has two operands at least and does not start with a list of its own
connective. They are the chains of rules, each the chain of one rule only, so what is stored for the
rule of a normal chain is that chain again.
-/

namespace FieldRules

theorem Rule.root?_foldl_join (connective : Connective) (first second : Rule) (rest : List Rule) :
    ((second :: rest).foldl (join connective) first).root? = some connective := by
  induction rest generalizing first second with
  | nil => rfl
  | cons third rest ih => exact ih (join connective first second) third

namespace Chain

def root? : Chain → Option Connective
  | test _ => none
  | join connective _ => some connective

mutual

/-- No list of operands is short, and none starts with a list of the same connective. A list of the same
connective may stand further on. -/
def IsNormal : Chain → Prop
  | test _ => True
  | join connective operands => 2 ≤ operands.length ∧
      (∀ first ∈ operands.head?, first.root? ≠ some connective) ∧ AreNormal operands

def AreNormal : List Chain → Prop
  | [] => True
  | chain :: rest => chain.IsNormal ∧ AreNormal rest

end

theorem isNormal_join_iff {connective : Connective} {first second : Chain} {rest : List Chain} :
    (join connective (first :: second :: rest)).IsNormal ↔
      first.root? ≠ some connective ∧ first.IsNormal ∧ AreNormal (second :: rest) := by
  simp [IsNormal, AreNormal]

mutual

theorem IsNormal.isWellFormed {chain : Chain} (normal : chain.IsNormal) : chain.IsWellFormed := by
  cases chain with
  | test comparison => trivial
  | join connective operands =>
      obtain ⟨enough, _, operandsNormal⟩ := normal
      exact ⟨enough, operandsNormal.areWellFormed⟩

theorem AreNormal.areWellFormed {chains : List Chain} (normal : AreNormal chains) :
    AreWellFormed chains := by
  cases chains with
  | nil => trivial
  | cons chain rest => exact ⟨normal.1.isWellFormed, normal.2.areWellFormed⟩

end

theorem ofRule_of_root? {rule : Rule} {connective : Connective}
    (root : rule.root? = some connective) :
    ofRule rule = join connective (operandsBefore connective rule []) := by
  cases rule with
  | test comparison => cases root
  | join own left right =>
      obtain rfl := Option.some.inj root
      rw [ofRule, operandsBefore, if_pos rfl]

theorem operandsBefore_of_root? {rule : Rule} {connective : Connective}
    (root : rule.root? ≠ some connective) (after : List Chain) :
    operandsBefore connective rule after = ofRule rule :: after := by
  cases rule with
  | test comparison => rw [operandsBefore, ofRule]
  | join own left right =>
      have other : own ≠ connective := fun same => root (congrArg some same)
      rw [operandsBefore, if_neg other, ofRule]

theorem root?_ofRule (rule : Rule) : (ofRule rule).root? = rule.root? := by
  cases rule <;> rfl

theorem operandsBefore_foldl (connective : Connective) (left : Rule) (rules : List Rule)
    (after : List Chain) :
    operandsBefore connective (rules.foldl (.join connective) left) after =
      operandsBefore connective left (rules.map ofRule ++ after) := by
  induction rules generalizing left with
  | nil => rfl
  | cons right rules ih =>
      rw [List.foldl_cons, ih, operandsBefore, if_pos rfl]
      rfl

theorem isNormal_join_cons {connective : Connective} {first : Chain} {rest : List Chain}
    (apart : first.root? ≠ some connective) (firstNormal : first.IsNormal) (restNormal : AreNormal rest)
    (more : rest ≠ []) : (join connective (first :: rest)).IsNormal := by
  obtain ⟨second, others, rfl⟩ := List.exists_cons_of_ne_nil more
  exact isNormal_join_iff.mpr ⟨apart, firstNormal, restNormal⟩

/-- The chain of a rule is normal, and so is a list that starts with the operands of a rule: a join of
the connective is opened into its own operands, so what stands first in the end is none. -/
theorem normal_of_rule (rule : Rule) :
    (ofRule rule).IsNormal ∧ ∀ connective after, AreNormal after → after ≠ [] →
      (join connective (operandsBefore connective rule after)).IsNormal := by
  induction rule with
  | test comparison =>
      refine ⟨trivial, ?_⟩
      intro connective after normal more
      exact isNormal_join_cons nofun trivial normal more
  | join inner left right leftHolds rightHolds =>
      have whole : (ofRule (.join inner left right)).IsNormal := by
        rw [ofRule]
        exact leftHolds.2 inner [ofRule right] ⟨rightHolds.1, trivial⟩ (List.cons_ne_nil _ _)
      refine ⟨whole, ?_⟩
      intro connective after normal more
      by_cases same : inner = connective
      · subst same
        rw [operandsBefore, if_pos rfl]
        exact leftHolds.2 inner (ofRule right :: after) ⟨rightHolds.1, normal⟩
          (List.cons_ne_nil _ _)
      · have apart : (Rule.join inner left right).root? ≠ some connective :=
          fun root => same (Option.some.inj root)
        rw [operandsBefore_of_root? apart]
        exact isNormal_join_cons (root?_ofRule _ ▸ apart) whole normal more

theorem isNormal_ofRule (rule : Rule) : (ofRule rule).IsNormal :=
  (normal_of_rule rule).1

theorem root?_of_folded? {chain : Chain} {rule : Rule} (normal : chain.IsNormal)
    (folded : chain.folded? = some rule) : rule.root? = chain.root? := by
  match chain with
  | test comparison =>
      cases folded
      rfl
  | join connective [] => simp [IsNormal] at normal
  | join connective [only] => simp [IsNormal] at normal
  | join connective (first :: second :: rest) =>
      obtain ⟨left, rules, _, restFolded, rfl⟩ := folded?_join_eq_some_iff.mp folded
      obtain ⟨right, others, _, _, rfl⟩ := allFolded?_cons_eq_some_iff.mp restFolded
      exact Rule.root?_foldl_join connective left right others

mutual

theorem exists_folded? (chain : Chain) (formed : chain.IsWellFormed) :
    ∃ rule, chain.folded? = some rule := by
  match chain with
  | test comparison => exact ⟨.test comparison, rfl⟩
  | join connective [] => simp [IsWellFormed] at formed
  | join connective (first :: rest) =>
      obtain ⟨rules, folded⟩ := exists_allFolded? (first :: rest) formed.2
      obtain ⟨left, others, _, _, rfl⟩ := allFolded?_cons_eq_some_iff.mp folded
      exact ⟨others.foldl (.join connective) left, by rw [folded?, folded]; rfl⟩

theorem exists_allFolded? (chains : List Chain) (formed : AreWellFormed chains) :
    ∃ rules, allFolded? chains = some rules := by
  cases chains with
  | nil => exact ⟨[], rfl⟩
  | cons chain rest =>
      obtain ⟨first, firstFolded⟩ := exists_folded? chain formed.1
      obtain ⟨others, restFolded⟩ := exists_allFolded? rest formed.2
      exact ⟨first :: others,
        allFolded?_cons_eq_some_iff.mpr ⟨first, others, firstFolded, restFolded, rfl⟩⟩

end

mutual

/-- A normal chain is the chain of the rule that it folds to. -/
theorem ofRule_of_folded? (chain : Chain) {rule : Rule} (normal : chain.IsNormal)
    (folded : chain.folded? = some rule) : ofRule rule = chain := by
  match chain with
  | test comparison =>
      cases folded
      rfl
  | join connective [] => simp [IsNormal] at normal
  | join connective [only] => simp [IsNormal] at normal
  | join connective (first :: second :: rest) =>
      have root := root?_of_folded? normal folded
      obtain ⟨apart, firstNormal, restNormal⟩ := isNormal_join_iff.mp normal
      obtain ⟨left, rules, firstFolded, restFolded, rfl⟩ := folded?_join_eq_some_iff.mp folded
      have leftRoot : left.root? ≠ some connective :=
        root?_of_folded? firstNormal firstFolded ▸ apart
      rw [ofRule_of_root? root, operandsBefore_foldl, operandsBefore_of_root? leftRoot,
        ofRule_of_folded? first firstNormal firstFolded,
        map_ofRule_of_allFolded? (second :: rest) restNormal restFolded, List.append_nil]

theorem map_ofRule_of_allFolded? (chains : List Chain) {rules : List Rule}
    (normal : AreNormal chains) (folded : allFolded? chains = some rules) :
    rules.map ofRule = chains := by
  cases chains with
  | nil =>
      cases folded
      rfl
  | cons chain rest =>
      obtain ⟨first, others, firstFolded, restFolded, rfl⟩ := allFolded?_cons_eq_some_iff.mp folded
      rw [List.map_cons, ofRule_of_folded? chain normal.1 firstFolded,
        map_ofRule_of_allFolded? rest normal.2 restFolded]

end

theorem folded?_ofRule (rule : Rule) : (ofRule rule).folded? = some rule :=
  ((toRule_eq_ok_iff (ofRule rule)).mp (toRule_ofRule (Nat.le_refl rule.depth))).2.1

theorem toRule_of_folded? {chain : Chain} {rule : Rule} {budget : Nat} (normal : chain.IsNormal)
    (folded : chain.folded? = some rule) (fits : rule.depth ≤ budget) :
    chain.toRule budget = .ok rule := by
  have nests := nesting_le_depth chain normal.isWellFormed folded
  exact (toRule_eq_ok_iff chain).mpr ⟨normal.isWellFormed, folded, Nat.le_trans nests fits⟩

end Chain

namespace Blob

theorem payloadOf_of_records {payload : Payload} {rule : Rule} {source : Option String}
    (normal : payload.chain.IsNormal) (records : payload.Records rule)
    (digest : payload.digest = source.map digestOf) : payloadOf rule source = payload := by
  obtain ⟨size, depth, recorded, chain⟩ := payload
  obtain ⟨_, folded, rightDepth, rightSize⟩ := records
  simp only at normal folded rightDepth rightSize digest
  rw [payloadOf, Chain.ofRule_of_folded? chain normal folded, rightDepth, rightSize, digest]

/-- Rules and normal chains stand for each other. The chain of every rule is normal; a normal chain
folds to a rule, is the chain of that rule, and is rebuilt to it under every budget that the depth of
the rule needs; so each rule has exactly one normal chain. If a blob that holds a normal chain is
accepted, then what is written for its rule, with the source whose digest it records, is the payload
that the blob holds. -/
theorem rules_correspond_to_normal_chains :
    (∀ rule : Rule, (Chain.ofRule rule).IsNormal) ∧
    (∀ chain : Chain, chain.IsNormal → ∃ rule, chain.folded? = some rule ∧
      Chain.ofRule rule = chain ∧ ∀ budget, rule.depth ≤ budget → chain.toRule budget = .ok rule) ∧
    (∀ rule : Rule, ∃! chain : Chain, chain.IsNormal ∧ chain.folded? = some rule) ∧
    ∀ (limits : Limits) (expected source : Option String) (bytes : List UInt8) (payload : Payload)
      (rule : Rule), decode limits expected bytes = .ok rule →
      Payload.ofBytes? (bytes.drop 32) = some payload → payload.chain.IsNormal →
      payload.digest = source.map digestOf → payloadOf rule source = payload := by
  refine ⟨Chain.isNormal_ofRule, ?_, ?_, ?_⟩
  · intro chain normal
    obtain ⟨rule, folded⟩ := Chain.exists_folded? chain normal.isWellFormed
    exact ⟨rule, folded, Chain.ofRule_of_folded? chain normal folded,
      fun _ fits => Chain.toRule_of_folded? normal folded fits⟩
  · intro rule
    refine ⟨Chain.ofRule rule, ⟨Chain.isNormal_ofRule rule, Chain.folded?_ofRule rule⟩, ?_⟩
    rintro chain ⟨normal, folded⟩
    exact (Chain.ofRule_of_folded? chain normal folded).symm
  · intro limits expected source bytes payload rule accepted taken normal digest
    obtain ⟨_, held, heldTaken, _, records, _⟩ := decode_eq_ok_iff.mp accepted
    obtain rfl := Option.some.inj (taken.symm.trans heldTaken)
    exact payloadOf_of_records normal records digest

theorem rules_correspond_to_normal_chains_list_of_three :
    let a : Comparison := ⟨"a", .eq, .int 1⟩
    let b : Comparison := ⟨"b", .lt, .text "x"⟩
    let chain : Chain :=
      .join .and [.join .or [.test a, .test b], .join .and [.test a, .test b], .test b]
    let rule : Rule := .join .and (.join .and (.join .or (.test a) (.test b))
      (.join .and (.test a) (.test b))) (.test b)
    let payload : Payload := ⟨5, 4, none, chain⟩
    let bytes := header payload.toBytes ++ payload.toBytes
    (chain.IsNormal ∧ Chain.ofRule rule = chain ∧ chain.toRule 4 = .ok rule) ∧
      decode ⟨4⟩ none bytes = .ok rule ∧ payloadOf rule none = payload := by
  intro a b chain rule payload bytes
  obtain ⟨_, folds, _, rewritten⟩ := rules_correspond_to_normal_chains
  have normal : chain.IsNormal := by
    simp [chain, Chain.IsNormal, Chain.AreNormal, Chain.root?]
  have records : payload.Records rule := ⟨normal.isWellFormed, rfl, rfl, rfl⟩
  obtain ⟨own, folded, same, rebuilt⟩ := folds chain normal
  obtain rfl : rule = own := Option.some.inj (records.folded.symm.trans folded)
  have dropped : bytes.drop 32 = payload.toBytes := List.drop_left' (length_header payload.toBytes)
  have taken : Payload.ofBytes? (bytes.drop 32) = some payload := by
    rw [dropped]
    exact Payload.ofBytes?_toBytes _ (by decide) (by decide) (by decide)
  have intact : Intact bytes := (payloadBytes_eq_ok_iff.mp (payloadBytes_header (by decide))).1
  have accepted : decode ⟨4⟩ none bytes = .ok rule :=
    decode_eq_ok_iff.mpr ⟨intact, payload, taken, rfl, records, Nat.le_refl 4⟩
  exact ⟨⟨normal, same, rebuilt 4 (Nat.le_refl 4)⟩, accepted,
    rewritten ⟨4⟩ none none bytes payload rule accepted taken normal rfl⟩

end Blob

end FieldRules
