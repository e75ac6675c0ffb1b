import FieldRules.Blob
import FieldRules.Proofs.Except
import FieldRules.Proofs.Rule.Phrase

/-!
A rule comes back from its chain: the operands collected along a left spine, joined in order, make up
the spine again. A budget admits just the chains that nest no deeper, and no chain nests deeper than its
rule is.
-/

namespace FieldRules

namespace Chain

theorem toRule_join {budget : Nat} (positive : budget ≠ 0) (connective : Connective)
    (first second : Chain) (rest : List Chain) :
    (join connective (first :: second :: rest)).toRule budget =
      (first.toRule (budget - 1)).bind fun left =>
        joinOnto (budget - 1) connective left (second :: rest) := by
  rw [toRule, if_neg positive]
  rfl

theorem joinOnto_cons (budget : Nat) (connective : Connective) (left : Rule) (operand : Chain)
    (rest : List Chain) :
    joinOnto budget connective left (operand :: rest) =
      (operand.toRule budget).bind fun right =>
        joinOnto budget connective (.join connective left right) rest := by
  rw [joinOnto]
  rfl

/-- The chain of a rule stands for the rule, and its operands before others join to the rule before
those others. The two halves need each other at every join. -/
theorem refolds (rule : Rule) :
    (∀ budget, rule.depth ≤ budget → (ofRule rule).toRule budget = .ok rule) ∧
    ∀ connective budget after, rule.depth ≤ budget →
      ∃ first rest, operandsBefore connective rule after = first :: rest ∧
        after.length ≤ rest.length ∧
        ((first.toRule budget).bind fun left => joinOnto budget connective left rest) =
          joinOnto budget connective rule after := by
  induction rule with
  | test comparison =>
      have stands (budget : Nat) (fits : (Rule.test comparison).depth ≤ budget) :
          (test comparison).toRule budget = .ok (.test comparison) := by
        rw [Rule.depth_test] at fits
        rw [toRule, if_neg (by omega)]
      refine ⟨stands, ?_⟩
      intro connective budget after fits
      refine ⟨test comparison, after, rfl, Nat.le_refl _, ?_⟩
      rw [stands budget fits]
      rfl
  | join inner left right leftHolds rightHolds =>
      have stands (budget : Nat) (fits : (Rule.join inner left right).depth ≤ budget) :
          (join inner (operandsBefore inner left [ofRule right])).toRule budget =
            .ok (.join inner left right) := by
        rw [Rule.depth_join] at fits
        obtain ⟨first, rest, collected, enough, joined⟩ :=
          leftHolds.2 inner (budget - 1) [ofRule right] (by omega)
        cases rest with
        | nil => simp at enough
        | cons second rest =>
            rw [collected, toRule_join (by omega), joined, joinOnto_cons,
              rightHolds.1 (budget - 1) (by omega)]
            rfl
      refine ⟨stands, ?_⟩
      intro connective budget after fits
      have deep := fits
      rw [Rule.depth_join] at deep
      by_cases same : inner = connective
      · -- The operands of the left rule stand in the same list, in front of the right rule.
        subst same
        obtain ⟨first, rest, collected, enough, joined⟩ :=
          leftHolds.2 inner budget (ofRule right :: after) (by omega)
        refine ⟨first, rest, ?_, ?_, ?_⟩
        · rw [operandsBefore, if_pos rfl, collected]
        · rw [List.length_cons] at enough
          omega
        · rw [joined, joinOnto_cons, rightHolds.1 budget (by omega)]
          rfl
      · -- The rule is one operand, with a list of its own.
        refine ⟨ofRule (.join inner left right), after, ?_, Nat.le_refl _, ?_⟩
        · rw [operandsBefore, if_neg same, ofRule]
        · rw [ofRule, stands budget fits]
          rfl

theorem toRule_ofRule {rule : Rule} {budget : Nat} (fits : rule.depth ≤ budget) :
    (ofRule rule).toRule budget = .ok rule :=
  (refolds rule).1 budget fits

end Chain

namespace Rule

def joined? (connective : Connective) : List Rule → Option Rule
  | [] => none
  | first :: rest => some (rest.foldl (join connective) first)

theorem depth_lt_foldl {connective : Connective} {first second operand : Rule} {rest : List Rule}
    (member : operand ∈ first :: second :: rest) :
    operand.depth < ((second :: rest).foldl (join connective) first).depth := by
  have joined := depth_join connective first second
  have above : (join connective first second).depth ≤
      (rest.foldl (join connective) (join connective first second)).depth :=
    depth_le_foldl connective id _ rest
  rw [List.foldl_cons]
  rcases List.mem_cons.mp member with rfl | member
  · omega
  · rcases List.mem_cons.mp member with rfl | later
    · omega
    · cases rest with
      | nil => simp at later
      | cons third rest => exact depth_lt_foldl (List.mem_cons_of_mem _ later)

theorem depth_le_foldl_of_mem {connective : Connective} {first operand : Rule} {rest : List Rule}
    (member : operand ∈ first :: rest) :
    operand.depth ≤ (rest.foldl (join connective) first).depth := by
  cases rest with
  | nil =>
      obtain rfl := List.mem_singleton.mp member
      exact Nat.le_refl _
  | cons second rest => exact Nat.le_of_lt (depth_lt_foldl member)

end Rule

namespace Chain

mutual

def IsWellFormed : Chain → Prop
  | test _ => True
  | join _ operands => 2 ≤ operands.length ∧ AreWellFormed operands

def AreWellFormed : List Chain → Prop
  | [] => True
  | chain :: rest => chain.IsWellFormed ∧ AreWellFormed rest

end

mutual

def folded? : Chain → Option Rule
  | test comparison => some (.test comparison)
  | join connective operands => (allFolded? operands).bind (Rule.joined? connective)

def allFolded? : List Chain → Option (List Rule)
  | [] => some []
  | chain :: rest => chain.folded?.bind fun first => (allFolded? rest).map (first :: ·)

end

mutual

/-- How deep the lists of operands of a chain are nested. -/
def nesting : Chain → Nat
  | test _ => 1
  | join _ operands => 1 + greatestNesting operands

def greatestNesting : List Chain → Nat
  | [] => 0
  | chain :: rest => max chain.nesting (greatestNesting rest)

end

theorem allFolded?_cons_eq_some_iff {chain : Chain} {rest : List Chain} {rules : List Rule} :
    allFolded? (chain :: rest) = some rules ↔
      ∃ first others, chain.folded? = some first ∧ allFolded? rest = some others ∧
        rules = first :: others := by
  rw [allFolded?, Option.bind_eq_some_iff]
  constructor
  · rintro ⟨first, found, mapped⟩
    obtain ⟨others, restFound, same⟩ := Option.map_eq_some_iff.mp mapped
    exact ⟨first, others, found, restFound, same.symm⟩
  · rintro ⟨first, others, found, restFound, rfl⟩
    exact ⟨first, found, Option.map_eq_some_iff.mpr ⟨others, restFound, rfl⟩⟩

theorem isWellFormed_join_iff {connective : Connective} {first second : Chain} {rest : List Chain} :
    (join connective (first :: second :: rest)).IsWellFormed ↔
      first.IsWellFormed ∧ AreWellFormed (second :: rest) := by
  simp [IsWellFormed, AreWellFormed]

theorem nesting_join_le_iff {connective : Connective} {first : Chain} {rest : List Chain}
    {budget : Nat} (positive : budget ≠ 0) :
    (join connective (first :: rest)).nesting ≤ budget ↔
      first.nesting ≤ budget - 1 ∧ greatestNesting rest ≤ budget - 1 := by
  rw [nesting, greatestNesting]
  omega

theorem folded?_join_eq_some_iff {connective : Connective} {first second : Chain}
    {rest : List Chain} {rule : Rule} :
    (join connective (first :: second :: rest)).folded? = some rule ↔
      ∃ left rules, first.folded? = some left ∧ allFolded? (second :: rest) = some rules ∧
        rule = rules.foldl (.join connective) left := by
  rw [folded?, Option.bind_eq_some_iff]
  constructor
  · rintro ⟨all, found, same⟩
    obtain ⟨left, rules, firstFound, others, rfl⟩ := allFolded?_cons_eq_some_iff.mp found
    exact ⟨left, rules, firstFound, others, (Option.some.inj same).symm⟩
  · rintro ⟨left, rules, firstFound, others, rfl⟩
    exact ⟨left :: rules, allFolded?_cons_eq_some_iff.mpr ⟨left, rules, firstFound, others, rfl⟩,
      rfl⟩

mutual

/-- A chain stands for its folded rule, if every list is long enough and the budget is. -/
theorem toRule_eq_ok_iff (chain : Chain) {budget : Nat} {rule : Rule} :
    chain.toRule budget = .ok rule ↔
      chain.IsWellFormed ∧ chain.folded? = some rule ∧ chain.nesting ≤ budget := by
  cases chain with
  | test comparison =>
      rw [toRule, nesting, folded?]
      by_cases empty : budget = 0
      · simp [empty, IsWellFormed]
      · have positive : 1 ≤ budget := Nat.pos_of_ne_zero empty
        simp [empty, IsWellFormed, positive]
  | join connective operands =>
      match operands with
      | [] => by_cases empty : budget = 0 <;> simp [toRule, empty, IsWellFormed]
      | [only] => by_cases empty : budget = 0 <;> simp [toRule, empty, IsWellFormed]
      | first :: second :: rest =>
          by_cases empty : budget = 0
          · simp [toRule, empty, nesting]
          · rw [toRule_join empty, folded?_join_eq_some_iff, isWellFormed_join_iff,
              nesting_join_le_iff empty]
            constructor
            · intro read
              obtain ⟨left, taken, joined⟩ := bind_eq_ok_iff.mp read
              obtain ⟨firstFormed, firstFolded, firstNests⟩ := (toRule_eq_ok_iff first).mp taken
              obtain ⟨restFormed, ⟨rules, folded, same⟩, restNests⟩ :=
                (joinOnto_eq_ok_iff (second :: rest)).mp joined
              exact ⟨⟨firstFormed, restFormed⟩, ⟨left, rules, firstFolded, folded, same⟩,
                firstNests, restNests⟩
            · rintro ⟨⟨firstFormed, restFormed⟩, ⟨left, rules, firstFolded, folded, same⟩,
                firstNests, restNests⟩
              exact bind_eq_ok_iff.mpr ⟨left,
                (toRule_eq_ok_iff first).mpr ⟨firstFormed, firstFolded, firstNests⟩,
                (joinOnto_eq_ok_iff (second :: rest)).mpr
                  ⟨restFormed, ⟨rules, folded, same⟩, restNests⟩⟩

theorem joinOnto_eq_ok_iff (operands : List Chain) {budget : Nat} {connective : Connective}
    {left rule : Rule} :
    joinOnto budget connective left operands = .ok rule ↔
      AreWellFormed operands ∧ (∃ rules, allFolded? operands = some rules ∧
        rule = rules.foldl (.join connective) left) ∧ greatestNesting operands ≤ budget := by
  cases operands with
  | nil => simp [joinOnto, AreWellFormed, allFolded?, greatestNesting, eq_comm]
  | cons operand rest =>
      rw [joinOnto_cons, AreWellFormed, greatestNesting, Nat.max_le]
      constructor
      · intro read
        obtain ⟨right, taken, joined⟩ := bind_eq_ok_iff.mp read
        obtain ⟨formed, folded, nests⟩ := (toRule_eq_ok_iff operand).mp taken
        obtain ⟨restFormed, ⟨rules, restFolded, same⟩, restNests⟩ :=
          (joinOnto_eq_ok_iff rest).mp joined
        exact ⟨⟨formed, restFormed⟩, ⟨right :: rules,
          allFolded?_cons_eq_some_iff.mpr ⟨right, rules, folded, restFolded, rfl⟩, same⟩,
          nests, restNests⟩
      · rintro ⟨⟨formed, restFormed⟩, ⟨all, allFolded, same⟩, nests, restNests⟩
        obtain ⟨right, rules, folded, restFolded, rfl⟩ := allFolded?_cons_eq_some_iff.mp allFolded
        exact bind_eq_ok_iff.mpr ⟨right, (toRule_eq_ok_iff operand).mpr ⟨formed, folded, nests⟩,
          (joinOnto_eq_ok_iff rest).mpr ⟨restFormed, ⟨rules, restFolded, same⟩, restNests⟩⟩

end

mutual

/-- Each list of operands is one level of the rule at least, as it has two or more. -/
theorem nesting_le_depth (chain : Chain) {rule : Rule} (formed : chain.IsWellFormed)
    (folded : chain.folded? = some rule) : chain.nesting ≤ rule.depth := by
  cases chain with
  | test comparison => exact rule.depth_pos
  | join connective operands =>
      obtain ⟨enough, allFormed⟩ := formed
      match operands with
      | [] => simp at enough
      | [only] => simp at enough
      | first :: second :: rest =>
          obtain ⟨left, rules, firstFolded, restFolded, rfl⟩ := folded?_join_eq_some_iff.mp folded
          obtain ⟨right, others, _, _, rfl⟩ := allFolded?_cons_eq_some_iff.mp restFolded
          have all : allFolded? (first :: second :: rest) = some (left :: right :: others) :=
            allFolded?_cons_eq_some_iff.mpr ⟨left, _, firstFolded, restFolded, rfl⟩
          -- The second operand is what makes the rule deeper than each of its operands.
          have below : ∀ operand ∈ left :: right :: others, operand.depth ≤
              ((right :: others).foldl (.join connective) left).depth - 1 :=
            fun _ member => Nat.le_sub_one_of_lt (Rule.depth_lt_foldl member)
          have bound := greatestNesting_le (first :: second :: rest) allFormed all below
          have positive := Rule.depth_pos ((right :: others).foldl (.join connective) left)
          rw [nesting]
          omega

theorem greatestNesting_le (chains : List Chain) {rules : List Rule} {bound : Nat}
    (formed : AreWellFormed chains) (folded : allFolded? chains = some rules)
    (below : ∀ rule ∈ rules, rule.depth ≤ bound) : greatestNesting chains ≤ bound := by
  cases chains with
  | nil => exact Nat.zero_le bound
  | cons chain rest =>
      obtain ⟨first, others, firstFolded, restFolded, rfl⟩ := allFolded?_cons_eq_some_iff.mp folded
      obtain ⟨firstBelow, othersBelow⟩ := List.forall_mem_cons.mp below
      have head := nesting_le_depth chain formed.1 firstFolded
      have tail := greatestNesting_le rest formed.2 restFolded othersBelow
      rw [greatestNesting]
      omega

end

end Chain

end FieldRules
