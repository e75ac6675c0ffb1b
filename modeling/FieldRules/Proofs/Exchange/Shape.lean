import FieldRules.Proofs.Exchange.RoundTrip
import FieldRules.Proofs.Rule.Grammar

/-!
Which exchange trees are rules: the trees of rules, with their connectives in any letter case. Of all
other trees, the first node that is out of place is reported.
-/

namespace FieldRules

theorem Connective.ofKeyword?_eq_some_iff {value : String} {connective : Connective} :
    ofKeyword? value = some connective ↔ value.toUpper = connective.keyword := by
  have upper : value.toUpper.toList = value.toList.map Char.toUpper := String.toList_map
  rw [ofKeyword?, ← upper, ← String.toList_inj]
  cases connective with
  | and =>
      change _ ↔ value.toUpper.toList = ['A', 'N', 'D']
      by_cases isAnd : value.toUpper.toList = ['A', 'N', 'D'] <;> simp [isAnd]
  | or =>
      change _ ↔ value.toUpper.toList = ['O', 'R']
      by_cases isOr : value.toUpper.toList = ['O', 'R'] <;> simp [isOr]

theorem Connective.toUpper_keyword (connective : Connective) :
    connective.keyword.toUpper = connective.keyword :=
  ofKeyword?_eq_some_iff.mp (ofKeyword?_keyword connective)

def NamesConnective (value : String) : Prop :=
  ∃ connective : Connective, value.toUpper = connective.keyword

theorem namesConnective_iff {value : String} :
    NamesConnective value ↔ (Connective.ofKeyword? value).isSome = true := by
  simp only [NamesConnective, Option.isSome_iff_exists, Connective.ofKeyword?_eq_some_iff]

instance : DecidablePred NamesConnective := fun _ => decidable_of_iff _ namesConnective_iff.symm

theorem Connective.ofKeyword?_eq_none_iff {value : String} :
    ofKeyword? value = none ↔ ¬NamesConnective value := by
  rw [namesConnective_iff, Bool.not_eq_true, Option.isSome_eq_false_iff, Option.isNone_iff_eq_none]

namespace ExchangeTree

inductive EqualUpToCase : ExchangeTree → ExchangeTree → Prop
  | refl (tree : ExchangeTree) : EqualUpToCase tree tree
  | logical {value other : String} {left right otherLeft otherRight : ExchangeTree} :
      NamesConnective value → value.toUpper = other.toUpper → EqualUpToCase left otherLeft →
      EqualUpToCase right otherRight →
      EqualUpToCase (operator value left right) (operator other otherLeft otherRight)

theorem toRule_of_namesConnective {value : String} {connective : Connective}
    (left right : ExchangeTree) (named : value.toUpper = connective.keyword) :
    (operator value left right).toRule =
      left.toRule >>= fun leftRule => right.toRule >>= fun rightRule =>
        .ok (.join connective leftRule rightRule) := by
  rw [toRule, Connective.ofKeyword?_eq_some_iff.mpr named]
  rfl

theorem toComparison_eq_ok_iff {comparator : Comparator} {left right : ExchangeTree}
    {comparison : Comparison} :
    toComparison comparator left right = .ok comparison ↔ comparison.comparator = comparator ∧
      left = identifier comparison.field ∧ right = literal comparison.literal := by
  cases left with
  | identifier name =>
      cases right with
      | literal value =>
          constructor
          · rintro ⟨⟩
            exact ⟨rfl, rfl, rfl⟩
          · rintro ⟨rfl, ⟨⟩, ⟨⟩⟩
            rfl
      | _ => simp [toComparison]
  | _ => simp [toComparison]

theorem equalUpToCase_of_toRule {tree : ExchangeTree} {rule : Rule}
    (accepted : tree.toRule = .ok rule) : tree.EqualUpToCase (ofRule rule) := by
  induction tree generalizing rule with
  | operator value left right leftEqual rightEqual =>
      by_cases named : NamesConnective value
      · obtain ⟨connective, same⟩ := named
        rw [toRule_of_namesConnective left right same] at accepted
        obtain ⟨leftRule, leftRead, accepted⟩ := bind_eq_ok_iff.mp accepted
        obtain ⟨rightRule, rightRead, accepted⟩ := bind_eq_ok_iff.mp accepted
        cases accepted
        exact .logical ⟨connective, same⟩ (same.trans connective.toUpper_keyword.symm)
          (leftEqual leftRead) (rightEqual rightRead)
      · rw [toRule, Connective.ofKeyword?_eq_none_iff.mpr named] at accepted
        cases found : Comparator.ofSymbol? value with
        | none => simp [found] at accepted
        | some comparator =>
            simp only [found] at accepted
            obtain ⟨comparison, read, rfl⟩ := map_eq_ok_iff.mp accepted
            obtain ⟨rfl, rfl, rfl⟩ := toComparison_eq_ok_iff.mp read
            rw [Grammar.ofSymbol?_eq_some_iff.mp found]
            exact .refl _
  | identifier name => cases accepted
  | literal value => cases accepted

theorem toRule_of_equalUpToCase {tree other : ExchangeTree} (equal : tree.EqualUpToCase other)
    {rule : Rule} (same : other = ofRule rule) : tree.toRule = .ok rule := by
  induction equal generalizing rule with
  | refl tree =>
      rw [same]
      exact toRule_ofRule rule
  | @logical value other left right otherLeft otherRight named upper _ _ leftRule rightRule =>
      obtain ⟨connective, keyword⟩ := named
      have otherNamed := Connective.ofKeyword?_eq_some_iff.mpr (upper.symm.trans keyword)
      cases rule with
      | test comparison =>
          cases same
          rw [Connective.ofKeyword?_symbol] at otherNamed
          cases otherNamed
      | join own ownLeft ownRight =>
          cases same
          rw [Connective.ofKeyword?_keyword] at otherNamed
          cases otherNamed
          rw [toRule_of_namesConnective left right keyword, leftRule rfl, rightRule rfl]
          rfl

/-- The nodes that are reached from the root through connectives only, each before its operands and
the left operand's before the right one's. -/
def reached : ExchangeTree → List ExchangeTree
  | operator value left right =>
      operator value left right ::
        if NamesConnective value then left.reached ++ right.reached else []
  | leaf => [leaf]

inductive Offends : ExchangeTree → ShapeFault → Prop
  | notOperator {node : ExchangeTree} : node.kind ≠ .operator →
      Offends node (.notOperator node.kind)
  | unsupportedOperator {value : String} {left right : ExchangeTree} : ¬NamesConnective value →
      (∀ comparator : Comparator, value ≠ comparator.symbol) →
      Offends (operator value left right) (.unsupportedOperator value)
  | badOperands {value : String} {comparator : Comparator} {left right : ExchangeTree} :
      value = comparator.symbol → ¬(left.kind = .identifier ∧ right.kind = .literal) →
      Offends (operator value left right) (.badOperands left.kind right.kind)

def OffendsFirst (nodes : List ExchangeTree) (fault : ShapeFault) : Prop :=
  ∃ earlier node later, nodes = earlier ++ node :: later ∧ node.Offends fault ∧
    ∀ other ∈ earlier, ∀ own, ¬other.Offends own

theorem offendsFirst_cons_iff {node : ExchangeTree} {rest : List ExchangeTree}
    {fault : ShapeFault} :
    OffendsFirst (node :: rest) fault ↔
      node.Offends fault ∨ (∀ own, ¬node.Offends own) ∧ OffendsFirst rest fault := by
  constructor
  · rintro ⟨earlier, other, later, same, offends, fine⟩
    cases earlier with
    | nil =>
        cases same
        exact Or.inl offends
    | cons first earlier =>
        cases same
        obtain ⟨here, others⟩ := List.forall_mem_cons.mp fine
        exact Or.inr ⟨here, earlier, other, later, rfl, offends, others⟩
  · rintro (offends | ⟨here, earlier, other, later, rfl, offends, others⟩)
    · exact ⟨[], node, rest, rfl, offends, by simp⟩
    · exact ⟨node :: earlier, other, later, rfl, offends, List.forall_mem_cons.mpr ⟨here, others⟩⟩

theorem offendsFirst_append_iff {before after : List ExchangeTree} {fault : ShapeFault} :
    OffendsFirst (before ++ after) fault ↔ OffendsFirst before fault ∨
      (∀ node ∈ before, ∀ own, ¬node.Offends own) ∧ OffendsFirst after fault := by
  induction before with
  | nil => simp [OffendsFirst]
  | cons node before ih =>
      rw [List.cons_append, offendsFirst_cons_iff, offendsFirst_cons_iff, ih, List.forall_mem_cons]
      tauto

theorem exists_offendsFirst {nodes : List ExchangeTree} {node : ExchangeTree} {own : ShapeFault}
    (member : node ∈ nodes) (offends : node.Offends own) : ∃ fault, OffendsFirst nodes fault := by
  induction nodes with
  | nil => cases member
  | cons first nodes ih =>
      by_cases here : ∃ fault, first.Offends fault
      · obtain ⟨fault, firstOffends⟩ := here
        exact ⟨fault, offendsFirst_cons_iff.mpr (Or.inl firstOffends)⟩
      · rw [not_exists] at here
        rcases List.mem_cons.mp member with rfl | later
        · exact absurd offends (here own)
        · obtain ⟨fault, first⟩ := ih later
          exact ⟨fault, offendsFirst_cons_iff.mpr (Or.inr ⟨here, first⟩)⟩

theorem not_offends_of_namesConnective {value : String} (left right : ExchangeTree)
    (named : NamesConnective value) (own : ShapeFault) :
    ¬(operator value left right).Offends own := by
  intro offends
  cases offends with
  | notOperator other => exact other rfl
  | unsupportedOperator unnamed => exact unnamed named
  | badOperands symbol =>
      rw [symbol] at named
      exact Connective.ofKeyword?_eq_none_iff.mp (Connective.ofKeyword?_symbol _) named

theorem toComparison_eq_error_iff {comparator : Comparator} {left right : ExchangeTree}
    {fault : ShapeFault} :
    toComparison comparator left right = .error fault ↔
      ¬(left.kind = .identifier ∧ right.kind = .literal) ∧
        fault = .badOperands left.kind right.kind := by
  cases left with
  | identifier name => cases right <;> simp [toComparison, kind, eq_comm]
  | operator value first second => simp [toComparison, kind, eq_comm]
  | literal value => simp [toComparison, kind, eq_comm]

theorem toRule_eq_error_iff_offends {value : String} {left right : ExchangeTree}
    (unnamed : ¬NamesConnective value) {fault : ShapeFault} :
    (operator value left right).toRule = .error fault ↔ (operator value left right).Offends fault := by
  rw [toRule, Connective.ofKeyword?_eq_none_iff.mpr unnamed]
  cases found : Comparator.ofSymbol? value with
  | none =>
      have unknown (comparator : Comparator) : value ≠ comparator.symbol := by
        intro symbol
        rw [Grammar.ofSymbol?_eq_some_iff.mpr symbol] at found
        cases found
      constructor
      · rintro ⟨⟩
        exact .unsupportedOperator unnamed unknown
      · intro offends
        cases offends with
        | notOperator other => exact absurd rfl other
        | unsupportedOperator => rfl
        | badOperands symbol => exact absurd symbol (unknown _)
  | some comparator =>
      have symbol := Grammar.ofSymbol?_eq_some_iff.mp found
      simp only [map_eq_error_iff, toComparison_eq_error_iff]
      constructor
      · rintro ⟨operands, rfl⟩
        exact .badOperands symbol operands
      · intro offends
        cases offends with
        | notOperator other => exact absurd rfl other
        | unsupportedOperator _ unknown => exact absurd symbol (unknown comparator)
        | badOperands _ operands => exact ⟨operands, rfl⟩

theorem toRule_leaf_eq_error_iff {leaf : ExchangeTree} (isLeaf : leaf.kind ≠ .operator)
    {fault : ShapeFault} : leaf.toRule = .error fault ↔ leaf.Offends fault := by
  have refused : leaf.toRule = .error (.notOperator leaf.kind) := by
    cases leaf with
    | operator value left right => exact absurd rfl isLeaf
    | identifier name => rfl
    | literal value => rfl
  rw [refused]
  constructor
  · rintro ⟨⟩
    exact .notOperator isLeaf
  · intro offends
    cases offends with
    | notOperator => rfl
    | unsupportedOperator => exact absurd rfl isLeaf
    | badOperands => exact absurd rfl isLeaf

theorem offendsFirst_singleton_iff {node : ExchangeTree} {fault : ShapeFault} :
    OffendsFirst [node] fault ↔ node.Offends fault := by
  rw [offendsFirst_cons_iff]
  simp [OffendsFirst]

theorem toRule_eq_error_iff {tree : ExchangeTree} {fault : ShapeFault} :
    tree.toRule = .error fault ↔ OffendsFirst tree.reached fault := by
  induction tree generalizing fault with
  | operator value left right leftFault rightFault =>
      by_cases named : NamesConnective value
      · obtain ⟨connective, same⟩ := named
        have fine := not_offends_of_namesConnective left right ⟨connective, same⟩
        -- The left operand is a rule just if none of the nodes reached in it is out of place.
        have leftFine : (∃ rule, left.toRule = .ok rule) ↔
            ∀ node ∈ left.reached, ∀ own, ¬node.Offends own := by
          constructor
          · rintro ⟨rule, accepted⟩ node member own offends
            obtain ⟨other, first⟩ := exists_offendsFirst member offends
            rw [leftFault.mpr first] at accepted
            cases accepted
          · intro allFine
            cases read : left.toRule with
            | ok rule => exact ⟨rule, rfl⟩
            | error other =>
                obtain ⟨earlier, node, later, split, offends, _⟩ := leftFault.mp read
                exact absurd offends (allFine node (by simp [split]) other)
        rw [toRule_of_namesConnective left right same, reached, if_pos ⟨connective, same⟩,
          offendsFirst_cons_iff, offendsFirst_append_iff, bind_eq_error_iff, leftFault, ← leftFine]
        simp only [fine, bind_eq_error_iff, rightFault, false_or, not_false_eq_true, implies_true,
          true_and, reduceCtorEq, and_false, exists_false, or_false, exists_and_right]
      · rw [reached, if_neg named, offendsFirst_singleton_iff, toRule_eq_error_iff_offends named]
  | identifier name =>
      rw [reached, offendsFirst_singleton_iff, toRule_leaf_eq_error_iff (by simp [kind])]
      exact nofun
  | literal value =>
      rw [reached, offendsFirst_singleton_iff, toRule_leaf_eq_error_iff (by simp [kind])]
      exact nofun

/-- A tree is the rule of which it is the tree but for the case of its connectives, and of any other tree
the first node out of place is reported: one that is no operator, an operator that is unknown, whatever
its operands are, or a comparison of other operands than an identifier and a literal. -/
theorem toRule_eq_ok_iff_equalUpToCase (tree : ExchangeTree) :
    (∀ rule, tree.toRule = .ok rule ↔ tree.EqualUpToCase (ofRule rule)) ∧
    (∀ rule, (ofRule rule).toRule = .ok rule) ∧
    ∀ fault, tree.toRule = .error fault ↔
      ∃ earlier node later, tree.reached = earlier ++ node :: later ∧ node.Offends fault ∧
        ∀ other ∈ earlier, ∀ own, ¬other.Offends own :=
  ⟨fun _ => ⟨equalUpToCase_of_toRule, fun equal => toRule_of_equalUpToCase equal rfl⟩, toRule_ofRule,
    fun _ => toRule_eq_error_iff⟩

end ExchangeTree

end FieldRules
