import FieldRules.Rule.Basic
import FieldRules.Token

/-!
Phrases: comparisons with connectives between them, which is all that the tokens of a rule can be. The
rule of a phrase is made by cutting it at each "or" and joining from the left, first inside the groups
and then the groups. The rules of phrases are the plain ones, whose text needs no parentheses.
-/

namespace FieldRules

structure Several (α : Type) where
  first : α
  rest : List α

namespace Several

variable {α : Type}

def joined (connective : Connective) (rule : α → Rule) (several : Several α) : Rule :=
  several.rest.foldl (fun left next => .join connective left (rule next)) (rule several.first)

def spelled (connective : Connective) (kinds : α → List TokenKind) (several : Several α) :
    List TokenKind :=
  kinds several.first ++ several.rest.flatMap fun next => .connective connective :: kinds next

end Several

def TokenKind.literal? : TokenKind → Option Scalar
  | literal value => some value
  | _ => none

def Comparison.kinds (comparison : Comparison) : List TokenKind :=
  [.identifier comparison.field, .symbols comparison.comparator.symbol, .literal comparison.literal]

def Rule.kinds : Rule → List TokenKind
  | test comparison => comparison.kinds
  | join connective left right => left.kinds ++ .connective connective :: right.kinds

structure Phrase where
  first : Comparison
  rest : List (Connective × Comparison)

namespace Phrase

def kinds (phrase : Phrase) : List TokenKind :=
  phrase.first.kinds ++ phrase.rest.flatMap fun next => .connective next.1 :: next.2.kinds

def cutAtOr (first : Comparison) : List (Connective × Comparison) → Several (Several Comparison)
  | [] => ⟨⟨first, []⟩, []⟩
  | (.and, next) :: rest =>
      let later := cutAtOr next rest
      ⟨⟨first, later.first.first :: later.first.rest⟩, later.rest⟩
  | (.or, next) :: rest =>
      let later := cutAtOr next rest
      ⟨⟨first, []⟩, later.first :: later.rest⟩

def groups (phrase : Phrase) : Several (Several Comparison) :=
  cutAtOr phrase.first phrase.rest

def rule (phrase : Phrase) : Rule :=
  phrase.groups.joined .or fun group => group.joined .and .test

end Phrase

def groupKinds (groups : Several (Several Comparison)) : List TokenKind :=
  groups.spelled .or fun group => group.spelled .and Comparison.kinds

theorem groupKinds_cutAtOr (first : Comparison) (rest : List (Connective × Comparison)) :
    groupKinds (Phrase.cutAtOr first rest) = Phrase.kinds ⟨first, rest⟩ := by
  induction rest generalizing first with
  | nil => simp [Phrase.cutAtOr, groupKinds, Several.spelled, Phrase.kinds]
  | cons head rest ih =>
      obtain ⟨connective, next⟩ := head
      have later := ih next
      cases connective with
      | and =>
          simp only [groupKinds, Several.spelled, Phrase.kinds] at later
          simp only [Phrase.cutAtOr, groupKinds, Several.spelled, Phrase.kinds, List.flatMap_cons,
            List.cons_append, List.append_assoc] at later ⊢
          rw [later]
      | or =>
          simp only [groupKinds, Several.spelled, Phrase.kinds] at later
          simp only [Phrase.cutAtOr, groupKinds, Several.spelled, Phrase.kinds, List.flatMap_cons,
            List.flatMap_nil, List.append_nil, List.cons_append, List.append_assoc] at later ⊢
          rw [later]

theorem Phrase.groupKinds_groups (phrase : Phrase) : groupKinds phrase.groups = phrase.kinds :=
  groupKinds_cutAtOr phrase.first phrase.rest

theorem Phrase.exists_groups_eq (groups : Several (Several Comparison)) :
    ∃ phrase : Phrase, phrase.groups = groups := by
  obtain ⟨⟨first, comparisons⟩, rest⟩ := groups
  induction rest generalizing first comparisons with
  | nil =>
      induction comparisons generalizing first with
      | nil => exact ⟨⟨first, []⟩, rfl⟩
      | cons next comparisons ih =>
          obtain ⟨phrase, same⟩ := ih next
          refine ⟨⟨first, (.and, phrase.first) :: phrase.rest⟩, ?_⟩
          simp only [Phrase.groups] at same
          simp [Phrase.groups, Phrase.cutAtOr, same]
  | cons group rest ih =>
      induction comparisons generalizing first with
      | nil =>
          obtain ⟨phrase, same⟩ := ih group.first group.rest
          refine ⟨⟨first, (.or, phrase.first) :: phrase.rest⟩, ?_⟩
          simp only [Phrase.groups] at same
          simp [Phrase.groups, Phrase.cutAtOr, same]
      | cons next comparisons inner =>
          obtain ⟨phrase, same⟩ := inner next
          refine ⟨⟨first, (.and, phrase.first) :: phrase.rest⟩, ?_⟩
          simp only [Phrase.groups] at same
          simp [Phrase.groups, Phrase.cutAtOr, same]

theorem Several.kinds_joined {α : Type} (connective : Connective) (rule : α → Rule)
    (several : Several α) :
    (several.joined connective rule).kinds =
      several.spelled connective fun next => (rule next).kinds := by
  have step (start : Rule) (rest : List α) :
      (rest.foldl (fun left next => Rule.join connective left (rule next)) start).kinds =
        start.kinds ++ rest.flatMap fun next => .connective connective :: (rule next).kinds := by
    induction rest generalizing start with
    | nil => simp
    | cons next rest ih => simp [ih, Rule.kinds]
  exact step (rule several.first) several.rest

theorem kinds_joined_groups (groups : Several (Several Comparison)) :
    (groups.joined .or fun group => group.joined .and Rule.test).kinds = groupKinds groups := by
  have inner (group : Several Comparison) :
      (group.joined .and Rule.test).kinds = group.spelled .and Comparison.kinds :=
    Several.kinds_joined .and Rule.test group
  rw [Several.kinds_joined]
  simp only [inner]
  rfl

theorem Phrase.kinds_rule (phrase : Phrase) : phrase.rule.kinds = phrase.kinds := by
  rw [Phrase.rule, kinds_joined_groups, phrase.groupKinds_groups]

theorem Rule.filterMap_literal?_kinds (rule : Rule) :
    rule.kinds.filterMap TokenKind.literal? = rule.comparisons.map Comparison.literal := by
  induction rule with
  | test comparison => rfl
  | join connective left right leftLiterals rightLiterals =>
      rw [kinds, List.filterMap_append, List.filterMap_cons_none rfl, leftLiterals, rightLiterals,
        comparisons_join, List.map_append]

theorem Rule.size_le_length_kinds (rule : Rule) : rule.size ≤ rule.kinds.length := by
  induction rule with
  | test comparison => simp [size, kinds, Comparison.kinds]
  | join connective left right leftBound rightBound =>
      simp only [size, kinds, List.length_append, List.length_cons]
      omega

theorem Rule.depth_le_foldl {α : Type} (connective : Connective) (rule : α → Rule) (start : Rule)
    (rest : List α) :
    start.depth ≤
      (rest.foldl (fun left next => Rule.join connective left (rule next)) start).depth := by
  induction rest generalizing start with
  | nil => exact Nat.le_refl _
  | cons next rest ih =>
      have later := ih (.join connective start (rule next))
      rw [Rule.depth_join] at later
      rw [List.foldl_cons]
      omega

namespace Rule

def root? : Rule → Option Connective
  | test _ => none
  | join connective _ _ => some connective

/-- No "and" has an "or" for an operand, and no right operand has the connective that joins it. -/
def IsPlain : Rule → Prop
  | test _ => True
  | join connective left right => left.IsPlain ∧ right.IsPlain ∧
      (connective = .and → left.root? ≠ some .or ∧ right.root? ≠ some .or) ∧
      right.root? ≠ some connective

instance decidableIsPlain : (rule : Rule) → Decidable rule.IsPlain
  | test _ => .isTrue trivial
  | join connective left right =>
      have := decidableIsPlain left
      have := decidableIsPlain right
      inferInstanceAs (Decidable (left.IsPlain ∧ right.IsPlain ∧
        (connective = .and → left.root? ≠ some .or ∧ right.root? ≠ some .or) ∧
        right.root? ≠ some connective))

theorem grouped_eq_false_iff {rule : Rule} {connective : Connective} {onRight : Bool} :
    rule.grouped connective onRight = false ↔ (connective = .and → rule.root? ≠ some .or) ∧
      (onRight = true → rule.root? ≠ some connective) := by
  cases rule with
  | test comparison => simp [grouped, root?]
  | join own _ _ => cases own <;> cases connective <;> simp [grouped, root?]

theorem isPlain_join_iff {connective : Connective} {left right : Rule} :
    (join connective left right).IsPlain ↔ left.IsPlain ∧ right.IsPlain ∧
      left.grouped connective false = false ∧ right.grouped connective true = false := by
  rw [grouped_eq_false_iff, grouped_eq_false_iff, IsPlain]
  constructor
  · rintro ⟨leftPlain, rightPlain, inside, apart⟩
    exact ⟨leftPlain, rightPlain, ⟨fun same => (inside same).1, by simp⟩,
      fun same => (inside same).2, fun _ => apart⟩
  · rintro ⟨leftPlain, rightPlain, ⟨leftInside, _⟩, rightInside, apart⟩
    exact ⟨leftPlain, rightPlain, fun same => ⟨leftInside same, rightInside same⟩, apart rfl⟩

end Rule

namespace Several

variable {α : Type}

def snoc (several : Several α) (last : α) : Several α :=
  ⟨several.first, several.rest ++ [last]⟩

theorem joined_snoc (connective : Connective) (rule : α → Rule) (several : Several α) (last : α) :
    (several.snoc last).joined connective rule =
      .join connective (several.joined connective rule) (rule last) := by
  simp [joined, snoc]

theorem joined_of_step {connective : Connective} {rule : α → Rule} (property : Rule → Prop)
    (step : ∀ left next, property left → property (.join connective left (rule next)))
    (several : Several α) (start : property (rule several.first)) :
    property (several.joined connective rule) := by
  obtain ⟨first, rest⟩ := several
  rw [joined]
  generalize rule first = sofar at start
  induction rest generalizing sofar with
  | nil => exact start
  | cons next rest ih => exact ih _ (step sofar next start)

end Several

namespace Rule

theorem exists_group_of_isPlain {rule : Rule} (plain : rule.IsPlain) (noOr : rule.root? ≠ some .or) :
    ∃ group : Several Comparison, rule = group.joined .and test := by
  induction rule with
  | test comparison => exact ⟨⟨comparison, []⟩, rfl⟩
  | join connective left right leftGroup rightGroup =>
      cases connective with
      | or => exact absurd rfl noOr
      | and =>
          obtain ⟨leftPlain, _, inside, apart⟩ := plain
          obtain ⟨group, rfl⟩ := leftGroup leftPlain (inside rfl).1
          cases right with
          | test comparison => exact ⟨group.snoc comparison, (group.joined_snoc .and test _).symm⟩
          | join own _ _ =>
              cases own with
              | and => exact absurd rfl apart
              | or => exact absurd rfl (inside rfl).2

theorem exists_groups_of_isPlain {rule : Rule} (plain : rule.IsPlain) :
    ∃ groups, rule = Several.joined .or (Several.joined .and test) groups := by
  induction rule with
  | test comparison => exact ⟨⟨⟨comparison, []⟩, []⟩, rfl⟩
  | join connective left right leftGroups rightGroups =>
      cases connective with
      | and =>
          obtain ⟨group, same⟩ := exists_group_of_isPlain plain (by simp [root?])
          exact ⟨⟨group, []⟩, same⟩
      | or =>
          obtain ⟨leftPlain, rightPlain, _, apart⟩ := plain
          obtain ⟨groups, rfl⟩ := leftGroups leftPlain
          obtain ⟨group, rfl⟩ := exists_group_of_isPlain rightPlain apart
          exact ⟨groups.snoc group, (groups.joined_snoc .or _ _).symm⟩

theorem isPlain_group (group : Several Comparison) :
    (group.joined .and test).IsPlain ∧ (group.joined .and test).root? ≠ some .or := by
  refine Several.joined_of_step (fun rule => rule.IsPlain ∧ rule.root? ≠ some .or) ?_ group
    ⟨trivial, by simp [root?]⟩
  rintro left next ⟨plain, noOr⟩
  exact ⟨⟨plain, trivial, fun _ => ⟨noOr, by simp [root?]⟩, by simp [root?]⟩, by simp [root?]⟩

theorem isPlain_joined (groups : Several (Several Comparison)) :
    (groups.joined .or (Several.joined .and test)).IsPlain := by
  refine Several.joined_of_step IsPlain ?_ groups (isPlain_group groups.first).1
  intro left next plain
  exact ⟨plain, (isPlain_group next).1, by simp, (isPlain_group next).2⟩

end Rule

end FieldRules
