import FieldRules.Exchange
import FieldRules.Proofs.Exchange.Reading
import FieldRules.Proofs.Rule.Grammar
import Mathlib.Data.List.Basic

/-!
Rules are loaded again from their JSON unless they are too deep. The usual limit on the depth admits two
more levels than JSON may be nested for. The texts that a tree is written as differ in the order of the
members of each object and in the blanks between the tokens, and are all read as the same tree.
-/

namespace FieldRules

theorem Connective.ofKeyword?_keyword (connective : Connective) :
    ofKeyword? connective.keyword = some connective := by
  cases connective <;> decide

theorem Connective.ofKeyword?_symbol (comparator : Comparator) :
    ofKeyword? comparator.symbol = none := by
  cases comparator <;> decide

namespace ExchangeTree

theorem toRule_ofRule (rule : Rule) : (ofRule rule).toRule = .ok rule := by
  induction rule with
  | test comparison =>
      rw [ofRule, toRule, Connective.ofKeyword?_symbol, Grammar.ofSymbol?_eq_some_iff.mpr rfl]
      rfl
  | join connective left right leftRule rightRule =>
      rw [ofRule, toRule, Connective.ofKeyword?_keyword, leftRule, rightRule]
      rfl

theorem height_ofRule (rule : Rule) : (ofRule rule).height = rule.depth + 1 := by
  induction rule with
  | test comparison => rfl
  | join connective left right leftHeight rightHeight =>
      rw [ofRule, height, leftHeight, rightHeight, Rule.depth_join]
      omega

theorem literals_ofRule (rule : Rule) :
    (ofRule rule).literals = rule.comparisons.map Comparison.literal := by
  induction rule with
  | test comparison => rfl
  | join connective left right leftLiterals rightLiterals =>
      rw [ofRule, literals, leftLiterals, rightLiterals, Rule.comparisons_join, List.map_append]

theorem toRuleWithin_ofRule (limits : Limits) (rule : Rule) :
    (ofRule rule).toRuleWithin limits =
      if limits.maxDepth < rule.depth then .error (.tooDeep ⟨rule.depth, limits.maxDepth⟩)
      else .ok rule := by
  have measured : (MeasuredRule.ofRule rule).within limits =
      if limits.maxDepth < rule.depth then .error ⟨rule.depth, limits.maxDepth⟩
      else .ok (.ofRule rule) := rfl
  simp only [toRuleWithin, toRule_ofRule, Except.mapError, bind, Except.bind, measured]
  by_cases deep : limits.maxDepth < rule.depth
  · rw [if_pos deep, if_pos deep]
  · rw [if_neg deep, if_neg deep]
    rfl

end ExchangeTree

namespace Rule

def FloatsReadBack (rule : Rule) : Prop :=
  ∀ comparison ∈ rule.comparisons, ∀ x, comparison.literal = .float x →
    Json.numberOfText? (Json.floatText x).toList = some (.float x)

theorem FloatsReadBack.ofRule {rule : Rule} (readBack : rule.FloatsReadBack) :
    (ExchangeTree.ofRule rule).FloatsReadBack := by
  intro x member
  rw [ExchangeTree.literals_ofRule] at member
  obtain ⟨comparison, own, float⟩ := List.mem_map.mp member
  exact readBack comparison own x float

theorem ofText_jsonText {rule : Rule} (readBack : rule.FloatsReadBack) :
    ExchangeTree.ofText rule.jsonText =
      if rule.depth < Json.maxNesting then .ok (ExchangeTree.ofRule rule)
      else .error .malformed := by
  have read := ExchangeTree.readWith_words readBack.ofRule (.refl _)
    (Json.spaced_text (ExchangeTree.ofRule rule).toJson)
  rw [ExchangeTree.height_ofRule] at read
  exact read

/-- A rule is loaded from its JSON exactly if it is within the limit and JSON can hold it. -/
theorem decode_jsonText (limits : Limits) (rule : Rule) (readBack : rule.FloatsReadBack) :
    ExchangeTree.decode limits rule.jsonText =
      if Json.maxNesting ≤ rule.depth then .error (.json .malformed)
      else if limits.maxDepth < rule.depth then
        .error (.content (.tooDeep ⟨rule.depth, limits.maxDepth⟩))
      else .ok rule := by
  simp only [ExchangeTree.decode, ofText_jsonText readBack]
  rcases Nat.lt_or_ge rule.depth Json.maxNesting with holds | deep
  · rw [if_pos holds, if_neg (Nat.not_le.mpr holds)]
    simp only [Except.mapError, bind, Except.bind, ExchangeTree.toRuleWithin_ofRule]
    by_cases beyond : limits.maxDepth < rule.depth
    · rw [if_pos beyond, if_pos beyond]
    · rw [if_neg beyond, if_neg beyond]
  · rw [if_neg (Nat.not_lt.mpr deep), if_pos deep]
    rfl

theorem numberOfText?_tenth : Json.numberOfText? (Json.floatText ⟨0x3fb999999999999a⟩).toList =
    some (.float ⟨0x3fb999999999999a⟩) := by
  have found : Json.numberText? (Json.floatText ⟨0x3fb999999999999a⟩).toList =
      some (⟨false, ['0'], some ['1'], none⟩, []) := by
    decide +kernel
  exact Json.numberOfText?_floatText_of_tenths found rfl (by decide +kernel) (by decide)

theorem decode_jsonText_quoted_and_tenth :
    let rule := join .and (test ⟨"rate", .ge, .float ⟨0x3fb999999999999a⟩⟩)
      (test ⟨"name", .ne, .text "a\"\n'"⟩)
    rule.FloatsReadBack ∧ ExchangeTree.decode {} rule.jsonText = .ok rule := by
  have readBack : (join .and (test ⟨"rate", .ge, .float ⟨0x3fb999999999999a⟩⟩)
      (test ⟨"name", .ne, .text "a\"\n'"⟩)).FloatsReadBack := by
    intro comparison own x literal
    simp only [comparisons_join, comparisons_test, List.mem_append, List.mem_singleton] at own
    rcases own with rfl | rfl
    · cases literal
      exact numberOfText?_tenth
    · cases literal
  exact ⟨readBack, decode_jsonText {} _ readBack⟩

def chainOf (comparison : Comparison) : Nat → Rule
  | 0 => test comparison
  | joins + 1 => join .and (chainOf comparison joins) (test comparison)

theorem depth_chainOf (comparison : Comparison) (joins : Nat) :
    (chainOf comparison joins).depth = joins + 1 := by
  induction joins with
  | zero => rfl
  | succ joins ih =>
      rw [chainOf, depth_join, ih, depth_test]
      omega

theorem eq_of_mem_comparisons_chainOf {comparison own : Comparison} {joins : Nat}
    (member : own ∈ (chainOf comparison joins).comparisons) : own = comparison := by
  induction joins with
  | zero => exact List.mem_singleton.mp member
  | succ joins ih =>
      rw [chainOf, comparisons_join, List.mem_append] at member
      rcases member with earlier | last
      · exact ih earlier
      · exact List.mem_singleton.mp last

/-- The usual limit admits a rule that cannot be loaded from its own JSON. -/
theorem not_decode_jsonText_of_depth_127 : ∃ rule : Rule, rule.FloatsReadBack ∧
    rule.depth ≤ ({} : Limits).maxDepth ∧ ExchangeTree.decode {} rule.jsonText ≠ .ok rule := by
  have readBack : (chainOf ⟨"a", .eq, .int 1⟩ 126).FloatsReadBack := by
    intro own member x literal
    rw [eq_of_mem_comparisons_chainOf member] at literal
    cases literal
  refine ⟨chainOf ⟨"a", .eq, .int 1⟩ 126, readBack, ?_, ?_⟩
  · rw [depth_chainOf]
    decide
  · rw [ExchangeTree.decode, ofText_jsonText readBack, depth_chainOf]
    intro same
    cases same

end Rule

namespace ExchangeTree

/-- The text is the tree's JSON, with the members of all objects in any order and blanks between the
tokens. -/
def IsWrittenAs (tree : ExchangeTree) (text : String) : Prop :=
  ∃ json : Json, json.EqualUpToOrder tree.toJson ∧ Json.Spaced json.words text.toList

theorem isWrittenAs_toJson (tree : ExchangeTree) : tree.IsWrittenAs tree.toJson.text :=
  ⟨tree.toJson, .refl _, tree.toJson.spaced_text⟩

/-- A tree is read from all texts that it is written as, rule or not, with its literals as they are,
unless it is too high for any JSON to be nested so deep. -/
theorem ofText_eq_of_written {tree : ExchangeTree} (readBack : tree.FloatsReadBack) :
    tree.IsWrittenAs tree.toJson.text ∧ ∀ text, tree.IsWrittenAs text →
      ofText text = if tree.height ≤ Json.maxNesting then .ok tree else .error .malformed := by
  refine ⟨tree.isWrittenAs_toJson, ?_⟩
  rintro text ⟨json, equal, spaced⟩
  exact readWith_words readBack equal spaced

theorem ofText_eq_of_written_reversed :
    let tree := operator "\n" (identifier "rate") (literal (.float ⟨0x3fb999999999999a⟩))
    let text := " \x7b \"right\" : \x7b \"value\" : 0.1 , \"type\" : \"literal\" \x7d , " ++
      "\"left\" : \x7b \"name\" : \"rate\" , \"type\" : \"identifier\" \x7d , " ++
      "\"value\" : \"\\n\" , \"type\" : \"operator\" \x7d"
    tree.FloatsReadBack ∧ tree.IsWrittenAs text ∧ ofText text = .ok tree := by
  intro tree text
  have readBack : tree.FloatsReadBack := by
    intro x member
    obtain rfl : x = ⟨0x3fb999999999999a⟩ := by simpa [tree, literals] using member
    exact Rule.numberOfText?_tenth
  let left := [("type", Json.string "identifier"), ("name", .string "rate")]
  let right := [("type", Json.string "literal"), ("value", .float ⟨0x3fb999999999999a⟩)]
  let root := [("type", Json.string "operator"), ("value", .string "\n"),
    ("left", .object left.reverse), ("right", .object right.reverse)]
  have leftEqual : (Json.object left.reverse).EqualUpToOrder (.object left) :=
    .object left.reverse_perm (Json.membersEqualUpToOrder_refl left)
  have rightEqual : (Json.object right.reverse).EqualUpToOrder (.object right) :=
    .object right.reverse_perm (Json.membersEqualUpToOrder_refl right)
  have equal : (Json.object root.reverse).EqualUpToOrder tree.toJson :=
    .object root.reverse_perm
      (.cons (.refl _) (.cons (.refl _) (.cons leftEqual (.cons rightEqual .nil))))
  have spaced : text.toList = (Json.object root.reverse).words.flatMap ([' '] ++ ·) := by
    rw [String.toList_append, String.toList_append]
    decide +kernel
  have written : tree.IsWrittenAs text :=
    ⟨_, equal, spaced ▸ Json.spaced_flatMap (by decide) _⟩
  exact ⟨readBack, written, (ofText_eq_of_written readBack).2 text written⟩

end ExchangeTree

end FieldRules
