import FieldRules.Scalar

/-!
Rules: comparisons of named fields with literals, joined by "and" and "or". The leaves of a rule, from
left to right, are the comparisons that evaluation looks at. In the text of a rule parentheses appear
only where it would otherwise read as a rule of another shape: around "or" below "and", and around a
right operand with its parent's connective.
-/

namespace FieldRules

inductive Comparator where
  | eq
  | ne
  | gt
  | ge
  | lt
  | le
  deriving DecidableEq

namespace Comparator

def symbol : Comparator → String
  | .eq => "="
  | .ne => "!="
  | .gt => ">"
  | .ge => ">="
  | .lt => "<"
  | .le => "<="

def all : List Comparator := [.eq, .ne, .gt, .ge, .lt, .le]

def ofSymbol? (symbol : String) : Option Comparator :=
  all.find? fun comparator => comparator.symbol == symbol

/-- Whether the comparator accepts a pair whose order is given; `none` stands for a pair that has
no order, such as one with a NaN. -/
def accepts : Comparator → Option Ordering → Bool
  | .eq, order => order == some .eq
  | .ne, order => order != some .eq
  | .gt, order => order == some .gt
  | .ge, order => order == some .gt || order == some .eq
  | .lt, order => order == some .lt
  | .le, order => order == some .lt || order == some .eq

end Comparator

inductive Connective where
  | and
  | or
  deriving DecidableEq

namespace Connective

def keyword : Connective → String
  | .and => "AND"
  | .or => "OR"

def ofKeyword? (word : String) : Option Connective :=
  let upper := word.toList.map Char.toUpper
  if upper = ['A', 'N', 'D'] then some .and
  else if upper = ['O', 'R'] then some .or
  else none

def apply : Connective → Bool → Bool → Bool
  | .and, a, b => a && b
  | .or, a, b => a || b

end Connective

structure Comparison where
  field : String
  comparator : Comparator
  literal : Scalar
  deriving DecidableEq

def Comparison.same (a b : Comparison) : Bool :=
  decide (a.field = b.field) && decide (a.comparator = b.comparator) && a.literal.same b.literal

inductive Rule where
  | test (comparison : Comparison)
  | join (connective : Connective) (left right : Rule)
  deriving DecidableEq

namespace Rule

def depth : Rule → Nat
  | test _ => 1
  | join _ left right => 1 + max left.depth right.depth

def comparisons : Rule → List Comparison
  | test comparison => [comparison]
  | join _ left right => left.comparisons ++ right.comparisons

def size : Rule → Nat
  | test _ => 1
  | join _ left right => left.size + right.size

def fields (rule : Rule) : List String :=
  (rule.comparisons.map Comparison.field).eraseDups

def same : Rule → Rule → Bool
  | test a, test b => a.same b
  | join k left right, join k' left' right' =>
      decide (k = k') && left.same left' && right.same right'
  | _, _ => false

@[simp] theorem comparisons_test (comparison : Comparison) :
    (test comparison).comparisons = [comparison] := rfl

@[simp] theorem comparisons_join (k : Connective) (left right : Rule) :
    (join k left right).comparisons = left.comparisons ++ right.comparisons := rfl

@[simp] theorem depth_test (comparison : Comparison) : (test comparison).depth = 1 := rfl

@[simp] theorem depth_join (k : Connective) (left right : Rule) :
    (join k left right).depth = 1 + max left.depth right.depth := rfl

theorem length_comparisons (rule : Rule) : rule.comparisons.length = rule.size := by
  induction rule with
  | test comparison => rfl
  | join k left right leftLength rightLength => simp [size, leftLength, rightLength]

theorem depth_pos (rule : Rule) : 0 < rule.depth := by
  cases rule with
  | test comparison => exact Nat.one_pos
  | join k left right => rw [depth_join]; omega

theorem depth_le_size (rule : Rule) : rule.depth ≤ rule.size := by
  have size_pos : ∀ r : Rule, 0 < r.size := by
    intro r
    induction r with
    | test comparison => exact Nat.one_pos
    | join k left right leftPos rightPos => simp only [size]; omega
  induction rule with
  | test comparison => exact Nat.le_refl 1
  | join k left right leftBound rightBound =>
      have leftPos := size_pos left
      have rightPos := size_pos right
      simp only [depth_join, size]
      omega

end Rule

def Comparison.text (comparison : Comparison) : String :=
  comparison.field ++ " " ++ comparison.comparator.symbol ++ " " ++ comparison.literal.ruleText

namespace Rule

def grouped (parent : Connective) (onRight : Bool) : Rule → Bool
  | test _ => false
  | join k _ _ => (k == .or && parent == .and) || (onRight && k == parent)

def text : Rule → String
  | test comparison => comparison.text
  | join k left right =>
      group (left.grouped k false) left.text ++ " " ++ k.keyword ++ " "
        ++ group (right.grouped k true) right.text
where
  group (inParentheses : Bool) (text : String) : String :=
    if inParentheses then "(" ++ text ++ ")" else text

end Rule

end FieldRules
