import FieldRules.Rule.Grammar

/-!
Combining rules, given as texts or as trees, under one connective. The rules are joined from the
left, and the limits hold for every rule and every intermediate result.
-/

namespace FieldRules

inductive RuleSource where
  | text (source : String)
  | tree (rule : Rule)
  deriving DecidableEq

structure TooDeep where
  depth : Nat
  limit : Nat
  deriving DecidableEq

def TooDeep.message (fault : TooDeep) : String :=
  s!"rule depth {fault.depth} exceeds the maximum of {fault.limit}"

inductive CombineError where
  | noRules
  | emptyRule (index : Nat)
  | tooDeep (fault : TooDeep)
  | badRule (index : Nat) (cause : SyntaxError)
  deriving DecidableEq

def CombineError.message : CombineError → String
  | noRules => "cannot combine an empty list of rules"
  | emptyRule index => s!"rule at index {index} is empty"
  | tooDeep fault => fault.message
  | badRule index cause => s!"rule at index {index} failed to parse: {cause.message}"

namespace MeasuredRule

def within (limits : Limits) (rule : MeasuredRule) : Except TooDeep MeasuredRule :=
  if limits.maxDepth < rule.depth then .error ⟨rule.depth, limits.maxDepth⟩ else .ok rule

end MeasuredRule

namespace RuleSource

def rule (limits : Limits) (index : Nat) : RuleSource → Except CombineError Rule
  | text source =>
      if Text.allBlank source.toList then .error (.emptyRule index)
      else (Rule.parse limits source).mapError (.badRule index)
  | tree rule => .ok rule

def measured (limits : Limits) (index : Nat) (source : RuleSource) :
    Except CombineError MeasuredRule := do
  let rule ← source.rule limits index
  ((MeasuredRule.ofRule rule).within limits).mapError .tooDeep

end RuleSource

namespace Rule

def combineOnto (limits : Limits) (connective : Connective) (sofar : MeasuredRule) (index : Nat) :
    List RuleSource → Except CombineError MeasuredRule
  | [] => .ok sofar
  | source :: rest => do
      let right ← source.measured limits index
      let joined ← ((MeasuredRule.join connective sofar right).within limits).mapError .tooDeep
      combineOnto limits connective joined (index + 1) rest

/-- The combination of one source is that source; more are joined from the left. -/
def combine (limits : Limits) (connective : Connective) :
    List RuleSource → Except CombineError Rule
  | [] => .error .noRules
  | source :: rest => do
      let first ← source.measured limits 0
      let combined ← combineOnto limits connective first 1 rest
      return combined.rule

end Rule

end FieldRules
