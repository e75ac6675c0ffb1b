import FieldRules.Json.Reading
import FieldRules.Rule.Basic

/-!
Limits on rules, their JSON, and rules that carry their depth, so that a limit is checked at each step
of building a rule without walking through what is already built.
-/

namespace FieldRules

structure Limits where
  maxDepth : Nat := 128
  deriving DecidableEq

namespace Limits

def fieldName : String := "max_depth"

def toJson (limits : Limits) : Json :=
  .object [(fieldName, .integer limits.maxDepth)]

open Json (Fault Reading Items Members nameOf)

def readDepth : Reading → Except Fault Nat
  | .number spelling =>
      match spelling.value? with
      | some (.integer value) => if 0 ≤ value then .ok value.toNat else .error .mismatched
      | some _ => .error .mismatched
      | none => .error .malformed
  | other => .error other.refusal

/-- The depth among the members of an object, at most one. Other members are passed over whatever
they hold. -/
def readMembers (depth : Option Nat) : Members → Except Fault (Option Nat)
  | .closed => .ok depth
  | .cut => .error .malformed
  | .member name value rest => do
      let name ← nameOf name
      if name = fieldName then
        if depth.isSome then throw .mismatched
        let found ← readDepth value
        readMembers (some found) rest
      else if value.isWhole then readMembers depth rest
      else throw .malformed

def readItems : Items → Except Fault (Option Nat)
  | .closed => .ok none
  | .cut => .error .malformed
  | .item value rest => do
      let depth ← readDepth value
      match rest with
      | .closed => return some depth
      | _ => throw .malformed

def ofDepth : Option Nat → Limits
  | some depth => ⟨depth⟩
  | none => {}

def read : Reading → Except Fault Limits
  | .object members => (readMembers none members).map ofDepth
  | .array items => (readItems items).map ofDepth
  | other => .error other.refusal

/-- The limits that a JSON text writes. A depth that is not given is the usual one. -/
def decode (text : String) : Except Fault Limits :=
  Json.readWith read text

end Limits

structure MeasuredRule where
  rule : Rule
  depth : Nat
  depth_eq : depth = rule.depth

namespace MeasuredRule

def test (comparison : Comparison) : MeasuredRule where
  rule := .test comparison
  depth := 1
  depth_eq := rfl

def join (connective : Connective) (left right : MeasuredRule) : MeasuredRule where
  rule := .join connective left.rule right.rule
  depth := 1 + max left.depth right.depth
  depth_eq := by rw [left.depth_eq, right.depth_eq, Rule.depth_join]

def ofRule (rule : Rule) : MeasuredRule where
  rule := rule
  depth := rule.depth
  depth_eq := rfl

end MeasuredRule

end FieldRules
