import FieldRules.Context
import FieldRules.Json.Basic
import FieldRules.Json.Reading
import FieldRules.Rule.Basic
import FieldRules.Rule.Combination

/-!
Exchange trees: the loose shape in which rules are passed around as JSON. Every rule has an exchange
tree, but not every exchange tree is a rule. In JSON a node is an object with a "type", in any order of
its members, or an array that starts with the type. The root is read in order up to its end; what is
inside it is taken apart only after that.
-/

namespace FieldRules

inductive ExchangeTree where
  | operator (value : String) (left right : ExchangeTree)
  | identifier (name : String)
  | literal (value : Scalar)
  deriving DecidableEq

namespace ExchangeTree

inductive Kind where
  | operator
  | identifier
  | literal
  deriving DecidableEq

def Kind.name : Kind → String
  | operator => "operator"
  | identifier => "identifier"
  | literal => "literal"

def kind : ExchangeTree → Kind
  | operator _ _ _ => .operator
  | identifier _ => .identifier
  | literal _ => .literal

inductive ShapeFault where
  | unsupportedOperator (value : String)
  | notOperator (found : Kind)
  | badOperands (left right : Kind)
  deriving DecidableEq

def ShapeFault.message : ShapeFault → String
  | unsupportedOperator value => s!"unsupported operator '{value}'"
  | notOperator found => s!"expected operator node, found {found.name} node"
  | badOperands left right =>
      s!"expected identifier and literal operands, found {left.name} and {right.name} nodes"

def ofRule : Rule → ExchangeTree
  | .test comparison =>
      operator comparison.comparator.symbol (identifier comparison.field)
        (literal comparison.literal)
  | .join connective left right => operator connective.keyword (ofRule left) (ofRule right)

def toComparison (comparator : Comparator) : ExchangeTree → ExchangeTree → Except ShapeFault Comparison
  | identifier name, literal value => .ok ⟨name, comparator, value⟩
  | left, right => .error (.badOperands left.kind right.kind)

/-- The rule that a tree stands for. Connectives may be in any letter case; the first fault from
the root on, left operands before right ones, is reported. -/
def toRule : ExchangeTree → Except ShapeFault Rule
  | operator value left right =>
      match Connective.ofKeyword? value with
      | some connective => do
          let leftRule ← left.toRule
          let rightRule ← right.toRule
          return .join connective leftRule rightRule
      | none =>
          match Comparator.ofSymbol? value with
          | some comparator => (toComparison comparator left right).map .test
          | none => .error (.unsupportedOperator value)
  | other => .error (.notOperator other.kind)

def toJson : ExchangeTree → Json
  | operator value left right =>
      .object [("type", .string Kind.operator.name), ("value", .string value),
        ("left", left.toJson), ("right", right.toJson)]
  | identifier name => .object [("type", .string Kind.identifier.name), ("name", .string name)]
  | literal value => .object [("type", .string Kind.literal.name), ("value", .ofScalar value)]

open Json (Reading Members orMalformed nameOf maxNesting)

def tagName : String := "type"

def Kind.fields : Kind → List String
  | operator => ["value", "left", "right"]
  | identifier => ["name"]
  | literal => ["value"]

def Kind.ofName? (name : String) : Option Kind :=
  [operator, identifier, literal].find? fun kind => kind.name == name

def Kind.ofJson? : Json → Option Kind
  | .string name => ofName? name
  | .integer 0 => some operator
  | .integer 1 => some identifier
  | .integer 2 => some literal
  | _ => none

structure Part where
  json : Json
  tree : Option ExchangeTree

def ofParts? : Kind → List Part → Option ExchangeTree
  | .operator, [value, left, right] =>
      match value.json with
      | .string text => do return operator text (← left.tree) (← right.tree)
      | _ => none
  | .identifier, [name] =>
      match name.json with
      | .string text => some (identifier text)
      | _ => none
  | .literal, [value] => value.json.scalar?.map literal
  | _, _ => none

def theOnly? (name : String) (parts : List (String × Part)) : Option Part :=
  match parts.filter (fun part => part.1 == name) with
  | [part] => some part.2
  | _ => none

def ofNamedParts? (kind : Kind) (parts : List (String × Part)) : Option ExchangeTree := do
  let wanted ← kind.fields.mapM fun name => theOnly? name parts
  ofParts? kind wanted

mutual

def ofJson? : Json → Option ExchangeTree
  | .object members => do
      let parts := memberParts members
      let tag ← theOnly? tagName parts
      let kind ← Kind.ofJson? tag.json
      ofNamedParts? kind parts
  | .array items =>
      match itemParts items with
      | [] => none
      | tag :: parts => do
          let kind ← Kind.ofJson? tag.json
          ofParts? kind parts
  | _ => none

def itemParts : List Json → List Part
  | [] => []
  | item :: rest => ⟨item, ofJson? item⟩ :: itemParts rest

def memberParts : List (String × Json) → List (String × Part)
  | [] => []
  | (name, value) :: rest => (name, ⟨value, ofJson? value⟩) :: memberParts rest

end

def readTag : Reading → Except Json.Fault Kind
  | .string pieces => do
      let name ← nameOf pieces
      match Kind.ofName? name with
      | some kind => return kind
      | none => throw .mismatched
  | other => .error other.refusal

def readMembers (kind : Option Kind) : Members → Except Json.Fault (Kind × List (String × Json))
  | .closed =>
      match kind with
      | some kind => .ok (kind, [])
      | none => .error .mismatched
  | .cut => .error .malformed
  | .member name value rest => do
      let name ← nameOf name
      if name = tagName then
        if kind.isSome then throw .mismatched
        let found ← readTag value
        readMembers (some found) rest
      else
        let value ← orMalformed (value.value? (maxNesting - 1))
        let (kind, others) ← readMembers kind rest
        return (kind, (name, value) :: others)

def orMismatched (tree : Option ExchangeTree) : Except Json.Fault ExchangeTree :=
  match tree with
  | some tree => .ok tree
  | none => .error .mismatched

def read : Reading → Except Json.Fault ExchangeTree
  | .object members => do
      let (kind, others) ← readMembers none members
      orMismatched (ofNamedParts? kind (memberParts others))
  | .array (.item tag rest) => do
      let kind ← readTag tag
      let items ← orMalformed (rest.values? (maxNesting - 1))
      orMismatched (ofParts? kind (itemParts items))
  | .array .cut => .error .malformed
  | other => .error other.refusal

inductive Refusal where
  | shape (fault : ShapeFault)
  | tooDeep (fault : TooDeep)
  deriving DecidableEq

def Refusal.message : Refusal → String
  | shape fault => fault.message
  | tooDeep fault => fault.message

def toRuleWithin (limits : Limits) (tree : ExchangeTree) : Except Refusal Rule := do
  let rule ← tree.toRule.mapError .shape
  let measured ← ((MeasuredRule.ofRule rule).within limits).mapError .tooDeep
  return measured.rule

inductive EvaluationError where
  | unsupportedOperator (value : String)
  | malformedTree (reason : Refusal)
  | evaluation (error : EvalError)
  deriving DecidableEq

namespace EvaluationError

def message : EvaluationError → String
  | unsupportedOperator value => s!"unsupported operator '{value}'"
  | malformedTree reason => s!"malformed rule tree: {reason.message}"
  | evaluation error => error.message

def ofRefusal : Refusal → EvaluationError
  | .shape (.unsupportedOperator value) => unsupportedOperator value
  | reason => malformedTree reason

end EvaluationError

def evaluate (limits : Limits) (tree : ExchangeTree) (context : Context) :
    Except EvaluationError Bool := do
  let rule ← (tree.toRuleWithin limits).mapError .ofRefusal
  (rule.evaluate context).mapError .evaluation

def ofText (text : String) : Except Json.Fault ExchangeTree :=
  Json.readWith read text

def decode (limits : Limits) (text : String) : Except (Json.TextError Refusal) Rule := do
  let tree ← (ofText text).mapError .json
  (tree.toRuleWithin limits).mapError .content

def evaluateText (limits : Limits) (text : String) (context : Context) :
    Except (Json.TextError EvaluationError) Bool := do
  let tree ← (ofText text).mapError .json
  (tree.evaluate limits context).mapError .content

end ExchangeTree

namespace Rule

def jsonText (rule : Rule) : String :=
  (ExchangeTree.ofRule rule).toJson.text

/-- The rule that a JSON text stores, without limits. A tree that is no rule is JSON of another
shape than wanted. -/
def ofJsonText (text : String) : Except Json.Fault Rule :=
  Json.readWith (fun reading => do
    let tree ← ExchangeTree.read reading
    tree.toRule.mapError fun _ => .mismatched) text

end Rule

end FieldRules
