import FieldRules.Json.Reading
import FieldRules.Rule.Basic

/-!
Contexts: the named values that a rule is evaluated against, and their JSON. Fields are kept in the
order of their names, so that two contexts with the same fields are the same value whatever order they
were filled in. One reader of the JSON looks at the whole text first and says which field is wrong; the
other stops at the first field that is.

Both operands of a connective are always evaluated, the left one first, so the fault of the leftmost
failing comparison is reported whatever the others say.
-/

namespace FieldRules

structure Fields (α : Type) where
  entries : List (String × α)
  ascending : (entries.map Prod.fst).Pairwise (· < ·)
  deriving DecidableEq

namespace Fields

variable {α β ε : Type}

def empty : Fields α where
  entries := []
  ascending := List.Pairwise.nil

def size (fields : Fields α) : Nat :=
  fields.entries.length

def get? (fields : Fields α) (name : String) : Option α :=
  fields.entries.lookup name

def insertEntry (name : String) (value : α) : List (String × α) → List (String × α)
  | [] => [(name, value)]
  | (other, kept) :: rest =>
      if name < other then (name, value) :: (other, kept) :: rest
      else if name = other then (name, value) :: rest
      else (other, kept) :: insertEntry name value rest

theorem mem_names_insertEntry {name other : String} {value : α} {entries : List (String × α)}
    (member : other ∈ (insertEntry name value entries).map Prod.fst) :
    other = name ∨ other ∈ entries.map Prod.fst := by
  induction entries with
  | nil => simpa [insertEntry] using member
  | cons entry rest ih =>
      obtain ⟨first, kept⟩ := entry
      simp only [insertEntry] at member
      split at member
      · simpa using member
      · split at member
        · rcases List.mem_cons.mp member with same | later
          · exact Or.inl same
          · exact Or.inr (List.mem_cons_of_mem _ later)
        · rcases List.mem_cons.mp member with same | later
          · exact Or.inr (same ▸ List.mem_cons_self)
          · rcases ih later with same | old
            · exact Or.inl same
            · exact Or.inr (List.mem_cons_of_mem _ old)

theorem ascending_insertEntry (name : String) (value : α) {entries : List (String × α)}
    (ascending : (entries.map Prod.fst).Pairwise (· < ·)) :
    ((insertEntry name value entries).map Prod.fst).Pairwise (· < ·) := by
  induction entries with
  | nil => simp [insertEntry]
  | cons entry rest ih =>
      obtain ⟨first, kept⟩ := entry
      obtain ⟨below, restAscending⟩ := List.pairwise_cons.mp ascending
      simp only [insertEntry]
      split
      · rename_i before
        refine List.pairwise_cons.mpr ⟨?_, ascending⟩
        intro other member
        rcases List.mem_cons.mp member with same | later
        · exact same ▸ before
        · exact String.lt_trans before (below other later)
      · rename_i notBefore
        split
        · rename_i same
          subst same
          exact ascending
        · rename_i different
          refine List.pairwise_cons.mpr ⟨?_, ih restAscending⟩
          intro other member
          rcases mem_names_insertEntry member with same | old
          · rw [same]
            apply Decidable.byContradiction
            intro notAfter
            exact different (String.le_antisymm (String.not_lt.mp notAfter) (String.not_lt.mp notBefore))
          · exact below other old

def insert (fields : Fields α) (name : String) (value : α) : Fields α where
  entries := insertEntry name value fields.entries
  ascending := ascending_insertEntry name value fields.ascending

def ofList (pairs : List (String × α)) : Fields α :=
  pairs.foldl (fun fields pair => fields.insert pair.1 pair.2) empty

def mapM (f : String → α → Except ε β) (fields : Fields α) : Except ε (Fields β) :=
  fields.entries.foldlM (fun mapped entry => (f entry.1 entry.2).map (mapped.insert entry.1)) empty

theorem lookup_insertEntry_self (name : String) (value : α) (entries : List (String × α)) :
    (insertEntry name value entries).lookup name = some value := by
  induction entries with
  | nil => simp [insertEntry]
  | cons entry rest ih =>
      obtain ⟨first, kept⟩ := entry
      simp only [insertEntry]
      split
      · simp
      · split
        · simp
        · rename_i different
          simpa [List.lookup_cons, beq_eq_false_iff_ne.mpr different] using ih

theorem lookup_insertEntry_of_ne {name other : String} (different : other ≠ name) (value : α)
    (entries : List (String × α)) :
    (insertEntry name value entries).lookup other = entries.lookup other := by
  have unequal : (other == name) = false := beq_eq_false_iff_ne.mpr different
  induction entries with
  | nil => simp [insertEntry, List.lookup_cons, unequal]
  | cons entry rest ih =>
      obtain ⟨first, kept⟩ := entry
      simp only [insertEntry]
      split
      · simp [List.lookup_cons, unequal]
      · split
        · rename_i same
          subst same
          simp [List.lookup_cons, unequal]
        · simp only [List.lookup_cons, ih]

@[simp] theorem get?_empty (name : String) : (empty : Fields α).get? name = none := rfl

@[simp] theorem get?_insert_self (fields : Fields α) (name : String) (value : α) :
    (fields.insert name value).get? name = some value :=
  lookup_insertEntry_self name value fields.entries

theorem get?_insert_of_ne (fields : Fields α) {name other : String} (different : other ≠ name)
    (value : α) : (fields.insert name value).get? other = fields.get? other :=
  lookup_insertEntry_of_ne different value fields.entries

end Fields

abbrev Context := Fields Scalar

namespace Context

def toJson (context : Context) : Json :=
  .object (context.entries.map fun entry => (entry.1, .ofScalar entry.2))

inductive ShapeFault where
  | unsupportedValue (field : String) (kind : String)
  | notObject (kind : String)
  deriving DecidableEq

def ShapeFault.message : ShapeFault → String
  | unsupportedValue field kind =>
      s!"field '{field}' holds unsupported {kind} value; expected a string or number"
  | notObject kind => s!"context must be a JSON object, found {kind}"

def valueOfJson (name : String) (value : Json) : Except ShapeFault Scalar :=
  match value.scalar? with
  | some scalar => .ok scalar
  | none => .error (.unsupportedValue name value.kind)

def ofJson : Json → Except ShapeFault Context
  | .object members => (Fields.ofList members).mapM valueOfJson
  | other => .error (.notObject other.kind)

/-- The context that a JSON text writes. Of repeated names the last one counts, and of several wrong
fields the one with the least name is reported. -/
def ofText (text : String) : Except (Json.TextError ShapeFault) Context :=
  match Json.ofText? text with
  | some value => (ofJson value).mapError .content
  | none => .error (.json .malformed)

open Json (Fault Reading Members orMalformed nameOf maxNesting)

def readMembers (context : Context) : Members → Except Fault Context
  | .closed => .ok context
  | .cut => .error .malformed
  | .member name value rest => do
      let name ← nameOf name
      let value ← orMalformed (value.value? (maxNesting - 1))
      match value.scalar? with
      | some scalar => readMembers (context.insert name scalar) rest
      | none => throw .mismatched

def read : Reading → Except Fault Context
  | .object members => readMembers Fields.empty members
  | other => .error other.refusal

def decode (text : String) : Except Fault Context :=
  Json.readWith read text

end Context

inductive EvalError where
  | unknownField (name : String)
  | typeMismatch (field : String) (kind : Scalar.Kind) (literal : Scalar)
  deriving DecidableEq

def EvalError.message : EvalError → String
  | unknownField name => s!"unknown field '{name}'"
  | typeMismatch field kind literal =>
      s!"cannot compare field '{field}' ({kind.name}) with {literal.ruleText}"

namespace Comparison

def evaluateNumber (comparison : Comparison) (kind : Scalar.Kind) (actual : Number) :
    Except EvalError Bool :=
  match comparison.literal.number? with
  | some wanted => .ok (comparison.comparator.accepts (actual.compare? wanted))
  | none => .error (.typeMismatch comparison.field kind comparison.literal)

def evaluateAt (comparison : Comparison) : Scalar → Except EvalError Bool
  | .int actual => comparison.evaluateNumber .integer (.int actual)
  | .float actual => comparison.evaluateNumber .float (.float actual)
  | .text actual =>
      .ok (comparison.comparator.accepts (some (compare actual comparison.literal.plainText)))

def evaluate (comparison : Comparison) (context : Context) : Except EvalError Bool :=
  match context.get? comparison.field with
  | some value => comparison.evaluateAt value
  | none => .error (.unknownField comparison.field)

end Comparison

namespace Rule

def evaluate (rule : Rule) (context : Context) : Except EvalError Bool :=
  match rule with
  | test comparison => comparison.evaluate context
  | join connective left right => do
      let first ← left.evaluate context
      let second ← right.evaluate context
      return connective.apply first second

end Rule

end FieldRules
