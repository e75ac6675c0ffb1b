import FieldRules.Json.Token

/-!
Readings: what a text says up to the first place where it is no longer JSON. A reader that gives up
at the first value it has no use for walks a reading in order, and so reports whichever comes first,
that value or the end of the JSON.
-/

namespace FieldRules.Json

mutual

inductive Reading where
  | null
  | boolean (value : Bool)
  | number (spelling : NumberText)
  | string (pieces : List Piece)
  | array (items : Items)
  | object (members : Members)
  | cut

inductive Items where
  | closed
  | cut
  | item (value : Reading) (rest : Items)

inductive Members where
  | closed
  | cut
  | member (name : List Piece) (value : Reading) (rest : Members)

end

structure Taken (α : Type) (tokens : List Token) where
  value : α
  rest : List Token
  bound : rest.length ≤ tokens.length

namespace Taken

def after {α β : Type} {tokens : List Token} (taken : Taken α tokens) (f : α → β) (token : Token) :
    Taken β (token :: tokens) :=
  ⟨f taken.value, taken.rest, Nat.le_succ_of_le taken.bound⟩

def all {α : Type} (value : α) (tokens : List Token) : Taken α tokens :=
  ⟨value, [], Nat.zero_le _⟩

theorem shorter {α : Type} {tokens : List Token} {taken : Taken α tokens} {next : Token}
    {more : List Token} (left : taken.rest = next :: more) : more.length < tokens.length := by
  have bound := taken.bound
  rw [left, List.length_cons] at bound
  exact bound

end Taken

namespace Reading

mutual

def take (tokens : List Token) : Taken Reading tokens :=
  match tokens with
  | [] => .all .cut _
  | .null :: rest => ⟨.null, rest, Nat.le_succ _⟩
  | .boolean value :: rest => ⟨.boolean value, rest, Nat.le_succ _⟩
  | .number spelling :: rest => ⟨.number spelling, rest, Nat.le_succ _⟩
  | .string pieces :: rest => ⟨.string pieces, rest, Nat.le_succ _⟩
  | .openBracket :: .closeBracket :: rest => ⟨.array .closed, rest, Nat.le_succ_of_le (Nat.le_succ _)⟩
  | .openBracket :: rest => (takeItems rest).after .array _
  | .openBrace :: .closeBrace :: rest => ⟨.object .closed, rest, Nat.le_succ_of_le (Nat.le_succ _)⟩
  | .openBrace :: rest => (takeMembers rest).after .object _
  | _ :: _ => .all .cut _
termination_by (tokens.length, 0)

def takeItems (tokens : List Token) : Taken Items tokens :=
  let first := take tokens
  match left : first.rest with
  | .comma :: more =>
      have := Taken.shorter left
      let later := takeItems more
      ⟨.item first.value later.value, later.rest, Nat.le_trans later.bound (Nat.le_of_lt this)⟩
  | .closeBracket :: rest =>
      ⟨.item first.value .closed, rest, Nat.le_of_lt (Taken.shorter left)⟩
  | _ => .all (.item first.value .cut) _
termination_by (tokens.length, 1)

def takeMembers (tokens : List Token) : Taken Members tokens :=
  match tokens with
  | .string name :: .colon :: rest => ((takeValue name rest).after id _).after id _
  | .string name :: _ => .all (.member name .cut .cut) _
  | _ => .all .cut _
termination_by (tokens.length, 1)

def takeValue (name : List Piece) (tokens : List Token) : Taken Members tokens :=
  let first := take tokens
  match left : first.rest with
  | .comma :: more =>
      have := Taken.shorter left
      let later := takeMembers more
      ⟨.member name first.value later.value, later.rest,
        Nat.le_trans later.bound (Nat.le_of_lt this)⟩
  | .closeBrace :: rest =>
      ⟨.member name first.value .closed, rest, Nat.le_of_lt (Taken.shorter left)⟩
  | _ => .all (.member name first.value .cut) _
termination_by (tokens.length, 1)

end

end Reading

structure Document where
  root : Reading
  followed : Bool

def Document.ofText (text : String) : Document :=
  let taken := Reading.take (Token.ofText text.toList)
  ⟨taken.value, !taken.rest.isEmpty⟩

def maxNesting : Nat := 127

mutual

/-- The value that is read, if it is whole, its numbers are in range, its strings are texts, and
arrays and objects nest at most `room` deep. -/
def Reading.value? (room : Nat) : Reading → Option Json
  | .null => some .null
  | .boolean value => some (.boolean value)
  | .number spelling => spelling.value?
  | .string pieces => (stringOfPieces? pieces).map .string
  | .array items => if room = 0 then none else (items.values? (room - 1)).map .array
  | .object members => if room = 0 then none else (members.values? (room - 1)).map .object
  | .cut => none

def Items.values? (room : Nat) : Items → Option (List Json)
  | .closed => some []
  | .cut => none
  | .item value rest => do
      let value ← value.value? room
      let rest ← rest.values? room
      return value :: rest

def Members.values? (room : Nat) : Members → Option (List (String × Json))
  | .closed => some []
  | .cut => none
  | .member name value rest => do
      let name ← stringOfPieces? name
      let value ← value.value? room
      let rest ← rest.values? room
      return (name, value) :: rest

end

def ofText? (text : String) : Option Json :=
  let document := Document.ofText text
  if document.followed then none else document.root.value? maxNesting

mutual

def Reading.isWhole : Reading → Bool
  | .array items => items.areWhole
  | .object members => members.areWhole
  | .cut => false
  | _ => true

def Items.areWhole : Items → Bool
  | .closed => true
  | .cut => false
  | .item value rest => value.isWhole && rest.areWhole

def Members.areWhole : Members → Bool
  | .closed => true
  | .cut => false
  | .member _ value rest => value.isWhole && rest.areWhole

end

inductive Fault where
  | malformed
  | mismatched
  deriving DecidableEq

inductive TextError (ε : Type) where
  | json (fault : Fault)
  | content (error : ε)
  deriving DecidableEq

def orMalformed {α : Type} (value : Option α) : Except Fault α :=
  match value with
  | some value => .ok value
  | none => .error .malformed

def nameOf (pieces : List Piece) : Except Fault String :=
  orMalformed (stringOfPieces? pieces)

/-- The fault of a value that has another kind than wanted. A number or string is looked at before
it is refused; an array or object is refused at its first character. -/
def Reading.refusal : Reading → Fault
  | .number spelling => if spelling.value?.isSome then .mismatched else .malformed
  | .string pieces => if (stringOfPieces? pieces).isSome then .mismatched else .malformed
  | .cut => .malformed
  | _ => .mismatched

def readWith {α : Type} (reader : Reading → Except Fault α) (text : String) : Except Fault α := do
  let document := Document.ofText text
  let value ← reader document.root
  if document.followed then throw .malformed
  return value

end FieldRules.Json
