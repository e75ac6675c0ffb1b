import FieldRules.Scalar

/-!
JSON values and their compact text. Objects keep their members in order, repeated names included.
Strings are read in two steps, because some readers skip a string without looking at what its escapes
stand for: first the pieces of a string are found, then they are put together.
-/

namespace FieldRules

namespace Json

inductive Piece where
  | char (c : Char)
  | unit (code : Nat)
  deriving DecidableEq

def escapeChar (c : Char) : List Char :=
  if c = '"' ∨ c = '\\' then ['\\', c]
  else if c = '\x08' then ['\\', 'b']
  else if c = '\t' then ['\\', 't']
  else if c = '\n' then ['\\', 'n']
  else if c = '\x0c' then ['\\', 'f']
  else if c = '\r' then ['\\', 'r']
  else if c.toNat < 32 then
    ['\\', 'u', '0', '0', Nat.digitChar (c.toNat / 16), Nat.digitChar (c.toNat % 16)]
  else [c]

def quote (text : String) : String :=
  String.ofList ('"' :: (text.toList.flatMap escapeChar ++ ['"']))

def hexValue? (c : Char) : Option Nat :=
  if c.isDigit then some (c.toNat - 48)
  else if 'a' ≤ c ∧ c ≤ 'f' then some (c.toNat - 87)
  else if 'A' ≤ c ∧ c ≤ 'F' then some (c.toNat - 55)
  else none

def hexUnit? (a b c d : Char) : Option Nat := do
  return (((← hexValue? a) * 16 + (← hexValue? b)) * 16 + (← hexValue? c)) * 16 + (← hexValue? d)

def escaped? (c : Char) : Option Char :=
  match c with
  | '"' => some '"'
  | '\\' => some '\\'
  | '/' => some '/'
  | 'b' => some '\x08'
  | 'f' => some '\x0c'
  | 'n' => some '\n'
  | 'r' => some '\r'
  | 't' => some '\t'
  | _ => none

def pieces? : List Char → Option (List Piece × List Char)
  | [] => none
  | '"' :: rest => some ([], rest)
  | '\\' :: 'u' :: a :: b :: c :: d :: rest => do
      let code ← hexUnit? a b c d
      let (later, after) ← pieces? rest
      return (.unit code :: later, after)
  | '\\' :: c :: rest => do
      let char ← escaped? c
      let (later, after) ← pieces? rest
      return (.char char :: later, after)
  | c :: rest =>
      if c.toNat < 32 then none
      else (pieces? rest).map fun (later, after) => (.char c :: later, after)

theorem length_pieces? {text after : List Char} {pieces : List Piece}
    (found : pieces? text = some (pieces, after)) : after.length < text.length := by
  fun_induction pieces? text generalizing pieces after with
  | case1 => simp at found
  | case2 rest =>
      simp only [Option.some.injEq, Prod.mk.injEq] at found
      rw [← found.2]
      simp
  | case3 a b c d rest ih =>
      simp only [Option.bind_eq_bind, Option.bind_eq_some_iff, Option.pure_def, Option.some.injEq,
        Prod.mk.injEq, Prod.exists] at found
      obtain ⟨_, _, _, _, inner, _, same⟩ := found
      have bound := ih inner
      rw [← same]
      simp only [List.length_cons]
      omega
  | case4 c rest _ ih =>
      simp only [Option.bind_eq_bind, Option.bind_eq_some_iff, Option.pure_def, Option.some.injEq,
        Prod.mk.injEq, Prod.exists] at found
      obtain ⟨_, _, _, _, inner, _, same⟩ := found
      have bound := ih inner
      rw [← same]
      simp only [List.length_cons]
      omega
  | case5 => simp at found
  | case6 c rest _ _ _ _ ih =>
      obtain ⟨⟨later, tail⟩, inner, same⟩ := Option.map_eq_some_iff.mp found
      simp only [Prod.mk.injEq] at same
      have bound := ih inner
      rw [← same.2]
      simp only [List.length_cons]
      omega

def isHighSurrogate (code : Nat) : Bool :=
  decide (0xd800 ≤ code ∧ code < 0xdc00)

def isLowSurrogate (code : Nat) : Bool :=
  decide (0xdc00 ≤ code ∧ code < 0xe000)

/-- The characters that the pieces spell. Two units may form one character; half of such a pair
alone is refused. -/
def joinPieces? : List Piece → Option (List Char)
  | [] => some []
  | .char c :: rest => (joinPieces? rest).map (c :: ·)
  | .unit high :: .unit low :: rest =>
      if isHighSurrogate high && isLowSurrogate low then
        (joinPieces? rest).map
          (Char.ofNat (0x10000 + (high - 0xd800) * 0x400 + (low - 0xdc00)) :: ·)
      else if isHighSurrogate high || isLowSurrogate high then none
      else (joinPieces? (.unit low :: rest)).map (Char.ofNat high :: ·)
  | .unit code :: rest =>
      if isHighSurrogate code || isLowSurrogate code then none
      else (joinPieces? rest).map (Char.ofNat code :: ·)

def stringOfPieces? (pieces : List Piece) : Option String :=
  (joinPieces? pieces).map String.ofList

end Json

inductive Json where
  | null
  | boolean (value : Bool)
  | integer (value : Int)
  | float (value : Binary64)
  | string (value : String)
  | array (items : List Json)
  | object (members : List (String × Json))

namespace Json

def kind : Json → String
  | null => "null"
  | boolean _ => "boolean"
  | integer _ => "number"
  | float _ => "number"
  | string _ => "string"
  | array _ => "array"
  | object _ => "object"

def ofScalar : Scalar → Json
  | .int value => integer value.toInt
  | .float value => float value
  | .text value => string value

def scalar? : Json → Option Scalar
  | integer value =>
      some (if Text.fitsInt64 value then .int (Int64.ofInt value) else .float (Binary64.ofInt value))
  | float value => some (.float value)
  | string value => some (.text value)
  | _ => none

def floatText (value : Binary64) : String :=
  if value.isFinite then String.ofList (value.text .json) else "null"

mutual

def text : Json → String
  | null => "null"
  | boolean true => "true"
  | boolean false => "false"
  | integer value => String.ofList (Text.intText value)
  | float value => floatText value
  | string value => quote value
  | array [] => "[]"
  | array (first :: rest) => "[" ++ text first ++ itemsText rest ++ "]"
  | object [] => "\x7b\x7d"
  | object ((name, first) :: rest) =>
      "\x7b" ++ quote name ++ ":" ++ text first ++ membersText rest ++ "\x7d"

def itemsText : List Json → String
  | [] => ""
  | item :: rest => "," ++ text item ++ itemsText rest

def membersText : List (String × Json) → String
  | [] => ""
  | (name, value) :: rest => "," ++ quote name ++ ":" ++ text value ++ membersText rest

end

end Json

end FieldRules
