import FieldRules.Binary64
import FieldRules.CharClass

/-!
The values that rules compare: integers of 64 bits, floats of 64 bits and texts, with the three
texts each value has and the comparison of numbers of both kinds.
-/

namespace FieldRules

open Text

inductive Scalar where
  | int (value : Int64)
  | float (value : Binary64)
  | text (value : String)
  deriving DecidableEq

namespace Scalar

inductive Kind where
  | integer
  | float
  | string
  deriving DecidableEq

def Kind.name : Kind → String
  | .integer => "integer"
  | .float => "float"
  | .string => "string"

def kind : Scalar → Kind
  | .int _ => .integer
  | .float _ => .float
  | .text _ => .string

def escapeQuoted : List Char → List Char
  | [] => []
  | c :: rest => if c = '\'' ∨ c = '\\' then '\\' :: c :: escapeQuoted rest else c :: escapeQuoted rest

def plainText : Scalar → String
  | .int value => String.ofList (intText value.toInt)
  | .float value => String.ofList (value.text .rule)
  | .text value => value

def ruleText : Scalar → String
  | .text value => String.ofList ('\'' :: (escapeQuoted value.toList ++ ['\'']))
  | number => number.plainText

def shownText : Scalar → String
  | .int value => String.ofList (intText value.toInt)
  | .float value => String.ofList (value.text .plain)
  | .text value => "\"" ++ value ++ "\""

/-- Numeric equality of floats, and equality of the others. A NaN differs from itself, the two zeros
are equal, and a float never equals an integer. -/
def same : Scalar → Scalar → Bool
  | .int a, .int b => decide (a = b)
  | .float a, .float b => decide (a.compare? b = some .eq)
  | .text a, .text b => decide (a = b)
  | _, _ => false

end Scalar

inductive Number where
  | int (value : Int64)
  | float (value : Binary64)
  deriving DecidableEq

namespace Number

def toBinary64 : Number → Binary64
  | .int value => Binary64.ofInt value.toInt
  | .float value => value

def compare? : Number → Number → Option Ordering
  | .int a, .int b => some (compare a.toInt b.toInt)
  | a, b => a.toBinary64.compare? b.toBinary64

/-- The number that a text writes between blanks: an integer if it fits 64 bits, else a finite
float. -/
def ofText? (text : List Char) : Option Number :=
  let word := trim text
  match int64OfText? word with
  | some i => some (.int i)
  | none => (Binary64.finiteOfText? word).map .float

end Number

def Scalar.number? : Scalar → Option Number
  | .int value => some (.int value)
  | .float value => some (.float value)
  | .text value => Number.ofText? value.toList

end FieldRules
