import FieldRules.Json.Basic

/-!
The tokens of a JSON text. The first place where no token starts ends the list with a token of its own.
An integer that fits 64 bits is exact. Any other number is a float made in two steps, each of which
rounds: the leading digits that fit 64 bits become a float, and that float is multiplied or divided by a
power of ten.
-/

namespace FieldRules.Json

structure NumberText where
  negative : Bool
  whole : List Char
  fraction : Option (List Char)
  exponent : Option (Bool × List Char)
  deriving DecidableEq

def digits? (text : List Char) : Option (List Char × List Char) :=
  let digits := text.takeWhile Char.isDigit
  if digits.isEmpty then none else some (digits, text.dropWhile Char.isDigit)

def whole? (text : List Char) : Option (List Char × List Char) :=
  (digits? text).filter fun (digits, _) => digits.length == 1 || digits.head? != some '0'

def fraction? : List Char → Option (Option (List Char) × List Char)
  | '.' :: rest => (digits? rest).map fun (digits, after) => (some digits, after)
  | text => some (none, text)

def exponent? : List Char → Option (Option (Bool × List Char) × List Char)
  | [] => some (none, [])
  | c :: rest =>
      if c = 'e' ∨ c = 'E' then
        (digits? (Text.splitSign rest).2).map fun (digits, after) =>
          (some ((Text.splitSign rest).1, digits), after)
      else some (none, c :: rest)

def sign : List Char → Bool × List Char
  | '-' :: rest => (true, rest)
  | text => (false, text)

def numberText? (text : List Char) : Option (NumberText × List Char) := do
  let (negative, text) := sign text
  let (whole, text) ← whole? text
  let (fraction, text) ← fraction? text
  let (exponent, text) ← exponent? text
  return (⟨negative, whole, fraction, exponent⟩, text)

theorem length_digits? {text digits after : List Char}
    (found : digits? text = some (digits, after)) : after.length < text.length := by
  unfold digits? at found
  simp only at found
  split at found
  · simp at found
  · rename_i nonempty
    simp only [Option.some.injEq, Prod.mk.injEq] at found
    have whole := List.takeWhile_append_dropWhile (p := Char.isDigit) (l := text)
    have lengths := congrArg List.length whole
    rw [List.length_append] at lengths
    have positive : 0 < (text.takeWhile Char.isDigit).length := by
      apply List.length_pos_iff.mpr
      simpa using nonempty
    rw [← found.2]
    omega

theorem length_numberText? {text after : List Char} {spelling : NumberText}
    (found : numberText? text = some (spelling, after)) : after.length < text.length := by
  unfold numberText? at found
  simp only [Option.bind_eq_bind, Option.bind_eq_some_iff, Option.pure_def, Option.some.injEq,
    Prod.mk.injEq, Prod.exists] at found
  obtain ⟨whole, afterWhole, wholeFound, fraction, afterFraction, fractionFound, exponent,
    afterExponent, exponentFound, _, same⟩ := found
  subst same
  have signBound : (sign text).2.length ≤ text.length := by
    unfold sign
    split <;> simp
  have wholeBound : afterWhole.length < (sign text).2.length := by
    unfold whole? at wholeFound
    exact length_digits? (Option.eq_some_of_filter_eq_some wholeFound)
  have fractionBound : afterFraction.length ≤ afterWhole.length := by
    unfold fraction? at fractionFound
    split at fractionFound
    · obtain ⟨⟨digits, rest⟩, digitsFound, equal⟩ := Option.map_eq_some_iff.mp fractionFound
      simp only [Prod.mk.injEq] at equal
      have bound := length_digits? digitsFound
      rw [← equal.2]
      simp only [List.length_cons]
      omega
    · simp_all
  have exponentBound : afterExponent.length ≤ afterFraction.length := by
    unfold exponent? at exponentFound
    split at exponentFound
    · simp_all
    · split at exponentFound
      · rename_i c rest _
        obtain ⟨⟨digits, tail⟩, digitsFound, equal⟩ := Option.map_eq_some_iff.mp exponentFound
        simp only [Prod.mk.injEq] at equal
        have bound := length_digits? digitsFound
        have unsignedBound : (Text.splitSign rest).2.length ≤ rest.length := by
          unfold Text.splitSign
          split <;> simp
        rw [← equal.2]
        simp only [List.length_cons]
        omega
      · simp_all
  omega

def fillSignificand (significand : Nat) : List Char → Nat × List Char
  | [] => (significand, [])
  | c :: rest =>
      let longer := significand * 10 + (c.toNat - '0'.toNat)
      if longer < 0x10000000000000000 then fillSignificand longer rest else (significand, c :: rest)

/-- `x * 10 ^ exponent`, with one rounding for each factor of at most 10^308 in size; none where it
is beyond all finite floats. -/
def scaleByTen? (x : Binary64) (exponent : Int) : Option Binary64 :=
  let power (size : Nat) : Binary64 := Binary64.ofDecimal false 1 size
  if 0 ≤ exponent then
    if exponent ≤ 308 then (some (x.mul (power exponent.toNat))).filter Binary64.isFinite
    else if x.isZero then some x
    else none
  else if -308 ≤ exponent then some (x.div (power (-exponent).toNat))
  else if x.isZero then some x
  else scaleByTen? (x.div (power 308)) (exponent + 308)
termination_by exponent.natAbs

def floatOf? (negative : Bool) (significand : Nat) (exponent : Int) : Option Json :=
  (scaleByTen? (Binary64.ofInt significand) exponent).map fun x =>
    float (Binary64.ofMagnitude negative x.magnitude)

def explicitExponent (exponent : Option (Bool × List Char)) : Int :=
  match exponent with
  | none => 0
  | some (negative, digits) =>
      let size : Int := Nat.ofDigitChars 10 digits 0
      if negative then -size else size

namespace NumberText

def value? (number : NumberText) : Option Json :=
  let (significand, beyond) := fillSignificand 0 number.whole
  match number.fraction with
  | some fraction =>
      let (significand, unused) := fillSignificand significand fraction
      let places := fraction.length - unused.length
      floatOf? number.negative significand
        (beyond.length - places + explicitExponent number.exponent)
  | none =>
      if number.exponent.isNone && beyond.isEmpty then
        if !number.negative then some (integer significand)
        else if 0 < significand ∧ significand ≤ 0x8000000000000000 then some (integer (-significand))
        else floatOf? true significand 0
      else floatOf? number.negative significand (beyond.length + explicitExponent number.exponent)

end NumberText

inductive Token where
  | openBracket
  | closeBracket
  | openBrace
  | closeBrace
  | comma
  | colon
  | null
  | boolean (value : Bool)
  | number (spelling : NumberText)
  | string (pieces : List Piece)
  | fault
  deriving DecidableEq

namespace Token

def isBlank (c : Char) : Bool :=
  c == ' ' || c == '\t' || c == '\n' || c == '\r'

def afterWord? (word text : List Char) : Option (List Char) :=
  if word.isPrefixOf text then some (text.drop word.length) else none

def first? (c : Char) (rest : List Char) : Option (Token × List Char) :=
  match c with
  | '[' => some (openBracket, rest)
  | ']' => some (closeBracket, rest)
  | '{' => some (openBrace, rest)
  | '}' => some (closeBrace, rest)
  | ',' => some (comma, rest)
  | ':' => some (colon, rest)
  | '"' => (pieces? rest).map fun (pieces, after) => (string pieces, after)
  | 'n' => (afterWord? ['u', 'l', 'l'] rest).map fun after => (null, after)
  | 't' => (afterWord? ['r', 'u', 'e'] rest).map fun after => (boolean true, after)
  | 'f' => (afterWord? ['a', 'l', 's', 'e'] rest).map fun after => (boolean false, after)
  | c => (numberText? (c :: rest)).map fun (spelling, after) => (number spelling, after)

theorem length_afterWord? {word text after : List Char} (found : afterWord? word text = some after) :
    after.length ≤ text.length := by
  unfold afterWord? at found
  split at found
  · simp only [Option.some.injEq] at found
    rw [← found]
    simp
  · simp at found

theorem length_first? {c : Char} {rest after : List Char} {token : Token}
    (found : first? c rest = some (token, after)) : after.length ≤ rest.length := by
  have word {given : List Char} {made : Token}
      (read : (afterWord? given rest).map (fun after => (made, after)) = some (token, after)) :
      after.length ≤ rest.length := by
    obtain ⟨tail, tailFound, equal⟩ := Option.map_eq_some_iff.mp read
    simp only [Prod.mk.injEq] at equal
    exact equal.2 ▸ length_afterWord? tailFound
  unfold first? at found
  split at found
  · simp_all
  · simp_all
  · simp_all
  · simp_all
  · simp_all
  · simp_all
  · obtain ⟨⟨pieces, tail⟩, piecesFound, equal⟩ := Option.map_eq_some_iff.mp found
    simp only [Prod.mk.injEq] at equal
    have bound := length_pieces? piecesFound
    rw [← equal.2]
    omega
  · exact word found
  · exact word found
  · exact word found
  · obtain ⟨⟨spelling, tail⟩, spellingFound, equal⟩ := Option.map_eq_some_iff.mp found
    simp only [Prod.mk.injEq] at equal
    have bound := length_numberText? spellingFound
    simp only [List.length_cons] at bound
    rw [← equal.2]
    omega

theorem length_after_first? {c : Char} {text rest after : List Char} {token : Token}
    (notBlank : text.dropWhile isBlank = c :: rest) (found : first? c rest = some (token, after)) :
    after.length < text.length :=
  Nat.lt_of_le_of_lt (length_first? found) (Text.length_lt_of_dropWhile notBlank)

def ofText (text : List Char) : List Token :=
  match notBlank : text.dropWhile isBlank with
  | [] => []
  | c :: rest =>
      match found : first? c rest with
      | none => [fault]
      | some (token, after) =>
          have := length_after_first? notBlank found
          token :: ofText after
termination_by text.length

end Token

end FieldRules.Json
