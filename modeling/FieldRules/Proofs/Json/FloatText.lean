import FieldRules.Proofs.Binary64.Text
import FieldRules.Proofs.Json.Token

/-!
The text of a finite float is a number in JSON, and its spelling tells it from an integer.
-/

namespace FieldRules

open Text

namespace Json

def IsFloatText (text : List Char) : Prop :=
  ∃ spelling, numberText? text = some (spelling, []) ∧
    (spelling.fraction.isSome ∨ spelling.exponent.isSome)

structure IsWhole (digits : List Char) : Prop where
  nonempty : digits ≠ []
  all : ∀ c ∈ digits, c.isDigit = true
  plain : digits.length = 1 ∨ digits.head? ≠ some '0'

theorem IsWhole.singleton {c : Char} (digit : c.isDigit = true) : IsWhole [c] where
  nonempty := List.cons_ne_nil _ _
  all := by simpa using digit
  plain := Or.inl rfl

variable {whole fraction rest : List Char}

theorem IsWhole.whole?_append (shape : IsWhole whole) (stops : ∀ c ∈ rest.head?, c.isDigit = false) :
    whole? (whole ++ rest) = some (whole, rest) := by
  have taken : digits? (whole ++ rest) = some (whole, rest) :=
    digits?_eq_some_iff.mpr ⟨rfl, shape.nonempty, shape.all, stops⟩
  refine Option.filter_eq_some_iff.mpr ⟨taken, ?_⟩
  simpa using shape.plain

theorem IsWhole.sign_append (shape : IsWhole whole) (rest : List Char) :
    sign (whole ++ rest) = (false, whole ++ rest) := by
  obtain ⟨c, others, rfl⟩ := List.exists_cons_of_ne_nil shape.nonempty
  exact sign_of_isDigit (shape.all c List.mem_cons_self)

theorem IsWhole.numberText?_append {afterFraction after : List Char} {fraction : Option (List Char)}
    {exponent : Option (Bool × List Char)} (shape : IsWhole whole)
    (stops : ∀ c ∈ rest.head?, c.isDigit = false)
    (fractionFound : fraction? rest = some (fraction, afterFraction))
    (exponentFound : exponent? afterFraction = some (exponent, after)) :
    numberText? (whole ++ rest) = some (⟨false, whole, fraction, exponent⟩, after) := by
  refine numberText?_eq_some_iff.mpr ⟨rest, afterFraction, ?_, fractionFound, exponentFound, ?_⟩
  · rw [shape.sign_append]
    exact shape.whole?_append stops
  · rw [shape.sign_append]

theorem fraction?_point (digits : ∀ c ∈ fraction, c.isDigit = true) (nonempty : fraction ≠ [])
    (stops : ∀ c ∈ rest.head?, c.isDigit = false) :
    fraction? ('.' :: (fraction ++ rest)) = some (some fraction, rest) := by
  rw [fraction?, digits?_eq_some_iff.mpr ⟨rfl, nonempty, digits, stops⟩]
  rfl

theorem isFloatText_point (shape : IsWhole whole) (digits : ∀ c ∈ fraction, c.isDigit = true)
    (nonempty : fraction ≠ []) : IsFloatText (whole ++ '.' :: fraction) := by
  have point := fraction?_point digits nonempty ends_nil
  rw [List.append_nil] at point
  exact ⟨_, shape.numberText?_append (ends_cons rfl) point rfl, Or.inl rfl⟩

theorem exists_splitSign_exponent (plus : Bool) (exponent : Int) :
    ∃ n, (splitSign ((if plus && decide (0 ≤ exponent) then ['+'] else []) ++ intText exponent)).2 =
      Nat.toDigits 10 n := by
  cases exponent with
  | ofNat n =>
      refine ⟨n, ?_⟩
      cases plus with
      | true => rfl
      | false => exact congrArg Prod.snd (splitSign_toDigits n)
  | negSucc n => exact ⟨n + 1, by cases plus <;> rfl⟩

theorem exists_exponent? (plus : Bool) (exponent : Int) :
    ∃ found, exponent? ('e' ::
      ((if plus && decide (0 ≤ exponent) then ['+'] else []) ++ intText exponent)) =
        some (some found, []) := by
  obtain ⟨n, digits⟩ := exists_splitSign_exponent plus exponent
  have taken := (Option.filter_eq_some_iff.mp (whole?_toDigits n)).1
  rw [exponent?, if_pos (Or.inl rfl), digits, taken]
  exact ⟨_, rfl⟩

theorem isFloatText_exponent (shape : IsWhole whole) (digits : ∀ c ∈ fraction, c.isDigit = true)
    {found : Bool × List Char} (read : exponent? ('e' :: rest) = some (some found, [])) :
    IsFloatText (whole ++ (if fraction.isEmpty then [] else '.' :: fraction) ++ 'e' :: rest) := by
  rw [List.append_assoc]
  cases fraction with
  | nil => exact ⟨_, shape.numberText?_append (ends_cons rfl) rfl read, Or.inr rfl⟩
  | cons first fraction =>
      have stops : ∀ c ∈ ('e' :: rest).head?, c.isDigit = false := ends_cons rfl
      have point := fraction?_point digits (List.cons_ne_nil _ _) stops
      exact ⟨_, shape.numberText?_append (ends_cons rfl) point read, Or.inl rfl⟩

theorem IsFloatText.neg {c : Char} (number : IsFloatText (c :: rest)) (digit : c.isDigit = true) :
    IsFloatText ('-' :: c :: rest) := by
  obtain ⟨spelling, found, kind⟩ := number
  obtain ⟨afterWhole, afterFraction, wholeFound, fractionFound, exponentFound, -⟩ :=
    numberText?_eq_some_iff.mp found
  rw [sign_of_isDigit digit] at wholeFound
  exact ⟨{ spelling with negative := true }, numberText?_eq_some_iff.mpr
    ⟨afterWhole, afterFraction, wholeFound, fractionFound, exponentFound, rfl⟩, kind⟩

section Layout

variable {digits : List Char}

theorem head?_append_of_ne_nil (nonempty : digits ≠ []) (later : List Char) :
    (digits ++ later).head? = digits.head? := by
  obtain ⟨first, others, rfl⟩ := List.exists_cons_of_ne_nil nonempty
  rfl

theorem IsWhole.append_zeros (allDigits : ∀ c ∈ digits, c.isDigit = true) (nonempty : digits ≠ [])
    (plain : digits.head? ≠ some '0') (zeros : Nat) :
    IsWhole (digits ++ List.replicate zeros '0') where
  nonempty := List.append_ne_nil_of_left_ne_nil nonempty _
  all := List.forall_mem_append.mpr ⟨allDigits, all_isDigit_replicate zeros⟩
  plain := Or.inr (head?_append_of_ne_nil nonempty _ ▸ plain)

theorem IsWhole.take (allDigits : ∀ c ∈ digits, c.isDigit = true) (nonempty : digits ≠ [])
    (plain : digits.head? ≠ some '0') {count : Nat} (positive : 0 < count) :
    IsWhole (digits.take count) where
  nonempty := by
    rw [Ne, List.take_eq_nil_iff]
    exact not_or.mpr ⟨Nat.ne_of_gt positive, nonempty⟩
  all := fun c member => allDigits c (List.mem_of_mem_take member)
  plain := by
    rw [List.head?_take, if_neg (Nat.ne_of_gt positive)]
    exact Or.inr plain

theorem isFloatText_positionalText {style : FloatStyle} (mark : style.wholeMark = true)
    (allDigits : ∀ c ∈ digits, c.isDigit = true) (nonempty : digits ≠ [])
    (plain : digits.head? ≠ some '0') (point : Int) :
    IsFloatText (style.positionalText digits point) := by
  rw [FloatStyle.positionalText]
  by_cases below : point ≤ 0
  · rw [if_pos below]
    have zeros := all_isDigit_replicate (-point).toNat
    exact isFloatText_point (.singleton (by decide)) (List.forall_mem_append.mpr ⟨zeros, allDigits⟩)
      (List.append_ne_nil_of_right_ne_nil _ nonempty)
  rw [if_neg below]
  by_cases beyond : digits.length ≤ point.toNat
  · rw [if_pos beyond, mark]
    have shape := IsWhole.append_zeros allDigits nonempty plain (point.toNat - digits.length)
    exact isFloatText_point shape (all_isDigit_replicate 1) (List.cons_ne_nil _ _)
  · rw [if_neg beyond]
    have shape := IsWhole.take allDigits nonempty plain (show 0 < point.toNat by omega)
    refine isFloatText_point shape (fun c member => allDigits c (List.mem_of_mem_drop member)) ?_
    rw [Ne, List.drop_eq_nil_iff]
    exact beyond

theorem isFloatText_scientificText (style : FloatStyle)
    (allDigits : ∀ c ∈ digits, c.isDigit = true) (nonempty : digits ≠ []) (point : Int) :
    IsFloatText (style.scientificText digits point) := by
  obtain ⟨first, fraction, rfl⟩ := List.exists_cons_of_ne_nil nonempty
  obtain ⟨found, read⟩ := exists_exponent? style.exponentPlus (point - 1)
  obtain ⟨digit, others⟩ := List.forall_mem_cons.mp allDigits
  exact isFloatText_exponent (.singleton digit) others read

theorem head?_dropLastZeros {n : Nat} (nonzero : n ≠ 0) :
    (dropLastZeros (Nat.toDigits 10 n)).head? ≠ some '0' := by
  obtain ⟨zeros, split⟩ := exists_append_replicate (Nat.toDigits 10 n)
  have head := head?_toDigits (Nat.pos_of_ne_zero nonzero)
  rw [split, head?_append_of_ne_nil (dropLastZeros_ne_nil nonzero)] at head
  exact head

theorem isFloatText_decimalText {style : FloatStyle} (mark : style.wholeMark = true)
    {value : Decimal} (nonzero : value.digits ≠ 0) : IsFloatText (style.decimalText value) := by
  have allDigits := all_isDigit_dropLastZeros value.digits
  have nonempty := dropLastZeros_ne_nil nonzero
  rw [FloatStyle.decimalText]
  split
  · exact isFloatText_positionalText mark allDigits nonempty (head?_dropLastZeros nonzero) _
  · exact isFloatText_scientificText style allDigits nonempty _

end Layout

end Json

namespace Binary64

variable {x : Binary64} {style : FloatStyle}

theorem isFloatText_absText (finite : x.isFinite = true) (mark : style.wholeMark = true) :
    Json.IsFloatText (x.absText style) := by
  cases zero : x.isZero with
  | true =>
      rw [absText_of_isZero finite zero, mark]
      exact Json.isFloatText_point (.singleton (by decide)) (all_isDigit_replicate 1)
        (List.cons_ne_nil _ _)
  | false =>
      rw [absText_of_nonzero finite zero]
      exact Json.isFloatText_decimalText mark
        ((covers_shortest finite zero style.tie).exponent_ge finite zero).1

/-- The text of a finite float is a number in JSON that no integer is spelled as, in every style that
marks whole numbers. -/
theorem isFloatText_text (finite : x.isFinite = true) (mark : style.wholeMark = true) :
    Json.IsFloatText (x.text style) := by
  have number := isFloatText_absText finite mark
  obtain ⟨c, rest, start, digit⟩ := exists_absText_eq_cons finite style
  rw [text_eq finite]
  rw [start] at number ⊢
  cases x.isNegative with
  | true => exact number.neg digit
  | false => exact number

end Binary64

end FieldRules
