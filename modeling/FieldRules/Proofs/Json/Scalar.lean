import FieldRules.Json.Reading
import FieldRules.Proofs.Except
import FieldRules.Proofs.Json.Token

/-!
When a text and its parts have a value, and which scalars JSON text writes. Whether a number is an
integer or a float is decided by its spelling alone: it is an integer exactly if it has neither point nor
exponent, fits 64 bits with a sign and is not a zero with a minus.
-/

namespace FieldRules.Json

theorem exists_float_of_floatOf? {negative : Bool} {significand : Nat} {exponent : Int} {json : Json}
    (found : floatOf? negative significand exponent = some json) : ∃ x, json = .float x := by
  obtain ⟨x, -, rfl⟩ := Option.map_eq_some_iff.mp found
  exact ⟨_, rfl⟩

theorem NumberText.integer_or_float {number : NumberText} {json : Json}
    (found : number.value? = some json) : (∃ i, json = .integer i) ∨ ∃ x, json = .float x := by
  unfold value? at found
  repeat' split at found
  all_goals
    first
    | exact Or.inr (exists_float_of_floatOf? found)
    | exact Or.inl ⟨_, (Option.some.inj found).symm⟩

theorem Members.values?_member_eq_some_iff {pieces : List Piece} {value : Reading} {rest : Members}
    {room : Nat} {values : List (String × Json)} :
    (Members.member pieces value rest).values? room = some values ↔
      ∃ name json others, stringOfPieces? pieces = some name ∧ value.value? room = some json ∧
        rest.values? room = some others ∧ (name, json) :: others = values := by
  simp [Members.values?, Option.bind_eq_some_iff]

theorem Reading.value?_eq_object_iff {reading : Reading} {room : Nat}
    {values : List (String × Json)} :
    reading.value? (room + 1) = some (.object values) ↔
      ∃ members, reading = .object members ∧ members.values? room = some values := by
  cases reading with
  | number spelling =>
      simp only [Reading.value?, reduceCtorEq, false_and, exists_false, iff_false]
      intro found
      obtain ⟨i, same⟩ | ⟨x, same⟩ := NumberText.integer_or_float found <;> cases same
  | _ => simp [Reading.value?]

theorem ofText?_eq_some_iff {text : String} {value : Json} :
    ofText? text = some value ↔ (Document.ofText text).root.value? maxNesting = some value ∧
      (Document.ofText text).followed = false := by
  simp only [ofText?]
  split <;> simp_all

theorem ofText?_eq_object_iff {text : String} {values : List (String × Json)} :
    ofText? text = some (.object values) ↔
      ∃ members, Document.ofText text = ⟨.object members, false⟩ ∧
        members.values? (maxNesting - 1) = some values := by
  have room : maxNesting = maxNesting - 1 + 1 := rfl
  rw [ofText?_eq_some_iff, room, Reading.value?_eq_object_iff]
  constructor
  · rintro ⟨⟨members, root, read⟩, ended⟩
    refine ⟨members, ?_, read⟩
    rw [← root, ← ended]
  · rintro ⟨members, document, read⟩
    rw [document]
    exact ⟨⟨members, rfl, read⟩, rfl⟩

theorem orMalformed_eq_ok_iff {α : Type} {found : Option α} {value : α} :
    orMalformed found = .ok value ↔ found = some value := by
  cases found <;> simp [orMalformed]

theorem readWith_eq_ok_iff {α : Type} {reader : Reading → Except Fault α} {text : String}
    {value : α} :
    readWith reader text = .ok value ↔
      reader (Document.ofText text).root = .ok value ∧ (Document.ofText text).followed = false := by
  rw [readWith, bind_eq_ok_iff]
  constructor
  · rintro ⟨found, read, checked⟩
    cases followed : (Document.ofText text).followed with
    | true =>
        rw [followed] at checked
        cases checked
    | false =>
        rw [followed] at checked
        cases checked
        exact ⟨read, rfl⟩
  · rintro ⟨read, followed⟩
    refine ⟨value, read, ?_⟩
    rw [followed]
    rfl

theorem scalar?_ofScalar (value : Scalar) : (ofScalar value).scalar? = some value := by
  cases value with
  | int value =>
      have fits : Text.fitsInt64 value.toInt = true := Text.fitsInt64_toInt value
      simp [ofScalar, scalar?, fits]
  | float value => rfl
  | text value => rfl

namespace NumberText

variable {number : NumberText}

def signed (number : NumberText) : Int :=
  let size : Nat := Nat.ofDigitChars 10 number.whole 0
  if number.negative then -size else size

def int64? (number : NumberText) : Option Int64 :=
  if number.fraction = none ∧ number.exponent = none ∧ Text.fitsInt64 number.signed = true ∧
      ¬(number.negative = true ∧ number.signed = 0) then
    some (Int64.ofInt number.signed)
  else none

def float? (number : NumberText) : Option Binary64 :=
  match number.value? with
  | some (.integer value) => some (Binary64.ofInt value)
  | some (.float value) => some value
  | _ => none

theorem natAbs_signed (number : NumberText) :
    number.signed.natAbs = Nat.ofDigitChars 10 number.whole 0 := by
  unfold signed
  split <;> simp

theorem signed_nonpos (negative : number.negative = true) : number.signed ≤ 0 := by
  simp [signed, negative]

theorem int64?_of_mark (mark : number.fraction.isSome ∨ number.exponent.isSome) :
    number.int64? = none := by
  apply if_neg
  rintro ⟨noPoint, noExponent, -⟩
  simp [noPoint, noExponent] at mark

theorem ofDigitChars_lt_of_fillSignificand {digits : List Char} {significand : Nat}
    (fits : significand < 0x10000000000000000) (filled : (fillSignificand significand digits).2 = []) :
    Nat.ofDigitChars 10 digits significand < 0x10000000000000000 := by
  induction digits generalizing significand with
  | nil => exact fits
  | cons c digits ih =>
      rw [fillSignificand, Nat.mul_comm significand 10] at filled
      rw [Nat.ofDigitChars_cons]
      split at filled
      · rename_i longer
        exact ih longer filled
      · exact absurd filled (List.cons_ne_nil _ _)

theorem floatOf?_ne_integer (negative : Bool) (significand : Nat) (exponent value : Int) :
    floatOf? negative significand exponent ≠ some (.integer value) := by
  intro found
  obtain ⟨x, same⟩ := exists_float_of_floatOf? found
  cases same

theorem value?_eq_integer_iff {value : Int} :
    number.value? = some (.integer value) ↔
      number.fraction = none ∧ number.exponent = none ∧
        Nat.ofDigitChars 10 number.whole 0 < 0x10000000000000000 ∧ number.signed = value ∧
        (number.negative = true → -0x8000000000000000 ≤ value ∧ value < 0) := by
  obtain ⟨negative, whole, fraction, exponent⟩ := number
  cases fraction with
  | some fraction => simp [value?, floatOf?_ne_integer]
  | none =>
      cases exponent with
      | some exponent => simp [value?, floatOf?_ne_integer]
      | none =>
          by_cases fits : Nat.ofDigitChars 10 whole 0 < 0x10000000000000000
          · have filled := fillSignificand_of_lt fits
            cases negative with
            | false => simp [value?, filled, signed, fits]
            | true =>
                by_cases bounds : 0 < Nat.ofDigitChars 10 whole 0 ∧
                    Nat.ofDigitChars 10 whole 0 ≤ 0x8000000000000000
                · simp [value?, filled, bounds, signed, fits]
                  omega
                · simp [value?, filled, bounds, floatOf?_ne_integer, signed]
                  omega
          · have beyond : (fillSignificand 0 whole).2 ≠ [] := by
              intro filled
              exact fits (ofDigitChars_lt_of_fillSignificand (by decide) filled)
            simp [value?, beyond, floatOf?_ne_integer, fits]

/-- Of the numbers, those spelled as integers of 64 bits become integers, and no others. -/
theorem scalar?_eq_int_iff {value : Int64} :
    number.value?.bind scalar? = some (.int value) ↔ number.int64? = some value := by
  rw [Option.bind_eq_some_iff]
  constructor
  · rintro ⟨json, found, scalar⟩
    cases json with
    | integer whole =>
        obtain ⟨noPoint, noExponent, -, rfl, bounds⟩ := value?_eq_integer_iff.mp found
        simp only [scalar?] at scalar
        split at scalar
        · rename_i fits
          cases scalar
          refine if_pos ⟨noPoint, noExponent, fits, ?_⟩
          rintro ⟨negative, zero⟩
          have below := (bounds negative).2
          omega
        · cases scalar
    | _ => cases scalar
  · intro spelled
    simp only [int64?, Option.ite_none_right_eq_some, Option.some.injEq] at spelled
    obtain ⟨⟨noPoint, noExponent, fits, notZero⟩, rfl⟩ := spelled
    have range := of_decide_eq_true fits
    refine ⟨.integer number.signed, value?_eq_integer_iff.mpr ⟨noPoint, noExponent, ?_, rfl, ?_⟩, ?_⟩
    · rw [← natAbs_signed]
      omega
    · intro negative
      have below := signed_nonpos negative
      have nonzero : number.signed ≠ 0 := fun zero => notZero ⟨negative, zero⟩
      omega
    · simp [scalar?, fits]

theorem scalar?_eq_float_iff {value : Binary64} :
    number.value?.bind scalar? = some (.float value) ↔
      number.int64? = none ∧ number.float? = some value := by
  constructor
  · intro found
    refine ⟨?_, ?_⟩
    · rw [Option.eq_none_iff_forall_ne_some]
      intro whole spelled
      have isInt := scalar?_eq_int_iff.mpr spelled
      rw [found] at isInt
      cases isInt
    · obtain ⟨json, read, scalar⟩ := Option.bind_eq_some_iff.mp found
      rw [float?, read]
      cases json with
      | integer whole =>
          simp only [scalar?] at scalar
          split at scalar
          · cases scalar
          · cases scalar
            rfl
      | float x =>
          cases scalar
          rfl
      | _ => cases scalar
  · rintro ⟨noInteger, near⟩
    unfold float? at near
    split at near
    · rename_i whole read
      cases near
      by_cases fits : Text.fitsInt64 whole = true
      · have isInt : number.value?.bind scalar? = some (.int (Int64.ofInt whole)) := by
          simp [read, scalar?, fits]
        rw [scalar?_eq_int_iff.mp isInt] at noInteger
        cases noInteger
      · simp [read, scalar?, fits]
    · rename_i x read
      cases near
      rw [read]
      rfl
    · cases near

theorem scalar?_ne_text (number : NumberText) (value : String) :
    number.value?.bind scalar? ≠ some (.text value) := by
  intro found
  obtain ⟨json, read, scalar⟩ := Option.bind_eq_some_iff.mp found
  obtain ⟨i, rfl⟩ | ⟨x, rfl⟩ := integer_or_float read
  · simp only [scalar?] at scalar
    split at scalar <;> cases scalar
  · cases scalar

/-- The kind of a number depends on its spelling alone. -/
theorem kind_of_value? {json : Json} (found : number.value? = some json) :
    json.scalar?.map Scalar.kind =
      some (if number.int64?.isSome then Scalar.Kind.integer else .float) := by
  cases scalar : json.scalar? with
  | none =>
      obtain ⟨i, rfl⟩ | ⟨x, rfl⟩ := integer_or_float found <;> simp [scalar?] at scalar
  | some value =>
      have read : number.value?.bind scalar? = some value := by rw [found, Option.bind_some, scalar]
      cases value with
      | int value => simp [scalar?_eq_int_iff.mp read, Scalar.kind]
      | float x => simp [(scalar?_eq_float_iff.mp read).1, Scalar.kind]
      | text value => exact absurd read (number.scalar?_ne_text value)

end NumberText

inductive Reading.Denotes : Reading → Scalar → Prop
  | integer {spelling : NumberText} {value : Int64} :
      spelling.int64? = some value → Reading.Denotes (.number spelling) (.int value)
  | float {spelling : NumberText} {value : Binary64} :
      spelling.int64? = none → spelling.float? = some value →
      Reading.Denotes (.number spelling) (.float value)
  | text {pieces : List Piece} {value : String} :
      stringOfPieces? pieces = some value → Reading.Denotes (.string pieces) (.text value)

theorem Reading.Denotes.bind_scalar? {reading : Reading} {value : Scalar}
    (denotes : reading.Denotes value) (room : Nat) :
    (reading.value? room).bind scalar? = some value := by
  cases denotes with
  | integer spelled => exact NumberText.scalar?_eq_int_iff.mpr spelled
  | float other near => exact NumberText.scalar?_eq_float_iff.mpr ⟨other, near⟩
  | text spelled => simp [Reading.value?, spelled, scalar?]

theorem Reading.denotes_of_bind_scalar? {reading : Reading} {room : Nat} {value : Scalar}
    (found : (reading.value? room).bind scalar? = some value) : reading.Denotes value := by
  cases reading with
  | number spelling =>
      rw [Reading.value?] at found
      cases value with
      | int value => exact .integer (NumberText.scalar?_eq_int_iff.mp found)
      | float value =>
          obtain ⟨other, near⟩ := NumberText.scalar?_eq_float_iff.mp found
          exact .float other near
      | text value => exact absurd found (spelling.scalar?_ne_text value)
  | string pieces =>
      obtain ⟨json, read, scalar⟩ := Option.bind_eq_some_iff.mp found
      obtain ⟨text, spelled, rfl⟩ := Option.map_eq_some_iff.mp read
      cases scalar
      exact .text spelled
  | array items =>
      obtain ⟨json, read, scalar⟩ := Option.bind_eq_some_iff.mp found
      simp only [Reading.value?, Option.ite_none_left_eq_some, Option.map_eq_some_iff] at read
      obtain ⟨-, values, -, rfl⟩ := read
      cases scalar
  | object members =>
      obtain ⟨json, read, scalar⟩ := Option.bind_eq_some_iff.mp found
      simp only [Reading.value?, Option.ite_none_left_eq_some, Option.map_eq_some_iff] at read
      obtain ⟨-, values, -, rfl⟩ := read
      cases scalar
  | null => cases found
  | boolean _ => cases found
  | cut => cases found

theorem Reading.denotes_iff (room : Nat) {reading : Reading} {value : Scalar} :
    reading.Denotes value ↔ (reading.value? room).bind scalar? = some value :=
  ⟨fun denotes => denotes.bind_scalar? room, denotes_of_bind_scalar?⟩

def Members.last? (name : String) : Members → Option Reading
  | .member pieces value rest =>
      (rest.last? name).or (if stringOfPieces? pieces = some name then some value else none)
  | _ => none

theorem Members.last?_of_values? {members : Members} {room : Nat} {values : List (String × Json)}
    (read : members.values? room = some values) (name : String) :
    (members.last? name).map (·.value? room) = (values.reverse.lookup name).map some := by
  cases members with
  | cut => cases read
  | closed =>
      cases read
      rfl
  | member pieces value rest =>
      obtain ⟨own, json, others, named, here, later, rfl⟩ := values?_member_eq_some_iff.mp read
      have inner := last?_of_values? later name
      rw [List.reverse_cons, List.lookup_append, Option.map_or, ← inner, last?, Option.map_or, named]
      by_cases same : own = name
      · simp [same, here]
      · simp [same, List.lookup_cons, beq_eq_false_iff_ne.mpr (Ne.symm same)]

end FieldRules.Json
