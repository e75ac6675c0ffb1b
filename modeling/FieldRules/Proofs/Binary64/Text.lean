import FieldRules.Binary64
import FieldRules.Proofs.Binary64.Decimal
import FieldRules.Proofs.Numeral

/-!
Finite floats are read back from their texts, in every style.
-/

namespace FieldRules

open Text

namespace Binary64

variable {x : Binary64} {whole fraction rest : List Char} {exponent : Int}

theorem ofDecimalText?_whole (finite : x.isFinite = true) (nonzero : x.isZero = false)
    (digits : ∀ c ∈ whole, c.isDigit = true) (nonempty : whole ≠ [])
    (ends : ∀ c ∈ rest.head?, c.isDigit = false ∧ c ≠ '.')
    (read : exponentOfText? rest = some exponent)
    (covers : x.CoversDecimal (Nat.ofDigitChars 10 whole 0) exponent) (negative : Bool) :
    ofDecimalText? negative (whole ++ rest) = some (ofMagnitude negative x.magnitude) := by
  have noDigit : ∀ c ∈ rest.head?, c.isDigit = false := fun c head => (ends c head).1
  have unsplit : splitFraction rest = ([], rest) := by
    unfold splitFraction
    split
    · exact absurd rfl (ends '.' rfl).2
    · rfl
  have rounded := ofDecimal_of_covers finite nonzero covers negative
  simp [ofDecimalText?, takeWhile_run digits noDigit, dropWhile_run digits noDigit, unsplit,
    nonempty, read, rounded]

theorem ofDecimalText?_point (finite : x.isFinite = true) (nonzero : x.isZero = false)
    (digits : ∀ c ∈ whole, c.isDigit = true) (nonempty : whole ≠ [])
    (fractionDigits : ∀ c ∈ fraction, c.isDigit = true)
    (ends : ∀ c ∈ rest.head?, c.isDigit = false) (read : exponentOfText? rest = some exponent)
    (covers : x.CoversDecimal (Nat.ofDigitChars 10 (whole ++ fraction) 0)
      (exponent - fraction.length)) (negative : Bool) :
    ofDecimalText? negative (whole ++ '.' :: (fraction ++ rest)) =
      some (ofMagnitude negative x.magnitude) := by
  have point : ∀ c ∈ ('.' :: (fraction ++ rest)).head?, c.isDigit = false := ends_cons rfl
  have rounded := ofDecimal_of_covers finite nonzero covers negative
  simp [ofDecimalText?, takeWhile_run digits point, dropWhile_run digits point, splitFraction,
    takeWhile_run fractionDigits ends, dropWhile_run fractionDigits ends, nonempty, read, rounded]

end Binary64

/-! ### Layout -/

theorem exists_append_replicate (digits : List Char) :
    ∃ zeros, digits = dropLastZeros digits ++ List.replicate zeros '0' := by
  have split : digits.reverse.takeWhile (· == '0') ++ digits.reverse.dropWhile (· == '0') =
      digits.reverse := List.takeWhile_append_dropWhile
  have zeros : ∀ c ∈ (digits.reverse.takeWhile (· == '0')).reverse, c = '0' := by
    intro c member
    exact eq_of_beq (List.all_eq_true.mp List.all_takeWhile c (List.mem_reverse.mp member))
  refine ⟨(digits.reverse.takeWhile (· == '0')).reverse.length, ?_⟩
  rw [← List.eq_replicate_of_mem zeros, dropLastZeros, ← List.reverse_append, split,
    List.reverse_reverse]

theorem exists_dropLastZeros (n : Nat) :
    ∃ zeros, n = Nat.ofDigitChars 10 (dropLastZeros (Nat.toDigits 10 n)) 0 * tenTo zeros ∧
      (Nat.toDigits 10 n).length = (dropLastZeros (Nat.toDigits 10 n)).length + zeros := by
  obtain ⟨zeros, split⟩ := exists_append_replicate (Nat.toDigits 10 n)
  refine ⟨zeros, ?_, ?_⟩
  · calc n = Nat.ofDigitChars 10 (Nat.toDigits 10 n) 0 := Nat.ofDigitChars_ten_toDigits.symm
      _ = Nat.ofDigitChars 10 (dropLastZeros (Nat.toDigits 10 n) ++ List.replicate zeros '0') 0 := by
          rw [← split]
      _ = Nat.ofDigitChars 10 (dropLastZeros (Nat.toDigits 10 n)) 0 * tenTo zeros := by
          rw [Nat.ofDigitChars_append, Nat.ofDigitChars_replicate_zero, Nat.mul_comm]
          rfl
  · have length := congrArg List.length split
    rw [List.length_append, List.length_replicate] at length
    exact length

theorem all_isDigit_dropLastZeros (n : Nat) :
    ∀ c ∈ dropLastZeros (Nat.toDigits 10 n), c.isDigit = true := by
  obtain ⟨zeros, split⟩ := exists_append_replicate (Nat.toDigits 10 n)
  intro c member
  apply List.all_eq_true.mp (all_isDigit_toDigits n)
  rw [split]
  exact List.mem_append_left _ member

theorem dropLastZeros_ne_nil {n : Nat} (nonzero : n ≠ 0) :
    dropLastZeros (Nat.toDigits 10 n) ≠ [] := by
  obtain ⟨zeros, value, -⟩ := exists_dropLastZeros n
  intro none
  rw [none, Nat.ofDigitChars_nil, Nat.zero_mul] at value
  exact nonzero value

theorem exponentOfText?_intText (style : FloatStyle) (exponent : Int) :
    exponentOfText? ('e' :: ((if style.exponentPlus && decide (0 ≤ exponent) then ['+'] else []) ++
      intText exponent)) = some exponent := by
  rw [exponentOfText?, if_pos (Or.inl rfl)]
  by_cases plus : (style.exponentPlus && decide (0 ≤ exponent)) = true
  · have natural : 0 ≤ exponent := of_decide_eq_true (Bool.and_eq_true_iff.mp plus).2
    obtain ⟨n, rfl⟩ := Int.eq_ofNat_of_zero_le natural
    have signed : splitSign (['+'] ++ intText n) = (false, Nat.toDigits 10 n) := rfl
    rw [if_pos plus, intOfText?_eq, signed, natOfText?_toDigits]
    rfl
  · rw [if_neg plus, List.nil_append, intOfText?_intText]

theorem all_isDigit_replicate (zeros : Nat) : ∀ c ∈ List.replicate zeros '0', c.isDigit = true := by
  intro c member
  rw [(List.mem_replicate.mp member).2]
  decide

section Layout

variable {x : Binary64} {digits : List Char}

theorem ofDecimalText?_below_one (finite : x.isFinite = true) (nonzero : x.isZero = false)
    (allDigits : ∀ c ∈ digits, c.isDigit = true) {zeros : Nat}
    (covers : x.CoversDecimal (Nat.ofDigitChars 10 digits 0) (-zeros - digits.length))
    (negative : Bool) :
    Binary64.ofDecimalText? negative ('0' :: '.' :: (List.replicate zeros '0' ++ digits)) =
      some (Binary64.ofMagnitude negative x.magnitude) := by
  have value : Nat.ofDigitChars 10 (['0'] ++ (List.replicate zeros '0' ++ digits)) 0 =
      Nat.ofDigitChars 10 digits 0 := by
    rw [Nat.ofDigitChars_append, Nat.ofDigitChars_append, Nat.ofDigitChars_replicate_zero]
    rfl
  have places : (0 : Int) - (List.replicate zeros '0' ++ digits).length = -zeros - digits.length := by
    rw [List.length_append, List.length_replicate]
    omega
  rw [← value, ← places] at covers
  have zero : ∀ c ∈ ['0'], c.isDigit = true := all_isDigit_replicate 1
  have fraction := List.forall_mem_append.mpr ⟨all_isDigit_replicate zeros, allDigits⟩
  have read := Binary64.ofDecimalText?_point finite nonzero zero (List.cons_ne_nil _ _) fraction
    ends_nil rfl covers negative
  rw [List.append_nil] at read
  exact read

theorem ofDecimalText?_whole_number (finite : x.isFinite = true) (nonzero : x.isZero = false)
    (allDigits : ∀ c ∈ digits, c.isDigit = true) (nonempty : digits ≠ []) {zeros : Nat}
    (covers : x.CoversDecimal (Nat.ofDigitChars 10 digits 0) zeros) (mark negative : Bool) :
    Binary64.ofDecimalText? negative
        (digits ++ List.replicate zeros '0' ++ (if mark then ['.', '0'] else [])) =
      some (Binary64.ofMagnitude negative x.magnitude) := by
  have padded := List.forall_mem_append.mpr ⟨allDigits, all_isDigit_replicate zeros⟩
  have somePadded : digits ++ List.replicate zeros '0' ≠ [] := by
    rw [Ne, List.append_eq_nil_iff]
    exact fun none => nonempty none.1
  have value (count : Nat) : Nat.ofDigitChars 10 (digits ++ List.replicate count '0') 0 =
      Nat.ofDigitChars 10 digits 0 * tenTo count := by
    rw [Nat.ofDigitChars_append, Nat.ofDigitChars_replicate_zero, Nat.mul_comm]
    rfl
  cases mark with
  | false =>
      have whole : x.CoversDecimal (Nat.ofDigitChars 10 (digits ++ List.replicate zeros '0') 0) 0 := by
        rw [value, Binary64.coversDecimal_mul_tenTo, Int.zero_add]
        exact covers
      exact Binary64.ofDecimalText?_whole finite nonzero padded somePadded (by simp) rfl whole negative
  | true =>
      have tenths : x.CoversDecimal
          (Nat.ofDigitChars 10 (digits ++ List.replicate zeros '0' ++ ['0']) 0) (0 - 1) := by
        have grown : digits ++ List.replicate zeros '0' ++ ['0'] =
            digits ++ List.replicate (zeros + 1) '0' := by
          rw [List.append_assoc, List.replicate_succ']
        have shifted : (0 - 1 : Int) + (zeros + 1 : Nat) = zeros := by omega
        rw [grown, value, Binary64.coversDecimal_mul_tenTo, shifted]
        exact covers
      have zero : ∀ c ∈ ['0'], c.isDigit = true := all_isDigit_replicate 1
      exact Binary64.ofDecimalText?_point finite nonzero padded somePadded zero ends_nil rfl tenths
        negative

theorem FloatStyle.ofDecimalText?_positionalText (style : FloatStyle) (finite : x.isFinite = true)
    (nonzero : x.isZero = false) (allDigits : ∀ c ∈ digits, c.isDigit = true)
    (nonempty : digits ≠ []) {point : Int}
    (covers : x.CoversDecimal (Nat.ofDigitChars 10 digits 0) (point - digits.length))
    (negative : Bool) :
    Binary64.ofDecimalText? negative (style.positionalText digits point) =
      some (Binary64.ofMagnitude negative x.magnitude) := by
  rw [positionalText]
  by_cases below : point ≤ 0
  · rw [if_pos below]
    have places : (-((-point).toNat : Int) - digits.length) = point - digits.length := by omega
    rw [← places] at covers
    exact ofDecimalText?_below_one finite nonzero allDigits covers negative
  rw [if_neg below]
  by_cases beyond : digits.length ≤ point.toNat
  · rw [if_pos beyond]
    have places : point - digits.length = (point.toNat - digits.length : Nat) := by omega
    rw [places] at covers
    exact ofDecimalText?_whole_number finite nonzero allDigits nonempty covers _ negative
  · rw [if_neg beyond]
    have left : ∀ c ∈ digits.take point.toNat, c.isDigit = true :=
      fun c member => allDigits c (List.mem_of_mem_take member)
    have right : ∀ c ∈ digits.drop point.toNat, c.isDigit = true :=
      fun c member => allDigits c (List.mem_of_mem_drop member)
    have someLeft : digits.take point.toNat ≠ [] := by
      rw [Ne, List.take_eq_nil_iff]
      rintro (none | none)
      · omega
      · exact nonempty none
    have places : point - digits.length = 0 - (digits.drop point.toNat).length := by
      rw [List.length_drop]
      omega
    have value : Nat.ofDigitChars 10 digits 0 =
        Nat.ofDigitChars 10 (digits.take point.toNat ++ digits.drop point.toNat) 0 := by
      rw [List.take_append_drop]
    rw [places, value] at covers
    have read := Binary64.ofDecimalText?_point finite nonzero left someLeft right ends_nil rfl covers
      negative
    rw [List.append_nil] at read
    exact read

theorem FloatStyle.ofDecimalText?_scientificText (style : FloatStyle) (finite : x.isFinite = true)
    (nonzero : x.isZero = false) (allDigits : ∀ c ∈ digits, c.isDigit = true)
    (nonempty : digits ≠ []) {point : Int}
    (covers : x.CoversDecimal (Nat.ofDigitChars 10 digits 0) (point - digits.length))
    (negative : Bool) :
    Binary64.ofDecimalText? negative (style.scientificText digits point) =
      some (Binary64.ofMagnitude negative x.magnitude) := by
  obtain ⟨first, fraction, rfl⟩ := List.exists_cons_of_ne_nil nonempty
  have one : ∀ c ∈ [first], c.isDigit = true := by
    intro c member
    rw [List.mem_singleton.mp member]
    exact allDigits first List.mem_cons_self
  have others : ∀ c ∈ fraction, c.isDigit = true :=
    fun c member => allDigits c (List.mem_cons_of_mem first member)
  have someOne : [first] ≠ [] := List.cons_ne_nil _ _
  have places : point - (first :: fraction).length = point - 1 - fraction.length := by
    rw [List.length_cons]
    omega
  rw [places] at covers
  have exponent := exponentOfText?_intText style (point - 1)
  cases fraction with
  | nil =>
      have whole : x.CoversDecimal (Nat.ofDigitChars 10 [first] 0) (point - 1) := by
        rw [List.length_nil, Int.natCast_zero, Int.sub_zero] at covers
        exact covers
      refine Binary64.ofDecimalText?_whole finite nonzero one someOne ?_ exponent whole negative
      intro c head
      obtain rfl := Option.some.inj head
      decide
  | cons second rest =>
      have read := Binary64.ofDecimalText?_point finite nonzero one someOne others (ends_cons rfl)
        exponent covers negative
      rw [← read]
      simp [scientificText]

theorem FloatStyle.ofDecimalText?_decimalText (style : FloatStyle) (finite : x.isFinite = true)
    (nonzero : x.isZero = false) {value : Decimal}
    (covers : x.CoversDecimal value.digits value.exponent) (negative : Bool) :
    Binary64.ofDecimalText? negative (style.decimalText value) =
      some (Binary64.ofMagnitude negative x.magnitude) := by
  have nonempty := dropLastZeros_ne_nil (covers.exponent_ge finite nonzero).1
  have allDigits := all_isDigit_dropLastZeros value.digits
  obtain ⟨zeros, digits, length⟩ := exists_dropLastZeros value.digits
  have places : ((Nat.toDigits 10 value.digits).length + value.exponent : Int) -
      (dropLastZeros (Nat.toDigits 10 value.digits)).length = value.exponent + zeros := by
    omega
  rw [digits, Binary64.coversDecimal_mul_tenTo, ← places] at covers
  rw [decimalText]
  split
  · exact ofDecimalText?_positionalText style finite nonzero allDigits nonempty covers negative
  · exact ofDecimalText?_scientificText style finite nonzero allDigits nonempty covers negative

end Layout

section Characters

variable {digits : List Char}

theorem exists_positionalText_eq_cons {first : Char} {rest : List Char} (digit : first.isDigit = true)
    (style : FloatStyle) (point : Int) :
    ∃ c others, style.positionalText (first :: rest) point = c :: others ∧ c.isDigit = true := by
  unfold FloatStyle.positionalText
  split
  case isTrue => exact ⟨'0', _, rfl, by decide⟩
  case isFalse positive =>
    split
    case isTrue => exact ⟨first, _, rfl, digit⟩
    case isFalse =>
      obtain ⟨count, next⟩ : ∃ count, point.toNat = count + 1 := ⟨point.toNat - 1, by omega⟩
      rw [next]
      exact ⟨first, _, rfl, digit⟩

theorem exists_decimalText_eq_cons (style : FloatStyle) {value : Decimal} (nonzero : value.digits ≠ 0) :
    ∃ c rest, style.decimalText value = c :: rest ∧ c.isDigit = true := by
  have allDigits := all_isDigit_dropLastZeros value.digits
  obtain ⟨first, rest, digits⟩ := List.exists_cons_of_ne_nil (dropLastZeros_ne_nil nonzero)
  rw [digits] at allDigits
  have digit := allDigits first List.mem_cons_self
  rw [FloatStyle.decimalText, digits]
  split
  · exact exists_positionalText_eq_cons digit style _
  · exact ⟨first, _, rfl, digit⟩

theorem mem_positionalText {style : FloatStyle} {point : Int}
    (allDigits : ∀ c ∈ digits, c.isDigit = true) :
    ∀ c ∈ style.positionalText digits point, c.isDigit = true ∨ c = '.' := by
  have zero (count : Nat) := all_isDigit_replicate count
  intro c member
  unfold FloatStyle.positionalText at member
  split at member
  · simp only [List.mem_cons, List.mem_append] at member
    rcases member with rfl | rfl | inZeros | inDigits
    · exact Or.inl (by decide)
    · exact Or.inr rfl
    · exact Or.inl (zero _ c inZeros)
    · exact Or.inl (allDigits c inDigits)
  split at member
  · rcases List.mem_append.mp member with inWhole | inMark
    · exact Or.inl (List.forall_mem_append.mpr ⟨allDigits, zero _⟩ c inWhole)
    · split at inMark
      · simp only [List.mem_cons, List.not_mem_nil, or_false] at inMark
        rcases inMark with rfl | rfl
        · exact Or.inr rfl
        · exact Or.inl (by decide)
      · exact absurd inMark List.not_mem_nil
  · rcases List.mem_append.mp member with inWhole | inFraction
    · exact Or.inl (allDigits c (List.mem_of_mem_take inWhole))
    · rcases List.mem_cons.mp inFraction with rfl | inDigits
      · exact Or.inr rfl
      · exact Or.inl (allDigits c (List.mem_of_mem_drop inDigits))

theorem mem_scientificText {style : FloatStyle} {point : Int} (noPlus : style.exponentPlus = false)
    (allDigits : ∀ c ∈ digits, c.isDigit = true) :
    ∀ c ∈ style.scientificText digits point, c.isDigit = true ∨ c = '-' ∨ c = '.' ∨ c = 'e' := by
  intro c member
  simp only [FloatStyle.scientificText, noPlus, Bool.false_and, Bool.false_eq_true, if_false,
    List.nil_append, List.append_assoc, List.mem_append, List.mem_cons] at member
  rcases member with inFirst | inFraction | rfl | inExponent
  · exact Or.inl (allDigits c (List.mem_of_mem_take inFirst))
  · split at inFraction
    · exact absurd inFraction List.not_mem_nil
    · rcases List.mem_cons.mp inFraction with rfl | inDigits
      · exact Or.inr (Or.inr (Or.inl rfl))
      · exact Or.inl (allDigits c (List.mem_of_mem_drop inDigits))
  · exact Or.inr (Or.inr (Or.inr rfl))
  · rcases mem_intText _ c inExponent with digit | rfl
    · exact Or.inl digit
    · exact Or.inr (Or.inl rfl)

theorem point_mem_positionalText {style : FloatStyle} (mark : style.wholeMark = true) (point : Int) :
    '.' ∈ style.positionalText digits point := by
  unfold FloatStyle.positionalText
  rw [mark]
  split
  · simp
  · split <;> simp

end Characters

namespace Binary64

variable {x : Binary64}

theorem isNaN_eq_false (finite : x.isFinite = true) : x.isNaN = false := by
  have below := lt_of_isFinite finite
  rw [isNaN, decide_eq_false_iff_not]
  omega

theorem absText_of_isZero (finite : x.isFinite = true) (zero : x.isZero = true) (style : FloatStyle) :
    x.absText style = '0' :: (if style.wholeMark then ['.', '0'] else []) := by
  simp [absText, isNaN_eq_false finite, finite, zero]

theorem absText_of_nonzero (finite : x.isFinite = true) (nonzero : x.isZero = false)
    (style : FloatStyle) : x.absText style = style.decimalText (x.shortest style.tie) := by
  simp [absText, isNaN_eq_false finite, finite, nonzero]

theorem text_eq (finite : x.isFinite = true) (style : FloatStyle) :
    x.text style = if x.isNegative then '-' :: x.absText style else x.absText style := by
  simp [text, isNaN_eq_false finite]

theorem exists_absText_eq_cons (finite : x.isFinite = true) (style : FloatStyle) :
    ∃ c rest, x.absText style = c :: rest ∧ c.isDigit = true := by
  cases zero : x.isZero with
  | true => exact ⟨'0', _, absText_of_isZero finite zero style, by decide⟩
  | false =>
      rw [absText_of_nonzero finite zero]
      apply exists_decimalText_eq_cons
      exact ((covers_shortest finite zero style.tie).exponent_ge finite zero).1

theorem ofDecimalText?_absText (finite : x.isFinite = true) (style : FloatStyle) (negative : Bool) :
    ofDecimalText? negative (x.absText style) = some (ofMagnitude negative x.magnitude) := by
  cases zero : x.isZero with
  | true =>
      have magnitude : x.magnitude = 0 := of_decide_eq_true zero
      rw [absText_of_isZero finite zero, magnitude]
      cases style.wholeMark with
      | true => rfl
      | false => rfl
  | false =>
      rw [absText_of_nonzero finite zero]
      exact style.ofDecimalText?_decimalText finite zero (covers_shortest finite zero style.tie) negative

theorem ofText?_of_isDigit {text rest : List Char} {c : Char} {negative : Bool}
    (digit : c.isDigit = true) (split : splitSign text = (negative, c :: rest)) :
    ofText? text = ofDecimalText? negative (c :: rest) := by
  have notWord (first : Char) (letters : List Char) (letter : first.isDigit = false) :
      (c :: rest).map Char.toLower ≠ first :: letters := by
    intro same
    have head := (List.cons_eq_cons.mp same).1
    rw [toLower_of_isDigit digit] at head
    rw [head, letter] at digit
    exact Bool.false_ne_true digit
  have notInf : (c :: rest).map Char.toLower ≠ "inf".toList := notWord 'i' _ (by decide)
  have notInfinity : (c :: rest).map Char.toLower ≠ "infinity".toList := notWord 'i' _ (by decide)
  have notNaN : (c :: rest).map Char.toLower ≠ "nan".toList := notWord 'n' _ (by decide)
  rw [ofText?, split]
  show (if _ then _ else if _ then _ else _) = _
  rw [if_neg (not_or.mpr ⟨notInf, notInfinity⟩), if_neg notNaN]

theorem finiteOfText?_text (finite : x.isFinite = true) (style : FloatStyle) :
    finiteOfText? (x.text style) = some x := by
  obtain ⟨c, rest, start, digit⟩ := exists_absText_eq_cons finite style
  have split : splitSign (x.text style) = (x.isNegative, c :: rest) := by
    rw [text_eq finite, start]
    cases x.isNegative with
    | true => rfl
    | false => exact splitSign_of_isDigit digit
  rw [finiteOfText?, ofText?_of_isDigit digit split, ← start, ofDecimalText?_absText finite,
    ofMagnitude_magnitude, Option.filter_some, if_pos finite]

theorem exists_text_eq_cons (finite : x.isFinite = true) (style : FloatStyle) :
    ∃ c rest, x.text style = c :: rest ∧ (c = '-' ∨ c.isDigit = true) := by
  obtain ⟨c, rest, start, digit⟩ := exists_absText_eq_cons finite style
  rw [text_eq finite, start]
  cases x.isNegative with
  | true => exact ⟨'-', _, rfl, Or.inl rfl⟩
  | false => exact ⟨c, _, rfl, Or.inr digit⟩

theorem mem_absText (finite : x.isFinite = true) :
    ∀ c ∈ x.absText .rule, c.isDigit = true ∨ c = '-' ∨ c = '.' ∨ c = 'e' := by
  intro c member
  cases zero : x.isZero with
  | true =>
      have listed : c ∈ ['0', '.', '0'] := by
        rw [absText_of_isZero finite zero] at member
        exact member
      simp only [List.mem_cons, List.not_mem_nil, or_false] at listed
      rcases listed with rfl | rfl | rfl <;> decide
  | false =>
      have allDigits := all_isDigit_dropLastZeros (x.shortest .up).digits
      rw [absText_of_nonzero finite zero, FloatStyle.decimalText] at member
      split at member
      · rcases mem_positionalText allDigits c member with digit | rfl
        · exact Or.inl digit
        · exact Or.inr (Or.inr (Or.inl rfl))
      · exact mem_scientificText rfl allDigits c member

theorem mem_text (finite : x.isFinite = true) :
    ∀ c ∈ x.text .rule, c.isDigit = true ∨ c = '-' ∨ c = '.' ∨ c = 'e' := by
  intro c member
  rw [text_eq finite] at member
  split at member
  · rcases List.mem_cons.mp member with rfl | member
    · exact Or.inr (Or.inl rfl)
    · exact mem_absText finite c member
  · exact mem_absText finite c member

theorem exists_mark_mem_absText (finite : x.isFinite = true) :
    ∃ c ∈ x.absText .rule, c.isDigit = false := by
  cases zero : x.isZero with
  | true =>
      rw [absText_of_isZero finite zero]
      exact ⟨'.', List.mem_cons_of_mem '0' List.mem_cons_self, by decide⟩
  | false =>
      rw [absText_of_nonzero finite zero, FloatStyle.decimalText]
      split
      · exact ⟨'.', point_mem_positionalText rfl _, by decide⟩
      · exact ⟨'e', by simp [FloatStyle.scientificText], by decide⟩

theorem intOfText?_text (finite : x.isFinite = true) : Text.intOfText? (x.text .rule) = none := by
  obtain ⟨c, rest, start, digit⟩ := exists_absText_eq_cons finite .rule
  obtain ⟨mark, member, other⟩ := exists_mark_mem_absText finite
  have unsigned : (splitSign (x.text .rule)).2 = x.absText .rule := by
    rw [text_eq finite, start]
    cases x.isNegative with
    | true => rfl
    | false => rw [if_neg Bool.false_ne_true, splitSign_of_isDigit digit]
  rw [intOfText?_eq, unsigned, natOfText?_of_mem member other]
  rfl

end Binary64

end FieldRules
