import FieldRules.Json.Basic
import FieldRules.Json.Token
import FieldRules.Proofs.Numeral

/-!
Texts of one token each, read in front of any text that does not prolong them. Strings and integers are
read back from their JSON text.
-/

namespace FieldRules.Json

def Piece.Spells (piece : Piece) (c : Char) : Prop :=
  ∀ later, joinPieces? (piece :: later) = (joinPieces? later).map (c :: ·)

theorem Piece.spells_char (c : Char) : (Piece.char c).Spells c := by
  intro later
  rw [joinPieces?]

theorem Piece.spells_unit {code : Nat} (low : code < 0xd800) :
    (Piece.unit code).Spells (Char.ofNat code) := by
  have notHigh : isHighSurrogate code = false := by
    simp only [isHighSurrogate, decide_eq_false_iff_not]
    omega
  have notLow : isLowSurrogate code = false := by
    simp only [isLowSurrogate, decide_eq_false_iff_not]
    omega
  intro later
  rcases later with _ | ⟨next, later⟩
  · simp [joinPieces?, notHigh, notLow]
  · cases next with
    | char c => simp [joinPieces?, notHigh, notLow]
    | unit next => simp [joinPieces?, notHigh, notLow]

theorem hexUnit?_digitChar : ∀ code < 32,
    hexUnit? '0' '0' (Nat.digitChar (code / 16)) (Nat.digitChar (code % 16)) = some code := by
  decide

theorem pieces?_cons {c : Char} {rest : List Char} (notQuote : c ≠ '"') (notBackslash : c ≠ '\\')
    (visible : ¬c.toNat < 32) :
    pieces? (c :: rest) = (pieces? rest).map fun (later, after) => (.char c :: later, after) := by
  rw [pieces?.eq_def]
  split
  · simp_all
  · simp_all
  · simp_all
  · simp_all
  · rename_i same
    obtain ⟨rfl, rfl⟩ := List.cons.inj same
    exact if_neg visible

theorem pieces?_escapeChar (c : Char) : ∃ piece : Piece, piece.Spells c ∧ ∀ rest,
    pieces? (escapeChar c ++ rest) =
      (pieces? rest).map fun (later, after) => (piece :: later, after) := by
  by_cases quoted : c = '"' ∨ c = '\\'
  · refine ⟨.char c, Piece.spells_char c, ?_⟩
    intro rest
    rw [escapeChar, if_pos quoted]
    rcases quoted with rfl | rfl <;> cases read : pieces? rest <;> simp [pieces?, escaped?, read]
  · by_cases named : c = '\x08' ∨ c = '\t' ∨ c = '\n' ∨ c = '\x0c' ∨ c = '\r'
    · refine ⟨.char c, Piece.spells_char c, ?_⟩
      intro rest
      rcases named with rfl | rfl | rfl | rfl | rfl <;> cases read : pieces? rest <;>
        simp [escapeChar, pieces?, escaped?, read]
    · simp only [not_or] at quoted named
      by_cases control : c.toNat < 32
      · refine ⟨.unit c.toNat, ?_, ?_⟩
        · have spells : (Piece.unit c.toNat).Spells (Char.ofNat c.toNat) :=
            Piece.spells_unit (by omega)
          rwa [Char.ofNat_toNat] at spells
        · intro rest
          have unit := hexUnit?_digitChar c.toNat control
          cases read : pieces? rest <;> simp [escapeChar, quoted, named, control, pieces?, unit, read]
      · refine ⟨.char c, Piece.spells_char c, ?_⟩
        intro rest
        have kept : escapeChar c = [c] := by simp [escapeChar, quoted, named, control]
        rw [kept, List.singleton_append]
        exact pieces?_cons quoted.1 quoted.2 control

theorem pieces?_escaped (text : List Char) : ∃ pieces, joinPieces? pieces = some text ∧ ∀ rest,
    pieces? (text.flatMap escapeChar ++ '"' :: rest) = some (pieces, rest) := by
  induction text with
  | nil =>
      refine ⟨[], rfl, ?_⟩
      intro rest
      simp [pieces?]
  | cons c text ih =>
      obtain ⟨pieces, spelled, read⟩ := ih
      obtain ⟨piece, spells, step⟩ := pieces?_escapeChar c
      refine ⟨piece :: pieces, ?_, ?_⟩
      · rw [spells, spelled]
        rfl
      · intro rest
        rw [List.flatMap_cons, List.append_assoc, step, read]
        rfl

theorem quote_toList (text : String) :
    (quote text).toList = '"' :: (text.toList.flatMap escapeChar ++ ['"']) := by
  rw [quote, String.toList_ofList]

theorem pieces?_quote (text : String) : ∃ pieces, stringOfPieces? pieces = some text ∧ ∀ rest,
    pieces? (text.toList.flatMap escapeChar ++ '"' :: rest) = some (pieces, rest) := by
  obtain ⟨pieces, spelled, read⟩ := pieces?_escaped text.toList
  refine ⟨pieces, ?_, read⟩
  rw [stringOfPieces?, spelled, Option.map_some, String.ofList_toList]

def EndsNumber (rest : List Char) : Prop :=
  ∀ c ∈ rest.head?, c.isDigit = false ∧ c ≠ '.' ∧ c ≠ 'e' ∧ c ≠ 'E'

theorem EndsNumber.nil : EndsNumber [] := by
  intro c member
  simp at member

def numberOfText? (text : List Char) : Option Json :=
  match numberText? text with
  | some (spelling, []) => spelling.value?
  | _ => none

theorem digits?_eq_some_iff {text digits after : List Char} :
    digits? text = some (digits, after) ↔ text = digits ++ after ∧ digits ≠ [] ∧
      (∀ c ∈ digits, c.isDigit = true) ∧ ∀ c ∈ after.head?, c.isDigit = false := by
  constructor
  · intro found
    simp only [digits?, Option.ite_none_left_eq_some, Option.some.injEq, Prod.mk.injEq] at found
    obtain ⟨nonempty, rfl, rfl⟩ := found
    refine ⟨List.takeWhile_append_dropWhile.symm, by simpa using nonempty, ?_, ?_⟩
    · exact List.all_eq_true.mp List.all_takeWhile
    · intro c member
      have stops := List.head?_dropWhile_not Char.isDigit text
      rw [Option.mem_def.mp member] at stops
      simpa using stops
  · rintro ⟨rfl, nonempty, all, stops⟩
    have taken := Text.takeWhile_run all stops
    have dropped := Text.dropWhile_run all stops
    simp [digits?, taken, dropped, nonempty]

theorem head?_append_of_ends {after rest : List Char} {p : Char → Prop}
    (here : ∀ c ∈ after.head?, p c) (later : after = [] → ∀ c ∈ rest.head?, p c) :
    ∀ c ∈ (after ++ rest).head?, p c := by
  cases after with
  | nil => exact later rfl
  | cons first after => exact here

theorem digits?_append {text digits after rest : List Char}
    (found : digits? text = some (digits, after)) (ends : after = [] → EndsNumber rest) :
    digits? (text ++ rest) = some (digits, after ++ rest) := by
  obtain ⟨split, nonempty, all, stops⟩ := digits?_eq_some_iff.mp found
  refine digits?_eq_some_iff.mpr ⟨?_, nonempty, all, ?_⟩
  · rw [split, List.append_assoc]
  · exact head?_append_of_ends stops fun empty c member => (ends empty c member).1

theorem whole?_append {text digits after rest : List Char}
    (found : whole? text = some (digits, after)) (ends : after = [] → EndsNumber rest) :
    whole? (text ++ rest) = some (digits, after ++ rest) := by
  obtain ⟨taken, plain⟩ := Option.filter_eq_some_iff.mp found
  rw [whole?, digits?_append taken ends]
  exact Option.filter_eq_some_iff.mpr ⟨rfl, plain⟩

theorem fraction?_of_ends {rest : List Char} (ends : EndsNumber rest) :
    fraction? rest = some (none, rest) := by
  unfold fraction?
  split
  · exact absurd rfl (ends '.' rfl).2.1
  · rfl

theorem fraction?_append {text after rest : List Char} {fraction : Option (List Char)}
    (found : fraction? text = some (fraction, after)) (ends : after = [] → EndsNumber rest) :
    fraction? (text ++ rest) = some (fraction, after ++ rest) := by
  unfold fraction? at found
  split at found
  · obtain ⟨⟨digits, later⟩, taken, same⟩ := Option.map_eq_some_iff.mp found
    obtain ⟨rfl, rfl⟩ := Prod.mk.inj same
    rw [List.cons_append, fraction?, digits?_append taken ends]
    rfl
  · rename_i noPoint
    simp only [Option.some.injEq, Prod.mk.injEq] at found
    obtain ⟨rfl, rfl⟩ := found
    cases text with
    | nil => exact fraction?_of_ends (ends rfl)
    | cons c text =>
        unfold fraction?
        split
        · rename_i same
          exact absurd (congrArg (· :: text) (List.cons.inj same).1) (noPoint text)
        · rfl

theorem exponent?_of_ends {rest : List Char} (ends : EndsNumber rest) :
    exponent? rest = some (none, rest) := by
  cases rest with
  | nil => rfl
  | cons c rest =>
      have other := (ends c rfl).2.2
      rw [exponent?, if_neg (by simp [other])]

theorem splitSign_append {text rest : List Char} (nonempty : text ≠ []) :
    Text.splitSign (text ++ rest) =
      ((Text.splitSign text).1, (Text.splitSign text).2 ++ rest) := by
  cases text with
  | nil => exact absurd rfl nonempty
  | cons c text =>
      rw [List.cons_append]
      by_cases minus : c = '-'
      · subst minus
        rfl
      · by_cases plus : c = '+'
        · subst plus
          rfl
        · simp [Text.splitSign, minus, plus]

theorem exponent?_append {text after rest : List Char} {exponent : Option (Bool × List Char)}
    (found : exponent? text = some (exponent, after)) (ends : after = [] → EndsNumber rest) :
    exponent? (text ++ rest) = some (exponent, after ++ rest) := by
  cases text with
  | nil =>
      simp only [exponent?, Option.some.injEq, Prod.mk.injEq] at found
      obtain ⟨rfl, rfl⟩ := found
      exact exponent?_of_ends (ends rfl)
  | cons c text =>
      rw [List.cons_append, exponent?]
      rw [exponent?] at found
      by_cases marked : c = 'e' ∨ c = 'E'
      · rw [if_pos marked] at found ⊢
        obtain ⟨⟨digits, later⟩, taken, same⟩ := Option.map_eq_some_iff.mp found
        obtain ⟨rfl, rfl⟩ := Prod.mk.inj same
        have nonempty : text ≠ [] := by
          rintro rfl
          simp [Text.splitSign, digits?] at taken
        rw [splitSign_append nonempty, digits?_append taken ends]
        rfl
      · rw [if_neg marked] at found ⊢
        simp only [Option.some.injEq, Prod.mk.injEq] at found
        obtain ⟨rfl, rfl⟩ := found
        rfl

theorem sign_cons {c : Char} {text : List Char} (plain : c ≠ '-') :
    sign (c :: text) = (false, c :: text) := by
  simp [sign, plain]

theorem sign_of_isDigit {c : Char} {rest : List Char} (digit : c.isDigit = true) :
    sign (c :: rest) = (false, c :: rest) := by
  apply sign_cons
  rintro rfl
  exact absurd digit (by decide)

theorem sign_append {text rest : List Char} (nonempty : text ≠ []) :
    sign (text ++ rest) = ((sign text).1, (sign text).2 ++ rest) := by
  cases text with
  | nil => exact absurd rfl nonempty
  | cons c text =>
      rw [List.cons_append]
      by_cases minus : c = '-'
      · subst minus
        rfl
      · rw [sign_cons minus, sign_cons minus]
        rfl

theorem numberText?_eq_some_iff {text after : List Char} {spelling : NumberText} :
    numberText? text = some (spelling, after) ↔ ∃ afterWhole afterFraction,
      whole? (sign text).2 = some (spelling.whole, afterWhole) ∧
      fraction? afterWhole = some (spelling.fraction, afterFraction) ∧
      exponent? afterFraction = some (spelling.exponent, after) ∧
      (sign text).1 = spelling.negative := by
  constructor
  · intro found
    simp only [numberText?, Option.bind_eq_bind, Option.bind_eq_some_iff, Option.pure_def,
      Option.some.injEq, Prod.mk.injEq, Prod.exists] at found
    obtain ⟨whole, afterWhole, wholeFound, fraction, afterFraction, fractionFound, exponent,
      afterExponent, exponentFound, rfl, rfl⟩ := found
    exact ⟨afterWhole, afterFraction, wholeFound, fractionFound, exponentFound, rfl⟩
  · rintro ⟨afterWhole, afterFraction, wholeFound, fractionFound, exponentFound, same⟩
    simp [numberText?, wholeFound, fractionFound, exponentFound, same]

theorem numberText?_append {text after rest : List Char} {spelling : NumberText}
    (found : numberText? text = some (spelling, after)) (ends : after = [] → EndsNumber rest) :
    numberText? (text ++ rest) = some (spelling, after ++ rest) := by
  obtain ⟨afterWhole, afterFraction, wholeFound, fractionFound, exponentFound, signed⟩ :=
    numberText?_eq_some_iff.mp found
  have nonempty : text ≠ [] := by
    rintro rfl
    simp [sign, whole?, digits?] at wholeFound
  have endsFraction : afterFraction = [] → EndsNumber rest := by
    rintro rfl
    simp only [exponent?, Option.some.injEq, Prod.mk.injEq] at exponentFound
    exact ends exponentFound.2.symm
  have endsWhole : afterWhole = [] → EndsNumber rest := by
    rintro rfl
    simp only [fraction?, Option.some.injEq, Prod.mk.injEq] at fractionFound
    exact endsFraction fractionFound.2.symm
  refine numberText?_eq_some_iff.mpr ⟨afterWhole ++ rest, afterFraction ++ rest, ?_, ?_, ?_, ?_⟩
  · rw [sign_append nonempty]
    exact whole?_append wholeFound endsWhole
  · exact fraction?_append fractionFound endsFraction
  · exact exponent?_append exponentFound ends
  · rw [sign_append nonempty]
    exact signed

theorem head_of_numberText? {c : Char} {text after : List Char} {spelling : NumberText}
    (found : numberText? (c :: text) = some (spelling, after)) : c = '-' ∨ c.isDigit = true := by
  obtain ⟨afterWhole, _, wholeFound, _, _, _⟩ := numberText?_eq_some_iff.mp found
  by_cases minus : c = '-'
  · exact Or.inl minus
  · rw [sign_cons minus] at wholeFound
    obtain ⟨split, nonempty, all, _⟩ :=
      digits?_eq_some_iff.mp (Option.filter_eq_some_iff.mp wholeFound).1
    refine Or.inr (all c ?_)
    cases digits : spelling.whole with
    | nil => exact absurd digits nonempty
    | cons first later =>
        rw [digits] at split
        rw [(List.cons.inj split).1]
        exact List.mem_cons_self

theorem head?_toDigits {n : Nat} (positive : 0 < n) :
    (Nat.toDigits 10 n).head? ≠ some '0' := by
  induction n using Nat.strongRecOn with
  | ind n ih =>
      rcases Nat.lt_or_ge n 10 with small | large
      · rw [Nat.toDigits_of_lt_base small]
        have digit : ∀ d < 10, 0 < d → Nat.digitChar d ≠ '0' := by decide
        simpa using digit n small positive
      · rw [Nat.toDigits_of_base_le (by decide) large, List.head?_append]
        have shorter := ih (n / 10) (by omega) (by omega)
        cases first : (Nat.toDigits 10 (n / 10)).head? with
        | none => exact absurd (List.head?_eq_none_iff.mp first) Nat.toDigits_ne_nil
        | some c =>
            rw [first] at shorter
            exact shorter

theorem whole?_toDigits (n : Nat) : whole? (Nat.toDigits 10 n) = some (Nat.toDigits 10 n, []) := by
  have taken : digits? (Nat.toDigits 10 n) = some (Nat.toDigits 10 n, []) := by
    refine digits?_eq_some_iff.mpr ⟨(List.append_nil _).symm, Nat.toDigits_ne_nil, ?_, ?_⟩
    · exact List.all_eq_true.mp (Text.all_isDigit_toDigits n)
    · intro c member
      simp at member
  refine Option.filter_eq_some_iff.mpr ⟨taken, ?_⟩
  rcases Nat.eq_zero_or_pos n with rfl | positive
  · rfl
  · simp [head?_toDigits positive]

theorem sign_toDigits (n : Nat) : sign (Nat.toDigits 10 n) = (false, Nat.toDigits 10 n) := by
  obtain ⟨c, rest, digits, digit⟩ := Text.exists_toDigits_eq_cons n
  rw [digits, sign_of_isDigit digit]

theorem numberText?_intText (i : Int) : numberText? (Text.intText i) =
    some (⟨decide (i < 0), Nat.toDigits 10 i.natAbs, none, none⟩, []) := by
  cases i with
  | ofNat n =>
      refine numberText?_eq_some_iff.mpr ⟨[], [], ?_, rfl, rfl, ?_⟩
      · rw [Text.intText, sign_toDigits]
        exact whole?_toDigits n
      · rw [Text.intText, sign_toDigits]
        exact (decide_eq_false (Int.not_lt.mpr (Int.natCast_nonneg n))).symm
  | negSucc n =>
      refine numberText?_eq_some_iff.mpr ⟨[], [], whole?_toDigits (n + 1), rfl, rfl, ?_⟩
      exact (decide_eq_true (Int.negSucc_lt_zero n)).symm

theorem fillSignificand_of_lt {digits : List Char} {significand : Nat}
    (fits : Nat.ofDigitChars 10 digits significand < 0x10000000000000000) :
    fillSignificand significand digits = (Nat.ofDigitChars 10 digits significand, []) := by
  induction digits generalizing significand with
  | nil => rfl
  | cons c digits ih =>
      rw [Nat.ofDigitChars_cons] at fits ⊢
      have grows : 10 * significand + (c.toNat - '0'.toNat) ≤
          Nat.ofDigitChars 10 digits (10 * significand + (c.toNat - '0'.toNat)) := by
        rw [Nat.ofDigitChars_eq_ofDigitChars_zero]
        exact Nat.le_add_right_of_le (Nat.le_mul_of_pos_left _ (Nat.pow_pos (by decide)))
      rw [fillSignificand, Nat.mul_comm significand 10]
      rw [if_pos (Nat.lt_of_le_of_lt grows fits)]
      exact ih fits

theorem numberOfText?_intText {i : Int} (lower : -0x8000000000000000 ≤ i)
    (upper : i < 0x10000000000000000) : numberOfText? (Text.intText i) = some (.integer i) := by
  have filled : fillSignificand 0 (Nat.toDigits 10 i.natAbs) = (i.natAbs, []) := by
    rw [fillSignificand_of_lt] <;> rw [Nat.ofDigitChars_ten_toDigits]
    omega
  rw [numberOfText?, numberText?_intText]
  simp only [NumberText.value?, filled]
  by_cases negative : i < 0
  · have bounds : 0 < i.natAbs ∧ i.natAbs ≤ 0x8000000000000000 := by omega
    have back : -(i.natAbs : Int) = i := by omega
    simp only [negative, decide_true, Option.isNone_none, List.isEmpty_nil, Bool.and_self,
      Bool.not_true, Bool.false_eq_true, if_true, if_false, bounds, and_self, back]
  · have back : (i.natAbs : Int) = i := by omega
    simp only [negative, decide_false, Option.isNone_none, List.isEmpty_nil, Bool.and_self,
      Bool.not_false, if_true, back]

namespace Token

theorem ofText_of_dropWhile_nil {text : List Char} (trimmed : text.dropWhile isBlank = []) :
    ofText text = [] := by
  rw [ofText]
  split <;> simp_all

theorem ofText_of_dropWhile_cons {c : Char} {text rest : List Char}
    (trimmed : text.dropWhile isBlank = c :: rest) :
    ofText text = match first? c rest with
      | none => [fault]
      | some (token, after) => token :: ofText after := by
  rw [ofText]
  split
  · simp_all
  · rename_i d later same
    obtain ⟨rfl, rfl⟩ := List.cons.inj (same.symm.trans trimmed)
    split <;> simp_all

theorem ofText_nil : ofText [] = [] :=
  ofText_of_dropWhile_nil rfl

theorem ofText_cons {c : Char} {rest after : List Char} {token : Token}
    (visible : isBlank c = false) (found : first? c rest = some (token, after)) :
    ofText (c :: rest) = token :: ofText after := by
  have here : (c :: rest).dropWhile isBlank = c :: rest := by simp [visible]
  rw [ofText_of_dropWhile_cons here, found]

theorem ofText_blanks {blanks : List Char} (blank : blanks.all isBlank = true) (rest : List Char) :
    ofText (blanks ++ rest) = ofText rest := by
  have same : (blanks ++ rest).dropWhile isBlank = rest.dropWhile isBlank :=
    List.dropWhile_append_of_pos (List.all_eq_true.mp blank)
  cases trimmed : rest.dropWhile isBlank with
  | nil => rw [ofText_of_dropWhile_nil trimmed, ofText_of_dropWhile_nil (same.trans trimmed)]
  | cons c more =>
      rw [ofText_of_dropWhile_cons trimmed, ofText_of_dropWhile_cons (same.trans trimmed)]

theorem ofText_quote (text : String) : ∃ pieces, stringOfPieces? pieces = some text ∧ ∀ rest,
    ofText ((quote text).toList ++ rest) = .string pieces :: ofText rest := by
  obtain ⟨pieces, spelled, read⟩ := pieces?_quote text
  refine ⟨pieces, spelled, ?_⟩
  intro rest
  rw [quote_toList, List.cons_append, List.append_assoc]
  apply ofText_cons (by decide)
  rw [first?, List.singleton_append, read]
  rfl

theorem first?_of_isDigit {c : Char} {rest : List Char} (starts : c = '-' ∨ c.isDigit = true) :
    first? c rest =
      (numberText? (c :: rest)).map fun (spelling, after) => (number spelling, after) := by
  unfold first?
  split <;> first | rfl | exact absurd starts (by decide)

theorem isBlank_of_isDigit {c : Char} (starts : c = '-' ∨ c.isDigit = true) :
    isBlank c = false := by
  cases blank : isBlank c with
  | false => rfl
  | true =>
      simp only [isBlank, Bool.or_eq_true, beq_iff_eq] at blank
      rcases blank with ((rfl | rfl) | rfl) | rfl <;> exact absurd starts (by decide)

theorem ofText_number {text rest : List Char} {spelling : NumberText}
    (found : numberText? text = some (spelling, [])) (ends : EndsNumber rest) :
    ofText (text ++ rest) = .number spelling :: ofText rest := by
  cases text with
  | nil => simp [numberText?, sign, whole?, digits?] at found
  | cons c text =>
      have starts := head_of_numberText? found
      have longer := numberText?_append found fun _ => ends
      rw [List.cons_append] at longer ⊢
      apply ofText_cons (isBlank_of_isDigit starts)
      rw [first?_of_isDigit starts, longer]
      rfl

end Token

end FieldRules.Json
