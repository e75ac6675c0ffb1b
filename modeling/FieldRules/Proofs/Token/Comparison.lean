import FieldRules.Proofs.Binary64.Text
import FieldRules.Proofs.Lexeme.Cut
import FieldRules.Proofs.Numeral
import FieldRules.Proofs.Rule.Phrase
import FieldRules.Rule.Basic
import FieldRules.Token

/-!
What bare words mean: keywords, identifiers, and numbers in the spelling in which they are written. The
text of a comparison is cut into three lexemes, which mean its field, its symbol and its literal.
-/

namespace FieldRules

open Text

theorem isAlphabetic_of_lt {c : Char} (early : c.toNat < 'A'.toNat) : isAlphabetic c = false := by
  rw [isAlphabetic, CharSet.contains, alphabetic]
  exact insideAfter_cons_of_lt early _ _

theorem isWordChar_of_isDigit {c : Char} (digit : c.isDigit = true) :
    Lexeme.isWordChar c = true := by
  obtain ⟨low, high⟩ := toNat_of_isDigit digit
  have inside : isNumeric c = true := by
    rw [isNumeric, CharSet.contains, numeric, insideAfter_cons_of_le low,
      insideAfter_cons_of_lt (by omega)]
    rfl
  simp [Lexeme.isWordChar, Lexeme.isAlphanumeric, inside]

theorem isWordChar_of_isIdentifier {word : List Char} (identifier : isIdentifier word = true) :
    ∀ c ∈ word, Lexeme.isWordChar c = true := by
  cases word with
  | nil => simp [isIdentifier] at identifier
  | cons first rest =>
      simp only [isIdentifier, Bool.and_eq_true, Bool.or_eq_true, List.all_eq_true,
        beq_iff_eq] at identifier
      intro c member
      rcases List.mem_cons.mp member with rfl | later
      · rcases identifier.1 with letter | rfl
        · simp [Lexeme.isWordChar, Lexeme.isAlphanumeric, letter]
        · decide
      · rcases identifier.2 c later with (letter | rfl) | rfl
        · simp [Lexeme.isWordChar, letter]
        · decide
        · decide

theorem exists_cons_of_isIdentifier {word : List Char} (identifier : isIdentifier word = true) :
    ∃ c rest, word = c :: rest ∧ c.isDigit = false ∧ c ≠ '-' ∧ c ≠ '+' ∧ c ≠ '.' := by
  cases word with
  | nil => simp [isIdentifier] at identifier
  | cons c rest =>
      refine ⟨c, rest, rfl, ?_⟩
      simp only [isIdentifier, Bool.and_eq_true, Bool.or_eq_true, beq_iff_eq] at identifier
      rcases identifier.1 with letter | rfl
      · have late : 'A'.toNat ≤ c.toNat := by
          rcases Nat.lt_or_ge c.toNat 'A'.toNat with early | late
          · rw [isAlphabetic_of_lt early] at letter
            exact absurd letter Bool.false_ne_true
          · exact late
        refine ⟨?_, ?_, ?_, ?_⟩
        · cases digit : c.isDigit with
          | false => rfl
          | true =>
              have bounds := toNat_of_isDigit digit
              exact absurd late (by simp; omega)
        · rintro rfl
          exact absurd late (by decide)
        · rintro rfl
          exact absurd late (by decide)
        · rintro rfl
          exact absurd late (by decide)
      · decide

theorem ofDecimalText?_cons {c : Char} {rest : List Char} (negative : Bool)
    (notDigit : c.isDigit = false) (notPoint : c ≠ '.') :
    Binary64.ofDecimalText? negative (c :: rest) = none := by
  have unsplit : splitFraction (c :: rest) = ([], c :: rest) := by
    unfold splitFraction
    split
    · simp_all
    · rfl
  simp [Binary64.ofDecimalText?, notDigit, unsplit]

theorem numberOfWord?_of_isIdentifier {word : List Char} (identifier : isIdentifier word = true) :
    numberOfWord? word = none := by
  obtain ⟨c, rest, rfl, notDigit, notMinus, notPlus, notPoint⟩ :=
    exists_cons_of_isIdentifier identifier
  have unsigned : splitSign (c :: rest) = (false, c :: rest) := splitSign_cons notMinus notPlus
  have notWhole : int64OfText? (c :: rest) = none := by
    rw [int64OfText?, intOfText?_eq, unsigned, natOfText?_of_mem List.mem_cons_self notDigit]
    rfl
  have notFinite : Binary64.finiteOfText? (c :: rest) = none := by
    rw [Binary64.finiteOfText?, Binary64.ofText?, unsigned]
    simp only [ofDecimalText?_cons false notDigit notPoint]
    split
    · decide
    · split
      · decide
      · rfl
  rw [numberOfWord?, notWhole, notFinite]
  rfl

namespace TokenKind

theorem ofWord_of_isIdentifier {name : String} (identifier : isIdentifier name.toList = true)
    (notKeyword : Connective.ofKeyword? name = none) :
    ofWord false name.toList = .identifier name := by
  rw [ofWord, String.ofList_toList, notKeyword]
  simp only [numberOfWord?_of_isIdentifier identifier, identifier]
  rfl

theorem ofWord_keyword (afterSymbols : Bool) (connective : Connective) :
    ofWord afterSymbols connective.keyword.toList = .connective connective := by
  cases connective <;> rfl

theorem ofKeyword?_of_head {c : Char} {rest : List Char} (starts : c = '-' ∨ c.isDigit = true) :
    Connective.ofKeyword? (String.ofList (c :: rest)) = none := by
  have upper : c.toUpper ≠ 'A' ∧ c.toUpper ≠ 'O' := by
    rcases starts with rfl | digit
    · decide
    · rw [toUpper_of_isDigit digit]
      constructor
      · rintro rfl
        exact absurd digit (by decide)
      · rintro rfl
        exact absurd digit (by decide)
  simp [Connective.ofKeyword?, upper]

theorem ofWord_of_number {word : List Char} {value : Scalar} (afterSymbols : Bool)
    (starts : ∃ c rest, word = c :: rest ∧ (c = '-' ∨ c.isDigit = true))
    (number : numberOfWord? word = some value) : ofWord afterSymbols word = .literal value := by
  obtain ⟨c, rest, rfl, starts⟩ := starts
  rw [ofWord, ofKeyword?_of_head starts, number]

end TokenKind

theorem numberOfWord?_intText (value : Int64) :
    numberOfWord? (intText value.toInt) = some (.int value) := by
  rw [numberOfWord?, int64OfText?_intText]
  exact if_pos rfl

theorem exists_intText_eq_cons (i : Int) :
    ∃ c rest, intText i = c :: rest ∧ (c = '-' ∨ c.isDigit = true) := by
  cases i with
  | ofNat n =>
      obtain ⟨c, rest, digits, digit⟩ := exists_toDigits_eq_cons n
      exact ⟨c, rest, digits, Or.inr digit⟩
  | negSucc n => exact ⟨'-', _, rfl, Or.inl rfl⟩

theorem isWordChar_of_mem_intText (i : Int) : ∀ c ∈ intText i, Lexeme.isWordChar c = true := by
  intro c member
  rcases mem_intText i c member with digit | rfl
  · exact isWordChar_of_isDigit digit
  · decide

theorem isWordChar_of_mem_floatText {x : Binary64} (finite : x.isFinite = true) :
    ∀ c ∈ x.text .rule, Lexeme.isWordChar c = true := by
  intro c member
  rcases Binary64.mem_text finite c member with digit | rfl | rfl | rfl
  · exact isWordChar_of_isDigit digit
  · decide
  · decide
  · decide

theorem numberOfWord?_floatText {x : Binary64} (finite : x.isFinite = true) :
    numberOfWord? (x.text .rule) = some (.float x) := by
  have notWhole : int64OfText? (x.text .rule) = none := by
    rw [int64OfText?, Binary64.intOfText?_text finite]
    rfl
  rw [numberOfWord?, notWhole, Binary64.finiteOfText?_text finite]
  simp

namespace TokenKind

def ofLexemes (afterSymbols : Bool) : List Lexeme → List TokenKind
  | [] => []
  | lexeme :: rest => ofLexeme afterSymbols lexeme :: ofLexemes lexeme.isSymbols rest

theorem map_kind_ofLexemes (afterSymbols : Bool) (placed : List PlacedLexeme) :
    (Token.ofLexemes afterSymbols placed).map Token.kind =
      ofLexemes afterSymbols (placed.map PlacedLexeme.lexeme) := by
  induction placed generalizing afterSymbols with
  | nil => rfl
  | cons head placed ih => simp [Token.ofLexemes, ofLexemes, ih]

end TokenKind

namespace Scalar

def lexeme : Scalar → Lexeme
  | int value => .word (intText value.toInt)
  | float x => .word (x.text .rule)
  | text value => .quoted '\'' (escapeQuoted value.toList)

theorem spelling_lexeme (value : Scalar) : value.lexeme.spelling = value.ruleText.toList := by
  cases value <;> simp [lexeme, Lexeme.spelling, ruleText, plainText]

theorem isSymbols_lexeme (value : Scalar) : value.lexeme.isSymbols = false := by
  cases value <;> rfl

def IsFinite (value : Scalar) : Prop :=
  ∀ x, value = .float x → x.isFinite = true

theorem wellFormed_lexeme {value : Scalar} (finite : value.IsFinite) : value.lexeme.WellFormed := by
  cases value with
  | int value =>
      obtain ⟨c, rest, spelled, _⟩ := exists_intText_eq_cons value.toInt
      exact ⟨by simp [spelled], isWordChar_of_mem_intText value.toInt⟩
  | float x =>
      obtain ⟨c, rest, spelled, _⟩ := Binary64.exists_text_eq_cons (finite x rfl) .rule
      exact ⟨by simp [spelled], isWordChar_of_mem_floatText (finite x rfl)⟩
  | text value => exact Lexeme.wellFormed_quoted value.toList

theorem ofLexeme_lexeme {value : Scalar} (finite : value.IsFinite) (afterSymbols : Bool) :
    TokenKind.ofLexeme afterSymbols value.lexeme = .literal value := by
  cases value with
  | int value =>
      rw [lexeme, TokenKind.ofLexeme]
      exact TokenKind.ofWord_of_number afterSymbols (exists_intText_eq_cons value.toInt)
        (numberOfWord?_intText value)
  | float x =>
      rw [lexeme, TokenKind.ofLexeme]
      exact TokenKind.ofWord_of_number afterSymbols
        (Binary64.exists_text_eq_cons (finite x rfl) .rule) (numberOfWord?_floatText (finite x rfl))
  | text value =>
      rw [lexeme, TokenKind.ofLexeme, Lexeme.unescape_escapeQuoted, String.ofList_toList]

end Scalar

namespace Comparison

structure IsWritable (comparison : Comparison) : Prop where
  named : isIdentifier comparison.field.toList = true
  notKeyword : Connective.ofKeyword? comparison.field = none
  finite : comparison.literal.IsFinite

def lexemes (comparison : Comparison) : List Lexeme :=
  [.word comparison.field.toList, .symbols comparison.comparator.symbol.toList,
    comparison.literal.lexeme]

theorem text_toList (comparison : Comparison) : comparison.text.toList =
    comparison.field.toList ++ ' ' ::
      (comparison.comparator.symbol.toList ++ ' ' :: comparison.literal.ruleText.toList) := by
  simp [text]

theorem wellFormed_symbols (comparator : Comparator) :
    (Lexeme.symbols comparator.symbol.toList).WellFormed := by
  have nonempty : comparator.symbol.toList ≠ [] := by cases comparator <;> decide
  have inside : comparator.symbol.toList.all Lexeme.isSymbol = true := by
    cases comparator <;> decide
  exact ⟨nonempty, List.all_eq_true.mp inside⟩

theorem wellFormed_field {comparison : Comparison}
    (named : isIdentifier comparison.field.toList = true) :
    (Lexeme.word comparison.field.toList).WellFormed := by
  refine ⟨?_, isWordChar_of_isIdentifier named⟩
  intro empty
  rw [empty] at named
  exact absurd named (by decide)

theorem cutsTo_text {comparison : Comparison} (writable : comparison.IsWritable) :
    Lexeme.CutsTo comparison.text.toList comparison.lexemes := by
  have field := wellFormed_field writable.named
  have literal := Lexeme.cutsTo_spelling (Scalar.wellFormed_lexeme writable.finite)
  rw [Scalar.spelling_lexeme] at literal
  rw [text_toList]
  exact (Lexeme.cutsTo_spelling field).append
    ((Lexeme.cutsTo_spelling (wellFormed_symbols comparison.comparator)).append literal)

theorem ofLexemes_lexemes {comparison : Comparison} (writable : comparison.IsWritable)
    (rest : List Lexeme) :
    TokenKind.ofLexemes false (comparison.lexemes ++ rest) =
      comparison.kinds ++ TokenKind.ofLexemes false rest := by
  have field : TokenKind.ofLexeme false (.word comparison.field.toList) =
      .identifier comparison.field :=
    TokenKind.ofWord_of_isIdentifier writable.named writable.notKeyword
  have symbols : TokenKind.ofLexeme false (.symbols comparison.comparator.symbol.toList) =
      .symbols comparison.comparator.symbol := by
    rw [TokenKind.ofLexeme, String.ofList_toList]
  have literal := Scalar.ofLexeme_lexeme writable.finite
  simp only [lexemes, TokenKind.ofLexemes, kinds, List.cons_append, List.nil_append, field, literal,
    Scalar.isSymbols_lexeme]
  rw [Lexeme.isSymbols, symbols]
  simp

end Comparison

end FieldRules
