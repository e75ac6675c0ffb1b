import FieldRules.Proofs.Rule.Evaluation
import FieldRules.Proofs.Rule.RoundTrip
import FieldRules.Proofs.Token.Scan
import Mathlib.Data.List.Basic

/-!
Bare values and their quotation. A bare value keeps the text that it is written as, and between quotes
it is read as that text. So a rule evaluates to the same, errors included, when its bare values are
quoted.
-/

namespace FieldRules

open Lexeme Text

theorem Lexeme.trim_of_isWordChar {word : List Char} (inside : ∀ c ∈ word, isWordChar c = true) :
    trim word = word := by
  have start {run : List Char} (visible : ∀ c ∈ run, isWordChar c = true) : trimStart run = run := by
    cases run with
    | nil => rfl
    | cons c run =>
        have notBlank : ¬isBlank c = true := by
          intro blank
          have outside := isWordChar_of_isBlank blank
          rw [visible c List.mem_cons_self] at outside
          cases outside
        exact List.dropWhile_cons_of_neg notBlank
  rw [trim, start inside, start fun c member => inside c (List.mem_reverse.mp member),
    List.reverse_reverse]

def Scalar.asText (value : Scalar) : Scalar :=
  .text value.plainText

theorem Scalar.number?_asText {value : Scalar} (finite : value.IsFinite) :
    value.asText.number? = value.number? := by
  cases value with
  | int value =>
      have trimmed := trim_of_isWordChar (isWordChar_of_mem_intText value.toInt)
      simp [asText, plainText, number?, Number.ofText?, trimmed, int64OfText?_intText]
  | float x =>
      have trimmed := trim_of_isWordChar (isWordChar_of_mem_floatText (finite x rfl))
      have notWhole : int64OfText? (x.text .rule) = none := by
        rw [int64OfText?, Binary64.intOfText?_text (finite x rfl)]
        rfl
      simp [asText, plainText, number?, Number.ofText?, trimmed, notWhole,
        Binary64.finiteOfText?_text (finite x rfl)]
  | text value => rfl

namespace Comparison

def asText (comparison : Comparison) : Comparison :=
  { comparison with literal := comparison.literal.asText }

theorem evaluateNumber_asText {comparison : Comparison} (finite : comparison.literal.IsFinite)
    (kind : Scalar.Kind) (actual : Number) :
    comparison.asText.evaluateNumber kind actual = comparison.evaluateNumber kind actual := by
  simp only [evaluateNumber, asText, Scalar.number?_asText finite]
  cases number : comparison.literal.number? with
  | some wanted => rfl
  | none =>
      -- Only a text writes no number, and it is its own text.
      obtain ⟨text, same, _⟩ := Scalar.number?_eq_none_iff.mp number
      rw [same]
      rfl

theorem evaluate_asText {comparison : Comparison} (finite : comparison.literal.IsFinite)
    (context : Context) : comparison.asText.evaluate context = comparison.evaluate context := by
  have field : comparison.asText.field = comparison.field := rfl
  rw [evaluate, evaluate, field]
  cases context.get? comparison.field with
  | none => rfl
  | some value =>
      cases value with
      | int actual => exact evaluateNumber_asText finite .integer (.int actual)
      | float actual => exact evaluateNumber_asText finite .float (.float actual)
      | text actual => rfl

end Comparison

def TokenKind.asText : TokenKind → TokenKind
  | literal value => literal value.asText
  | other => other

namespace Rule

def asTexts : Rule → Rule
  | test comparison => test comparison.asText
  | join connective left right => join connective left.asTexts right.asTexts

theorem depth_asTexts (rule : Rule) : rule.asTexts.depth = rule.depth := by
  induction rule with
  | test comparison => rfl
  | join connective left right leftDepth rightDepth => simp [asTexts, leftDepth, rightDepth]

theorem kinds_asTexts (rule : Rule) : rule.asTexts.kinds = rule.kinds.map .asText := by
  induction rule with
  | test comparison => rfl
  | join connective left right leftKinds rightKinds =>
      simp [asTexts, kinds, leftKinds, rightKinds, TokenKind.asText]

theorem root?_asTexts (rule : Rule) : rule.asTexts.root? = rule.root? := by
  cases rule <;> rfl

theorem isPlain_asTexts {rule : Rule} (plain : rule.IsPlain) : rule.asTexts.IsPlain := by
  induction rule with
  | test comparison => trivial
  | join connective left right leftPlain rightPlain =>
      obtain ⟨leftOwn, rightOwn, inside, apart⟩ := plain
      rw [asTexts, IsPlain, root?_asTexts, root?_asTexts]
      exact ⟨leftPlain leftOwn, rightPlain rightOwn, inside, apart⟩

theorem evaluate_asTexts {rule : Rule} (writable : rule.IsWritable) (context : Context) :
    rule.asTexts.evaluate context = rule.evaluate context := by
  induction rule with
  | test comparison => exact Comparison.evaluate_asText (writable comparison (by simp)).finite context
  | join connective left right leftSame rightSame =>
      obtain ⟨leftWritable, rightWritable⟩ := isWritable_join_iff.mp writable
      rw [asTexts, evaluate_join, evaluate_join, leftSame leftWritable, rightSame rightWritable]

end Rule

namespace TokenKind

def AreLiteralsBehindSymbols (afterSymbols : Bool) : List TokenKind → Prop
  | [] => True
  | kind :: rest => kind.literal?.isSome = afterSymbols ∧ AreLiteralsBehindSymbols kind.isSymbols rest

end TokenKind

namespace Rule

theorem areLiteralsBehindSymbols_kinds (rule : Rule) {rest : List TokenKind}
    (behind : TokenKind.AreLiteralsBehindSymbols false rest) :
    TokenKind.AreLiteralsBehindSymbols false (rule.kinds ++ rest) := by
  induction rule generalizing rest with
  | test comparison => exact ⟨rfl, rfl, rfl, behind⟩
  | join connective left right leftBehind rightBehind =>
      rw [kinds, List.append_assoc]
      exact leftBehind ⟨rfl, rightBehind behind⟩

end Rule

/-! ### Quoting -/

namespace Lexeme

def quote : Lexeme → Lexeme
  | word run => quoted '\'' run
  | other => other

def Writes (literal : Scalar) : Lexeme → Prop
  | word run => literal.plainText = String.ofList run
  | quoted _ body => literal = .text (String.ofList (unescape body))
  | symbols _ => False

variable {lexeme : Lexeme}

theorem escapeQuoted_of_isWordChar {word : List Char} (inside : ∀ c ∈ word, isWordChar c = true) :
    Scalar.escapeQuoted word = word := by
  induction word with
  | nil => rfl
  | cons c word ih =>
      obtain ⟨own, others⟩ := List.forall_mem_cons.mp inside
      have plain : ¬(c = '\'' ∨ c = '\\') := by
        rintro (rfl | rfl) <;> exact absurd own (by decide +kernel)
      rw [Scalar.escapeQuoted, if_neg plain, ih others]

theorem isSymbols_quote (lexeme : Lexeme) : lexeme.quote.isSymbols = lexeme.isSymbols := by
  cases lexeme <;> rfl

theorem HasForm.quote (form : lexeme.HasForm) : lexeme.quote.HasForm := by
  cases lexeme with
  | word run =>
      have body := quotedBody?_escapeQuoted run []
      rw [escapeQuoted_of_isWordChar form.2] at body
      exact ⟨by decide, (quotedBody_of_quotedBody? body).1⟩
  | quoted mark body => exact form
  | symbols run => exact form

theorem EndsBefore.quote {rest : List Char} (ends : lexeme.EndsBefore rest) :
    lexeme.quote.EndsBefore rest := by
  cases lexeme with
  | word run => trivial
  | quoted mark body => exact ends
  | symbols run => exact ends

theorem head?_spelling_quote (lexeme : Lexeme) :
    ∀ c ∈ lexeme.quote.spelling.head?, c ∈ lexeme.spelling.head? ∨ isQuote c = true := by
  intro c head
  cases lexeme with
  | word run =>
      obtain rfl := Option.some.inj head
      exact Or.inr (by decide)
  | quoted mark body => exact Or.inl head
  | symbols run => exact Or.inl head

theorem EndsBefore.of_head {before after : List Char} (ends : lexeme.EndsBefore before)
    (heads : ∀ c ∈ after.head?, c ∈ before.head? ∨ isQuote c = true) : lexeme.EndsBefore after := by
  cases lexeme with
  | quoted mark body => trivial
  | symbols run =>
      intro c head
      rcases heads c head with same | mark
      · exact ends c same
      · exact isSymbol_of_isQuote mark
  | word run =>
      intro c head
      rcases heads c head with same | mark
      · exact ends c same
      · exact isWordChar_of_isQuote mark

end Lexeme

namespace SpacedLexeme

def values (afterSymbols : Bool) : List SpacedLexeme → List Lexeme
  | [] => []
  | piece :: later =>
      if afterSymbols then piece.lexeme :: values piece.lexeme.isSymbols later
      else values piece.lexeme.isSymbols later

def quoteValues (afterSymbols : Bool) : List SpacedLexeme → List SpacedLexeme
  | [] => []
  | piece :: later =>
      ⟨piece.blanks, if afterSymbols then piece.lexeme.quote else piece.lexeme⟩ ::
        quoteValues piece.lexeme.isSymbols later

end SpacedLexeme

theorem Lexeme.Cutting.quoteValues {text : List Char} {pieces : List SpacedLexeme}
    (cutting : Cutting text pieces) (afterSymbols : Bool) {ending : List Char}
    (whole : text = pieces.flatMap SpacedLexeme.text ++ ending) :
    let quoted := SpacedLexeme.quoteValues afterSymbols pieces
    Cutting (quoted.flatMap SpacedLexeme.text ++ ending) quoted ∧
      ∀ c ∈ (quoted.flatMap SpacedLexeme.text ++ ending).head?,
        c ∈ text.head? ∨ isQuote c = true := by
  induction cutting generalizing afterSymbols with
  | done blank =>
      subst whole
      exact ⟨.done blank, fun c head => Or.inl head⟩
  | @next blanks rest lexeme later blank form ends cutting ih =>
      have restWhole : rest = later.flatMap SpacedLexeme.text ++ ending := by
        simpa [SpacedLexeme.text] using whole
      obtain ⟨laterCutting, laterHeads⟩ := ih lexeme.isSymbols restWhole
      let changed := if afterSymbols then lexeme.quote else lexeme
      have changedForm : changed.HasForm ∧ changed.EndsBefore rest ∧
          ∀ c ∈ changed.spelling.head?, c ∈ lexeme.spelling.head? ∨ isQuote c = true := by
        cases afterSymbols with
        | true => exact ⟨form.quote, ends.quote, lexeme.head?_spelling_quote⟩
        | false => exact ⟨form, ends, fun c head => Or.inl head⟩
      obtain ⟨changedHasForm, changedEnds, changedHead⟩ := changedForm
      -- What follows begins as before or with a quote, which no lexeme goes on with.
      have whole := Cutting.next blank changedHasForm (changedEnds.of_head laterHeads) laterCutting
      intro quoted
      have spelled : quoted.flatMap SpacedLexeme.text ++ ending = blanks ++ (changed.spelling ++
          ((SpacedLexeme.quoteValues lexeme.isSymbols later).flatMap SpacedLexeme.text ++
            ending)) := by
        simp [quoted, SpacedLexeme.quoteValues, SpacedLexeme.text, changed]
      rw [spelled]
      refine ⟨whole, ?_⟩
      cases blanks with
      | cons c blanks => exact fun d head => Or.inl head
      | nil =>
          rw [List.nil_append, List.nil_append, List.head?_append_of_ne_nil _ form.spelling_ne_nil,
            List.head?_append_of_ne_nil _ changedHasForm.spelling_ne_nil]
          exact changedHead

theorem plainText_of_numberOfWord? {word : List Char} {value : Scalar}
    (number : numberOfWord? word = some value) : value.plainText = String.ofList word := by
  rw [numberOfWord?] at number
  split at number
  · split at number
    · rename_i same
      cases number
      exact congrArg String.ofList same
    · cases number
  · obtain ⟨x, found, rfl⟩ := Option.map_eq_some_iff.mp number
    have same := (Option.filter_eq_some_iff.mp found).2
    exact congrArg String.ofList (of_decide_eq_true same)

namespace TokenKind

theorem plainText_of_ofWord {afterSymbols : Bool} {word : List Char} {value : Scalar}
    (means : ofWord afterSymbols word = .literal value) : value.plainText = String.ofList word := by
  rw [ofWord] at means
  split at means
  · cases means
  · split at means
    · rename_i number found
      cases means
      exact plainText_of_numberOfWord? found
    · split at means
      · cases means
      · cases means
        rfl

theorem writes_of_ofLexeme {afterSymbols : Bool} {lexeme : Lexeme} {value : Scalar}
    (means : ofLexeme afterSymbols lexeme = .literal value) : lexeme.Writes value := by
  cases lexeme with
  | quoted mark body =>
      cases means
      rfl
  | symbols run => cases means
  | word run => exact plainText_of_ofWord means

theorem ofLexeme_quote {lexeme : Lexeme} {value : Scalar} (form : lexeme.HasForm)
    (writes : lexeme.Writes value) (afterSymbols : Bool) :
    ofLexeme afterSymbols lexeme.quote = .literal value.asText := by
  cases lexeme with
  | quoted mark body =>
      obtain rfl := writes
      rfl
  | symbols run => exact writes.elim
  | word run =>
      have plain := unescape_escapeQuoted run
      rw [escapeQuoted_of_isWordChar form.2] at plain
      rw [Lexeme.quote, ofLexeme, plain, Scalar.asText, ← (show value.plainText = _ from writes)]

theorem ofLexeme_quoteValue {afterSymbols : Bool} {lexeme : Lexeme} (form : lexeme.HasForm)
    (behind : (ofLexeme afterSymbols lexeme).literal?.isSome = afterSymbols) :
    ofLexeme afterSymbols (if afterSymbols then lexeme.quote else lexeme) =
      (ofLexeme afterSymbols lexeme).asText := by
  cases means : ofLexeme afterSymbols lexeme with
  | literal value =>
      rw [means] at behind
      rw [← behind]
      exact ofLexeme_quote form (writes_of_ofLexeme means) true
  | _ =>
      rw [means] at behind
      rw [← behind]
      rw [← behind] at means
      exact means

variable {afterSymbols : Bool} {pieces : List SpacedLexeme}

theorem ofLexemes_quoteValues (forms : ∀ piece ∈ pieces, piece.lexeme.HasForm)
    (behind : AreLiteralsBehindSymbols afterSymbols
      (ofLexemes afterSymbols (pieces.map SpacedLexeme.lexeme))) :
    ofLexemes afterSymbols
        ((SpacedLexeme.quoteValues afterSymbols pieces).map SpacedLexeme.lexeme) =
      (ofLexemes afterSymbols (pieces.map SpacedLexeme.lexeme)).map asText := by
  induction pieces generalizing afterSymbols with
  | nil => rfl
  | cons piece later ih =>
      obtain ⟨form, laterForms⟩ := List.forall_mem_cons.mp forms
      obtain ⟨own, laterBehind⟩ := behind
      rw [isSymbols_ofLexeme] at laterBehind
      have symbols : (if afterSymbols then piece.lexeme.quote else piece.lexeme).isSymbols =
          piece.lexeme.isSymbols := by
        cases afterSymbols with
        | true => exact piece.lexeme.isSymbols_quote
        | false => rfl
      rw [SpacedLexeme.quoteValues, List.map_cons, List.map_cons, ofLexemes, ofLexemes, List.map_cons,
        symbols, ih laterForms laterBehind, ofLexeme_quoteValue form own]

theorem forall₂_writes
    (behind : AreLiteralsBehindSymbols afterSymbols
      (ofLexemes afterSymbols (pieces.map SpacedLexeme.lexeme))) :
    List.Forall₂ Lexeme.Writes
      ((ofLexemes afterSymbols (pieces.map SpacedLexeme.lexeme)).filterMap literal?)
      (SpacedLexeme.values afterSymbols pieces) := by
  induction pieces generalizing afterSymbols with
  | nil => exact .nil
  | cons piece later ih =>
      obtain ⟨own, laterBehind⟩ := behind
      rw [isSymbols_ofLexeme] at laterBehind
      rw [List.map_cons, ofLexemes, SpacedLexeme.values]
      cases means : ofLexeme afterSymbols piece.lexeme with
      | literal value =>
          rw [means] at own
          obtain rfl : true = afterSymbols := own
          have literals (rest : List TokenKind) :
              (literal value :: rest).filterMap literal? = value :: rest.filterMap literal? := rfl
          rw [if_pos rfl, literals]
          exact .cons (writes_of_ofLexeme means) (ih laterBehind)
      | _ =>
          rw [means] at own
          obtain rfl : false = afterSymbols := own
          rw [if_neg Bool.false_ne_true, List.filterMap_cons_none rfl]
          exact ih laterBehind

end TokenKind

/-! ### Rules -/

namespace Rule

/-- The second text is the first with each bare value between quotes. -/
def QuotesValues (source quoted : String) : Prop :=
  ∃ pieces ending, Cutting source.toList pieces ∧
    source.toList = pieces.flatMap SpacedLexeme.text ++ ending ∧
    quoted.toList = (SpacedLexeme.quoteValues false pieces).flatMap SpacedLexeme.text ++ ending

/-- Bare values can be quoted. In a rule's text each literal is written by the lexeme behind its
comparison symbol, bare as the literal's text or between quotes, and with the bare ones quoted the
text is again a rule, which evaluates to the same in every context, errors included. -/
theorem parse_of_quotesValues (limits : Limits) (source : String) (rule : Rule)
    (read : parse limits source = .ok rule) :
    (∀ pieces, Cutting source.toList pieces →
      List.Forall₂ Lexeme.Writes (rule.comparisons.map Comparison.literal)
        (SpacedLexeme.values false pieces)) ∧
    (∃ quoted, QuotesValues source quoted) ∧
    ∀ quoted, QuotesValues source quoted →
      ∃ quotedRule, parse limits quoted = .ok quotedRule ∧
        ∀ context, quotedRule.evaluate context = rule.evaluate context := by
  obtain ⟨tokens, scanned, spelled, plain, fits⟩ := parse_eq_ok_iff_kinds.mp read
  have writable := (isPlain_of_parse read).2.1
  have kindsOf {pieces : List SpacedLexeme} (cutting : Cutting source.toList pieces) :
      TokenKind.ofLexemes false (pieces.map SpacedLexeme.lexeme) = rule.kinds := by
    obtain rfl := Except.ok.inj ((Token.scan_of_cutting cutting).symm.trans scanned)
    rw [← Token.map_kind_ofPieces, spelled]
  have behind {pieces : List SpacedLexeme} (cutting : Cutting source.toList pieces) :
      TokenKind.AreLiteralsBehindSymbols false
        (TokenKind.ofLexemes false (pieces.map SpacedLexeme.lexeme)) := by
    have whole : TokenKind.AreLiteralsBehindSymbols false (rule.kinds ++ []) :=
      rule.areLiteralsBehindSymbols_kinds trivial
    rwa [List.append_nil, ← kindsOf cutting] at whole
  refine ⟨?_, ?_, ?_⟩
  · intro pieces cutting
    have written := TokenKind.forall₂_writes (behind cutting)
    rwa [kindsOf cutting, filterMap_literal?_kinds] at written
  · obtain ⟨pieces, cutting, -⟩ := Token.exists_cutting_of_scan scanned
    obtain ⟨ending, -, whole⟩ := cutting.exists_ending
    exact ⟨_, pieces, ending, cutting, whole, String.toList_ofList⟩
  · rintro quoted ⟨pieces, ending, cutting, whole, quotedWhole⟩
    have quotedCutting := (cutting.quoteValues false whole).1
    rw [← quotedWhole] at quotedCutting
    refine ⟨rule.asTexts, ?_, evaluate_asTexts writable⟩
    refine parse_eq_ok_iff_kinds.mpr
      ⟨_, Token.scan_of_cutting quotedCutting, ?_, isPlain_asTexts plain, ?_⟩
    · rw [Token.map_kind_ofPieces,
        TokenKind.ofLexemes_quoteValues cutting.hasForm (behind cutting), kindsOf cutting,
        kinds_asTexts]
    · rw [depth_asTexts]
      exact fits

theorem parse_of_quotesValues_negative :
    let rule := test ⟨"a", .lt, .int (-7)⟩
    parse ⟨1⟩ "a<-7" = .ok rule ∧
      List.Forall₂ Lexeme.Writes [.int (-7)] [.word ['-', '7']] ∧
      ∃ quotedRule, parse ⟨1⟩ "a<'-7'" = .ok quotedRule ∧
        ∀ context, quotedRule.evaluate context = rule.evaluate context := by
  intro rule
  have value : Cutting "-7".toList [⟨[], .word ['-', '7']⟩] := by
    refine @Cutting.next [] [] (.word ['-', '7']) [] rfl ⟨by decide, ?_⟩ nofun (.done rfl)
    exact List.forall_mem_cons.mpr
      ⟨by decide +kernel, List.forall_mem_singleton.mpr (by decide +kernel)⟩
  have comparison : Cutting "<-7".toList [⟨[], .symbols ['<']⟩, ⟨[], .word ['-', '7']⟩] := by
    refine @Cutting.next [] _ (.symbols ['<']) _ rfl ⟨by decide, ?_⟩ ?_ value
    · exact List.forall_mem_singleton.mpr rfl
    · rintro c ⟨⟩
      decide
  have cutting : Cutting "a<-7".toList
      [⟨[], .word ['a']⟩, ⟨[], .symbols ['<']⟩, ⟨[], .word ['-', '7']⟩] := by
    refine @Cutting.next [] _ (.word ['a']) _ rfl ⟨by decide, ?_⟩ ?_ comparison
    · exact List.forall_mem_singleton.mpr (by decide +kernel)
    · rintro c ⟨⟩
      decide +kernel
  have read : parse ⟨1⟩ "a<-7" = .ok rule :=
    parse_eq_ok_iff_kinds.mpr
      ⟨_, Token.scan_of_cutting cutting, by decide +kernel, trivial, by decide⟩
  obtain ⟨written, -, quotes⟩ := parse_of_quotesValues ⟨1⟩ "a<-7" rule read
  exact ⟨read, written _ cutting, quotes "a<'-7'" ⟨_, [], cutting, rfl, rfl⟩⟩

end Rule

end FieldRules
