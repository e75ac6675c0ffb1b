import FieldRules.Proofs.Lexeme.Cutting
import FieldRules.Proofs.Token.Scan

/-!
Where a text cannot be cut into lexemes, and what it has in common with other texts. The tokens before
the fault are those of the text up to there; nothing behind a character that starts no token can mend it,
and a quoted text that is left open is mended by its mark.
-/

namespace FieldRules

namespace Lexeme

open Text
open String (utf8Len)

structure IsForeign (c : Char) : Prop where
  notBlank : isBlank c = false
  notQuote : isQuote c = false
  notSymbol : isSymbol c = false
  notWord : isWordChar c = false

theorem first_eq_error_iff {c : Char} {rest : List Char} {fault : LexFault} :
    first c rest = .error fault ↔
      (isQuote c = true ∧ quotedBody? c rest = none ∧ fault = .unterminatedText) ∨
      (isQuote c = false ∧ isSymbol c = false ∧ isWordChar c = false ∧
        fault = .unrecognizedCharacter c) := by
  cases quote : isQuote c with
  | true =>
      cases body : quotedBody? c rest with
      | none =>
          simp only [first, quote, body, if_true, Except.error.injEq, true_and, Bool.true_eq_false,
            false_and, or_false]
          exact eq_comm
      | some found => simp [first, quote, body]
  | false =>
      cases symbol : isSymbol c with
      | true => simp [first, quote, symbol]
      | false =>
          cases word : isWordChar c with
          | true => simp [first, quote, symbol, word]
          | false =>
              simp only [first, quote, symbol, word, Bool.false_eq_true, if_false,
                Except.error.injEq, true_and, false_and, false_or]
              exact eq_comm

theorem endsRuns_cons_of_first {c : Char} {rest : List Char} {fault : LexFault}
    (failed : first c rest = .error fault) (other : List Char) : EndsRuns (c :: other) := by
  rintro _ ⟨⟩
  rcases first_eq_error_iff.mp failed with ⟨quote, -, -⟩ | ⟨-, notSymbol, notWord, -⟩
  · exact ⟨isSymbol_of_isQuote quote, isWordChar_of_isQuote quote⟩
  · exact ⟨notSymbol, notWord⟩

def EndsInEscape (mark : Char) (text : List Char) : Prop :=
  ∃ body, QuotedBody mark body ∧ text = body ++ ['\\']

theorem quotedBody_or_endsInEscape {mark : Char} {text : List Char}
    (isOpen : quotedBody? mark text = none) : QuotedBody mark text ∨ EndsInEscape mark text := by
  fun_induction quotedBody? mark text with
  | case1 => exact .inl .empty
  | case2 c text ih =>
      rcases ih (Option.map_eq_none_iff.mp isOpen) with inner | ⟨body, inner, rfl⟩
      · exact .inl (.escaped inner)
      · exact .inr ⟨'\\' :: c :: body, .escaped inner, rfl⟩
  | case3 => cases isOpen
  | case4 c text notEscape notMark ih =>
      by_cases backslash : c = '\\'
      · subst backslash
        cases text with
        | nil => exact .inr ⟨[], .empty, rfl⟩
        | cons d text => exact absurd rfl (notEscape d text rfl)
      · rcases ih (Option.map_eq_none_iff.mp isOpen) with inner | ⟨body, inner, rfl⟩
        · exact .inl (.plain backslash notMark inner)
        · exact .inr ⟨c :: body, .plain backslash notMark inner, rfl⟩

theorem EndsInEscape.quotedBody {mark : Char} {text : List Char} (ends : EndsInEscape mark text) :
    QuotedBody mark (text ++ [mark]) := by
  obtain ⟨body, inner, rfl⟩ := ends
  induction inner with
  | empty => exact .escaped .empty
  | escaped _ ih => exact .escaped ih
  | plain notEscape notMark _ ih => exact .plain notEscape notMark ih

theorem EndsBefore.of_append {lexeme : Lexeme} {text rest : List Char}
    (ends : lexeme.EndsBefore (text ++ rest)) : lexeme.EndsBefore text := by
  cases text with
  | nil => exact endsRuns_nil.endsBefore lexeme
  | cons c text => cases lexeme <;> exact ends

theorem exists_cutting_of_error {position place : Nat} {text : List Char} {fault : LexFault}
    (failed : cutFrom position text = .error ⟨fault, place⟩) :
    ∃ before c after pieces, text = before ++ c :: after ∧ place = position + utf8Len before ∧
      Cutting before pieces ∧ isBlank c = false ∧ first c after = .error fault := by
  have apart : text.takeWhile isBlank ++ trimStart text = text := List.takeWhile_append_dropWhile
  have blank := allBlank_takeWhile text
  cases trimmed : trimStart text with
  | nil =>
      rw [cutFrom_of_trimStart_nil trimmed] at failed
      cases failed
  | cons c rest =>
      rw [cutFrom_of_trimStart_cons trimmed] at failed
      cases found : first c rest with
      | error own =>
          rw [found] at failed
          cases failed
          have visible : isBlank c = false := by
            have stopped := ends_dropWhile isBlank text
            rw [← trimStart, trimmed] at stopped
            exact stopped c rfl
          exact ⟨_, c, rest, [], (trimmed ▸ apart).symm, rfl, .done blank, visible, found⟩
      | ok head =>
          obtain ⟨lexeme, behind⟩ := head
          rw [found] at failed
          have laterFailed := map_eq_error_iff.mp failed
          -- What is behind the first lexeme is shorter, and holds the fault.
          obtain ⟨before, d, after, pieces, rfl, rfl, cutting, visible, faulty⟩ :=
            exists_cutting_of_error laterFailed
          obtain ⟨form, ends, split⟩ := hasForm_of_first found
          rw [trimmed, split] at apart
          refine ⟨text.takeWhile isBlank ++ (lexeme.spelling ++ before), d, after, _, ?_, ?_,
            .next blank form ends.of_append cutting, visible, faulty⟩
          · rw [List.append_assoc, List.append_assoc, apart]
          · rw [String.utf8Len_append, String.utf8Len_append]
            omega
termination_by text.length
decreasing_by exact length_after_first trimmed found

end Lexeme

namespace Token

open Lexeme Text
open String (utf8Len)

variable {before rest : List Char} {pieces : List SpacedLexeme}

theorem scan_of_apart (cutting : Cutting before pieces) (apart : EndsRuns rest) :
    scan (String.ofList (before ++ rest)) = (cutFrom (utf8Len before) rest).map fun placed =>
      ofPieces pieces ++ ofLexemes (endsInSymbols (ofPieces pieces)) placed := by
  rw [scan, cut, String.toList_ofList, cutting.cutFrom_append apart, Nat.zero_add]
  cases cutFrom (utf8Len before) rest with
  | error fault => rfl
  | ok placed => exact congrArg Except.ok (ofLexemes_false_append _ placed)

theorem scan_of_foreign {c : Char} {after : List Char} (cutting : Cutting before pieces)
    (visible : isBlank c = false)
    (failed : first c after = .error (.unrecognizedCharacter c)) (more : List Char) :
    scan (String.ofList (before ++ c :: more)) =
      .error ⟨.unrecognizedCharacter c, utf8Len before⟩ := by
  have foreign : first c more = .error (.unrecognizedCharacter c) := by
    rcases first_eq_error_iff.mp failed with ⟨-, -, ⟨⟩⟩ | other
    exact first_eq_error_iff.mpr (.inr other)
  rw [scan_of_apart cutting (endsRuns_cons_of_first failed more), cutFrom_cons visible, foreign]
  rfl

theorem scan_of_quoted {mark : Char} {body : List Char} (cutting : Cutting before pieces)
    (quote : isQuote mark = true) (closed : QuotedBody mark body) :
    scan (String.ofList (before ++ mark :: (body ++ [mark]))) =
      .ok (ofPieces pieces ++
        [⟨.literal (.text (String.ofList (unescape body))), utf8Len before⟩]) := by
  have apart : EndsRuns (mark :: (body ++ [mark])) := by
    rintro _ ⟨⟩
    exact ⟨isSymbol_of_isQuote quote, isWordChar_of_isQuote quote⟩
  have form : (quoted mark body).HasForm := ⟨quote, closed⟩
  have single := cutFrom_spelling (utf8Len before) form.wellFormed
    (endsRuns_nil.endsBefore (quoted mark body))
  rw [List.append_nil, cutFrom_nil] at single
  rw [scan_of_apart cutting apart, show mark :: (body ++ [mark]) = (quoted mark body).spelling from rfl,
    single]
  rfl

/-- Up to the place of the fault a text is scanned as it is by itself. If a character there starts no
token, it does so whatever follows it. If a quoted text starts there, it lacks its mark, or two of it
where the first would still be escaped, and the rest of the text then is one literal. -/
theorem scan_around_fault {source : String} {fault : LexFault} {position : Nat}
    (failed : scan source = .error ⟨fault, position⟩) :
    ∃ (before after : String) (c : Char) (tokens : List Token),
      source = before ++ String.singleton c ++ after ∧ before.utf8ByteSize = position ∧
      scan before = .ok tokens ∧
      (∀ other, fault = .unrecognizedCharacter other → c = other ∧ ∀ more,
        scan (before ++ String.singleton c ++ more) = .error ⟨fault, position⟩) ∧
      (fault = .unterminatedText → isQuote c = true ∧
        ((QuotedBody c after.toList ∧ ∃ value, scan (source ++ String.singleton c) =
            .ok (tokens ++ [⟨.literal (.text value), position⟩])) ∨
          (EndsInEscape c after.toList ∧ ∃ value,
            scan (source ++ String.singleton c ++ String.singleton c) =
              .ok (tokens ++ [⟨.literal (.text value), position⟩])))) := by
  obtain ⟨before, c, after, pieces, split, rfl, cutting, visible, faulty⟩ :=
    exists_cutting_of_error (map_eq_error_iff.mp failed)
  have whole : source = String.ofList (before ++ c :: after) := by rw [← split, String.ofList_toList]
  rw [Nat.zero_add]
  refine ⟨String.ofList before, String.ofList after, c, ofPieces pieces, ?_, ?_, ?_, ?_, ?_⟩
  · rw [whole]
    apply String.toList_inj.mp
    simp
  · rw [← String.utf8Len_toList, String.toList_ofList]
  · apply scan_of_cutting
    rwa [String.toList_ofList]
  · rintro other rfl
    obtain rfl : c = other := by
      rcases first_eq_error_iff.mp faulty with ⟨-, -, ⟨⟩⟩ | ⟨-, -, -, ⟨⟩⟩
      rfl
    refine ⟨rfl, ?_⟩
    intro more
    rw [← scan_of_foreign cutting visible faulty more.toList]
    congr 1
    apply String.toList_inj.mp
    simp
  · rintro rfl
    obtain ⟨quote, unclosed⟩ : isQuote c = true ∧ quotedBody? c after = none := by
      rcases first_eq_error_iff.mp faulty with ⟨quote, unclosed, -⟩ | ⟨-, -, -, ⟨⟩⟩
      exact ⟨quote, unclosed⟩
    refine ⟨quote, ?_⟩
    rw [String.toList_ofList]
    rcases quotedBody_or_endsInEscape unclosed with closed | ends
    · refine .inl ⟨closed, _, Eq.trans ?_ (scan_of_quoted cutting quote closed)⟩
      congr 1
      apply String.toList_inj.mp
      simp [whole]
    · refine .inr ⟨ends, _, Eq.trans ?_ (scan_of_quoted cutting quote ends.quotedBody)⟩
      congr 1
      apply String.toList_inj.mp
      simp [whole]

theorem scan_around_fault_open_escape :
    scan "a = 'b\" \\" = .error ⟨.unterminatedText, 4⟩ ∧
      ∃ (before after : String) (c : Char) (tokens : List Token),
        "a = 'b\" \\" = before ++ String.singleton c ++ after ∧ before.utf8ByteSize = 4 ∧
        scan before = .ok tokens ∧ isQuote c = true ∧ ∃ value more,
          scan ("a = 'b\" \\" ++ String.singleton c ++ more) =
            .ok (tokens ++ [⟨.literal (.text value), 4⟩]) := by
  have failed : scan "a = 'b\" \\" = .error ⟨.unterminatedText, 4⟩ := by
    decide +kernel
  obtain ⟨before, after, c, tokens, split, size, scanned, -, mended⟩ := scan_around_fault failed
  obtain ⟨quote, ⟨-, value, whole⟩ | ⟨-, value, whole⟩⟩ := mended rfl
  · refine ⟨failed, before, after, c, tokens, split, size, scanned, quote, value, "", ?_⟩
    rw [String.append_empty, whole]
  · exact ⟨failed, before, after, c, tokens, split, size, scanned, quote, value, _, whole⟩

end Token

end FieldRules
