import FieldRules.Proofs.Except
import FieldRules.Proofs.Lexeme.Cut
import Mathlib.Data.List.TakeWhile
import Mathlib.Data.String.Basic

/-!
The texts that can be cut into lexemes. What a lexeme is spelled of and how far it goes is said here
without the cutting, which then succeeds on exactly these texts, in exactly one way.
-/

namespace FieldRules

namespace Text

open String (utf8Len)

def StandsAt (piece : List Char) (position : Nat) (text : List Char) : Prop :=
  ∃ before after, text = before ++ (piece ++ after) ∧ utf8Len before = position

theorem standsAt_ending (text : List Char) : StandsAt [] (utf8Len text) text :=
  ⟨text, [], by simp, rfl⟩

variable {piece : List Char} {position : Nat} {text : List Char}

theorem StandsAt.size_le (stands : StandsAt piece position text) :
    position + utf8Len piece ≤ utf8Len text := by
  obtain ⟨before, after, rfl, rfl⟩ := stands
  rw [String.utf8Len_append, String.utf8Len_append]
  omega

theorem StandsAt.le_utf8ByteSize {source : String} (stands : StandsAt piece position source.toList) :
    position ≤ source.utf8ByteSize := by
  rw [← String.utf8Len_toList]
  exact Nat.le_trans (Nat.le_add_right position _) stands.size_le

theorem StandsAt.isValid {source : String} (stands : StandsAt piece position source.toList) :
    (⟨position⟩ : String.Pos.Raw).IsValid source := by
  obtain ⟨before, after, split, rfl⟩ := stands
  refine String.Pos.Raw.isValid_iff_exists_append.mpr
    ⟨String.ofList before, String.ofList (piece ++ after), ?_, ?_⟩
  · rw [← String.ofList_append, ← split, String.ofList_toList]
  · rw [String.rawEndPos, ← String.utf8Len_toList, String.toList_ofList]

end Text

open Text
open String (utf8Len)

def PlacedLexeme.shift (offset : Nat) (placed : PlacedLexeme) : PlacedLexeme :=
  { placed with position := placed.position + offset }

structure SpacedLexeme where
  blanks : List Char
  lexeme : Lexeme

namespace SpacedLexeme

def text (piece : SpacedLexeme) : List Char :=
  piece.blanks ++ piece.lexeme.spelling

def place (position : Nat) : List SpacedLexeme → List PlacedLexeme
  | [] => []
  | piece :: later =>
      ⟨piece.lexeme, position + utf8Len piece.blanks⟩ ::
        place (position + utf8Len piece.text) later

theorem map_lexeme_place (position : Nat) (pieces : List SpacedLexeme) :
    (place position pieces).map PlacedLexeme.lexeme = pieces.map lexeme := by
  induction pieces generalizing position with
  | nil => rfl
  | cons piece later ih => rw [place, List.map_cons, List.map_cons, ih]

theorem length_place (position : Nat) (pieces : List SpacedLexeme) :
    (place position pieces).length = pieces.length := by
  rw [← List.length_map, map_lexeme_place, List.length_map]

theorem exists_prefix_of_mem_place {position : Nat} {pieces : List SpacedLexeme}
    {placed : PlacedLexeme} (member : placed ∈ place position pieces) :
    ∃ before after, pieces.flatMap text = before ++ (placed.lexeme.spelling ++ after) ∧
      placed.position = position + utf8Len before := by
  induction pieces generalizing position with
  | nil => cases member
  | cons piece later ih =>
      rw [List.flatMap_cons]
      rcases List.mem_cons.mp member with rfl | inside
      · exact ⟨piece.blanks, _, List.append_assoc _ _ _, rfl⟩
      · obtain ⟨before, after, split, place⟩ := ih inside
        refine ⟨piece.text ++ before, after, by rw [split, List.append_assoc], ?_⟩
        rw [place, String.utf8Len_append, Nat.add_assoc]

theorem place_shift (offset position : Nat) (pieces : List SpacedLexeme) :
    place (position + offset) pieces = (place position pieces).map (.shift offset) := by
  induction pieces generalizing position with
  | nil => rfl
  | cons piece later ih =>
      simp only [place, List.map_cons, ← ih, PlacedLexeme.shift, Nat.add_right_comm _ offset]

theorem place_append (position : Nat) (earlier later : List SpacedLexeme) :
    place position (earlier ++ later) =
      place position earlier ++ place (position + utf8Len (earlier.flatMap text)) later := by
  induction earlier generalizing position with
  | nil => rfl
  | cons piece earlier ih =>
      rw [List.cons_append, place, place, ih, List.flatMap_cons, String.utf8Len_append, Nat.add_assoc,
        List.cons_append]

end SpacedLexeme

namespace Lexeme

inductive QuotedBody (mark : Char) : List Char → Prop where
  | empty : QuotedBody mark []
  | escaped {c : Char} {rest : List Char} (inner : QuotedBody mark rest) :
      QuotedBody mark ('\\' :: c :: rest)
  | plain {c : Char} {rest : List Char} (notEscape : c ≠ '\\') (notMark : c ≠ mark)
      (inner : QuotedBody mark rest) : QuotedBody mark (c :: rest)

theorem QuotedBody.quotedBody?_eq {mark : Char} {body : List Char} (closed : QuotedBody mark body)
    (notEscape : mark ≠ '\\') (rest : List Char) :
    quotedBody? mark (body ++ mark :: rest) = some (body, rest) := by
  induction closed with
  | empty => rw [List.nil_append, quotedBody?_cons _ notEscape, if_pos rfl]
  | escaped _ ih =>
      rw [List.cons_append, List.cons_append, quotedBody?, ih]
      rfl
  | plain plain notMark _ ih =>
      rw [List.cons_append, quotedBody?_cons _ plain, if_neg notMark, ih]
      rfl

theorem quotedBody_of_quotedBody? {mark : Char} {text body rest : List Char}
    (found : quotedBody? mark text = some (body, rest)) :
    QuotedBody mark body ∧ text = body ++ mark :: rest := by
  fun_induction quotedBody? mark text generalizing body rest with
  | case1 => cases found
  | case2 c text ih =>
      obtain ⟨⟨inner, after⟩, innerFound, same⟩ := Option.map_eq_some_iff.mp found
      obtain ⟨rfl, rfl⟩ := Prod.mk.inj same
      obtain ⟨closed, rfl⟩ := ih innerFound
      exact ⟨.escaped closed, rfl⟩
  | case3 text notEscape =>
      obtain ⟨rfl, rfl⟩ := Prod.mk.inj (Option.some.inj found)
      exact ⟨.empty, rfl⟩
  | case4 c text notEscape notMark ih =>
      obtain ⟨⟨inner, after⟩, innerFound, same⟩ := Option.map_eq_some_iff.mp found
      obtain ⟨rfl, rfl⟩ := Prod.mk.inj same
      -- A backslash at the very end would leave the text open.
      have plain : c ≠ '\\' := by
        rintro rfl
        cases text with
        | nil => cases innerFound
        | cons d text => exact notEscape d text rfl rfl
      obtain ⟨closed, rfl⟩ := ih innerFound
      exact ⟨.plain plain notMark closed, rfl⟩

def HasForm : Lexeme → Prop
  | quoted mark body => isQuote mark = true ∧ QuotedBody mark body
  | symbols run => run ≠ [] ∧ ∀ c ∈ run, isSymbol c = true
  | word run => run ≠ [] ∧ ∀ c ∈ run, isWordChar c = true

theorem HasForm.wellFormed {lexeme : Lexeme} (form : lexeme.HasForm) : lexeme.WellFormed := by
  cases lexeme with
  | quoted mark body =>
      obtain ⟨quote, closed⟩ := form
      exact ⟨quote, closed.quotedBody?_eq (ne_backslash_of_isQuote quote) []⟩
  | symbols run => exact form
  | word run => exact form

theorem HasForm.spelling_ne_nil {lexeme : Lexeme} (form : lexeme.HasForm) :
    lexeme.spelling ≠ [] := by
  cases lexeme with
  | quoted mark body => exact List.cons_ne_nil mark _
  | symbols run => exact form.1
  | word run => exact form.1

theorem HasForm.utf8Len_pos {lexeme : Lexeme} (form : lexeme.HasForm) :
    0 < utf8Len lexeme.spelling :=
  Nat.pos_of_ne_zero fun none => form.spelling_ne_nil (String.utf8Len_eq_zero.mp none)

theorem run_of_head {p : Char → Bool} {c : Char} (inside : p c = true) (rest : List Char) :
    (∀ d ∈ c :: rest.takeWhile p, p d = true) ∧
      c :: rest = c :: rest.takeWhile p ++ rest.dropWhile p := by
  constructor
  · intro d member
    rcases List.mem_cons.mp member with rfl | later
    · exact inside
    · exact List.mem_takeWhile_imp later
  · rw [List.cons_append, List.takeWhile_append_dropWhile]

theorem hasForm_of_first {c : Char} {rest after : List Char} {lexeme : Lexeme}
    (found : first c rest = .ok (lexeme, after)) :
    lexeme.HasForm ∧ lexeme.EndsBefore after ∧ c :: rest = lexeme.spelling ++ after := by
  unfold first at found
  split at found
  · rename_i quote
    split at found
    · rename_i body tail closed
      obtain ⟨rfl, rfl⟩ := Prod.mk.inj (Except.ok.inj found)
      obtain ⟨inner, rfl⟩ := quotedBody_of_quotedBody? closed
      exact ⟨⟨quote, inner⟩, trivial, by simp [spelling]⟩
    · cases found
  · split at found
    · rename_i symbol
      obtain ⟨rfl, rfl⟩ := Prod.mk.inj (Except.ok.inj found)
      obtain ⟨inside, split⟩ := run_of_head symbol rest
      exact ⟨⟨List.cons_ne_nil c _, inside⟩, ends_dropWhile isSymbol rest, split⟩
    · split at found
      · rename_i word
        obtain ⟨rfl, rfl⟩ := Prod.mk.inj (Except.ok.inj found)
        obtain ⟨inside, split⟩ := run_of_head word rest
        exact ⟨⟨List.cons_ne_nil c _, inside⟩, ends_dropWhile isWordChar rest, split⟩
      · cases found

theorem EndsBefore.change {lexeme : Lexeme} {text before after : List Char}
    (ends : lexeme.EndsBefore (text ++ before)) (apart : EndsRuns after) :
    lexeme.EndsBefore (text ++ after) := by
  cases text with
  | nil => exact apart.endsBefore lexeme
  | cons c text => cases lexeme <;> exact ends

/-! ### Cuttings -/

/-- The text is, in order and without a remainder, the pieces and blanks at its end, and every lexeme
goes as far as it can. -/
inductive Cutting : List Char → List SpacedLexeme → Prop where
  | done {ending : List Char} (blank : allBlank ending = true) : Cutting ending []
  | next {blanks rest : List Char} {lexeme : Lexeme} {later : List SpacedLexeme}
      (blank : allBlank blanks = true) (form : lexeme.HasForm) (ends : lexeme.EndsBefore rest)
      (cutting : Cutting rest later) :
      Cutting (blanks ++ (lexeme.spelling ++ rest)) (⟨blanks, lexeme⟩ :: later)

theorem cutFrom_blanks {blanks : List Char} (blank : allBlank blanks = true) (position : Nat)
    (rest : List Char) :
    cutFrom position (blanks ++ rest) = cutFrom (position + utf8Len blanks) rest := by
  induction blanks generalizing position with
  | nil => rfl
  | cons c blanks ih =>
      simp only [allBlank, List.all_cons, Bool.and_eq_true] at blank
      rw [List.cons_append, cutFrom_blank _ _ blank.1, ih blank.2, String.utf8Len_cons, Nat.add_assoc,
        Nat.add_comm c.utf8Size]

variable {text : List Char} {pieces : List SpacedLexeme}

/-- A text that can be cut is cut so, and it makes no difference to what is behind it if no run goes on
there. -/
theorem Cutting.cutFrom_append (cutting : Cutting text pieces) {rest : List Char}
    (apart : EndsRuns rest) (position : Nat) :
    cutFrom position (text ++ rest) =
      (cutFrom (position + utf8Len text) rest).map (SpacedLexeme.place position pieces ++ ·) := by
  induction cutting generalizing position with
  | done ended =>
      rw [cutFrom_blanks ended]
      cases cutFrom (position + _) rest <;> rfl
  | @next blanks text lexeme later before form ends cutting ih =>
      have endsHere : lexeme.EndsBefore (text ++ []) := by rwa [List.append_nil]
      have place : position + utf8Len (blanks ++ (lexeme.spelling ++ text)) =
          position + utf8Len blanks + utf8Len lexeme.spelling + utf8Len text := by
        rw [String.utf8Len_append, String.utf8Len_append]
        omega
      rw [List.append_assoc, List.append_assoc, cutFrom_blanks before,
        cutFrom_spelling _ form.wellFormed (endsHere.change apart), ih, place]
      cases cutFrom _ rest with
      | error fault => rfl
      | ok placed =>
          simp [Except.map, SpacedLexeme.place, SpacedLexeme.text, Nat.add_assoc]

theorem Cutting.cutFrom_eq (cutting : Cutting text pieces) (position : Nat) :
    cutFrom position text = .ok (SpacedLexeme.place position pieces) := by
  have cut := cutting.cutFrom_append endsRuns_nil position
  rw [List.append_nil, cutFrom_nil] at cut
  rw [cut, Except.map, List.append_nil]

theorem Cutting.pairwise_place (cutting : Cutting text pieces) (position : Nat) :
    (SpacedLexeme.place position pieces).Pairwise fun first second =>
      first.position < second.position := by
  induction cutting generalizing position with
  | done _ => exact List.Pairwise.nil
  | @next blanks _ lexeme _ _ form _ _ ih =>
      refine List.pairwise_cons.mpr ⟨?_, ih _⟩
      intro placed member
      show position + utf8Len blanks < placed.position
      obtain ⟨before, _, _, place⟩ := SpacedLexeme.exists_prefix_of_mem_place member
      have size := form.utf8Len_pos
      simp only [SpacedLexeme.text, String.utf8Len_append] at place
      omega

theorem exists_cutting {position : Nat} {text : List Char} {placed : List PlacedLexeme}
    (cut : cutFrom position text = .ok placed) : ∃ pieces, Cutting text pieces := by
  have apart : text.takeWhile isBlank ++ trimStart text = text := List.takeWhile_append_dropWhile
  have blank := allBlank_takeWhile text
  cases trimmed : trimStart text with
  | nil =>
      rw [trimmed, List.append_nil] at apart
      exact ⟨[], .done (apart ▸ blank)⟩
  | cons c rest =>
      rw [cutFrom_of_trimStart_cons trimmed] at cut
      cases found : first c rest with
      | error fault =>
          rw [found] at cut
          cases cut
      | ok head =>
          obtain ⟨lexeme, after⟩ := head
          rw [found] at cut
          obtain ⟨later, laterCut, _⟩ := map_eq_ok_iff.mp cut
          -- What is behind the first lexeme is shorter, and is cut as well.
          obtain ⟨pieces, cutting⟩ := exists_cutting laterCut
          obtain ⟨form, ends, split⟩ := hasForm_of_first found
          rw [trimmed, split] at apart
          have whole := Cutting.next blank form ends cutting
          rw [apart] at whole
          exact ⟨_, whole⟩
termination_by text.length
decreasing_by exact length_after_first trimmed found

theorem Cutting.hasForm (cutting : Cutting text pieces) : ∀ piece ∈ pieces, piece.lexeme.HasForm := by
  induction cutting with
  | done _ => simp
  | next _ form _ _ ih => exact List.forall_mem_cons.mpr ⟨form, ih⟩

theorem Cutting.length_le (cutting : Cutting text pieces) : pieces.length ≤ utf8Len text := by
  induction cutting with
  | done _ => exact Nat.zero_le _
  | next _ form _ _ ih =>
      have spelled := form.utf8Len_pos
      rw [List.length_cons, String.utf8Len_append, String.utf8Len_append]
      omega

theorem Cutting.exists_ending (cutting : Cutting text pieces) :
    ∃ ending, allBlank ending = true ∧ text = pieces.flatMap SpacedLexeme.text ++ ending := by
  induction cutting with
  | @done ending blank => exact ⟨ending, blank, rfl⟩
  | next _ _ _ _ ih =>
      obtain ⟨ending, blank, rfl⟩ := ih
      exact ⟨ending, blank, by simp [SpacedLexeme.text]⟩

theorem Cutting.change_blanks {earlier later : List SpacedLexeme} {blanks : List Char}
    {lexeme : Lexeme} (cutting : Cutting text (earlier ++ ⟨blanks, lexeme⟩ :: later)) :
    ∃ rest, text = earlier.flatMap SpacedLexeme.text ++ (blanks ++ rest) ∧
      ∀ other, allBlank other = true → other ≠ [] →
        Cutting (earlier.flatMap SpacedLexeme.text ++ (other ++ rest))
          (earlier ++ ⟨other, lexeme⟩ :: later) := by
  induction earlier generalizing text with
  | nil =>
      cases cutting with
      | next _ form ends cutting =>
          refine ⟨_, rfl, ?_⟩
          intro other blank _
          exact .next blank form ends cutting
  | cons piece earlier ih =>
      cases cutting with
      | @next first _ _ _ blank form ends cutting =>
          obtain ⟨rest, rfl, change⟩ := ih cutting
          refine ⟨rest, by simp [SpacedLexeme.text], ?_⟩
          intro other otherBlank nonempty
          have starts : ∀ c ∈ (other ++ rest).head?, isBlank c = true := by
            obtain ⟨d, more, rfl⟩ := List.exists_cons_of_ne_nil nonempty
            intro c head
            obtain rfl := Option.some.inj head
            exact List.all_eq_true.mp otherBlank d List.mem_cons_self
          have whole := Cutting.next blank form (ends.change (endsRuns_of_isBlank starts))
            (change other otherBlank nonempty)
          simpa [SpacedLexeme.text] using whole

theorem cut_eq_ok_iff {placed : List PlacedLexeme} :
    cut text = .ok placed ↔ ∃ pieces, Cutting text pieces ∧ placed = SpacedLexeme.place 0 pieces := by
  constructor
  · intro cut
    obtain ⟨pieces, cutting⟩ := exists_cutting cut
    exact ⟨pieces, cutting, Except.ok.inj (cut.symm.trans (cutting.cutFrom_eq 0))⟩
  · rintro ⟨pieces, cutting, rfl⟩
    exact cutting.cutFrom_eq 0

end Lexeme

end FieldRules
