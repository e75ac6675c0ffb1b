import FieldRules.Proofs.Lexeme.Cutting
import FieldRules.Proofs.Token.Comparison

/-!
The tokens of a text, from the lexemes that it can be cut into. They do not depend on the blanks between
the lexemes, and texts that are put together with a blank have their tokens put together.
-/

namespace FieldRules

open Lexeme Text
open String (utf8Len)

namespace TokenKind

def isSymbols : TokenKind → Bool
  | symbols _ => true
  | _ => false

theorem isSymbols_ofLexeme (afterSymbols : Bool) (lexeme : Lexeme) :
    (ofLexeme afterSymbols lexeme).isSymbols = lexeme.isSymbols := by
  cases lexeme with
  | quoted mark body => rfl
  | symbols run => rfl
  | word run =>
      rw [ofLexeme, ofWord]
      split
      · rfl
      · split
        · rfl
        · split <;> rfl

end TokenKind

namespace Token

def endsInSymbols (tokens : List Token) : Bool :=
  tokens.getLast?.any fun token => token.kind.isSymbols

def shift (offset : Nat) (token : Token) : Token :=
  { token with position := token.position + offset }

theorem map_position_ofLexemes (afterSymbols : Bool) (placed : List PlacedLexeme) :
    (ofLexemes afterSymbols placed).map position = placed.map PlacedLexeme.position := by
  induction placed generalizing afterSymbols with
  | nil => rfl
  | cons head placed ih => rw [ofLexemes, List.map_cons, List.map_cons, ih]

theorem ofLexemes_shift (afterSymbols : Bool) (offset : Nat) (placed : List PlacedLexeme) :
    ofLexemes afterSymbols (placed.map (.shift offset)) =
      (ofLexemes afterSymbols placed).map (shift offset) := by
  induction placed generalizing afterSymbols with
  | nil => rfl
  | cons head placed ih =>
      rw [List.map_cons, PlacedLexeme.shift, ofLexemes, ofLexemes, List.map_cons, ih, shift]

theorem ofLexemes_append (afterSymbols : Bool) (first second : List PlacedLexeme) :
    ofLexemes afterSymbols (first ++ second) =
      ofLexemes afterSymbols first ++
        ofLexemes ((ofLexemes afterSymbols first).getLast?.elim afterSymbols (·.kind.isSymbols))
          second := by
  induction first generalizing afterSymbols with
  | nil => rfl
  | cons head first ih =>
      rw [List.cons_append, ofLexemes, ofLexemes, ih, List.cons_append, List.getLast?_cons]
      cases (ofLexemes head.lexeme.isSymbols first).getLast? with
      | none => simp [TokenKind.isSymbols_ofLexeme]
      | some token => rfl

def ofPieces (pieces : List SpacedLexeme) : List Token :=
  ofLexemes false (SpacedLexeme.place 0 pieces)

theorem ofLexemes_false_append (first second : List PlacedLexeme) :
    ofLexemes false (first ++ second) =
      ofLexemes false first ++ ofLexemes (endsInSymbols (ofLexemes false first)) second := by
  rw [ofLexemes_append, endsInSymbols]
  cases (ofLexemes false first).getLast? <;> rfl

theorem length_ofPieces (pieces : List SpacedLexeme) :
    (ofPieces pieces).length = pieces.length := by
  rw [← List.length_map position, ofPieces, map_position_ofLexemes, List.length_map,
    SpacedLexeme.length_place]

theorem ofPieces_append_cons (earlier later : List SpacedLexeme) (piece : SpacedLexeme) :
    ∃ after, ofPieces (earlier ++ piece :: later) =
      ofPieces earlier ++
        ⟨.ofLexeme (endsInSymbols (ofPieces earlier)) piece.lexeme,
          utf8Len (earlier.flatMap SpacedLexeme.text ++ piece.blanks)⟩ :: after := by
  rw [ofPieces, SpacedLexeme.place_append, ofLexemes_false_append, SpacedLexeme.place, ofLexemes,
    String.utf8Len_append, Nat.zero_add]
  exact ⟨_, rfl⟩

theorem map_kind_ofPieces (pieces : List SpacedLexeme) :
    (ofPieces pieces).map kind =
      TokenKind.ofLexemes false (pieces.map SpacedLexeme.lexeme) := by
  rw [ofPieces, TokenKind.map_kind_ofLexemes, SpacedLexeme.map_lexeme_place]

variable {source : String} {pieces : List SpacedLexeme}

theorem scan_of_cutting (cutting : Cutting source.toList pieces) :
    scan source = .ok (ofPieces pieces) := by
  rw [scan, cut, cutting.cutFrom_eq]
  rfl

theorem exists_cutting_of_scan {tokens : List Token} (scanned : scan source = .ok tokens) :
    ∃ pieces, Cutting source.toList pieces ∧ tokens = ofPieces pieces := by
  obtain ⟨placed, cut, rfl⟩ := map_eq_ok_iff.mp scanned
  obtain ⟨pieces, cutting, rfl⟩ := cut_eq_ok_iff.mp cut
  exact ⟨pieces, cutting, rfl⟩

theorem pairwise_position_ofPieces (cutting : Cutting source.toList pieces) :
    (ofPieces pieces).Pairwise fun first second => first.position < second.position := by
  have ascending := List.pairwise_map.mpr (cutting.pairwise_place 0)
  rw [← map_position_ofLexemes false] at ascending
  exact List.pairwise_map.mp ascending

theorem exists_mem_of_mem_ofLexemes {afterSymbols : Bool} {placed : List PlacedLexeme} {token : Token}
    (member : token ∈ ofLexemes afterSymbols placed) :
    ∃ own ∈ placed, token.position = own.position ∧
      ∃ afterSymbols, token.kind = .ofLexeme afterSymbols own.lexeme := by
  induction placed generalizing afterSymbols with
  | nil => cases member
  | cons head placed ih =>
      rw [ofLexemes] at member
      rcases List.mem_cons.mp member with rfl | later
      · exact ⟨head, List.mem_cons_self, rfl, afterSymbols, rfl⟩
      · obtain ⟨own, ownMember, same⟩ := ih later
        exact ⟨own, List.mem_cons_of_mem head ownMember, same⟩

def StandsIn (source : String) (token : Token) : Prop :=
  ∃ lexeme : Lexeme, lexeme.HasForm ∧
    StandsAt lexeme.spelling token.position source.toList ∧
    ∃ afterSymbols, token.kind = .ofLexeme afterSymbols lexeme

theorem standsIn_of_mem (cutting : Cutting source.toList pieces) {token : Token}
    (member : token ∈ ofPieces pieces) : token.StandsIn source := by
  obtain ⟨placed, own, same, kind⟩ := exists_mem_of_mem_ofLexemes member
  obtain ⟨before, after, split, place⟩ := SpacedLexeme.exists_prefix_of_mem_place own
  obtain ⟨ending, -, whole⟩ := cutting.exists_ending
  have listed : placed.lexeme ∈ pieces.map SpacedLexeme.lexeme := by
    rw [← SpacedLexeme.map_lexeme_place 0]
    exact List.mem_map_of_mem own
  obtain ⟨piece, pieceMember, spelled⟩ := List.mem_map.mp listed
  refine ⟨placed.lexeme, spelled ▸ cutting.hasForm piece pieceMember,
    ⟨before, after ++ ending, ?_, ?_⟩, kind⟩
  · rw [whole, split, List.append_assoc, List.append_assoc]
  · rw [same, place, Nat.zero_add]

theorem isValid_position (cutting : Cutting source.toList pieces) {token : Token}
    (member : token ∈ ofPieces pieces) : (⟨token.position⟩ : String.Pos.Raw).IsValid source := by
  obtain ⟨lexeme, -, stands, -⟩ := standsIn_of_mem cutting member
  exact stands.isValid

theorem scan_append {first second : String} {earlier later : List Token}
    (firstScanned : scan first = .ok earlier) (secondScanned : scan second = .ok later)
    (apart : endsInSymbols earlier = false) :
    scan (first ++ " " ++ second) =
      .ok (earlier ++ later.map (shift (first.utf8ByteSize + 1))) := by
  obtain ⟨firstPieces, firstCutting, rfl⟩ := exists_cutting_of_scan firstScanned
  obtain ⟨secondPieces, secondCutting, rfl⟩ := exists_cutting_of_scan secondScanned
  have blank : ∀ c ∈ (' ' :: second.toList).head?, isBlank c = true := by
    rintro c ⟨⟩
    decide
  have joined : (first ++ " " ++ second).toList = first.toList ++ ' ' :: second.toList := by
    simp
  have placed := firstCutting.cutFrom_append (endsRuns_of_isBlank blank) 0
  rw [cutFrom_blank _ _ (by decide), secondCutting.cutFrom_eq, String.utf8Len_toList, utf8Size_blank,
    Nat.add_assoc, SpacedLexeme.place_shift] at placed
  rw [scan, joined, cut, placed, Except.map, Except.map, ofLexemes_false_append, ← ofPieces, apart,
    ofLexemes_shift]
  rfl

/-- A text is scanned exactly if it can be cut into lexemes. Then each lexeme gives one token, at the
number of bytes before it, whose kind depends on the lexeme and on whether the token before it is a run
of symbols. So the tokens of two texts with a blank between them are those of both, unless the first ends
in symbols, and the kinds stay as they are when the blanks before a lexeme are changed to others. -/
theorem scan_iff_cutting :
    (∀ source, (∃ tokens, scan source = .ok tokens) ↔ ∃ pieces, Cutting source.toList pieces) ∧
    (∀ source pieces tokens, Cutting source.toList pieces → scan source = .ok tokens →
      tokens.length = pieces.length ∧
      (∀ earlier piece later, pieces = earlier ++ piece :: later →
        ∃ before after, before.length = earlier.length ∧
          tokens = before ++
            ⟨.ofLexeme (endsInSymbols before) piece.lexeme,
              utf8Len (earlier.flatMap SpacedLexeme.text ++ piece.blanks)⟩ :: after) ∧
      (tokens.Pairwise fun first second => first.position < second.position) ∧
      ∀ token ∈ tokens, (⟨token.position⟩ : String.Pos.Raw).IsValid source) ∧
    (∀ first second earlier later, scan first = .ok earlier → scan second = .ok later →
      endsInSymbols earlier = false →
      scan (first ++ " " ++ second) =
        .ok (earlier ++ later.map (shift (first.utf8ByteSize + 1)))) ∧
    ∀ source changed earlier blanks other lexeme later rest tokens,
      Cutting source.toList (earlier ++ ⟨blanks, lexeme⟩ :: later) → scan source = .ok tokens →
      source.toList = earlier.flatMap SpacedLexeme.text ++ (blanks ++ rest) →
      changed.toList = earlier.flatMap SpacedLexeme.text ++ (other ++ rest) →
      allBlank other = true → other ≠ [] →
      ∃ changedTokens, scan changed = .ok changedTokens ∧
        changedTokens.map kind = tokens.map kind := by
  refine ⟨?_, ?_, ?_, ?_⟩
  · intro source
    constructor
    · rintro ⟨tokens, scanned⟩
      obtain ⟨pieces, cutting, _⟩ := exists_cutting_of_scan scanned
      exact ⟨pieces, cutting⟩
    · rintro ⟨pieces, cutting⟩
      exact ⟨ofPieces pieces, scan_of_cutting cutting⟩
  · intro source pieces tokens cutting scanned
    obtain rfl := Except.ok.inj ((scan_of_cutting cutting).symm.trans scanned)
    refine ⟨length_ofPieces pieces, ?_, pairwise_position_ofPieces cutting, ?_⟩
    · rintro earlier piece later rfl
      obtain ⟨after, split⟩ := ofPieces_append_cons earlier later piece
      exact ⟨ofPieces earlier, after, length_ofPieces earlier, split⟩
    · intro token member
      exact isValid_position cutting member
  · intro first second earlier later firstScanned secondScanned apart
    exact scan_append firstScanned secondScanned apart
  · intro source changed earlier blanks other lexeme later rest tokens cutting scanned spelled
      changedSpelled blank nonempty
    obtain rfl := Except.ok.inj ((scan_of_cutting cutting).symm.trans scanned)
    obtain ⟨tail, split, change⟩ := cutting.change_blanks
    rw [spelled, List.append_cancel_left_eq, List.append_cancel_left_eq] at split
    have changedCutting := change other blank nonempty
    rw [← split, ← changedSpelled] at changedCutting
    refine ⟨_, scan_of_cutting changedCutting, ?_⟩
    rw [map_kind_ofPieces, map_kind_ofPieces, List.map_append, List.map_append]
    rfl

theorem scan_iff_cutting_quoted :
    ∃ tokens, scan "é='y'" = .ok tokens ∧
      tokens = [⟨.identifier "é", 0⟩, ⟨.symbols "=", 2⟩, ⟨.literal (.text "y"), 3⟩] ∧
      (∃ before after, before.length = 2 ∧ tokens = before ++
        ⟨.ofLexeme (endsInSymbols before) (.quoted '\'' ['y']), 3⟩ :: after) ∧
      scan ("é='y'" ++ " " ++ "é='y'") = .ok (tokens ++ tokens.map (shift 7)) ∧
      ∃ changed, scan "é= \t'y'" = .ok changed ∧ changed.map kind = tokens.map kind := by
  have value : Cutting "'y'".toList [⟨[], .quoted '\'' ['y']⟩] :=
    @Cutting.next [] [] (.quoted '\'' ['y']) [] rfl
      ⟨rfl, .plain (by decide) (by decide) .empty⟩ trivial (.done rfl)
  have comparison : Cutting "='y'".toList [⟨[], .symbols ['=']⟩, ⟨[], .quoted '\'' ['y']⟩] := by
    refine @Cutting.next [] _ (.symbols ['=']) _ rfl ⟨by decide, ?_⟩ ?_ value
    · exact List.forall_mem_singleton.mpr rfl
    rintro c ⟨⟩
    decide
  have cutting : Cutting "é='y'".toList
      [⟨[], .word ['é']⟩, ⟨[], .symbols ['=']⟩, ⟨[], .quoted '\'' ['y']⟩] := by
    refine @Cutting.next [] _ (.word ['é']) _ rfl ⟨by decide, ?_⟩ ?_ comparison
    · exact List.forall_mem_singleton.mpr (by decide +kernel)
    rintro c ⟨⟩
    decide +kernel
  obtain ⟨scannable, tokensOf, joined, blanks⟩ := scan_iff_cutting
  obtain ⟨tokens, scanned⟩ := (scannable "é='y'").mpr ⟨_, cutting⟩
  have listed := Except.ok.inj (scanned.symm.trans (scan_of_cutting cutting))
  refine ⟨tokens, scanned, ?_, ?_, ?_, ?_⟩
  · rw [listed]
    decide +kernel
  · exact (tokensOf _ _ _ cutting scanned).2.1 [⟨[], .word ['é']⟩, ⟨[], .symbols ['=']⟩]
      ⟨[], .quoted '\'' ['y']⟩ [] rfl
  · refine joined _ _ _ _ scanned scanned ?_
    rw [listed]
    decide +kernel
  · exact blanks "é='y'" "é= \t'y'" [⟨[], .word ['é']⟩, ⟨[], .symbols ['=']⟩] [] [' ', '\t'] _ [] _ _
      cutting scanned rfl rfl (by decide) (by decide)

end Token

end FieldRules
