import FieldRules.Json.Basic
import FieldRules.Json.Reading
import FieldRules.Proofs.Json.Token

/-!
The texts of a value's tokens, with blanks between them, and the tokens of a whole reading. Blanks
change no token, because no token of a value is prolonged by what follows it there, and a reading is
taken back from its tokens, whatever follows.
-/

namespace FieldRules.Json

mutual

def words : Json → List (List Char)
  | array [] => [['['], [']']]
  | array (first :: rest) => ['['] :: (words first ++ itemsWords rest)
  | object [] => [['\x7b'], ['\x7d']]
  | object ((name, first) :: rest) =>
      ['\x7b'] :: (quote name).toList :: [':'] :: (words first ++ membersWords rest)
  | other => [other.text.toList]

def itemsWords : List Json → List (List Char)
  | [] => [[']']]
  | item :: rest => [','] :: (words item ++ itemsWords rest)

def membersWords : List (String × Json) → List (List Char)
  | [] => [['\x7d']]
  | (name, value) :: rest =>
      [','] :: (quote name).toList :: [':'] :: (words value ++ membersWords rest)

end

mutual

theorem flatten_words (json : Json) : json.words.flatten = json.text.toList := by
  cases json with
  | array items =>
      cases items with
      | nil => simp [words, text]
      | cons first rest => simp [words, text, flatten_words first, flatten_itemsWords rest]
  | object members =>
      cases members with
      | nil => simp [words, text]
      | cons first rest =>
          simp [words, text, flatten_words first.2, flatten_membersWords rest]
  | _ => simp [words]

theorem flatten_itemsWords (items : List Json) :
    (itemsWords items).flatten = (itemsText items).toList ++ [']'] := by
  cases items with
  | nil => simp [itemsWords, itemsText]
  | cons item rest =>
      simp [itemsWords, itemsText, flatten_words item, flatten_itemsWords rest]

theorem flatten_membersWords (members : List (String × Json)) :
    (membersWords members).flatten = (membersText members).toList ++ ['\x7d'] := by
  cases members with
  | nil => simp [membersWords, membersText]
  | cons member rest =>
      simp [membersWords, membersText, flatten_words member.2, flatten_membersWords rest]

end

/-- The text is made of the words, with blanks before and after each of them. -/
inductive Spaced : List (List Char) → List Char → Prop
  | done {blanks : List Char} : blanks.all Token.isBlank = true → Spaced [] blanks
  | next {blanks word text : List Char} {words : List (List Char)} :
      blanks.all Token.isBlank = true → Spaced words text →
      Spaced (word :: words) (blanks ++ (word ++ text))

theorem spaced_flatMap {blanks : List Char} (blank : blanks.all Token.isBlank = true)
    (words : List (List Char)) : Spaced words (words.flatMap (blanks ++ ·)) := by
  induction words with
  | nil => exact .done rfl
  | cons word words ih =>
      rw [List.flatMap_cons, List.append_assoc]
      exact .next blank ih

theorem spaced_text (json : Json) : Spaced json.words json.text.toList := by
  have noBlanks : ([] : List Char).all Token.isBlank = true := rfl
  rw [← json.flatten_words, ← List.flatMap_id]
  exact spaced_flatMap noBlanks json.words

/-- Each text that is made of the words has the tokens. -/
def Lexes (words : List (List Char)) (tokens : List Token) : Prop :=
  ∀ text, Spaced words text → Token.ofText text = tokens

def EndNumbers (words : List (List Char)) : Prop :=
  ∀ text, Spaced words text → EndsNumber text

theorem EndsNumber.append {first : List Char} (second : List Char) (ends : EndsNumber first)
    (nonempty : first ≠ []) : EndsNumber (first ++ second) := by
  cases first with
  | nil => exact absurd rfl nonempty
  | cons c first => exact ends

theorem endsNumber_of_blank {blanks : List Char} (blank : blanks.all Token.isBlank = true) :
    EndsNumber blanks := by
  cases blanks with
  | nil => exact .nil
  | cons c blanks =>
      rw [List.all_cons, Bool.and_eq_true] at blank
      simp only [Token.isBlank, Bool.or_eq_true, beq_iff_eq] at blank
      rcases blank.1 with ((rfl | rfl) | rfl) | rfl <;> simp [EndsNumber]

theorem lexes_nil : Lexes [] [] := by
  intro text spaced
  cases spaced with
  | done blank =>
      have read := Token.ofText_blanks blank []
      rwa [List.append_nil, Token.ofText_nil] at read

theorem endNumbers_nil : EndNumbers [] := by
  intro text spaced
  cases spaced with
  | done blank => exact endsNumber_of_blank blank

theorem endNumbers_cons {word : List Char} (ends : EndsNumber word) (nonempty : word ≠ [])
    (words : List (List Char)) : EndNumbers (word :: words) := by
  intro text spaced
  cases spaced with
  | @next blanks _ text _ blank spaced =>
      cases blanks with
      | nil => exact ends.append text nonempty
      | cons c blanks => exact (endsNumber_of_blank blank).append _ (List.cons_ne_nil c blanks)

theorem Lexes.cons {word : List Char} {words : List (List Char)} {token : Token}
    {tokens : List Token} (lexes : Lexes words tokens)
    (read : ∀ rest, (EndNumbers words → EndsNumber rest) →
      Token.ofText (word ++ rest) = token :: Token.ofText rest) :
    Lexes (word :: words) (token :: tokens) := by
  intro text spaced
  cases spaced with
  | @next blanks _ text _ blank spaced =>
      rw [Token.ofText_blanks blank, read text fun ends => ends text spaced, lexes text spaced]

theorem Lexes.punctuation {c : Char} {words : List (List Char)} {token : Token}
    {tokens : List Token} (lexes : Lexes words tokens) (visible : Token.isBlank c = false)
    (found : ∀ rest, Token.first? c rest = some (token, rest)) :
    Lexes ([c] :: words) (token :: tokens) :=
  lexes.cons fun rest _ => Token.ofText_cons visible (found rest)

theorem Lexes.exists_name (name : String) :
    ∃ pieces, stringOfPieces? pieces = some name ∧
      ∀ {words : List (List Char)} {tokens : List Token}, Lexes words tokens →
        Lexes ((quote name).toList :: [':'] :: words) (.string pieces :: .colon :: tokens) := by
  obtain ⟨pieces, spelled, read⟩ := Token.ofText_quote name
  refine ⟨pieces, spelled, ?_⟩
  intro words tokens lexes
  have colon := lexes.punctuation (c := ':') (by decide) fun _ => rfl
  exact colon.cons fun rest _ => read rest

theorem endNumbers_itemsWords (values : List Json) (words : List (List Char)) :
    EndNumbers (itemsWords values ++ words) := by
  cases values with
  | nil => exact endNumbers_cons (by simp [EndsNumber]) (by simp) words
  | cons first values => exact endNumbers_cons (by simp [EndsNumber]) (by simp) _

theorem endNumbers_membersWords (values : List (String × Json)) (words : List (List Char)) :
    EndNumbers (membersWords values ++ words) := by
  cases values with
  | nil => exact endNumbers_cons (by simp [EndsNumber]) (by simp) words
  | cons first values => exact endNumbers_cons (by simp [EndsNumber]) (by simp) _

/-! ### The tokens of a reading -/

mutual

def Reading.tokens : Reading → List Token
  | .null => [.null]
  | .boolean value => [.boolean value]
  | .number spelling => [.number spelling]
  | .string pieces => [.string pieces]
  | .array .closed => [.openBracket, .closeBracket]
  | .array (.item value rest) => .openBracket :: (value.tokens ++ rest.laterTokens)
  | .array .cut => [.openBracket]
  | .object .closed => [.openBrace, .closeBrace]
  | .object (.member name value rest) =>
      .openBrace :: .string name :: .colon :: (value.tokens ++ rest.laterTokens)
  | .object .cut => [.openBrace]
  | .cut => []

def Items.laterTokens : Items → List Token
  | .closed => [.closeBracket]
  | .item value rest => .comma :: (value.tokens ++ rest.laterTokens)
  | .cut => []

def Members.laterTokens : Members → List Token
  | .closed => [.closeBrace]
  | .member name value rest =>
      .comma :: .string name :: .colon :: (value.tokens ++ rest.laterTokens)
  | .cut => []

end

def Reading.TakenFrom (reading : Reading) (tokens rest : List Token) : Prop :=
  (take tokens).value = reading ∧ (take tokens).rest = rest

theorem Reading.takeItems_of_comma {value : Reading} {tokens rest : List Token}
    (first : value.TakenFrom tokens (.comma :: rest)) :
    (takeItems tokens).value = .item value (takeItems rest).value ∧
      (takeItems tokens).rest = (takeItems rest).rest := by
  obtain ⟨rfl, left⟩ := first
  rw [takeItems]
  split
  · rename_i more found
    obtain rfl := (List.cons.inj (found.symm.trans left)).2
    exact ⟨rfl, rfl⟩
  · simp_all
  · simp_all

theorem Reading.takeItems_of_close {value : Reading} {tokens rest : List Token}
    (first : value.TakenFrom tokens (.closeBracket :: rest)) :
    (takeItems tokens).value = .item value .closed ∧ (takeItems tokens).rest = rest := by
  obtain ⟨rfl, left⟩ := first
  rw [takeItems]
  split
  · simp_all
  · simp_all
  · simp_all

theorem Reading.takeMembers_of_comma (name : List Piece) {value : Reading}
    {tokens rest : List Token} (first : value.TakenFrom tokens (.comma :: rest)) :
    (takeMembers (.string name :: .colon :: tokens)).value =
        .member name value (takeMembers rest).value ∧
      (takeMembers (.string name :: .colon :: tokens)).rest = (takeMembers rest).rest := by
  obtain ⟨rfl, left⟩ := first
  rw [takeMembers, takeValue]
  simp only [Taken.after, id]
  split
  · rename_i more found
    obtain rfl := (List.cons.inj (found.symm.trans left)).2
    exact ⟨rfl, rfl⟩
  · simp_all
  · simp_all

theorem Reading.takeMembers_of_close (name : List Piece) {value : Reading}
    {tokens rest : List Token} (first : value.TakenFrom tokens (.closeBrace :: rest)) :
    (takeMembers (.string name :: .colon :: tokens)).value = .member name value .closed ∧
      (takeMembers (.string name :: .colon :: tokens)).rest = rest := by
  obtain ⟨rfl, left⟩ := first
  rw [takeMembers, takeValue]
  simp only [Taken.after, id]
  split
  · simp_all
  · simp_all
  · simp_all

theorem Reading.take_openBracket {first : Token} {later : List Token}
    (nonempty : first ≠ .closeBracket) : take (.openBracket :: first :: later) =
      (takeItems (first :: later)).after .array .openBracket := by
  rw [take]
  intro rest same
  exact nonempty (List.cons.inj same).1

theorem Reading.exists_tokens_eq_cons {value : Reading} (whole : value.isWhole = true) :
    ∃ first later, value.tokens = first :: later ∧ first ≠ .closeBracket := by
  cases value with
  | cut => simp [isWhole] at whole
  | array items => cases items <;> simp [tokens]
  | object members => cases members <;> simp [tokens]
  | _ => simp [tokens]

mutual

theorem Reading.takenFrom_tokens (reading : Reading) (whole : reading.isWhole = true)
    (rest : List Token) : reading.TakenFrom (reading.tokens ++ rest) rest := by
  cases reading with
  | null => simp [TakenFrom, tokens, take]
  | boolean value => simp [TakenFrom, tokens, take]
  | number spelling => simp [TakenFrom, tokens, take]
  | string pieces => simp [TakenFrom, tokens, take]
  | array items =>
      cases items with
      | closed => simp [TakenFrom, tokens, take]
      | cut => simp [isWhole, Items.areWhole] at whole
      | item value items =>
          simp only [isWhole, Items.areWhole, Bool.and_eq_true] at whole
          have taken := Reading.takeItems_laterTokens items whole.2 value
            (fun more => value.takenFrom_tokens whole.1 more) rest
          obtain ⟨first, later, begins, nonempty⟩ := value.exists_tokens_eq_cons whole.1
          rw [begins] at taken
          rw [TakenFrom, tokens, begins]
          simp only [List.cons_append, take_openBracket nonempty, Taken.after] at taken ⊢
          rw [taken.1, taken.2]
          exact ⟨rfl, rfl⟩
  | object members =>
      cases members with
      | closed => simp [TakenFrom, tokens, take]
      | cut => simp [isWhole, Members.areWhole] at whole
      | member name value members =>
          simp only [isWhole, Members.areWhole, Bool.and_eq_true] at whole
          have taken := Reading.takeMembers_laterTokens members whole.2 name value
            (fun more => value.takenFrom_tokens whole.1 more) rest
          rw [TakenFrom, tokens]
          simp only [List.cons_append, take, Taken.after] at taken ⊢
          rw [taken.1, taken.2]
          exact ⟨rfl, rfl⟩
  | cut => simp [isWhole] at whole

theorem Reading.takeItems_laterTokens (items : Items) (whole : items.areWhole = true)
    (value : Reading) (first : ∀ more, value.TakenFrom (value.tokens ++ more) more)
    (rest : List Token) :
    (takeItems (value.tokens ++ items.laterTokens ++ rest)).value = .item value items ∧
      (takeItems (value.tokens ++ items.laterTokens ++ rest)).rest = rest := by
  have taken := first (items.laterTokens ++ rest)
  rw [List.append_assoc]
  cases items with
  | closed => exact takeItems_of_close taken
  | cut => simp [Items.areWhole] at whole
  | item next items =>
      simp only [Items.areWhole, Bool.and_eq_true] at whole
      rw [Items.laterTokens, List.cons_append] at taken ⊢
      have later := Reading.takeItems_laterTokens items whole.2 next
        (fun more => next.takenFrom_tokens whole.1 more) rest
      have step := takeItems_of_comma taken
      rw [later.1, later.2] at step
      exact step

theorem Reading.takeMembers_laterTokens (members : Members) (whole : members.areWhole = true)
    (name : List Piece) (value : Reading)
    (first : ∀ more, value.TakenFrom (value.tokens ++ more) more) (rest : List Token) :
    (takeMembers (.string name :: .colon :: (value.tokens ++ members.laterTokens ++ rest))).value =
        .member name value members ∧
      (takeMembers (.string name :: .colon ::
        (value.tokens ++ members.laterTokens ++ rest))).rest = rest := by
  have taken := first (members.laterTokens ++ rest)
  rw [List.append_assoc]
  cases members with
  | closed => exact takeMembers_of_close name taken
  | cut => simp [Members.areWhole] at whole
  | member nextName next members =>
      simp only [Members.areWhole, Bool.and_eq_true] at whole
      rw [Members.laterTokens, List.cons_append] at taken ⊢
      have later := Reading.takeMembers_laterTokens members whole.2 nextName next
        (fun more => next.takenFrom_tokens whole.1 more) rest
      have step := takeMembers_of_comma name taken
      simp only [List.cons_append] at step ⊢
      rw [later.1, later.2] at step
      exact step

end

end FieldRules.Json
