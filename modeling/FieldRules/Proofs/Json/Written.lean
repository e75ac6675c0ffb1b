import FieldRules.Proofs.Fields
import FieldRules.Proofs.Json.FloatText
import FieldRules.Proofs.Json.Reading
import FieldRules.Proofs.Json.Scalar

/-!
The document of a written value: it has the parts of the value, in their order, with null in place of
the floats that JSON has no text for.
-/

namespace FieldRules.Json

mutual

inductive Reading.Writes : Reading → Json → Prop
  | null : Reading.Writes .null .null
  | boolean (value : Bool) : Reading.Writes (.boolean value) (.boolean value)
  | integer {spelling : NumberText} {value : Int} :
      numberText? (Text.intText value) = some (spelling, []) →
      Reading.Writes (.number spelling) (.integer value)
  | float {spelling : NumberText} {value : Binary64} :
      value.isFinite = true → numberText? (floatText value).toList = some (spelling, []) →
      Reading.Writes (.number spelling) (.float value)
  | nonfinite {value : Binary64} : value.isFinite = false → Reading.Writes .null (.float value)
  | string {pieces : List Piece} {value : String} :
      stringOfPieces? pieces = some value → Reading.Writes (.string pieces) (.string value)
  | array {items : Items} {values : List Json} :
      Items.Write items values → Reading.Writes (.array items) (.array values)
  | object {members : Members} {values : List (String × Json)} :
      Members.Write members values → Reading.Writes (.object members) (.object values)

inductive Items.Write : Items → List Json → Prop
  | closed : Items.Write .closed []
  | item {value : Reading} {rest : Items} {json : Json} {others : List Json} :
      Reading.Writes value json → Items.Write rest others →
      Items.Write (.item value rest) (json :: others)

inductive Members.Write : Members → List (String × Json) → Prop
  | closed : Members.Write .closed []
  | member {pieces : List Piece} {name : String} {value : Reading} {rest : Members} {json : Json}
      {others : List (String × Json)} :
      stringOfPieces? pieces = some name → Reading.Writes value json → Members.Write rest others →
      Members.Write (.member pieces value rest) ((name, json) :: others)

end

mutual

theorem Reading.Writes.isWhole {reading : Reading} {json : Json} (writes : reading.Writes json) :
    reading.isWhole = true := by
  cases writes with
  | array write => exact write.areWhole
  | object write => exact write.areWhole
  | _ => rfl

theorem Items.Write.areWhole {items : Items} {values : List Json} (write : items.Write values) :
    items.areWhole = true := by
  cases write with
  | closed => rfl
  | item writes write => simp [Items.areWhole, writes.isWhole, write.areWhole]

theorem Members.Write.areWhole {members : Members} {values : List (String × Json)}
    (write : members.Write values) : members.areWhole = true := by
  cases write with
  | closed => rfl
  | member named writes write => simp [Members.areWhole, writes.isWhole, write.areWhole]

end

theorem floatText_of_nonfinite {value : Binary64} (nonfinite : value.isFinite = false) :
    floatText value = "null" := by
  simp [floatText, nonfinite]

theorem exists_numberText?_floatText {value : Binary64} (finite : value.isFinite = true) :
    ∃ spelling, numberText? (floatText value).toList = some (spelling, []) := by
  have marked : IsFloatText (value.text .json) := Binary64.isFloatText_text finite rfl
  obtain ⟨spelling, found, -⟩ := marked
  refine ⟨spelling, ?_⟩
  rw [floatText, if_pos finite, String.toList_ofList]
  exact found

mutual

theorem exists_reading (json : Json) :
    ∃ reading : Reading, reading.Writes json ∧
      ∀ {words : List (List Char)} {tokens : List Token}, EndNumbers words → Lexes words tokens →
        Lexes (json.words ++ words) (reading.tokens ++ tokens) := by
  cases json with
  | null =>
      refine ⟨.null, .null, ?_⟩
      intro words tokens _ lexes
      exact lexes.cons fun rest _ => Token.ofText_cons (by decide) rfl
  | boolean value =>
      refine ⟨.boolean value, .boolean value, ?_⟩
      intro words tokens _ lexes
      cases value with
      | true => exact lexes.cons fun rest _ => Token.ofText_cons (by decide) rfl
      | false => exact lexes.cons fun rest _ => Token.ofText_cons (by decide) rfl
  | integer value =>
      have found := numberText?_intText value
      refine ⟨_, .integer found, ?_⟩
      intro words tokens ends lexes
      refine lexes.cons fun rest follows => ?_
      rw [text, String.toList_ofList, Token.ofText_number found (follows ends)]
  | float value =>
      cases finite : value.isFinite with
      | true =>
          obtain ⟨spelling, found⟩ := exists_numberText?_floatText finite
          refine ⟨_, .float finite found, ?_⟩
          intro words tokens ends lexes
          exact lexes.cons fun rest follows => Token.ofText_number found (follows ends)
      | false =>
          refine ⟨.null, .nonfinite finite, ?_⟩
          intro words tokens _ lexes
          refine lexes.cons fun rest _ => ?_
          rw [text, floatText_of_nonfinite finite]
          exact Token.ofText_cons (by decide) rfl
  | string value =>
      obtain ⟨pieces, spelled, read⟩ := Token.ofText_quote value
      refine ⟨.string pieces, .string spelled, ?_⟩
      intro words tokens _ lexes
      exact lexes.cons fun rest _ => read rest
  | array values =>
      cases values with
      | nil =>
          refine ⟨.array .closed, .array .closed, ?_⟩
          intro words tokens _ lexes
          have close := lexes.punctuation (c := ']') (by decide) fun _ => rfl
          exact close.punctuation (by decide) fun _ => rfl
      | cons first values =>
          obtain ⟨reading, writes, read⟩ := exists_reading first
          obtain ⟨items, write, later⟩ := exists_items values
          refine ⟨.array (.item reading items), .array (.item writes write), ?_⟩
          intro words tokens _ lexes
          have value := read (endNumbers_itemsWords values words) (later lexes)
          rw [Json.words, Reading.tokens, List.cons_append, List.cons_append, List.append_assoc,
            List.append_assoc]
          exact value.punctuation (by decide) fun _ => rfl
  | object members =>
      cases members with
      | nil =>
          refine ⟨.object .closed, .object .closed, ?_⟩
          intro words tokens _ lexes
          have close := lexes.punctuation (c := '\x7d') (by decide) fun _ => rfl
          exact close.punctuation (by decide) fun _ => rfl
      | cons first members =>
          obtain ⟨name, value⟩ := first
          obtain ⟨pieces, named, start⟩ := Lexes.exists_name name
          obtain ⟨reading, writes, read⟩ := exists_reading value
          obtain ⟨found, write, later⟩ := exists_members members
          refine ⟨.object (.member pieces reading found), .object (.member named writes write), ?_⟩
          intro words tokens _ lexes
          have member := start (read (endNumbers_membersWords members words) (later lexes))
          rw [Json.words, Reading.tokens]
          simp only [List.cons_append, List.append_assoc]
          exact member.punctuation (by decide) fun _ => rfl

theorem exists_items (values : List Json) :
    ∃ items : Items, items.Write values ∧
      ∀ {words : List (List Char)} {tokens : List Token}, Lexes words tokens →
        Lexes (itemsWords values ++ words) (items.laterTokens ++ tokens) := by
  cases values with
  | nil =>
      refine ⟨.closed, .closed, ?_⟩
      intro words tokens lexes
      exact lexes.punctuation (by decide) fun _ => rfl
  | cons first values =>
      obtain ⟨reading, writes, read⟩ := exists_reading first
      obtain ⟨items, write, later⟩ := exists_items values
      refine ⟨.item reading items, .item writes write, ?_⟩
      intro words tokens lexes
      have item := read (endNumbers_itemsWords values words) (later lexes)
      rw [itemsWords, Items.laterTokens, List.cons_append, List.cons_append, List.append_assoc,
        List.append_assoc]
      exact item.punctuation (by decide) fun _ => rfl

theorem exists_members (members : List (String × Json)) :
    ∃ found : Members, found.Write members ∧
      ∀ {words : List (List Char)} {tokens : List Token}, Lexes words tokens →
        Lexes (membersWords members ++ words) (found.laterTokens ++ tokens) := by
  cases members with
  | nil =>
      refine ⟨.closed, .closed, ?_⟩
      intro words tokens lexes
      exact lexes.punctuation (by decide) fun _ => rfl
  | cons first members =>
      obtain ⟨name, value⟩ := first
      obtain ⟨pieces, named, start⟩ := Lexes.exists_name name
      obtain ⟨reading, writes, read⟩ := exists_reading value
      obtain ⟨found, write, later⟩ := exists_members members
      refine ⟨.member pieces reading found, .member named writes write, ?_⟩
      intro words tokens lexes
      have member := start (read (endNumbers_membersWords members words) (later lexes))
      rw [membersWords, Members.laterTokens]
      simp only [List.cons_append, List.append_assoc]
      exact member.punctuation (by decide) fun _ => rfl

end

/-- The documents of all texts that are made of a value's words are the same reading of it, and nothing
follows it. -/
theorem exists_document_words (json : Json) :
    ∃ reading : Reading, reading.Writes json ∧
      ∀ text : String, Spaced json.words text.toList → Document.ofText text = ⟨reading, false⟩ := by
  obtain ⟨reading, writes, read⟩ := exists_reading json
  refine ⟨reading, writes, ?_⟩
  intro text spaced
  have tokens := read endNumbers_nil lexes_nil
  rw [List.append_nil] at tokens
  have taken := reading.takenFrom_tokens writes.isWhole []
  rw [Document.ofText, tokens text.toList spaced]
  simp only [taken.1, taken.2, List.isEmpty_nil, Bool.not_true]

def writtenKind? : Json → Option Scalar.Kind
  | integer value => some (if Text.fitsInt64 value then .integer else .float)
  | float value => if value.isFinite then some .float else none
  | string _ => some .string
  | _ => none

theorem int64?_intText {value : Int} {spelling : NumberText}
    (found : numberText? (Text.intText value) = some (spelling, [])) :
    spelling.int64?.isSome = Text.fitsInt64 value := by
  rw [numberText?_intText, Option.some.injEq, Prod.mk.injEq] at found
  obtain ⟨rfl, -⟩ := found
  have signed : NumberText.signed ⟨decide (value < 0), Nat.toDigits 10 value.natAbs, none, none⟩ =
      value := by
    simp only [NumberText.signed, Nat.ofDigitChars_ten_toDigits, decide_eq_true_eq]
    split <;> omega
  have unsigned : ¬(value < 0 ∧ value = 0) := by omega
  rw [NumberText.int64?, signed]
  cases fits : Text.fitsInt64 value <;> simp [unsigned]

theorem int64?_floatText {value : Binary64} {spelling : NumberText} (finite : value.isFinite = true)
    (found : numberText? (floatText value).toList = some (spelling, [])) :
    spelling.int64? = none := by
  rw [floatText, if_pos finite, String.toList_ofList] at found
  have marked : IsFloatText (value.text .json) := Binary64.isFloatText_text finite rfl
  obtain ⟨other, own, mark⟩ := marked
  cases own.symm.trans found
  exact NumberText.int64?_of_mark mark

theorem Reading.Writes.kind_value {reading : Reading} {json value : Json} {room : Nat}
    (writes : reading.Writes json) (read : reading.value? room = some value) :
    json.writtenKind? = value.scalar?.map Scalar.kind := by
  cases writes with
  | null =>
      cases read
      rfl
  | boolean _ =>
      cases read
      rfl
  | integer found => rw [NumberText.kind_of_value? read, int64?_intText found, writtenKind?]
  | float finite found =>
      rw [NumberText.kind_of_value? read, int64?_floatText finite found, writtenKind?, if_pos finite]
      rfl
  | nonfinite nonfinite =>
      cases read
      simp [writtenKind?, scalar?, nonfinite]
  | string _ =>
      obtain ⟨text, -, rfl⟩ := Option.map_eq_some_iff.mp read
      rfl
  | array _ =>
      simp only [Reading.value?, Option.ite_none_left_eq_some, Option.map_eq_some_iff] at read
      obtain ⟨-, items, -, rfl⟩ := read
      rfl
  | object _ =>
      simp only [Reading.value?, Option.ite_none_left_eq_some, Option.map_eq_some_iff] at read
      obtain ⟨-, members, -, rfl⟩ := read
      rfl

theorem Members.Write.namewise_kind {members : Members} {written values : List (String × Json)}
    {room : Nat} (write : members.Write written) (read : members.values? room = some values) :
    Namewise (fun _ => writtenKind?) (fun value => value.scalar?.map Scalar.kind) written values := by
  induction written generalizing members values with
  | nil =>
      cases write
      cases read
      exact .nil
  | cons first written ih =>
      cases write with
      | member named writes write =>
          obtain ⟨name, json, others, sameName, here, later, rfl⟩ := values?_member_eq_some_iff.mp read
          cases sameName.symm.trans named
          exact .cons ⟨rfl, writes.kind_value here⟩ (ih write later)

theorem namewise_kind_of_ofText?_text {written values : List (String × Json)}
    (found : ofText? (object written).text = some (object values)) :
    Namewise (fun _ => writtenKind?) (fun value => value.scalar?.map Scalar.kind) written values := by
  obtain ⟨reading, writes, document⟩ := exists_document_words (object written)
  replace document := document _ (spaced_text (object written))
  obtain ⟨members, same, read⟩ := ofText?_eq_object_iff.mp found
  cases document.symm.trans same
  cases writes with
  | object write => exact write.namewise_kind read

end FieldRules.Json
