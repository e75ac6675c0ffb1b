import FieldRules.Proofs.Json.Written
import Mathlib.Data.List.Perm.Basic

/-!
A value is read back from its text if its numbers are and arrays and objects are not nested too deep in
it. Values that differ in the order of their members only are nested as deep, and their numbers are the
same.
-/

namespace FieldRules.Json

mutual

inductive Reading.Spells : Reading → Json → Prop
  | null : Reading.Spells .null .null
  | boolean (value : Bool) : Reading.Spells (.boolean value) (.boolean value)
  | integer {spelling : NumberText} {value : Int} :
      spelling.value? = some (.integer value) → Reading.Spells (.number spelling) (.integer value)
  | float {spelling : NumberText} {value : Binary64} :
      spelling.value? = some (.float value) → Reading.Spells (.number spelling) (.float value)
  | string {pieces : List Piece} {value : String} :
      stringOfPieces? pieces = some value → Reading.Spells (.string pieces) (.string value)
  | array {items : Items} {values : List Json} :
      Items.Spell items values → Reading.Spells (.array items) (.array values)
  | object {members : Members} {values : List (String × Json)} :
      Members.Spell members values → Reading.Spells (.object members) (.object values)

inductive Items.Spell : Items → List Json → Prop
  | closed : Items.Spell .closed []
  | item {value : Reading} {rest : Items} {json : Json} {others : List Json} :
      Reading.Spells value json → Items.Spell rest others →
      Items.Spell (.item value rest) (json :: others)

inductive Members.Spell : Members → List (String × Json) → Prop
  | closed : Members.Spell .closed []
  | member {pieces : List Piece} {name : String} {value : Reading} {rest : Members} {json : Json}
      {others : List (String × Json)} :
      stringOfPieces? pieces = some name → Reading.Spells value json → Members.Spell rest others →
      Members.Spell (.member pieces value rest) ((name, json) :: others)

end

mutual

def nesting : Json → Nat
  | array items => itemsNesting items + 1
  | object members => membersNesting members + 1
  | _ => 0

def itemsNesting : List Json → Nat
  | [] => 0
  | item :: rest => max item.nesting (itemsNesting rest)

def membersNesting : List (String × Json) → Nat
  | [] => 0
  | (_, value) :: rest => max value.nesting (membersNesting rest)

end

/-- Of two parts in a row both must have room. -/
theorem bind_of_max {α β γ : Type} (join : α → β → γ) (first : α) (rest : β)
    (firstNesting restNesting room : Nat) :
    ((if firstNesting ≤ room then some first else none).bind fun first =>
      (if restNesting ≤ room then some rest else none).bind fun rest => some (join first rest)) =
      if max firstNesting restNesting ≤ room then some (join first rest) else none := by
  by_cases firstFits : firstNesting ≤ room
  · rw [if_pos firstFits, Option.bind_some]
    by_cases restFits : restNesting ≤ room
    · rw [if_pos restFits, Option.bind_some, if_pos (Nat.max_le.mpr ⟨firstFits, restFits⟩)]
    · rw [if_neg restFits, Option.bind_none, if_neg fun fits => restFits (Nat.max_le.mp fits).2]
  · rw [if_neg firstFits, Option.bind_none, if_neg fun fits => firstFits (Nat.max_le.mp fits).1]

mutual

theorem Reading.Spells.value?_eq {reading : Reading} {json : Json} (spells : reading.Spells json)
    (room : Nat) : reading.value? room = if json.nesting ≤ room then some json else none := by
  cases spells with
  | null => simp [Reading.value?, nesting]
  | boolean value => simp [Reading.value?, nesting]
  | integer found => simp [Reading.value?, nesting, found]
  | float found => simp [Reading.value?, nesting, found]
  | string found => simp [Reading.value?, nesting, found]
  | @array items values spell =>
      cases room with
      | zero => simp [Reading.value?, nesting]
      | succ room =>
          have inner := spell.values?_eq room
          by_cases fits : itemsNesting values ≤ room
          · simp [Reading.value?, nesting, inner, fits]
          · simp [Reading.value?, nesting, inner, fits]
  | @object members values spell =>
      cases room with
      | zero => simp [Reading.value?, nesting]
      | succ room =>
          have inner := spell.values?_eq room
          by_cases fits : membersNesting values ≤ room
          · simp [Reading.value?, nesting, inner, fits]
          · simp [Reading.value?, nesting, inner, fits]

theorem Items.Spell.values?_eq {items : Items} {values : List Json} (spell : items.Spell values)
    (room : Nat) : items.values? room = if itemsNesting values ≤ room then some values else none := by
  cases spell with
  | closed => simp [Items.values?, itemsNesting]
  | @item value rest json others spells spell =>
      rw [Items.values?, spells.value?_eq, spell.values?_eq, itemsNesting]
      exact bind_of_max List.cons json others _ _ room

theorem Members.Spell.values?_eq {members : Members} {values : List (String × Json)}
    (spell : members.Spell values) (room : Nat) :
    members.values? room = if membersNesting values ≤ room then some values else none := by
  cases spell with
  | closed => simp [Members.values?, membersNesting]
  | @member pieces name value rest json others named spells spell =>
      rw [Members.values?, named, spells.value?_eq, spell.values?_eq, membersNesting]
      exact bind_of_max (fun value rest => (name, value) :: rest) json others _ _ room

end

mutual

/-- Every number in the value is read back from its own text. -/
def IsReadable : Json → Prop
  | integer value => numberOfText? (Text.intText value) = some (integer value)
  | float value => numberOfText? (floatText value).toList = some (float value)
  | array items => ItemsReadable items
  | object members => MembersReadable members
  | _ => True

def ItemsReadable : List Json → Prop
  | [] => True
  | item :: rest => item.IsReadable ∧ ItemsReadable rest

def MembersReadable : List (String × Json) → Prop
  | [] => True
  | (_, value) :: rest => value.IsReadable ∧ MembersReadable rest

end

theorem membersReadable_iff {members : List (String × Json)} :
    MembersReadable members ↔ ∀ member ∈ members, member.2.IsReadable := by
  induction members with
  | nil => simp [MembersReadable]
  | cons member members ih => simp [MembersReadable, ih]

theorem numberOfText?_of_numberText? {text : List Char} {spelling : NumberText}
    (found : numberText? text = some (spelling, [])) : numberOfText? text = spelling.value? := by
  rw [numberOfText?, found]

theorem numberOfText?_floatText_of_nonfinite {value : Binary64} (nonfinite : value.isFinite = false) :
    numberOfText? (floatText value).toList = none := by
  rw [floatText_of_nonfinite nonfinite]
  decide

mutual

theorem Reading.Writes.spells {reading : Reading} {json : Json} (writes : reading.Writes json)
    (readable : json.IsReadable) : reading.Spells json := by
  cases writes with
  | null => exact .null
  | boolean value => exact .boolean value
  | integer found => exact .integer ((numberOfText?_of_numberText? found).symm.trans readable)
  | float finite found => exact .float ((numberOfText?_of_numberText? found).symm.trans readable)
  | nonfinite nonfinite =>
      have unread := (numberOfText?_floatText_of_nonfinite nonfinite).symm.trans readable
      cases unread
  | string spelled => exact .string spelled
  | array write => exact .array (write.spell readable)
  | object write => exact .object (write.spell readable)

theorem Items.Write.spell {items : Items} {values : List Json} (write : items.Write values)
    (readable : ItemsReadable values) : items.Spell values := by
  cases write with
  | closed => exact .closed
  | item writes write => exact .item (writes.spells readable.1) (write.spell readable.2)

theorem Members.Write.spell {members : Members} {values : List (String × Json)}
    (write : members.Write values) (readable : MembersReadable values) : members.Spell values := by
  cases write with
  | closed => exact .closed
  | member named writes write =>
      exact .member named (writes.spells readable.1) (write.spell readable.2)

end

theorem numberOfText?_floatText_of_tenths {x : Binary64} {spelling : NumberText} {tenths : Nat}
    (found : numberText? (floatText x).toList = some (spelling, []))
    (value : spelling.value? = floatOf? false tenths (-1))
    (quotient : (Binary64.ofInt tenths).div (Binary64.ofDecimal false 1 1) = x)
    (positive : x.isNegative = false) :
    numberOfText? (floatText x).toList = some (.float x) := by
  have scaled : scaleByTen? (Binary64.ofInt tenths) (-1) = some x := by
    rw [scaleByTen?, ← quotient]
    rfl
  have same := x.ofMagnitude_magnitude
  rw [positive] at same
  rw [numberOfText?_of_numberText? found, value, floatOf?, scaled, Option.map_some, same]

theorem isReadable_ofScalar {value : Scalar}
    (readBack : ∀ x, value = .float x → numberOfText? (floatText x).toList = some (.float x)) :
    (ofScalar value).IsReadable := by
  cases value with
  | int value =>
      have lower := value.le_toInt
      have upper := value.toInt_lt
      exact numberOfText?_intText (by omega) (by omega)
  | float x => exact readBack x rfl
  | text value => trivial

theorem exists_document {json : Json} (readable : json.IsReadable) :
    ∃ reading : Reading, reading.Spells json ∧
      ∀ text : String, Spaced json.words text.toList → Document.ofText text = ⟨reading, false⟩ := by
  obtain ⟨reading, writes, document⟩ := exists_document_words json
  exact ⟨reading, writes.spells readable, document⟩

theorem ofText?_text {json : Json} (readable : json.IsReadable) :
    ofText? json.text = if json.nesting ≤ maxNesting then some json else none := by
  obtain ⟨reading, spells, document⟩ := exists_document readable
  rw [ofText?, document json.text (spaced_text json)]
  exact spells.value?_eq maxNesting

mutual

inductive EqualUpToOrder : Json → Json → Prop
  | refl (json : Json) : EqualUpToOrder json json
  | array {items others : List Json} :
      ItemsEqualUpToOrder items others → EqualUpToOrder (.array items) (.array others)
  | object {members moved others : List (String × Json)} :
      members.Perm moved → MembersEqualUpToOrder moved others →
      EqualUpToOrder (.object members) (.object others)

inductive ItemsEqualUpToOrder : List Json → List Json → Prop
  | nil : ItemsEqualUpToOrder [] []
  | cons {item other : Json} {items others : List Json} :
      EqualUpToOrder item other → ItemsEqualUpToOrder items others →
      ItemsEqualUpToOrder (item :: items) (other :: others)

inductive MembersEqualUpToOrder : List (String × Json) → List (String × Json) → Prop
  | nil : MembersEqualUpToOrder [] []
  | cons {name : String} {value other : Json} {members others : List (String × Json)} :
      EqualUpToOrder value other → MembersEqualUpToOrder members others →
      MembersEqualUpToOrder ((name, value) :: members) ((name, other) :: others)

end

theorem membersEqualUpToOrder_refl (members : List (String × Json)) :
    MembersEqualUpToOrder members members := by
  induction members with
  | nil => exact .nil
  | cons member members ih => exact .cons (.refl member.2) ih

theorem EqualUpToOrder.exists_members {json : Json} {others : List (String × Json)}
    (equal : json.EqualUpToOrder (.object others)) :
    ∃ members moved, json = .object members ∧ members.Perm moved ∧
      MembersEqualUpToOrder moved others := by
  cases equal with
  | refl => exact ⟨others, others, rfl, .refl others, membersEqualUpToOrder_refl others⟩
  | @object members moved _ order equal => exact ⟨members, moved, rfl, order, equal⟩

theorem EqualUpToOrder.eq_string {json : Json} {value : String}
    (equal : json.EqualUpToOrder (.string value)) : json = .string value := by
  cases equal
  rfl

theorem EqualUpToOrder.eq_ofScalar {json : Json} {value : Scalar}
    (equal : json.EqualUpToOrder (ofScalar value)) : json = ofScalar value := by
  cases value <;> cases equal <;> rfl

/-! ### Nesting and numbers -/

theorem membersNesting_eq_of_perm {members others : List (String × Json)}
    (order : members.Perm others) : membersNesting members = membersNesting others := by
  induction order with
  | nil => rfl
  | cons member _ ih => rw [membersNesting, membersNesting, ih]
  | swap first second members =>
      simp only [membersNesting]
      omega
  | trans _ _ first second => exact first.trans second

mutual

theorem EqualUpToOrder.nesting_eq {json other : Json} (equal : json.EqualUpToOrder other) :
    json.nesting = other.nesting := by
  cases equal with
  | refl json => rfl
  | array equal => rw [nesting, nesting, equal.itemsNesting_eq]
  | object order equal =>
      rw [nesting, nesting, membersNesting_eq_of_perm order, equal.membersNesting_eq]

theorem ItemsEqualUpToOrder.itemsNesting_eq {items others : List Json}
    (equal : ItemsEqualUpToOrder items others) : itemsNesting items = itemsNesting others := by
  cases equal with
  | nil => rfl
  | cons equal rest => rw [itemsNesting, itemsNesting, equal.nesting_eq, rest.itemsNesting_eq]

theorem MembersEqualUpToOrder.membersNesting_eq {members others : List (String × Json)}
    (equal : MembersEqualUpToOrder members others) :
    membersNesting members = membersNesting others := by
  cases equal with
  | nil => rfl
  | cons equal rest =>
      rw [membersNesting, membersNesting, equal.nesting_eq, rest.membersNesting_eq]

end

mutual

theorem EqualUpToOrder.isReadable {json other : Json} (equal : json.EqualUpToOrder other)
    (readable : other.IsReadable) : json.IsReadable := by
  cases equal with
  | refl json => exact readable
  | array equal => exact equal.itemsReadable readable
  | object order equal =>
      have moved := membersReadable_iff.mp (equal.membersReadable readable)
      exact membersReadable_iff.mpr fun member own => moved member (order.mem_iff.mp own)

theorem ItemsEqualUpToOrder.itemsReadable {items others : List Json}
    (equal : ItemsEqualUpToOrder items others) (readable : ItemsReadable others) :
    ItemsReadable items := by
  cases equal with
  | nil => exact readable
  | cons equal rest => exact ⟨equal.isReadable readable.1, rest.itemsReadable readable.2⟩

theorem MembersEqualUpToOrder.membersReadable {members others : List (String × Json)}
    (equal : MembersEqualUpToOrder members others) (readable : MembersReadable others) :
    MembersReadable members := by
  cases equal with
  | nil => exact readable
  | cons equal rest => exact ⟨equal.isReadable readable.1, rest.membersReadable readable.2⟩

end

end FieldRules.Json
