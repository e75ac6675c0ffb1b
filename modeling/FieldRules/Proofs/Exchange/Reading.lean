import FieldRules.Exchange
import FieldRules.Proofs.Json.RoundTrip
import FieldRules.Proofs.Json.Scalar

/-!
Exchange trees are read back from their JSON, as values and as text, if JSON may be nested as deep
as they are high. The members of a node may stand in any order.
-/

namespace FieldRules.ExchangeTree

open Json (Reading Members orMalformed maxNesting)

def height : ExchangeTree → Nat
  | operator _ left right => max left.height right.height + 1
  | _ => 1

def literals : ExchangeTree → List Scalar
  | operator _ left right => left.literals ++ right.literals
  | identifier _ => []
  | literal value => [value]

theorem nesting_toJson (tree : ExchangeTree) : tree.toJson.nesting = tree.height := by
  induction tree with
  | operator value left right leftNesting rightNesting =>
      simp [toJson, Json.nesting, Json.membersNesting, height, leftNesting, rightNesting]
  | identifier name => rfl
  | literal value => cases value <;> rfl

def FloatsReadBack (tree : ExchangeTree) : Prop :=
  ∀ x, .float x ∈ tree.literals → Json.numberOfText? (Json.floatText x).toList = some (.float x)

theorem isReadable_toJson {tree : ExchangeTree} (readBack : tree.FloatsReadBack) :
    tree.toJson.IsReadable := by
  induction tree with
  | operator value left right leftReadable rightReadable =>
      have leftJson := leftReadable fun x member => readBack x (List.mem_append_left _ member)
      have rightJson := rightReadable fun x member => readBack x (List.mem_append_right _ member)
      exact ⟨trivial, trivial, leftJson, rightJson, trivial⟩
  | identifier name => exact ⟨trivial, trivial, trivial⟩
  | literal value =>
      have own : (Json.ofScalar value).IsReadable := by
        apply Json.isReadable_ofScalar
        rintro x rfl
        exact readBack x List.mem_cons_self
      exact ⟨trivial, own, trivial⟩

theorem memberParts_eq_map (members : List (String × Json)) :
    memberParts members = members.map fun member => (member.1, ⟨member.2, ofJson? member.2⟩) := by
  induction members with
  | nil => rfl
  | cons member members ih => rw [memberParts, ih, List.map_cons]

theorem memberParts_perm {members others : List (String × Json)} (order : members.Perm others) :
    (memberParts members).Perm (memberParts others) := by
  rw [memberParts_eq_map, memberParts_eq_map]
  exact order.map _

theorem theOnly?_eq_of_perm (name : String) {parts others : List (String × Part)}
    (order : parts.Perm others) : theOnly? name parts = theOnly? name others := by
  have same := order.filter fun part => part.1 == name
  unfold theOnly?
  generalize parts.filter (fun part => part.1 == name) = own at same ⊢
  generalize others.filter (fun part => part.1 == name) = other at same ⊢
  match own, other, same with
  | [], other, same => rw [same.symm.eq_nil]
  | [part], other, same => rw [List.perm_singleton.mp same.symm]
  | first :: second :: own, [], same => exact absurd same.eq_nil (List.cons_ne_nil _ _)
  | first :: second :: own, [part], same => cases same.length_eq
  | first :: second :: own, third :: fourth :: other, same => rfl

theorem ofNamedParts?_eq_of_perm (kind : Kind) {parts others : List (String × Part)}
    (order : parts.Perm others) : ofNamedParts? kind parts = ofNamedParts? kind others := by
  have same : (fun name => theOnly? name parts) = fun name => theOnly? name others :=
    funext fun name => theOnly?_eq_of_perm name order
  rw [ofNamedParts?, ofNamedParts?, same]

theorem ofNamedParts?_cons_tag (kind : Kind) (part : Part) (parts : List (String × Part)) :
    ofNamedParts? kind ((tagName, part) :: parts) = ofNamedParts? kind parts := by
  cases kind <;> simp [ofNamedParts?, Kind.fields, theOnly?, tagName]

theorem ofNamedParts?_operator (value : String) {left right : ExchangeTree} {leftJson rightJson : Json}
    (leftRead : ofJson? leftJson = some left) (rightRead : ofJson? rightJson = some right) :
    ofNamedParts? .operator
        (memberParts [("value", .string value), ("left", leftJson), ("right", rightJson)]) =
      some (operator value left right) := by
  simp [ofNamedParts?, Kind.fields, memberParts, leftRead, rightRead, theOnly?, ofParts?]

theorem ofNamedParts?_identifier (name : String) :
    ofNamedParts? .identifier (memberParts [("name", .string name)]) = some (identifier name) := by
  simp [ofNamedParts?, Kind.fields, memberParts, theOnly?, ofParts?]

theorem ofNamedParts?_literal (value : Scalar) :
    ofNamedParts? .literal (memberParts [("value", .ofScalar value)]) = some (literal value) := by
  simp [ofNamedParts?, Kind.fields, memberParts, theOnly?, ofParts?, Json.scalar?_ofScalar]

/-- The members are the kind and the parts of the tree's root, in any order. -/
def HasMembers (tree : ExchangeTree) (members : List (String × Json)) : Prop :=
  ∃ own, members.Perm ((tagName, .string tree.kind.name) :: own) ∧
    (∀ member ∈ own, member.1 ≠ tagName) ∧ ofNamedParts? tree.kind (memberParts own) = some tree

theorem ofName?_name (kind : Kind) : Kind.ofName? kind.name = some kind := by
  cases kind <;> decide

theorem theOnly?_tagName {own : List (String × Json)} (untagged : ∀ member ∈ own, member.1 ≠ tagName)
    (part : Part) : theOnly? tagName ((tagName, part) :: memberParts own) = some part := by
  have others : (memberParts own).filter (fun part => part.1 == tagName) = [] := by
    rw [memberParts_eq_map, List.filter_eq_nil_iff]
    rintro _ listed
    obtain ⟨member, found, rfl⟩ := List.mem_map.mp listed
    simpa using untagged member found
  simp [theOnly?, others]

theorem HasMembers.ofJson?_eq {tree : ExchangeTree} {members : List (String × Json)}
    (has : tree.HasMembers members) : ofJson? (.object members) = some tree := by
  obtain ⟨own, order, untagged, found⟩ := has
  have parts := memberParts_perm order
  rw [memberParts] at parts
  rw [ofJson?]
  simp only [theOnly?_eq_of_perm tagName parts, theOnly?_tagName untagged, Option.bind_eq_bind,
    Option.bind_some, Kind.ofJson?, ofName?_name, ofNamedParts?_eq_of_perm tree.kind parts,
    ofNamedParts?_cons_tag, found]

theorem exists_hasMembers {tree : ExchangeTree} {json : Json}
    (equal : json.EqualUpToOrder tree.toJson) :
    ∃ members, json = .object members ∧ tree.HasMembers members := by
  induction tree generalizing json with
  | operator value left right leftHas rightHas =>
      obtain ⟨members, moved, rfl, order, equal⟩ := equal.exists_members
      rcases equal with _ | ⟨tag, _ | ⟨named, _ | ⟨leftEqual, _ | ⟨rightEqual, _ | _⟩⟩⟩⟩
      obtain ⟨leftMembers, rfl, leftHas⟩ := leftHas leftEqual
      obtain ⟨rightMembers, rfl, rightHas⟩ := rightHas rightEqual
      obtain rfl := tag.eq_string
      obtain rfl := named.eq_string
      exact ⟨members, rfl, _, order, by simp [tagName],
        ofNamedParts?_operator value leftHas.ofJson?_eq rightHas.ofJson?_eq⟩
  | identifier name =>
      obtain ⟨members, moved, rfl, order, equal⟩ := equal.exists_members
      rcases equal with _ | ⟨tag, _ | ⟨named, _ | _⟩⟩
      obtain rfl := tag.eq_string
      obtain rfl := named.eq_string
      exact ⟨members, rfl, _, order, by simp [tagName], ofNamedParts?_identifier name⟩
  | literal value =>
      obtain ⟨members, moved, rfl, order, equal⟩ := equal.exists_members
      rcases equal with _ | ⟨tag, _ | ⟨named, _ | _⟩⟩
      obtain rfl := tag.eq_string
      obtain rfl := named.eq_ofScalar
      exact ⟨members, rfl, _, order, by simp [tagName], ofNamedParts?_literal value⟩

theorem readTag_of_named {pieces : List Json.Piece} {kind : Kind}
    (named : Json.stringOfPieces? pieces = some kind.name) : readTag (.string pieces) = .ok kind := by
  simp [readTag, Json.nameOf, Json.orMalformed, named, ofName?_name, bind, Except.bind, pure,
    Except.pure]

theorem readMembers_tag {pieces : List Json.Piece} {value : Reading} {rest : Members} {kind : Kind}
    (named : Json.stringOfPieces? pieces = some tagName) (tagged : readTag value = .ok kind) :
    readMembers none (.member pieces value rest) = readMembers (some kind) rest := by
  simp [readMembers, Json.nameOf, Json.orMalformed, named, tagged, bind, Except.bind]

theorem readMembers_own {pieces : List Json.Piece} {name : String} {value : Reading} {rest : Members}
    {kind : Option Kind} (named : Json.stringOfPieces? pieces = some name) (own : name ≠ tagName) :
    readMembers kind (.member pieces value rest) =
      (orMalformed (value.value? (maxNesting - 1))).bind fun value =>
        (readMembers kind rest).map fun (kind, others) => (kind, (name, value) :: others) := by
  rw [readMembers, Json.nameOf, named]
  simp only [orMalformed, bind, Except.bind, if_neg own]
  cases value.value? (maxNesting - 1) with
  | none => rfl
  | some value => cases readMembers kind rest <;> rfl

def ReadsAs (kind : Option Kind) (members : Members) (found : Kind) (values : List (String × Json)) :
    Prop :=
  readMembers kind members =
    if Json.membersNesting values < maxNesting then .ok (found, values) else .error .malformed

theorem ReadsAs.cons {pieces : List Json.Piece} {name : String} {value : Reading} {json : Json}
    {rest : Members} {kind : Option Kind} {found : Kind} {values : List (String × Json)}
    (later : ReadsAs kind rest found values) (named : Json.stringOfPieces? pieces = some name)
    (own : name ≠ tagName) (spells : value.Spells json) :
    ReadsAs kind (.member pieces value rest) found ((name, json) :: values) := by
  rw [ReadsAs, readMembers_own named own, spells.value?_eq, later, Json.membersNesting]
  by_cases fits : json.nesting ≤ maxNesting - 1
  · by_cases others : Json.membersNesting values < maxNesting
    · rw [if_pos fits, if_pos others, if_pos (by simp only [maxNesting] at *; omega)]
      rfl
    · rw [if_pos fits, if_neg others, if_neg (by omega)]
      rfl
  · have beyond : ¬max json.nesting (Json.membersNesting values) < maxNesting := by omega
    rw [if_neg fits, if_neg beyond]
    rfl

theorem readsAs_of_untagged {found : Members} {values : List (String × Json)}
    (spell : found.Spell values) (kind : Kind) (untagged : ∀ member ∈ values, member.1 ≠ tagName) :
    ReadsAs (some kind) found kind values := by
  induction values generalizing found with
  | nil =>
      cases spell
      rfl
  | cons first values ih =>
      obtain ⟨here, others⟩ := List.forall_mem_cons.mp untagged
      cases spell with
      | member named spells spell => exact (ih spell others).cons named here spells

theorem readsAs_of_tagged {found : Members} {before after : List (String × Json)} {kind : Kind}
    (spell : found.Spell (before ++ (tagName, .string kind.name) :: after))
    (untagged : ∀ member ∈ before ++ after, member.1 ≠ tagName) :
    ReadsAs none found kind (before ++ after) := by
  induction before generalizing found with
  | nil =>
      cases spell with
      | member named tagSpells spell =>
          cases tagSpells with
          | string tagged =>
              rw [ReadsAs, readMembers_tag named (readTag_of_named tagged)]
              exact readsAs_of_untagged spell kind untagged
  | cons first before ih =>
      obtain ⟨here, others⟩ := List.forall_mem_cons.mp untagged
      cases spell with
      | member named spells spell => exact (ih spell others).cons named here spells

/-- The root is taken apart as it is read, but into the same node as an inner object. -/
theorem HasMembers.read_eq {tree : ExchangeTree} {members : List (String × Json)} {reading : Reading}
    (has : tree.HasMembers members) (spells : reading.Spells (.object members)) :
    read reading =
      if Json.membersNesting members < maxNesting then .ok tree else .error .malformed := by
  obtain ⟨own, order, untagged, found⟩ := has
  have tagged : (tagName, .string tree.kind.name) ∈ members := order.mem_iff.mpr List.mem_cons_self
  obtain ⟨before, after, rfl⟩ := List.append_of_mem tagged
  have others : (before ++ after).Perm own := (List.perm_middle.symm.trans order).cons_inv
  have nesting : Json.membersNesting (before ++ (tagName, .string tree.kind.name) :: after) =
      Json.membersNesting (before ++ after) := by
    rw [Json.membersNesting_eq_of_perm List.perm_middle]
    exact Nat.zero_max _
  cases spells with
  | object spell =>
      have reads := readsAs_of_tagged spell fun member listed =>
        untagged member (others.mem_iff.mp listed)
      rw [read, reads, nesting]
      by_cases fits : Json.membersNesting (before ++ after) < maxNesting
      · rw [if_pos fits, if_pos fits]
        simp only [bind, Except.bind, ofNamedParts?_eq_of_perm tree.kind (memberParts_perm others),
          found, orMismatched]
      · rw [if_neg fits, if_neg fits]
        rfl

/-- A tree's JSON is read back from all texts of it, in which the members of objects may stand in any
order and blanks between the tokens, if the tree is not too high. -/
theorem readWith_words {tree : ExchangeTree} {json : Json} {text : String}
    (readBack : tree.FloatsReadBack) (equal : json.EqualUpToOrder tree.toJson)
    (spaced : Json.Spaced json.words text.toList) :
    Json.readWith read text =
      if tree.height ≤ maxNesting then .ok tree else .error .malformed := by
  have readable := equal.isReadable (isReadable_toJson readBack)
  obtain ⟨reading, spells, document⟩ := Json.exists_document readable
  have nesting := equal.nesting_eq
  obtain ⟨members, rfl, has⟩ := exists_hasMembers equal
  rw [Json.nesting, nesting_toJson] at nesting
  rw [Json.readWith, document text spaced, ← nesting]
  simp only [has.read_eq spells]
  by_cases fits : Json.membersNesting members < maxNesting
  · rw [if_pos fits, if_pos (Nat.succ_le_of_lt fits)]
    rfl
  · have high : ¬Json.membersNesting members + 1 ≤ maxNesting := fits
    rw [if_neg fits, if_neg high]
    rfl

end FieldRules.ExchangeTree
