import FieldRules.Proofs.Exchange.Reading
import FieldRules.Proofs.Json.Scalar

/-!
Exchange trees that are read from JSON are no higher than JSON may be nested.
-/

namespace FieldRules

namespace Json

theorem nesting_of_number {spelling : NumberText} {json : Json}
    (found : spelling.value? = some json) : json.nesting = 0 := by
  obtain ⟨i, rfl⟩ | ⟨x, rfl⟩ := NumberText.integer_or_float found <;> rfl

mutual

theorem Reading.nesting_le_of_value? {reading : Reading} {room : Nat} {json : Json}
    (found : reading.value? room = some json) : json.nesting ≤ room := by
  cases reading with
  | null =>
      cases found
      exact Nat.zero_le _
  | boolean value =>
      cases found
      exact Nat.zero_le _
  | number spelling =>
      rw [nesting_of_number found]
      exact Nat.zero_le _
  | string pieces =>
      obtain ⟨text, _, rfl⟩ := Option.map_eq_some_iff.mp found
      exact Nat.zero_le _
  | array items =>
      rw [Reading.value?] at found
      split at found
      · cases found
      · obtain ⟨values, inner, rfl⟩ := Option.map_eq_some_iff.mp found
        have bound := Items.nesting_le_of_values? inner
        rw [nesting]
        omega
  | object members =>
      rw [Reading.value?] at found
      split at found
      · cases found
      · obtain ⟨values, inner, rfl⟩ := Option.map_eq_some_iff.mp found
        have bound := Members.nesting_le_of_values? inner
        rw [nesting]
        omega
  | cut => cases found

theorem Items.nesting_le_of_values? {items : Items} {room : Nat} {values : List Json}
    (found : items.values? room = some values) : itemsNesting values ≤ room := by
  cases items with
  | closed =>
      cases found
      exact Nat.zero_le _
  | cut => cases found
  | item value rest =>
      simp only [Items.values?, Option.bind_eq_bind, Option.bind_eq_some_iff, Option.pure_def,
        Option.some.injEq] at found
      obtain ⟨json, first, others, later, rfl⟩ := found
      exact Nat.max_le.mpr ⟨Reading.nesting_le_of_value? first, Items.nesting_le_of_values? later⟩

theorem Members.nesting_le_of_values? {members : Members} {room : Nat}
    {values : List (String × Json)} (found : members.values? room = some values) :
    membersNesting values ≤ room := by
  cases members with
  | closed =>
      cases found
      exact Nat.zero_le _
  | cut => cases found
  | member pieces value rest =>
      simp only [Members.values?, Option.bind_eq_bind, Option.bind_eq_some_iff, Option.pure_def,
        Option.some.injEq] at found
      obtain ⟨name, _, json, first, others, later, rfl⟩ := found
      exact Nat.max_le.mpr ⟨Reading.nesting_le_of_value? first, Members.nesting_le_of_values? later⟩

end

end Json

namespace ExchangeTree

open Json (Reading Items Members maxNesting orMalformed)

def Part.Within (bound : Nat) (part : Part) : Prop :=
  ∀ tree, part.tree = some tree → tree.height ≤ bound

theorem Part.Within.mono {bound wide : Nat} {part : Part} (within : part.Within bound)
    (wider : bound ≤ wide) : part.Within wide :=
  fun tree own => Nat.le_trans (within tree own) wider

theorem height_le_of_ofParts? {kind : Kind} {parts : List Part} {bound : Nat} {tree : ExchangeTree}
    (within : ∀ part ∈ parts, part.Within bound) (found : ofParts? kind parts = some tree) :
    tree.height ≤ bound + 1 := by
  unfold ofParts? at found
  split at found
  · rename_i value left right
    split at found
    · simp only [Option.bind_eq_bind, Option.bind_eq_some_iff, Option.pure_def,
        Option.some.injEq] at found
      obtain ⟨leftTree, leftFound, rightTree, rightFound, rfl⟩ := found
      have leftBound := within left (by simp) leftTree leftFound
      have rightBound := within right (by simp) rightTree rightFound
      rw [height]
      omega
    · cases found
  · split at found
    · cases found
      exact Nat.le_add_left 1 bound
    · cases found
  · obtain ⟨value, _, rfl⟩ := Option.map_eq_some_iff.mp found
    exact Nat.le_add_left 1 bound
  · cases found

theorem exists_of_theOnly? {name : String} {parts : List (String × Part)} {part : Part}
    (found : theOnly? name parts = some part) : ∃ entry ∈ parts, entry.2 = part := by
  unfold theOnly? at found
  split at found
  · rename_i entry only
    cases found
    have member : entry ∈ parts.filter fun part => part.1 == name := by simp [only]
    exact ⟨entry, (List.mem_filter.mp member).1, rfl⟩
  · cases found

theorem exists_of_mem_mapM {names : List String} {parts : List (String × Part)} {wanted : List Part}
    (taken : names.mapM (fun name => theOnly? name parts) = some wanted) {part : Part}
    (member : part ∈ wanted) : ∃ entry ∈ parts, entry.2 = part := by
  induction names generalizing wanted with
  | nil =>
      cases taken
      cases member
  | cons name names ih =>
      simp only [List.mapM_cons, Option.bind_eq_bind, Option.bind_eq_some_iff, Option.pure_def,
        Option.some.injEq] at taken
      obtain ⟨first, found, others, rest, rfl⟩ := taken
      rcases List.mem_cons.mp member with rfl | later
      · exact exists_of_theOnly? found
      · exact ih rest later

theorem height_le_of_ofNamedParts? {kind : Kind} {parts : List (String × Part)} {bound : Nat}
    {tree : ExchangeTree} (within : ∀ entry ∈ parts, entry.2.Within bound)
    (found : ofNamedParts? kind parts = some tree) : tree.height ≤ bound + 1 := by
  simp only [ofNamedParts?, Option.bind_eq_bind, Option.bind_eq_some_iff] at found
  obtain ⟨wanted, taken, found⟩ := found
  apply height_le_of_ofParts? _ found
  intro part member
  obtain ⟨entry, own, rfl⟩ := exists_of_mem_mapM taken member
  exact within entry own

mutual

theorem height_le_of_ofJson? {json : Json} {tree : ExchangeTree} (found : ofJson? json = some tree) :
    tree.height ≤ json.nesting := by
  cases json with
  | object members =>
      simp only [ofJson?, Option.bind_eq_bind, Option.bind_eq_some_iff] at found
      obtain ⟨tag, _, kind, _, found⟩ := found
      exact height_le_of_ofNamedParts? (within_of_mem_memberParts members) found
  | array items =>
      have within := within_of_mem_itemParts items
      rw [ofJson?] at found
      split at found
      · cases found
      · rename_i tag parts split
        rw [split] at within
        simp only [Option.bind_eq_bind, Option.bind_eq_some_iff] at found
        obtain ⟨kind, _, found⟩ := found
        exact height_le_of_ofParts? (fun part member => within part (List.mem_cons_of_mem tag member))
          found
  | _ => simp [ofJson?] at found

theorem within_of_mem_itemParts (items : List Json) :
    ∀ part ∈ itemParts items, part.Within (Json.itemsNesting items) := by
  cases items with
  | nil => simp [itemParts]
  | cons item rest =>
      intro part member tree own
      rw [itemParts] at member
      rw [Json.itemsNesting]
      rcases List.mem_cons.mp member with rfl | later
      · exact Nat.le_trans (height_le_of_ofJson? own) (Nat.le_max_left _ _)
      · exact Nat.le_trans (within_of_mem_itemParts rest part later tree own) (Nat.le_max_right _ _)

theorem within_of_mem_memberParts (members : List (String × Json)) :
    ∀ entry ∈ memberParts members, entry.2.Within (Json.membersNesting members) := by
  cases members with
  | nil => simp [memberParts]
  | cons first rest =>
      obtain ⟨name, value⟩ := first
      intro entry member tree own
      rw [memberParts] at member
      rw [Json.membersNesting]
      rcases List.mem_cons.mp member with rfl | later
      · exact Nat.le_trans (height_le_of_ofJson? own) (Nat.le_max_left _ _)
      · exact Nat.le_trans (within_of_mem_memberParts rest entry later tree own)
          (Nat.le_max_right _ _)

end

theorem orMismatched_eq_ok_iff {found : Option ExchangeTree} {tree : ExchangeTree} :
    orMismatched found = .ok tree ↔ found = some tree := by
  cases found <;> simp [orMismatched]

theorem nesting_le_of_readMembers {members : Members} {kind : Option Kind} {found : Kind}
    {others : List (String × Json)} (read : readMembers kind members = .ok (found, others)) :
    Json.membersNesting others ≤ maxNesting - 1 := by
  cases members with
  | closed =>
      cases kind with
      | none => cases read
      | some kind =>
          cases read
          exact Nat.zero_le _
  | cut => cases read
  | member name value rest =>
      rw [readMembers] at read
      obtain ⟨name, _, read⟩ := bind_eq_ok_iff.mp read
      split at read
      · split at read
        · cases read
        · obtain ⟨tag, _, read⟩ := bind_eq_ok_iff.mp read
          exact nesting_le_of_readMembers read
      · obtain ⟨json, first, read⟩ := bind_eq_ok_iff.mp read
        obtain ⟨⟨later, rest⟩, inner, read⟩ := bind_eq_ok_iff.mp read
        cases read
        have bound := Json.Reading.nesting_le_of_value? (Json.orMalformed_eq_ok_iff.mp first)
        exact Nat.max_le.mpr ⟨bound, nesting_le_of_readMembers inner⟩

theorem height_le_of_read {reading : Reading} {tree : ExchangeTree}
    (found : read reading = .ok tree) : tree.height ≤ maxNesting := by
  cases reading with
  | object members =>
      obtain ⟨⟨kind, others⟩, inner, found⟩ := bind_eq_ok_iff.mp found
      have bound := nesting_le_of_readMembers inner
      have within entry member := (within_of_mem_memberParts others entry member).mono bound
      exact height_le_of_ofNamedParts? within (orMismatched_eq_ok_iff.mp found)
  | array items =>
      cases items with
      | closed => cases found
      | cut => cases found
      | item tag rest =>
          obtain ⟨kind, _, found⟩ := bind_eq_ok_iff.mp found
          obtain ⟨values, inner, found⟩ := bind_eq_ok_iff.mp found
          have bound := Json.Items.nesting_le_of_values? (Json.orMalformed_eq_ok_iff.mp inner)
          have within part member := (within_of_mem_itemParts values part member).mono bound
          exact height_le_of_ofParts? within (orMismatched_eq_ok_iff.mp found)
  | _ => cases found

end ExchangeTree

end FieldRules
