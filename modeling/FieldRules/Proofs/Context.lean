import FieldRules.Context
import FieldRules.Proofs.Fields
import FieldRules.Proofs.Json.RoundTrip
import FieldRules.Proofs.Json.Scalar

/-!
The two readers of a context's JSON agree: both give each name the scalar that its last member writes.
They differ only in that reading in order looks at the earlier members of a name too, which count for
nothing but must be scalars. A context is read back from its JSON, in whatever order the fields are
written, and one with a float that JSON has no text for is never taken for another one.
-/

namespace FieldRules

open Json (Members Reading maxNesting)

namespace Context

variable {text : String} {context : Context}

def HasDistinctNames (text : String) : Prop :=
  ∀ values, Json.ofText? text = some (.object values) → (values.map Prod.fst).Nodup

theorem readMembers_eq_ok_iff {start result : Context} {members : Members} :
    readMembers start members = .ok result ↔
      ∃ values scalars, members.values? (maxNesting - 1) = some values ∧
        Namewise (fun _ => Json.scalar?) some values scalars ∧ start.insertAll scalars = result := by
  cases members with
  | closed => simp [readMembers, Members.values?, Namewise, Fields.insertAll]
  | cut => simp [readMembers, Members.values?]
  | member pieces value rest =>
      simp only [readMembers, Json.nameOf, bind_eq_ok_iff, Json.orMalformed_eq_ok_iff,
        Members.values?_member_eq_some_iff]
      constructor
      · rintro ⟨name, named, json, read, later⟩
        split at later
        · rename_i scalar found
          obtain ⟨others, scalars, rest, pairs, rfl⟩ := readMembers_eq_ok_iff.mp later
          exact ⟨(name, json) :: others, (name, scalar) :: scalars,
            ⟨name, json, others, named, read, rest, rfl⟩, .cons ⟨rfl, found⟩ pairs, rfl⟩
        · cases later
      · rintro ⟨_, scalars, ⟨name, json, others, named, read, rest, rfl⟩, matched, rfl⟩
        obtain ⟨⟨_, scalar⟩, scalars, ⟨rfl, found⟩, pairs, rfl⟩ :=
          List.forall₂_cons_left_iff.mp matched
        refine ⟨name, named, json, read, ?_⟩
        simp only at found
        rw [found]
        exact readMembers_eq_ok_iff.mpr ⟨others, scalars, rest, pairs, rfl⟩

theorem read_eq_ok_iff {reading : Reading} :
    read reading = .ok context ↔
      ∃ members, reading = .object members ∧ readMembers .empty members = .ok context := by
  cases reading <;> simp [read]

theorem decode_eq_ok_iff :
    decode text = .ok context ↔
      ∃ values scalars, Json.ofText? text = some (.object values) ∧
        Namewise (fun _ => Json.scalar?) some values scalars ∧ Fields.ofList scalars = context := by
  rw [decode, Json.readWith_eq_ok_iff, read_eq_ok_iff]
  simp only [Json.ofText?_eq_object_iff, readMembers_eq_ok_iff]
  constructor
  · rintro ⟨⟨members, root, values, scalars, found, pairs, set⟩, ended⟩
    refine ⟨values, scalars, ⟨members, ?_, found⟩, pairs, set⟩
    rw [← root, ← ended]
  · rintro ⟨values, scalars, ⟨members, document, found⟩, pairs, set⟩
    rw [document]
    exact ⟨⟨members, rfl, values, scalars, found, pairs, set⟩, rfl⟩

theorem valueOfJson_eq_ok_iff {name : String} {value : Json} {scalar : Scalar} :
    valueOfJson name value = .ok scalar ↔ value.scalar? = some scalar := by
  unfold valueOfJson
  split <;> simp_all

theorem ofJson_eq_ok_iff {value : Json} :
    ofJson value = .ok context ↔
      ∃ values, value = .object values ∧
        ∀ name, (values.reverse.lookup name).map Json.scalar? = (context.get? name).map some := by
  cases value with
  | object values =>
      simp only [ofJson, Fields.mapM_eq_ok_iff, Fields.get?_ofList, Json.object.injEq,
        exists_eq_left']
      refine forall_congr' fun name => ?_
      cases values.reverse.lookup name <;> cases context.get? name <;>
        simp [valueOfJson_eq_ok_iff]
  | _ => simp [ofJson]

theorem ofText_eq_ok_iff_ofJson :
    ofText text = .ok context ↔
      ∃ value, Json.ofText? text = some value ∧ ofJson value = .ok context := by
  unfold ofText
  split
  · rename_i value found
    simp [found, mapError_eq_ok_iff]
  · rename_i malformed
    simp [malformed]

theorem ofText_eq_ok_iff :
    ofText text = .ok context ↔
      ∃ values, Json.ofText? text = some (.object values) ∧
        ∀ name, (values.reverse.lookup name).map Json.scalar? = (context.get? name).map some := by
  rw [ofText_eq_ok_iff_ofJson]
  constructor
  · rintro ⟨value, found, read⟩
    obtain ⟨values, rfl, same⟩ := ofJson_eq_ok_iff.mp read
    exact ⟨values, found, same⟩
  · rintro ⟨values, found, same⟩
    exact ⟨_, found, ofJson_eq_ok_iff.mpr ⟨values, rfl, same⟩⟩

theorem ofText_of_decode (decoded : decode text = .ok context) : ofText text = .ok context := by
  obtain ⟨values, scalars, found, pairs, rfl⟩ := decode_eq_ok_iff.mp decoded
  refine ofText_eq_ok_iff.mpr ⟨values, found, ?_⟩
  intro name
  rw [Fields.get?_ofList]
  exact pairs.lookup_reverse name

/-- Reading in order differs in that every member must be a scalar, not just the last of each name. -/
theorem decode_eq_ok_iff_ofText :
    decode text = .ok context ↔ ofText text = .ok context ∧
      ∀ values, Json.ofText? text = some (.object values) →
        ∀ member ∈ values, ∃ scalar, member.2.scalar? = some scalar := by
  constructor
  · intro decoded
    refine ⟨ofText_of_decode decoded, ?_⟩
    intro values found
    obtain ⟨read, scalars, own, pairs, -⟩ := decode_eq_ok_iff.mp decoded
    cases own.symm.trans found
    exact exists_namewise_iff.mp ⟨scalars, pairs⟩
  · rintro ⟨read, total⟩
    obtain ⟨values, found, same⟩ := ofText_eq_ok_iff.mp read
    have mapped : ∃ scalars, Namewise (fun _ => Json.scalar?) some values scalars :=
      exists_namewise_iff.mpr (total values found)
    obtain ⟨scalars, pairs⟩ := mapped
    refine decode_eq_ok_iff.mpr ⟨values, scalars, found, pairs, ?_⟩
    apply Fields.ext_get?
    intro name
    rw [Fields.get?_ofList]
    exact Option.map_injective (fun _ _ => Option.some.inj)
      ((pairs.lookup_reverse name).symm.trans (same name))

theorem decode_of_ofText (read : ofText text = .ok context) (distinct : HasDistinctNames text) :
    decode text = .ok context := by
  refine decode_eq_ok_iff_ofText.mpr ⟨read, ?_⟩
  intro values found
  obtain ⟨_, own, same⟩ := ofText_eq_ok_iff.mp read
  cases own.symm.trans found
  have names := distinct values found
  have forwards name : (values.lookup name).map Json.scalar? = (context.get? name).map some := by
    rw [← same, lookup_eq_of_perm (List.reverse_perm values) names]
  exact exists_namewise_iff.mp (exists_namewise_of_lookup names forwards)

theorem get?_eq_some_iff_of_ofText (read : ofText text = .ok context) :
    ∃ members, Json.Document.ofText text = ⟨.object members, false⟩ ∧
      ∀ name value, context.get? name = some value ↔
        ∃ reading, members.last? name = some reading ∧ reading.Denotes value := by
  obtain ⟨values, found, same⟩ := ofText_eq_ok_iff.mp read
  obtain ⟨members, document, taken⟩ := Json.ofText?_eq_object_iff.mp found
  refine ⟨members, document, ?_⟩
  intro name value
  have last : (context.get? name).map some = (members.last? name).map fun reading =>
      (reading.value? (maxNesting - 1)).bind Json.scalar? := by
    have values := congrArg (Option.map (·.bind Json.scalar?)) (Members.last?_of_values? taken name)
    rw [← same]
    simpa [Option.map_map, Function.comp_def] using values.symm
  calc context.get? name = some value
    _ ↔ (context.get? name).map some = some (some value) := by simp
    _ ↔ ∃ reading, members.last? name = some reading ∧
        (reading.value? (maxNesting - 1)).bind Json.scalar? = some value := by
      rw [last, Option.map_eq_some_iff]
    _ ↔ ∃ reading, members.last? name = some reading ∧ reading.Denotes value := by
      simp only [Reading.denotes_iff (maxNesting - 1)]

/-- What is read in order is read from the whole text too, and the other way round if no name is
repeated. The last member of a name gives its value, of the kind that the spelling has. -/
theorem decode_agrees_with_ofText (text : String) (context : Context) :
    (decode text = .ok context → ofText text = .ok context) ∧
    (ofText text = .ok context → HasDistinctNames text → decode text = .ok context) ∧
    (ofText text = .ok context → ∃ members,
      Json.Document.ofText text = ⟨.object members, false⟩ ∧
      ∀ name value, context.get? name = some value ↔
        ∃ reading, members.last? name = some reading ∧ reading.Denotes value) :=
  ⟨ofText_of_decode, decode_of_ofText, get?_eq_some_iff_of_ofText⟩

theorem decode_agrees_with_ofText_beyond_int64 :
    let text := (Json.object [("n", .integer 0x8000000000000000), ("m", .integer (-5))]).text
    let context : Context := Fields.ofList [("m", .int (-5)), ("n", .float ⟨0x43e0000000000000⟩)]
    ofText text = .ok context ∧ HasDistinctNames text ∧ decode text = .ok context ∧
      ∃ members, Json.Document.ofText text = ⟨.object members, false⟩ ∧
        ∃ reading, members.last? "n" = some reading ∧
          reading.Denotes (.float ⟨0x43e0000000000000⟩) := by
  intro text context
  have readable : (Json.object
      [("n", .integer 0x8000000000000000), ("m", .integer (-5))]).IsReadable :=
    ⟨Json.numberOfText?_intText (by decide) (by decide),
      Json.numberOfText?_intText (by decide) (by decide), trivial⟩
  have found : Json.ofText? text =
      some (.object [("n", .integer 0x8000000000000000), ("m", .integer (-5))]) :=
    Json.ofText?_text readable
  have shaped : ofJson (.object [("n", .integer 0x8000000000000000), ("m", .integer (-5))]) =
      .ok context := by
    decide +kernel
  have read : ofText text = .ok context := ofText_eq_ok_iff_ofJson.mpr ⟨_, found, shaped⟩
  have distinct : HasDistinctNames text := by
    intro values same
    rw [found] at same
    cases same
    decide
  obtain ⟨inOrder, back, last⟩ := decode_agrees_with_ofText text context
  have decoded := back read distinct
  obtain ⟨members, document, values⟩ := last (inOrder decoded)
  refine ⟨read, distinct, decoded, members, document, ?_⟩
  exact (values "n" _).mp (by decide +kernel)

def jsonMembers (entries : List (String × Scalar)) : List (String × Json) :=
  entries.map fun entry => (entry.1, .ofScalar entry.2)

/-- The text is the JSON of the context, with the fields in any order. -/
def IsWrittenAs (context : Context) (text : String) : Prop :=
  ∃ entries, entries.Perm context.entries ∧ text = (Json.object (jsonMembers entries)).text

theorem isWrittenAs_toJson (context : Context) : context.IsWrittenAs context.toJson.text :=
  ⟨context.entries, .refl _, rfl⟩

def FloatsReadBack (context : Context) : Prop :=
  ∀ name x, context.get? name = some (.float x) →
    Json.numberOfText? (Json.floatText x).toList = some (.float x)

theorem membersNesting_jsonMembers (entries : List (String × Scalar)) :
    Json.membersNesting (jsonMembers entries) = 0 := by
  induction entries with
  | nil => rfl
  | cons entry entries ih =>
      have flat : (Json.ofScalar entry.2).nesting = 0 := by cases entry.2 <;> rfl
      show max (Json.ofScalar entry.2).nesting (Json.membersNesting (jsonMembers entries)) = 0
      rw [flat, ih, Nat.max_self]

theorem membersReadable_jsonMembers {entries : List (String × Scalar)}
    (readable : ∀ entry ∈ entries, (Json.ofScalar entry.2).IsReadable) :
    Json.MembersReadable (jsonMembers entries) := by
  rw [Json.membersReadable_iff, jsonMembers, List.forall_mem_map]
  exact readable

theorem namewise_scalar? (entries : List (String × Scalar)) :
    Namewise (fun _ => Json.scalar?) some (jsonMembers entries) entries := by
  refine List.forall₂_map_left_iff.mpr (List.forall₂_same.mpr ?_)
  intro entry _
  exact ⟨rfl, Json.scalar?_ofScalar entry.2⟩

theorem namewise_ofScalar (entries : List (String × Scalar)) :
    Namewise (fun _ => Json.ofScalar) id entries (jsonMembers entries) := by
  refine List.forall₂_map_right_iff.mpr (List.forall₂_same.mpr ?_)
  intro entry _
  exact ⟨rfl, rfl⟩

theorem decode_of_written (written : context.IsWrittenAs text) (readBack : context.FloatsReadBack) :
    decode text = .ok context := by
  obtain ⟨entries, order, rfl⟩ := written
  have readable : (Json.object (jsonMembers entries)).IsReadable := by
    apply membersReadable_jsonMembers
    intro entry member
    apply Json.isReadable_ofScalar
    intro x float
    apply readBack entry.1
    rw [Fields.get?_eq_some_iff, ← float]
    exact order.mem_iff.mp member
  have found := Json.ofText?_text readable
  rw [Json.nesting, membersNesting_jsonMembers, if_pos (by decide)] at found
  exact decode_eq_ok_iff.mpr
    ⟨_, entries, found, namewise_scalar? entries, Fields.ofList_of_perm order⟩

theorem kind_of_written {read : Context} (written : context.IsWrittenAs text)
    (accepted : ofText text = .ok read) (name : String) :
    (context.get? name).map (fun value => (Json.ofScalar value).writtenKind?) =
      (read.get? name).map fun value => some value.kind := by
  obtain ⟨entries, order, rfl⟩ := written
  obtain ⟨values, whole, same⟩ := ofText_eq_ok_iff.mp accepted
  have own : entries.reverse.lookup name = context.get? name :=
    lookup_eq_of_perm ((List.reverse_perm entries).trans order) context.nodup_names name
  have members := (namewise_ofScalar entries).lookup_reverse name
  have kinds := (Json.namewise_kind_of_ofText?_text whole).lookup_reverse name
  have scalars := congrArg (Option.map (Option.map Scalar.kind)) (same name)
  rw [own, Option.map_id, id_eq] at members
  rw [← members] at kinds
  simp only [Option.map_map, Function.comp_def, Option.map_some] at kinds scalars
  exact kinds.trans scalars

/-- A written context is read back by both readers if its floats are, and refused by both if one of its
floats is a NaN or an infinity. -/
theorem read_of_written {context : Context} {text : String} (written : context.IsWrittenAs text) :
    (context.FloatsReadBack → ofText text = .ok context ∧ decode text = .ok context) ∧
    ((∃ name x, context.get? name = some (.float x) ∧ x.isFinite = false) →
      (∃ error, ofText text = .error error) ∧ ∃ fault, decode text = .error fault) := by
  refine ⟨?_, ?_⟩
  · intro readBack
    have decoded := decode_of_written written readBack
    exact ⟨ofText_of_decode decoded, decoded⟩
  · rintro ⟨name, x, found, nonfinite⟩
    have refused read : ofText text ≠ .ok read := by
      intro accepted
      have kinds := kind_of_written written accepted name
      rw [found, eq_comm, Option.map_some, Option.map_eq_some_iff] at kinds
      obtain ⟨value, -, kind⟩ := kinds
      simp [Json.ofScalar, Json.writtenKind?, nonfinite] at kind
    refine ⟨?_, ?_⟩
    · cases read : ofText text with
      | error error => exact ⟨error, rfl⟩
      | ok other => exact absurd read (refused other)
    · cases decoded : decode text with
      | error fault => exact ⟨fault, rfl⟩
      | ok other => exact absurd (ofText_of_decode decoded) (refused other)

theorem read_of_written_reversed :
    let context : Context := Fields.ofList
      [("a\"\n", .text "\\"), ("size", .float ⟨0x4008000000000000⟩), ("year", .int (-3))]
    let text := (Json.object (jsonMembers context.entries.reverse)).text
    let endless : Context := context.insert "size" (.float (Binary64.infinity true))
    context.FloatsReadBack ∧ ofText text = .ok context ∧ decode text = .ok context ∧
      (∃ error, ofText (toJson endless).text = .error error) ∧
      ∃ fault, decode (toJson endless).text = .error fault := by
  intro context text endless
  have spelled : Json.numberText? (Json.floatText ⟨0x4008000000000000⟩).toList =
      some (⟨false, ['3'], some ['0'], none⟩, []) := by
    decide +kernel
  have three := Json.numberOfText?_floatText_of_tenths spelled rfl (by decide +kernel) (by decide)
  have readBack : context.FloatsReadBack := by
    intro name x found
    have member : (name, Scalar.float x) ∈
        [("a\"\n", .text "\\"), ("size", .float ⟨0x4008000000000000⟩), ("year", .int (-3))] :=
      Fields.get?_eq_some_iff.mp found
    simp only [List.mem_cons, Prod.mk.injEq, Scalar.float.injEq, reduceCtorEq, and_false, false_or,
      List.not_mem_nil, or_false] at member
    obtain ⟨-, rfl⟩ := member
    exact three
  have written : context.IsWrittenAs text := ⟨_, List.reverse_perm _, rfl⟩
  obtain ⟨read, decoded⟩ := (read_of_written written).1 readBack
  have infinite : ∃ name x, endless.get? name = some (.float x) ∧ x.isFinite = false :=
    ⟨"size", _, Fields.get?_insert_self _ _ _, by decide⟩
  exact ⟨readBack, read, decoded, (read_of_written (isWrittenAs_toJson endless)).2 infinite⟩

end Context

end FieldRules
