import FieldRules.Context
import FieldRules.Proofs.Except
import Mathlib.Data.List.Forall2
import Mathlib.Data.List.Perm.Basic

/-!
Named fields are determined by their values, in whatever order they were set; of two values set for one
name the later counts.
-/

namespace FieldRules

theorem lookup_eq_some_iff_mem {α : Type} {entries : List (String × α)} {name : String} {value : α}
    (distinct : (entries.map Prod.fst).Nodup) :
    entries.lookup name = some value ↔ (name, value) ∈ entries := by
  induction entries with
  | nil => simp
  | cons entry rest ih =>
      obtain ⟨first, kept⟩ := entry
      obtain ⟨unused, restDistinct⟩ := List.nodup_cons.mp distinct
      rw [List.lookup_cons, List.mem_cons, ← ih restDistinct]
      by_cases same : name = first
      · subst same
        have absent : rest.lookup name ≠ some value := by
          intro found
          exact unused (List.mem_map.mpr ⟨(name, value), (ih restDistinct).mp found, rfl⟩)
        simp [absent, eq_comm]
      · simp [beq_eq_false_iff_ne.mpr same, same]

theorem lookup_eq_of_perm {α : Type} {pairs entries : List (String × α)} (order : pairs.Perm entries)
    (distinct : (entries.map Prod.fst).Nodup) (name : String) :
    pairs.lookup name = entries.lookup name := by
  have pairsDistinct : (pairs.map Prod.fst).Nodup := (order.map Prod.fst).nodup_iff.mpr distinct
  apply Option.ext
  intro value
  rw [lookup_eq_some_iff_mem pairsDistinct, lookup_eq_some_iff_mem distinct, order.mem_iff]

def Namewise {α β γ : Type} (f : String → α → γ) (wrap : β → γ) (entries : List (String × α))
    (values : List (String × β)) : Prop :=
  List.Forall₂ (fun entry value => entry.1 = value.1 ∧ f entry.1 entry.2 = wrap value.2) entries values

section Namewise

variable {α β γ : Type} {f : String → α → γ} {wrap : β → γ} {entries : List (String × α)}

theorem Namewise.lookup {values : List (String × β)} (pairs : Namewise f wrap entries values)
    (name : String) : (entries.lookup name).map (f name) = (values.lookup name).map wrap := by
  induction pairs with
  | nil => rfl
  | @cons entry value entries values here _ ih =>
      obtain ⟨first, kept⟩ := entry
      obtain ⟨_, made⟩ := value
      obtain ⟨rfl, same⟩ := here
      rw [List.lookup_cons, List.lookup_cons]
      by_cases found : name = first
      · subst found
        simpa using same
      · simpa [beq_eq_false_iff_ne.mpr found] using ih

theorem Namewise.lookup_reverse {values : List (String × β)} (pairs : Namewise f wrap entries values)
    (name : String) :
    (entries.reverse.lookup name).map (f name) = (values.reverse.lookup name).map wrap := by
  have backwards : Namewise f wrap entries.reverse values.reverse :=
    List.forall₂_reverse_iff.mpr pairs
  exact backwards.lookup name

theorem exists_namewise_iff :
    (∃ values, Namewise f wrap entries values) ↔
      ∀ entry ∈ entries, ∃ made, f entry.1 entry.2 = wrap made := by
  induction entries with
  | nil => exact ⟨fun _ => by simp, fun _ => ⟨[], .nil⟩⟩
  | cons entry entries ih =>
      rw [List.forall_mem_cons, ← ih]
      constructor
      · rintro ⟨_, pairs⟩
        cases pairs with
        | cons here pairs => exact ⟨⟨_, here.2⟩, _, pairs⟩
      · rintro ⟨⟨made, here⟩, values, pairs⟩
        exact ⟨(entry.1, made) :: values, .cons ⟨rfl, here⟩ pairs⟩

theorem exists_namewise_of_lookup {result : String → Option β}
    (distinct : (entries.map Prod.fst).Nodup)
    (same : ∀ name, (entries.lookup name).map (f name) = (result name).map wrap) :
    ∃ values, Namewise f wrap entries values := by
  apply exists_namewise_iff.mpr
  intro entry member
  have here := same entry.1
  rw [(lookup_eq_some_iff_mem distinct).mpr member, Option.map_some, eq_comm,
    Option.map_eq_some_iff] at here
  obtain ⟨made, -, found⟩ := here
  exact ⟨made, found.symm⟩

end Namewise

namespace Fields

variable {α β ε : Type} {fields : Fields α} {name : String} {value : α}

theorem nodup_names (fields : Fields α) : (fields.entries.map Prod.fst).Nodup :=
  fields.ascending.imp String.ne_of_lt

theorem nodup_entries (fields : Fields α) : fields.entries.Nodup :=
  (List.pairwise_map.mp fields.nodup_names).imp fun different same => different (congrArg _ same)

theorem get?_eq_some_iff : fields.get? name = some value ↔ (name, value) ∈ fields.entries :=
  lookup_eq_some_iff_mem fields.nodup_names

theorem ext_get? {first second : Fields α} (same : ∀ name, first.get? name = second.get? name) :
    first = second := by
  have perm : first.entries.Perm second.entries := by
    refine (List.perm_ext_iff_of_nodup first.nodup_entries second.nodup_entries).mpr ?_
    intro entry
    rw [← get?_eq_some_iff, ← get?_eq_some_iff, same]
  have equal : first.entries = second.entries := by
    refine perm.eq_of_pairwise ?_ (List.pairwise_map.mp first.ascending)
      (List.pairwise_map.mp second.ascending)
    intro a b _ _ before after
    exact absurd (String.lt_trans before after) (String.lt_irrefl _)
  cases first
  cases second
  cases equal
  rfl

theorem get?_insert (fields : Fields α) (name : String) (value : α) (other : String) :
    (fields.insert name value).get? other = if other = name then some value else fields.get? other := by
  split
  · rename_i same
    rw [same, get?_insert_self]
  · rename_i different
    exact get?_insert_of_ne fields different value

def insertAll (fields : Fields α) (pairs : List (String × α)) : Fields α :=
  pairs.foldl (fun fields pair => fields.insert pair.1 pair.2) fields

theorem get?_insertAll (fields : Fields α) (pairs : List (String × α)) (name : String) :
    (fields.insertAll pairs).get? name = (pairs.reverse.lookup name).or (fields.get? name) := by
  induction pairs generalizing fields with
  | nil => rfl
  | cons pair pairs ih =>
      obtain ⟨first, value⟩ := pair
      have step : fields.insertAll ((first, value) :: pairs) =
          (fields.insert first value).insertAll pairs := rfl
      rw [step, ih, get?_insert, List.reverse_cons, List.lookup_append, Option.or_assoc]
      by_cases same : name = first
      · simp [same]
      · simp [List.lookup_cons, beq_eq_false_iff_ne.mpr same, same]

theorem get?_ofList (pairs : List (String × α)) (name : String) :
    (ofList pairs).get? name = pairs.reverse.lookup name := by
  have set : ofList pairs = empty.insertAll pairs := rfl
  rw [set, get?_insertAll, get?_empty, Option.or_none]

theorem ofList_of_perm {pairs : List (String × α)} (order : pairs.Perm fields.entries) :
    ofList pairs = fields := by
  apply ext_get?
  intro name
  rw [get?_ofList]
  exact lookup_eq_of_perm ((List.reverse_perm pairs).trans order) fields.nodup_names name

theorem foldlM_insert_eq_ok_iff {f : String → α → Except ε β} {entries : List (String × α)}
    {start result : Fields β} :
    entries.foldlM (fun mapped entry => (f entry.1 entry.2).map (mapped.insert entry.1)) start =
        .ok result ↔
      ∃ values, Namewise f .ok entries values ∧ start.insertAll values = result := by
  induction entries generalizing start with
  | nil => simp [Namewise, insertAll, pure, Except.pure]
  | cons entry entries ih =>
      simp only [List.foldlM_cons, bind_eq_ok_iff, map_eq_ok_iff, ih, Namewise,
        List.forall₂_cons_left_iff]
      constructor
      · rintro ⟨_, ⟨made, found, rfl⟩, values, pairs, rfl⟩
        exact ⟨(entry.1, made) :: values, ⟨(entry.1, made), values, ⟨rfl, found⟩, pairs, rfl⟩, rfl⟩
      · rintro ⟨_, ⟨value, values, ⟨same, found⟩, pairs, rfl⟩, rfl⟩
        exact ⟨_, ⟨value.2, found, rfl⟩, values, pairs, by rw [same]; rfl⟩

variable {f : String → α → Except ε β} {result : Fields β}

theorem get?_of_mapM (mapped : fields.mapM f = .ok result) (name : String) :
    (fields.get? name).map (f name) = (result.get? name).map .ok := by
  obtain ⟨values, pairs, rfl⟩ := foldlM_insert_eq_ok_iff.mp mapped
  have backwards : fields.entries.reverse.lookup name = fields.get? name :=
    lookup_eq_of_perm (List.reverse_perm _) fields.nodup_names name
  rw [← backwards, get?_insertAll, get?_empty, Option.or_none]
  exact pairs.lookup_reverse name

theorem mapM_eq_ok_iff :
    fields.mapM f = .ok result ↔
      ∀ name, (fields.get? name).map (f name) = (result.get? name).map .ok := by
  refine ⟨get?_of_mapM, ?_⟩
  intro same
  obtain ⟨values, pairs⟩ := exists_namewise_of_lookup fields.nodup_names same
  have mapped : fields.mapM f = .ok (empty.insertAll values) :=
    foldlM_insert_eq_ok_iff.mpr ⟨values, pairs, rfl⟩
  -- Both results hold under each name what the function gives for the value there.
  have equal : empty.insertAll values = result := by
    apply ext_get?
    intro name
    exact Option.map_injective (fun _ _ => Except.ok.inj) ((get?_of_mapM mapped name).symm.trans (same name))
  rw [mapped, equal]

end Fields

end FieldRules
