import FieldRules.Blob
import FieldRules.Proofs.Numeral
import Mathlib.Data.List.Nodup

/-!
The layout of a payload, as the byte strings that spell each of its parts. A payload is read off the
head of a byte string just if the bytes start with one of its spellings, the shortest or a longer one.
-/

namespace FieldRules.Payload

open Bytes

def alternativeForm (number : Nat) : Form :=
  VarintForm false number

def natForm (value : Nat) : Form :=
  VarintForm true value

def utf8 (text : String) : List UInt8 :=
  text.toUTF8.data.toList

def textForm (text : String) : Form :=
  (natForm text.utf8ByteSize).before (· = utf8 text)

def scalarForm : Scalar → Form
  | .int value => (alternativeForm 0).before (natForm (zigzag value.toInt))
  | .float value => (alternativeForm 1).before (· = littleEndian 8 value.bits.toNat)
  | .text value => (alternativeForm 2).before (textForm value)

def connectiveForm (connective : Connective) : Form :=
  alternativeForm (connectives.idxOf connective)

def comparatorForm (comparator : Comparator) : Form :=
  alternativeForm (Comparator.all.idxOf comparator)

def comparisonForm (comparison : Comparison) : Form :=
  (textForm comparison.field).before
    ((comparatorForm comparison.comparator).before (scalarForm comparison.literal))

theorem readAlternative?_eq_some_iff {number : Nat} {bytes rest : List UInt8} :
    readAlternative? bytes = some (number, rest) ↔ (alternativeForm number).Begins bytes rest :=
  readVarint?_eq_some_iff

theorem readNat?_eq_some_iff {value : Nat} {bytes rest : List UInt8} :
    readNat? bytes = some (value, rest) ↔ (natForm value).Begins bytes rest :=
  readVarint?_eq_some_iff

theorem lt_of_natForm {value : Nat} {bytes : List UInt8} (form : natForm value bytes) :
    value < twoTo 64 := by
  have short : twoTo 16 ≤ twoTo 64 := by decide
  have medium : twoTo 32 ≤ twoTo 64 := by decide
  have byte : 251 ≤ twoTo 64 := by decide
  cases form <;> omega

theorem fromUTF8?_eq_some_iff {first : List UInt8} {text : String} :
    String.fromUTF8? ⟨first.toArray⟩ = some text ↔ first = utf8 text := by
  constructor
  · intro found
    rw [String.fromUTF8?] at found
    split at found
    · cases found
      simp [utf8, String.fromUTF8, String.toUTF8]
    · simp at found
  · rintro rfl
    rw [utf8, Array.toArray_toList]
    exact dif_pos text.isValidUTF8

theorem length_utf8 (text : String) : (utf8 text).length = text.utf8ByteSize := by
  rw [utf8, Array.length_toList, String.toUTF8_eq_toByteArray]
  rfl

theorem readText?_eq_some_iff {text : String} {bytes rest : List UInt8} :
    readText? bytes = some (text, rest) ↔ (textForm text).Begins bytes rest := by
  simp only [readText?, Option.bind_eq_bind, Option.bind_eq_some_iff, Prod.exists,
    readNat?_eq_some_iff, split?_eq_some_iff, fromUTF8?_eq_some_iff, Option.pure_def,
    Option.some.injEq, Prod.mk.injEq, textForm, begins_before_iff, begins_eq_iff]
  constructor
  · rintro ⟨size, middle, sized, _, _, ⟨rfl, rfl⟩, _, rfl, rfl, rfl⟩
    rw [length_utf8] at sized
    exact ⟨_, sized, rfl⟩
  · rintro ⟨_, sized, rfl⟩
    exact ⟨_, _, sized, _, _, ⟨rfl, length_utf8 text⟩, _, rfl, rfl, rfl⟩

theorem toInt_ofInt_unzigzag {n : Nat} (bound : n < twoTo 64) :
    (Int64.ofInt (unzigzag n)).toInt = unzigzag n := by
  have size : twoTo 64 = 18446744073709551616 := by decide
  apply Int64.toInt_ofInt_of_le
  all_goals
    unfold unzigzag
    split
    · rw [Int.ofNat_eq_natCast]
      omega
    · rw [Int.negSucc_eq]
      omega

theorem readInt_eq_some_iff {value : Int64} {bytes rest : List UInt8} :
    (∃ n, (natForm n).Begins bytes rest ∧ Int64.ofInt (unzigzag n) = value) ↔
      (natForm (zigzag value.toInt)).Begins bytes rest := by
  constructor
  · rintro ⟨n, ⟨taken, form, rfl⟩, rfl⟩
    rw [toInt_ofInt_unzigzag (lt_of_natForm form), zigzag_unzigzag]
    exact ⟨taken, form, rfl⟩
  · intro begins
    exact ⟨_, begins, by rw [unzigzag_zigzag, Int64.ofInt_toInt]⟩

theorem readScalar?_eq_some_iff {value : Scalar} {bytes rest : List UInt8} :
    readScalar? bytes = some (value, rest) ↔ (scalarForm value).Begins bytes rest := by
  simp only [readScalar?, Option.bind_eq_bind, Option.bind_eq_some_iff, Prod.exists,
    readAlternative?_eq_some_iff]
  constructor
  · rintro ⟨alternative, middle, marked, read⟩
    split at read
    · simp only [Option.bind_eq_some_iff, Prod.exists, readNat?_eq_some_iff, Option.pure_def,
        Option.some.injEq, Prod.mk.injEq] at read
      obtain ⟨n, _, begins, rfl, rfl⟩ := read
      exact begins_before_iff.mpr ⟨middle, marked, readInt_eq_some_iff.mp ⟨n, begins, rfl⟩⟩
    · simp only [Option.bind_eq_some_iff, Prod.exists, readLittleEndian?_eq_some_iff,
        Option.pure_def, Option.some.injEq, Prod.mk.injEq] at read
      obtain ⟨n, _, ⟨bound, rfl⟩, rfl, rfl⟩ := read
      have same : (UInt64.ofNat n).toNat = n := by
        rw [UInt64.toNat_ofNat']
        exact Nat.mod_eq_of_lt bound
      refine begins_before_iff.mpr ⟨_, marked, begins_eq_iff.mpr ?_⟩
      rw [same]
    · simp only [Option.bind_eq_some_iff, Prod.exists, readText?_eq_some_iff, Option.pure_def,
        Option.some.injEq, Prod.mk.injEq] at read
      obtain ⟨text, _, begins, rfl, rfl⟩ := read
      exact begins_before_iff.mpr ⟨middle, marked, begins⟩
    · simp at read
  · intro begins
    cases value with
    | int value =>
        obtain ⟨middle, marked, begins⟩ := begins_before_iff.mp begins
        obtain ⟨n, read, rfl⟩ := readInt_eq_some_iff.mpr begins
        refine ⟨0, middle, marked, ?_⟩
        simp [readNat?_eq_some_iff.mpr read]
    | float value =>
        obtain ⟨middle, marked, begins⟩ := begins_before_iff.mp begins
        obtain rfl := begins_eq_iff.mp begins
        refine ⟨1, _, marked, ?_⟩
        simp [readLittleEndian?_append 8 value.bits.toNat_lt]
    | text value =>
        obtain ⟨middle, marked, begins⟩ := begins_before_iff.mp begins
        refine ⟨2, middle, marked, ?_⟩
        simp [readText?_eq_some_iff.mpr begins]

theorem getElem?_eq_some_iff_idxOf {α : Type} [DecidableEq α] {alternatives : List α}
    (nodup : alternatives.Nodup) {own : α} (member : own ∈ alternatives) {number : Nat} :
    alternatives[number]? = some own ↔ number = alternatives.idxOf own := by
  constructor
  · intro found
    obtain ⟨bound, rfl⟩ := List.getElem?_eq_some_iff.mp found
    exact (nodup.idxOf_getElem number bound).symm
  · rintro rfl
    exact List.getElem?_idxOf member

theorem readPlace_eq_some_iff {α : Type} [DecidableEq α] {alternatives : List α}
    (nodup : alternatives.Nodup) {own : α} (member : own ∈ alternatives)
    {bytes rest : List UInt8} :
    ((readAlternative? bytes).bind fun (number, bytes) =>
      alternatives[number]?.bind fun found => some (found, bytes)) = some (own, rest) ↔
      (alternativeForm (alternatives.idxOf own)).Begins bytes rest := by
  simp only [Option.bind_eq_some_iff, Prod.exists, readAlternative?_eq_some_iff,
    Option.some.injEq, Prod.mk.injEq]
  constructor
  · rintro ⟨number, _, begins, _, found, rfl, rfl⟩
    rwa [(getElem?_eq_some_iff_idxOf nodup member).mp found] at begins
  · intro begins
    exact ⟨_, _, begins, _, (getElem?_eq_some_iff_idxOf nodup member).mpr rfl, rfl, rfl⟩

theorem readConnective?_eq_some_iff {connective : Connective} {bytes rest : List UInt8} :
    readConnective? bytes = some (connective, rest) ↔
      (connectiveForm connective).Begins bytes rest :=
  readPlace_eq_some_iff (by decide) (by cases connective <;> decide)

theorem readComparator?_eq_some_iff {comparator : Comparator} {bytes rest : List UInt8} :
    readComparator? bytes = some (comparator, rest) ↔
      (comparatorForm comparator).Begins bytes rest :=
  readPlace_eq_some_iff (by decide) (by cases comparator <;> decide)

theorem readComparison?_eq_some_iff {comparison : Comparison} {bytes rest : List UInt8} :
    readComparison? bytes = some (comparison, rest) ↔
      (comparisonForm comparison).Begins bytes rest := by
  simp only [readComparison?, Option.bind_eq_bind, Option.bind_eq_some_iff, Prod.exists,
    readText?_eq_some_iff, readComparator?_eq_some_iff, readScalar?_eq_some_iff, Option.pure_def,
    Option.some.injEq, Prod.mk.injEq, comparisonForm, begins_before_iff]
  constructor
  · rintro ⟨field, _, fieldBegins, comparator, _, comparatorBegins, literal, _, literalBegins, rfl,
      rfl⟩
    exact ⟨_, fieldBegins, _, comparatorBegins, literalBegins⟩
  · rintro ⟨_, fieldBegins, _, comparatorBegins, literalBegins⟩
    exact ⟨_, _, fieldBegins, _, _, comparatorBegins, _, _, literalBegins, rfl, rfl⟩

/-! ### Chains -/

mutual

def chainForm : Chain → Form
  | .join connective operands =>
      (alternativeForm 0).before ((connectiveForm connective).before
        ((natForm operands.length).before (chainsForm operands)))
  | .test comparison => (alternativeForm 1).before (comparisonForm comparison)

def chainsForm : List Chain → Form
  | [] => (· = [])
  | chain :: rest => (chainForm chain).before (chainsForm rest)

end

theorem readHead?_eq_test_iff {comparison : Comparison} {bytes rest : List UInt8} :
    readHead? bytes = some (.test comparison, rest) ↔
      (chainForm (.test comparison)).Begins bytes rest := by
  simp only [readHead?, Option.bind_eq_bind, Option.bind_eq_some_iff, Prod.exists,
    readAlternative?_eq_some_iff, chainForm, begins_before_iff]
  constructor
  · rintro ⟨alternative, middle, marked, read⟩
    split at read
    · simp [Option.bind_eq_some_iff] at read
    · simp only [Option.bind_eq_some_iff, Prod.exists, readComparison?_eq_some_iff, Option.pure_def,
        Option.some.injEq, Prod.mk.injEq, Head.test.injEq] at read
      obtain ⟨own, _, begins, rfl, rfl⟩ := read
      exact ⟨middle, marked, begins⟩
    · simp at read
  · rintro ⟨middle, marked, begins⟩
    refine ⟨1, middle, marked, ?_⟩
    simp [readComparison?_eq_some_iff.mpr begins]

theorem readHead?_eq_join_iff {connective : Connective} {count : Nat} {bytes rest : List UInt8} :
    readHead? bytes = some (.join connective count, rest) ↔
      ((alternativeForm 0).before
        ((connectiveForm connective).before (natForm count))).Begins bytes rest := by
  simp only [readHead?, Option.bind_eq_bind, Option.bind_eq_some_iff, Prod.exists,
    readAlternative?_eq_some_iff, begins_before_iff]
  constructor
  · rintro ⟨alternative, middle, marked, read⟩
    split at read
    · simp only [Option.bind_eq_some_iff, Prod.exists, readConnective?_eq_some_iff,
        readNat?_eq_some_iff, Option.pure_def, Option.some.injEq, Prod.mk.injEq,
        Head.join.injEq] at read
      obtain ⟨own, after, begins, size, _, counted, ⟨rfl, rfl⟩, rfl⟩ := read
      exact ⟨middle, marked, after, begins, counted⟩
    · simp [Option.bind_eq_some_iff] at read
    · simp at read
  · rintro ⟨middle, marked, after, begins, counted⟩
    refine ⟨0, middle, marked, ?_⟩
    simp [readConnective?_eq_some_iff.mpr begins, readNat?_eq_some_iff.mpr counted]

def takeChain? (bytes : List UInt8) : Option (Chain × List UInt8) :=
  (readChain? bytes).map fun taken => (taken.value, taken.rest)

def takeChains? (count : Nat) (bytes : List UInt8) : Option (List Chain × List UInt8) :=
  (readChains? count bytes).map fun taken => (taken.value, taken.rest)

theorem takeChain?_eq (bytes : List UInt8) :
    takeChain? bytes = (readHead? bytes).bind fun (head, rest) =>
      match head with
      | .test comparison => some (.test comparison, rest)
      | .join connective count => (takeChains? count rest).map fun (operands, after) =>
          (.join connective operands, after) := by
  rw [takeChain?, readChain?]
  split
  · simp_all
  · simp_all
  · rename_i connective count rest found
    simp only [found, Option.bind_some, takeChains?, Option.map_map]
    rfl

theorem takeChains?_succ (count : Nat) (bytes : List UInt8) :
    takeChains? (count + 1) bytes = (takeChain? bytes).bind fun (first, rest) =>
      (takeChains? count rest).map fun (others, after) => (first :: others, after) := by
  rw [takeChains?, readChains?, takeChain?]
  cases readChain? bytes with
  | none => rfl
  | some first =>
      simp only [takeChains?, Option.map_map, Option.map_some, Option.bind_some]
      rfl

mutual

/-- What is read as a chain are just the spellings of the chain. -/
theorem takeChain?_eq_some_iff (chain : Chain) {bytes rest : List UInt8} :
    takeChain? bytes = some (chain, rest) ↔ (chainForm chain).Begins bytes rest := by
  cases chain with
  | test comparison =>
      rw [← readHead?_eq_test_iff, takeChain?_eq, Option.bind_eq_some_iff]
      constructor
      · rintro ⟨⟨head, after⟩, found, same⟩
        cases head with
        | test own =>
            cases same
            exact found
        | join connective count => simp at same
      · intro found
        exact ⟨_, found, rfl⟩
  | join connective operands =>
      rw [takeChain?_eq, Option.bind_eq_some_iff]
      constructor
      · rintro ⟨⟨head, middle⟩, found, same⟩
        cases head with
        | test own => simp at same
        | join own count =>
            obtain ⟨⟨taken, after⟩, read, same⟩ := Option.map_eq_some_iff.mp same
            cases same
            obtain ⟨rfl, begins⟩ := (takeChains?_eq_some_iff operands).mp read
            rw [readHead?_eq_join_iff] at found
            simp only [begins_before_iff] at found
            obtain ⟨first, marked, second, joined, counted⟩ := found
            simp only [chainForm, begins_before_iff]
            exact ⟨first, marked, second, joined, middle, counted, begins⟩
      · intro begins
        simp only [chainForm, begins_before_iff] at begins
        obtain ⟨first, marked, second, joined, middle, counted, others⟩ := begins
        have found : readHead? bytes = some (.join connective operands.length, middle) := by
          rw [readHead?_eq_join_iff]
          simp only [begins_before_iff]
          exact ⟨first, marked, second, joined, counted⟩
        refine ⟨_, found, ?_⟩
        simp [(takeChains?_eq_some_iff operands).mpr ⟨rfl, others⟩]

theorem takeChains?_eq_some_iff (chains : List Chain) {count : Nat} {bytes rest : List UInt8} :
    takeChains? count bytes = some (chains, rest) ↔
      count = chains.length ∧ (chainsForm chains).Begins bytes rest := by
  cases chains with
  | nil =>
      rw [chainsForm, begins_eq_iff]
      cases count with
      | zero =>
          rw [takeChains?, readChains?]
          simp
      | succ count => simp [takeChains?_succ, Option.bind_eq_some_iff]
  | cons chain chains =>
      cases count with
      | zero =>
          rw [takeChains?, readChains?]
          simp
      | succ count =>
          simp only [takeChains?_succ, Option.bind_eq_some_iff, Option.map_eq_some_iff, Prod.exists,
            Prod.mk.injEq, List.cons.injEq, List.length_cons, Nat.add_right_cancel_iff, chainsForm,
            begins_before_iff]
          constructor
          · rintro ⟨own, middle, first, owns, after, others, ⟨sameFirst, sameOthers⟩, sameAfter⟩
            rw [sameFirst] at first
            rw [sameOthers, sameAfter] at others
            obtain ⟨same, begins⟩ := (takeChains?_eq_some_iff chains).mp others
            exact ⟨same, middle, (takeChain?_eq_some_iff chain).mp first, begins⟩
          · rintro ⟨same, middle, first, begins⟩
            exact ⟨chain, middle, (takeChain?_eq_some_iff chain).mpr first, chains, rest,
              (takeChains?_eq_some_iff chains).mpr ⟨same, begins⟩, ⟨rfl, rfl⟩, rfl⟩

end

def digestForm : Option SourceDigest → Form
  | none => (· = [0])
  | some digest => (· = 1 :: digest.toList)

def form (payload : Payload) : Form :=
  (natForm payload.size).before ((natForm payload.depth).before
    ((digestForm payload.digest).before (chainForm payload.chain)))

theorem readDigest?_eq_some_iff {digest : Option SourceDigest} {bytes rest : List UInt8} :
    readDigest? bytes = some (digest, rest) ↔ (digestForm digest).Begins bytes rest := by
  constructor
  · intro read
    unfold readDigest? at read
    split at read
    · cases read
      exact begins_eq_iff.mpr rfl
    · rename_i others
      simp only at read
      split at read
      · cases read
        refine begins_eq_iff.mpr ?_
        simp [Vector.toList]
      · simp at read
    · simp at read
  · intro begins
    cases digest with
    | none =>
        obtain rfl := begins_eq_iff.mp begins
        rfl
    | some digest =>
        obtain rfl := begins_eq_iff.mp begins
        have size : digest.toList.length = 32 := by simp
        have array : digest.toList.toArray = digest.toArray := Array.toArray_toList
        simp [readDigest?, List.take_left' size, List.drop_left' size, array]

/-- A payload is read from the byte strings that start with a spelling of it. -/
theorem ofBytes?_eq_some_iff {payload : Payload} {bytes : List UInt8} :
    ofBytes? bytes = some payload ↔ ∃ rest, payload.form.Begins bytes rest := by
  have chain (bytes : List UInt8) (own : Chain) : (∃ taken, readChain? bytes = some taken ∧
      taken.value = own) ↔ ∃ rest, (chainForm own).Begins bytes rest := by
    simp only [← takeChain?_eq_some_iff, takeChain?, Option.map_eq_some_iff, Prod.mk.injEq]
    constructor
    · rintro ⟨taken, read, rfl⟩
      exact ⟨_, taken, read, rfl, rfl⟩
    · rintro ⟨_, taken, read, rfl, rfl⟩
      exact ⟨taken, read, rfl⟩
  simp only [ofBytes?, Option.bind_eq_bind, Option.bind_eq_some_iff, Prod.exists,
    readNat?_eq_some_iff, readDigest?_eq_some_iff, Option.pure_def, Option.some.injEq, form,
    begins_before_iff]
  constructor
  · rintro ⟨_, first, sized, _, second, deep, _, third, digested, taken, read, rfl⟩
    obtain ⟨rest, begins⟩ := (chain third taken.value).mp ⟨taken, read, rfl⟩
    exact ⟨rest, first, sized, second, deep, third, digested, begins⟩
  · rintro ⟨rest, first, sized, second, deep, third, digested, begins⟩
    obtain ⟨taken, read, same⟩ := (chain third payload.chain).mpr ⟨rest, begins⟩
    exact ⟨_, first, sized, _, second, deep, _, third, digested, taken, read, by rw [same]⟩

end FieldRules.Payload
