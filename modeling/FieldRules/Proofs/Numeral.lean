import FieldRules.Numeral

/-!
Numbers are read back from their text and from their bytes. Digits are taken as far as they go, and a
number of variable count has a form for each count of bytes that holds it.
-/

namespace FieldRules

namespace Text

variable {p : Char → Bool} {run rest : List Char}

theorem ends_nil : ∀ c ∈ ([] : List Char).head?, p c = false := by
  intro c head
  cases head

theorem ends_cons {c : Char} (other : p c = false) : ∀ d ∈ (c :: rest).head?, p d = false := by
  intro d head
  obtain rfl := Option.some.inj head
  exact other

theorem ends_dropWhile (p : Char → Bool) (text : List Char) :
    ∀ c ∈ (text.dropWhile p).head?, p c = false := by
  intro c head
  have stopped := List.head?_dropWhile_not p text
  rw [Option.mem_def.mp head] at stopped
  exact stopped

theorem takeWhile_of_ends (ends : ∀ c ∈ rest.head?, p c = false) : rest.takeWhile p = [] := by
  cases rest with
  | nil => rfl
  | cons c rest => simp [ends c rfl]

theorem dropWhile_of_ends (ends : ∀ c ∈ rest.head?, p c = false) : rest.dropWhile p = rest := by
  cases rest with
  | nil => rfl
  | cons c rest => simp [ends c rfl]

theorem takeWhile_run (inside : ∀ c ∈ run, p c = true) (ends : ∀ c ∈ rest.head?, p c = false) :
    (run ++ rest).takeWhile p = run := by
  rw [List.takeWhile_append_of_pos inside, takeWhile_of_ends ends, List.append_nil]

theorem dropWhile_run (inside : ∀ c ∈ run, p c = true) (ends : ∀ c ∈ rest.head?, p c = false) :
    (run ++ rest).dropWhile p = rest := by
  rw [List.dropWhile_append_of_pos inside, dropWhile_of_ends ends]

theorem toNat_of_isDigit {c : Char} (digit : c.isDigit = true) : 48 ≤ c.toNat ∧ c.toNat ≤ 57 := by
  simp only [Char.isDigit, Bool.and_eq_true, decide_eq_true_eq] at digit
  exact digit

theorem toUpper_of_isDigit {c : Char} (digit : c.isDigit = true) : c.toUpper = c := by
  have bounds := toNat_of_isDigit digit
  have notLower : ¬('a'.val ≤ c.val ∧ c.val ≤ 'z'.val) := by
    intro lower
    have late := UInt32.le_iff_toNat_le.mp lower.1
    exact absurd (Nat.le_trans late bounds.2) (by decide)
  exact dif_neg notLower

theorem toLower_of_isDigit {c : Char} (digit : c.isDigit = true) : c.toLower = c := by
  have bounds := toNat_of_isDigit digit
  have notUpper : ¬('A'.val ≤ c.val ∧ c.val ≤ 'Z'.val) := by
    intro upper
    have late := UInt32.le_iff_toNat_le.mp upper.1
    exact absurd (Nat.le_trans late bounds.2) (by decide)
  exact dif_neg notUpper

theorem all_isDigit_toDigits (n : Nat) : (Nat.toDigits 10 n).all Char.isDigit = true := by
  rw [List.all_eq_true]
  intro c member
  exact Nat.isDigit_of_mem_toDigits (by decide) (by decide) member

theorem natOfText?_toDigits (n : Nat) : natOfText? (Nat.toDigits 10 n) = some n := by
  have nonempty : (Nat.toDigits 10 n).isEmpty = false := by
    rw [List.isEmpty_eq_false_iff]
    exact Nat.toDigits_ne_nil
  simp [natOfText?, nonempty, all_isDigit_toDigits]

theorem natOfText?_of_mem {text : List Char} {c : Char} (member : c ∈ text)
    (other : c.isDigit = false) : natOfText? text = none := by
  have notAll : text.all Char.isDigit = false := List.all_eq_false.mpr ⟨c, member, by simp [other]⟩
  simp [natOfText?, notAll]

theorem splitSign_cons {c : Char} {rest : List Char} (notMinus : c ≠ '-') (notPlus : c ≠ '+') :
    splitSign (c :: rest) = (false, c :: rest) := by
  unfold splitSign
  split
  · simp_all
  · simp_all
  · rfl

theorem splitSign_of_isDigit {c : Char} {rest : List Char} (digit : c.isDigit = true) :
    splitSign (c :: rest) = (false, c :: rest) := by
  apply splitSign_cons
  · rintro rfl
    exact absurd digit (by decide)
  · rintro rfl
    exact absurd digit (by decide)

theorem exists_toDigits_eq_cons (n : Nat) :
    ∃ c rest, Nat.toDigits 10 n = c :: rest ∧ c.isDigit = true := by
  cases digits : Nat.toDigits 10 n with
  | nil => exact absurd digits Nat.toDigits_ne_nil
  | cons c rest =>
      refine ⟨c, rest, rfl, ?_⟩
      apply List.all_eq_true.mp (all_isDigit_toDigits n)
      rw [digits]
      exact List.mem_cons_self

theorem splitSign_toDigits (n : Nat) : splitSign (Nat.toDigits 10 n) = (false, Nat.toDigits 10 n) := by
  obtain ⟨c, rest, digits, digit⟩ := exists_toDigits_eq_cons n
  rw [digits, splitSign_of_isDigit digit]

theorem mem_intText (i : Int) : ∀ c ∈ intText i, c.isDigit = true ∨ c = '-' := by
  have digit (n : Nat) := List.all_eq_true.mp (all_isDigit_toDigits n)
  intro c member
  cases i with
  | ofNat n => exact Or.inl (digit n c member)
  | negSucc n =>
      rcases List.mem_cons.mp member with rfl | member
      · exact Or.inr rfl
      · exact Or.inl (digit _ c member)

theorem intOfText?_eq (text : List Char) :
    intOfText? text = (natOfText? (splitSign text).2).map fun n =>
      if (splitSign text).1 then -(n : Int) else n := by
  rw [intOfText?]

theorem intOfText?_intText (i : Int) : intOfText? (intText i) = some i := by
  rw [intOfText?_eq]
  cases i with
  | ofNat n =>
      rw [intText, splitSign_toDigits, natOfText?_toDigits]
      rfl
  | negSucc n =>
      rw [intText, splitSign, natOfText?_toDigits]
      rfl

theorem fitsInt64_toInt (value : Int64) : fitsInt64 value.toInt = true := by
  have lower := value.le_toInt
  have upper := value.toInt_lt
  simp only [fitsInt64, decide_eq_true_eq]
  omega

theorem int64OfText?_intText (value : Int64) : int64OfText? (intText value.toInt) = some value := by
  rw [int64OfText?, intOfText?_intText, Option.filter_some, if_pos (fitsInt64_toInt value),
    Option.map_some, Int64.ofInt_toInt]

end Text

namespace Bytes

abbrev Form := List UInt8 → Prop

def Form.Begins (form : Form) (bytes rest : List UInt8) : Prop :=
  ∃ taken, form taken ∧ bytes = taken ++ rest

def Form.before (first second : Form) : Form := fun bytes =>
  ∃ taken others, first taken ∧ second others ∧ bytes = taken ++ others

theorem begins_before_iff {first second : Form} {bytes rest : List UInt8} :
    (first.before second).Begins bytes rest ↔
      ∃ middle, first.Begins bytes middle ∧ second.Begins middle rest := by
  constructor
  · rintro ⟨_, ⟨taken, others, firstTaken, secondTaken, rfl⟩, rfl⟩
    exact ⟨others ++ rest, ⟨taken, firstTaken, List.append_assoc ..⟩, others, secondTaken, rfl⟩
  · rintro ⟨_, ⟨taken, firstTaken, rfl⟩, others, secondTaken, rfl⟩
    exact ⟨taken ++ others, ⟨taken, others, firstTaken, secondTaken, rfl⟩,
      (List.append_assoc ..).symm⟩

theorem begins_eq_iff {own bytes rest : List UInt8} :
    Form.Begins (· = own) bytes rest ↔ bytes = own ++ rest := by
  simp [Form.Begins]

theorem ofLittleEndian_lt (bytes : List UInt8) :
    ofLittleEndian bytes < twoTo (8 * bytes.length) := by
  induction bytes with
  | nil => exact Nat.one_pos
  | cons byte bytes ih =>
      have power : twoTo (8 * (bytes.length + 1)) = 256 * twoTo (8 * bytes.length) := by
        change twoTo (8 * bytes.length) * 2 * 2 * 2 * 2 * 2 * 2 * 2 * 2 = _
        omega
      have low := byte.toNat_lt
      rw [List.length_cons, power, ofLittleEndian]
      omega

theorem littleEndian_ofLittleEndian (bytes : List UInt8) :
    littleEndian bytes.length (ofLittleEndian bytes) = bytes := by
  induction bytes with
  | nil => rfl
  | cons byte bytes ih =>
      have low := byte.toNat_lt
      have first : UInt8.ofNat (byte.toNat + 256 * ofLittleEndian bytes) = byte := by
        apply UInt8.toNat_inj.mp
        rw [UInt8.toNat_ofNat']
        omega
      have others : (byte.toNat + 256 * ofLittleEndian bytes) / 256 = ofLittleEndian bytes := by
        omega
      rw [List.length_cons, ofLittleEndian, littleEndian, first, others, ih]

theorem split?_eq_some_iff {count : Nat} {bytes first rest : List UInt8} :
    split? count bytes = some (first, rest) ↔ bytes = first ++ rest ∧ first.length = count := by
  constructor
  · exact eq_append_of_split?
  · rintro ⟨rfl, rfl⟩
    exact split?_append first rest

theorem readLittleEndian?_eq_some_iff {count value : Nat} {bytes rest : List UInt8} :
    readLittleEndian? count bytes = some (value, rest) ↔
      value < twoTo (8 * count) ∧ bytes = littleEndian count value ++ rest := by
  constructor
  · intro read
    obtain ⟨⟨first, others⟩, split, same⟩ := Option.map_eq_some_iff.mp read
    cases same
    obtain ⟨rfl, rfl⟩ := split?_eq_some_iff.mp split
    rw [littleEndian_ofLittleEndian]
    exact ⟨ofLittleEndian_lt first, rfl⟩
  · rintro ⟨bound, rfl⟩
    exact readLittleEndian?_append count bound rest

inductive VarintForm (wide : Bool) (value : Nat) : Form
  | byte : value < 251 → VarintForm wide value [UInt8.ofNat value]
  | short : value < twoTo 16 → VarintForm wide value (251 :: littleEndian 2 value)
  | medium : value < twoTo 32 → VarintForm wide value (252 :: littleEndian 4 value)
  | long : wide = true → value < twoTo 64 → VarintForm wide value (253 :: littleEndian 8 value)

theorem readVarint?_eq_some_iff {wide : Bool} {value : Nat} {bytes rest : List UInt8} :
    readVarint? wide bytes = some (value, rest) ↔ Form.Begins (VarintForm wide value) bytes rest := by
  constructor
  · intro read
    unfold readVarint? at read
    split at read
    · simp at read
    · rename_i marker others
      split at read
      · rename_i small
        simp only [Option.some.injEq, Prod.mk.injEq] at read
        obtain ⟨rfl, rfl⟩ := read
        exact ⟨[UInt8.ofNat marker.toNat], .byte (UInt8.lt_iff_toNat_lt.mp small), by simp⟩
      · split at read
        · rename_i same
          obtain ⟨bound, rfl⟩ := readLittleEndian?_eq_some_iff.mp read
          exact ⟨_, .short bound, by rw [same]; rfl⟩
        · split at read
          · rename_i same
            obtain ⟨bound, rfl⟩ := readLittleEndian?_eq_some_iff.mp read
            exact ⟨_, .medium bound, by rw [same]; rfl⟩
          · split at read
            · rename_i same
              obtain ⟨bound, rfl⟩ := readLittleEndian?_eq_some_iff.mp read
              exact ⟨_, .long same.2 bound, by rw [same.1]; rfl⟩
            · simp at read
  · rintro ⟨taken, form, rfl⟩
    cases form with
    | byte small =>
        have same : (UInt8.ofNat value).toNat = value := by
          rw [UInt8.toNat_ofNat']
          omega
        have below : UInt8.ofNat value < 251 := by
          rw [UInt8.lt_iff_toNat_lt, same]
          exact small
        simp [readVarint?, below, same]
    | short bound => exact readLittleEndian?_append 2 bound rest
    | medium bound => exact readLittleEndian?_append 4 bound rest
    | long isWide bound =>
        subst isWide
        exact readLittleEndian?_append 8 bound rest

theorem varintForm_varint {value : Nat} (bound : value < twoTo 64) :
    VarintForm true value (varint value) := by
  unfold varint
  split
  · exact .byte ‹_›
  · split
    · exact .short ‹_›
    · split
      · exact .medium ‹_›
      · exact .long rfl bound

theorem zigzag_unzigzag (n : Nat) : zigzag (unzigzag n) = n := by
  unfold unzigzag
  split
  · simp only [zigzag]
    omega
  · simp only [zigzag]
    omega

end Bytes

end FieldRules
