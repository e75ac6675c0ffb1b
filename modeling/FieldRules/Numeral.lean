/-!
Whole numbers as decimal text and as bytes, and the powers that scale them. Writing gives one form: no
needless signs and zeros in text, and the fewest bytes for the value. Reading also takes a plus sign,
leading zeros and the longer forms.
-/

namespace FieldRules

def twoTo (exponent : Nat) : Nat :=
  Nat.pow 2 exponent

def tenTo (exponent : Nat) : Nat :=
  Nat.pow 10 exponent

theorem twoTo_succ (exponent : Nat) : twoTo (exponent + 1) = twoTo exponent * 2 := rfl

theorem twoTo_pos (exponent : Nat) : 0 < twoTo exponent :=
  Nat.two_pow_pos exponent

theorem tenTo_pos (exponent : Nat) : 0 < tenTo exponent :=
  Nat.pow_pos (by decide)

namespace Text

def intText : Int → List Char
  | .ofNat n => Nat.toDigits 10 n
  | .negSucc n => '-' :: Nat.toDigits 10 (n + 1)

def splitSign : List Char → Bool × List Char
  | '-' :: rest => (true, rest)
  | '+' :: rest => (false, rest)
  | text => (false, text)

def natOfText? (text : List Char) : Option Nat :=
  if text.isEmpty || !text.all Char.isDigit then none else some (Nat.ofDigitChars 10 text 0)

def intOfText? (text : List Char) : Option Int :=
  let (negative, digits) := splitSign text
  (natOfText? digits).map fun n => if negative then -(n : Int) else n

def fitsInt64 (i : Int) : Bool :=
  decide (-0x8000000000000000 ≤ i ∧ i < 0x8000000000000000)

def int64OfText? (text : List Char) : Option Int64 :=
  ((intOfText? text).filter fitsInt64).map Int64.ofInt

end Text

namespace Bytes

def littleEndian : Nat → Nat → List UInt8
  | 0, _ => []
  | count + 1, value => UInt8.ofNat value :: littleEndian count (value / 256)

def ofLittleEndian : List UInt8 → Nat
  | [] => 0
  | byte :: rest => byte.toNat + 256 * ofLittleEndian rest

@[simp] theorem length_littleEndian (count value : Nat) :
    (littleEndian count value).length = count := by
  induction count generalizing value with
  | zero => rfl
  | succ count ih => simp [littleEndian, ih]

def split? : Nat → List UInt8 → Option (List UInt8 × List UInt8)
  | 0, bytes => some ([], bytes)
  | _ + 1, [] => none
  | count + 1, byte :: rest =>
      (split? count rest).map fun (first, others) => (byte :: first, others)

theorem eq_append_of_split? {count : Nat} {bytes first rest : List UInt8}
    (found : split? count bytes = some (first, rest)) :
    bytes = first ++ rest ∧ first.length = count := by
  fun_induction split? count bytes generalizing first with
  | case1 bytes =>
      simp only [Option.some.injEq, Prod.mk.injEq] at found
      simp [← found.1, found.2]
  | case2 => simp at found
  | case3 count byte bytes ih =>
      obtain ⟨⟨innerFirst, innerRest⟩, inner, same⟩ := Option.map_eq_some_iff.mp found
      simp only [Prod.mk.injEq] at same
      obtain ⟨joined, size⟩ := ih (same.2 ▸ inner)
      simp [← same.1, joined, size]

theorem split?_append (first rest : List UInt8) :
    split? first.length (first ++ rest) = some (first, rest) := by
  induction first with
  | nil => rfl
  | cons byte first ih => simp [split?, ih]

def readLittleEndian? (count : Nat) (bytes : List UInt8) : Option (Nat × List UInt8) :=
  (split? count bytes).map fun (first, rest) => (ofLittleEndian first, rest)

theorem length_readLittleEndian? {count value : Nat} {bytes rest : List UInt8}
    (found : readLittleEndian? count bytes = some (value, rest)) :
    bytes.length = count + rest.length := by
  obtain ⟨⟨first, others⟩, taken, same⟩ := Option.map_eq_some_iff.mp found
  simp only [Prod.mk.injEq] at same
  obtain ⟨joined, size⟩ := eq_append_of_split? taken
  rw [joined, List.length_append, size, same.2]

theorem ofLittleEndian_littleEndian (count value : Nat) :
    ofLittleEndian (littleEndian count value) = value % twoTo (8 * count) := by
  induction count generalizing value with
  | zero => exact (Nat.mod_one value).symm
  | succ count ih =>
      have power : twoTo (8 * (count + 1)) = 256 * twoTo (8 * count) := by
        change twoTo (8 * count) * 2 * 2 * 2 * 2 * 2 * 2 * 2 * 2 = _
        omega
      rw [power, Nat.mod_mul, littleEndian, ofLittleEndian, ih, UInt8.toNat_ofNat']

theorem readLittleEndian?_append (count : Nat) {value : Nat} (bound : value < twoTo (8 * count))
    (rest : List UInt8) :
    readLittleEndian? count (littleEndian count value ++ rest) = some (value, rest) := by
  have taken := split?_append (littleEndian count value) rest
  rw [length_littleEndian] at taken
  simp [readLittleEndian?, taken, ofLittleEndian_littleEndian, Nat.mod_eq_of_lt bound]

def varint (value : Nat) : List UInt8 :=
  if value < 251 then [UInt8.ofNat value]
  else if value < 0x10000 then 251 :: littleEndian 2 value
  else if value < 0x100000000 then 252 :: littleEndian 4 value
  else 253 :: littleEndian 8 value

/-- Reads a number of at most 4 bytes, or of at most 8 if it may be `wide`. -/
def readVarint? (wide : Bool) : List UInt8 → Option (Nat × List UInt8)
  | [] => none
  | marker :: rest =>
      if marker < 251 then some (marker.toNat, rest)
      else if marker = 251 then readLittleEndian? 2 rest
      else if marker = 252 then readLittleEndian? 4 rest
      else if marker = 253 ∧ wide then readLittleEndian? 8 rest
      else none

theorem length_readVarint? {wide : Bool} {value : Nat} {bytes rest : List UInt8}
    (found : readVarint? wide bytes = some (value, rest)) : rest.length < bytes.length := by
  unfold readVarint? at found
  split at found
  · simp at found
  · split at found
    · simp only [Option.some.injEq, Prod.mk.injEq] at found
      simp [← found.2]
    · split at found
      · have size := length_readLittleEndian? found
        simp only [List.length_cons]
        omega
      · split at found
        · have size := length_readLittleEndian? found
          simp only [List.length_cons]
          omega
        · split at found
          · have size := length_readLittleEndian? found
            simp only [List.length_cons]
            omega
          · simp at found

def zigzag : Int → Nat
  | .ofNat n => 2 * n
  | .negSucc n => 2 * n + 1

def unzigzag (n : Nat) : Int :=
  if n % 2 = 0 then .ofNat (n / 2) else .negSucc (n / 2)

theorem unzigzag_zigzag (i : Int) : unzigzag (zigzag i) = i := by
  cases i with
  | ofNat n => simp [zigzag, unzigzag]
  | negSucc n =>
      have odd : (2 * n + 1) % 2 ≠ 0 := by omega
      have half : (2 * n + 1) / 2 = n := by omega
      simp [zigzag, unzigzag, half]

end Bytes

end FieldRules
