import FieldRules.Blake3
import FieldRules.Numeral
import FieldRules.Rule.Basic
import FieldRules.Rule.Combination

/-!
Blobs: rules kept as bytes, so that a text need not be parsed again. A rule is stored as a chain: a
connective and the operands that it joins from the left are one list, so `a AND b AND c` is a chain of
three; a right operand with the same connective stays a chain of its own. A header of 32 bytes holds a
magic word, two versions, reserved flags, and the size and checksum of the payload after it. The checks
of reading follow the order of the header; what the payload records is checked last.
-/

namespace FieldRules

inductive Chain where
  | test (comparison : Comparison)
  | join (connective : Connective) (operands : List Chain)

namespace Chain

mutual

def ofRule : Rule → Chain
  | .test comparison => test comparison
  | .join connective left right => join connective (operandsBefore connective left [ofRule right])

/-- The operands that a rule adds, as the left operand of `connective`, to the ones after it. -/
def operandsBefore (connective : Connective) : Rule → List Chain → List Chain
  | .test comparison, after => test comparison :: after
  | .join inner left right, after =>
      if inner = connective then operandsBefore connective left (ofRule right :: after)
      else join inner (operandsBefore inner left [ofRule right]) :: after

end

inductive Fault where
  | nestsTooDeep
  | fewOperands (count : Nat)
  | sizeDiffers (recorded actual : Nat)
  | depthDiffers (recorded actual : Nat)
  deriving DecidableEq

def Fault.message : Fault → String
  | nestsTooDeep => "payload nests deeper than its recorded depth"
  | fewOperands count => s!"chain has {count} children, expected at least 2"
  | sizeDiffers recorded actual =>
      s!"metadata says {recorded} comparisons but payload has {actual}"
  | depthDiffers recorded actual =>
      s!"metadata says depth {recorded} but payload has depth {actual}"

mutual

/-- The rule that a chain stands for, joined from the left. Chains may nest at most `budget` deep. -/
def toRule (budget : Nat) : Chain → Except Fault Rule
  | test comparison => if budget = 0 then .error .nestsTooDeep else .ok (.test comparison)
  | join connective operands =>
      if budget = 0 then .error .nestsTooDeep
      else match operands with
        | first :: second :: rest => do
            let left ← first.toRule (budget - 1)
            joinOnto (budget - 1) connective left (second :: rest)
        | few => .error (.fewOperands few.length)

def joinOnto (budget : Nat) (connective : Connective) (left : Rule) :
    List Chain → Except Fault Rule
  | [] => .ok left
  | operand :: rest => do
      let right ← operand.toRule budget
      joinOnto budget connective (.join connective left right) rest

end

end Chain

abbrev SourceDigest := Vector UInt8 32

structure Payload where
  size : Nat
  depth : Nat
  digest : Option SourceDigest
  chain : Chain

namespace Payload

open Bytes

def readAlternative? (bytes : List UInt8) : Option (Nat × List UInt8) :=
  readVarint? false bytes

def readNat? (bytes : List UInt8) : Option (Nat × List UInt8) :=
  readVarint? true bytes

def textBytes (text : String) : List UInt8 :=
  varint text.utf8ByteSize ++ text.toUTF8.data.toList

def scalarBytes : Scalar → List UInt8
  | .int value => varint 0 ++ varint (zigzag value.toInt)
  | .float value => varint 1 ++ littleEndian 8 value.bits.toNat
  | .text value => varint 2 ++ textBytes value

def connectives : List Connective := [.and, .or]

def connectiveBytes (connective : Connective) : List UInt8 :=
  varint (connectives.idxOf connective)

def comparatorBytes (comparator : Comparator) : List UInt8 :=
  varint (Comparator.all.idxOf comparator)

def comparisonBytes (comparison : Comparison) : List UInt8 :=
  textBytes comparison.field ++ comparatorBytes comparison.comparator
    ++ scalarBytes comparison.literal

mutual

def chainBytes : Chain → List UInt8
  | .join connective operands =>
      varint 0 ++ connectiveBytes connective ++ varint operands.length ++ chainsBytes operands
  | .test comparison => varint 1 ++ comparisonBytes comparison

def chainsBytes : List Chain → List UInt8
  | [] => []
  | chain :: rest => chainBytes chain ++ chainsBytes rest

end

def digestBytes : Option SourceDigest → List UInt8
  | none => [0]
  | some digest => 1 :: digest.toList

def toBytes (payload : Payload) : List UInt8 :=
  varint payload.size ++ varint payload.depth ++ digestBytes payload.digest
    ++ chainBytes payload.chain

def readText? (bytes : List UInt8) : Option (String × List UInt8) := do
  let (size, bytes) ← readNat? bytes
  let (first, bytes) ← split? size bytes
  let text ← String.fromUTF8? ⟨first.toArray⟩
  return (text, bytes)

def readScalar? (bytes : List UInt8) : Option (Scalar × List UInt8) := do
  let (alternative, bytes) ← readAlternative? bytes
  match alternative with
  | 0 => do
      let (value, bytes) ← readNat? bytes
      return (.int (Int64.ofInt (unzigzag value)), bytes)
  | 1 => do
      let (value, bytes) ← readLittleEndian? 8 bytes
      return (.float ⟨UInt64.ofNat value⟩, bytes)
  | 2 => do
      let (value, bytes) ← readText? bytes
      return (.text value, bytes)
  | _ => none

def readConnective? (bytes : List UInt8) : Option (Connective × List UInt8) := do
  let (alternative, bytes) ← readAlternative? bytes
  let connective ← connectives[alternative]?
  return (connective, bytes)

def readComparator? (bytes : List UInt8) : Option (Comparator × List UInt8) := do
  let (alternative, bytes) ← readAlternative? bytes
  let comparator ← Comparator.all[alternative]?
  return (comparator, bytes)

def readComparison? (bytes : List UInt8) : Option (Comparison × List UInt8) := do
  let (field, bytes) ← readText? bytes
  let (comparator, bytes) ← readComparator? bytes
  let (literal, bytes) ← readScalar? bytes
  return (⟨field, comparator, literal⟩, bytes)

inductive Head where
  | join (connective : Connective) (count : Nat)
  | test (comparison : Comparison)

def readHead? (bytes : List UInt8) : Option (Head × List UInt8) := do
  let (alternative, bytes) ← readAlternative? bytes
  match alternative with
  | 0 => do
      let (connective, bytes) ← readConnective? bytes
      let (count, bytes) ← readNat? bytes
      return (.join connective count, bytes)
  | 1 => do
      let (comparison, bytes) ← readComparison? bytes
      return (.test comparison, bytes)
  | _ => none

theorem length_readText? {bytes rest : List UInt8} {text : String}
    (found : readText? bytes = some (text, rest)) : rest.length < bytes.length := by
  simp only [readText?, Option.bind_eq_bind, Option.bind_eq_some_iff, Option.pure_def,
    Option.some.injEq, Prod.mk.injEq, Prod.exists] at found
  obtain ⟨size, sized, sizeFound, first, others, split, _, _, _, same⟩ := found
  have sizeBound := length_readVarint? sizeFound
  have joined := (eq_append_of_split? split).1
  rw [← same]
  rw [joined, List.length_append] at sizeBound
  omega

theorem length_readScalar? {bytes rest : List UInt8} {value : Scalar}
    (found : readScalar? bytes = some (value, rest)) : rest.length < bytes.length := by
  simp only [readScalar?, Option.bind_eq_bind, Option.bind_eq_some_iff, Prod.exists] at found
  obtain ⟨alternative, others, alternativeFound, found⟩ := found
  have bound := length_readVarint? alternativeFound
  split at found
  · simp only [Option.bind_eq_some_iff, Option.pure_def, Option.some.injEq, Prod.mk.injEq,
      Prod.exists] at found
    obtain ⟨_, _, inner, _, same⟩ := found
    have innerBound := length_readVarint? inner
    subst same
    omega
  · simp only [Option.bind_eq_some_iff, Option.pure_def, Option.some.injEq, Prod.mk.injEq,
      Prod.exists] at found
    obtain ⟨_, _, inner, _, same⟩ := found
    have innerSize := length_readLittleEndian? inner
    subst same
    omega
  · simp only [Option.bind_eq_some_iff, Option.pure_def, Option.some.injEq, Prod.mk.injEq,
      Prod.exists] at found
    obtain ⟨_, _, inner, _, same⟩ := found
    have innerBound := length_readText? inner
    subst same
    omega
  · simp at found

theorem length_readComparison? {bytes rest : List UInt8} {comparison : Comparison}
    (found : readComparison? bytes = some (comparison, rest)) : rest.length < bytes.length := by
  simp only [readComparison?, readComparator?, Option.bind_eq_bind, Option.bind_eq_some_iff,
    Option.pure_def, Option.some.injEq, Prod.mk.injEq, Prod.exists] at found
  obtain ⟨_, _, fieldFound, _, _, ⟨_, _, comparatorFound, _, _, _, sameTail⟩, _, _, literalFound, _,
    same⟩ := found
  have fieldBound := length_readText? fieldFound
  have comparatorBound := length_readVarint? comparatorFound
  have literalBound := length_readScalar? literalFound
  rw [← same]
  rw [← sameTail] at literalBound
  omega

theorem length_readHead? {bytes rest : List UInt8} {head : Head}
    (found : readHead? bytes = some (head, rest)) : rest.length < bytes.length := by
  simp only [readHead?, Option.bind_eq_bind, Option.bind_eq_some_iff, Prod.exists] at found
  obtain ⟨alternative, others, alternativeFound, found⟩ := found
  have bound := length_readVarint? alternativeFound
  split at found
  · simp only [readConnective?, Option.bind_eq_bind, Option.bind_eq_some_iff, Option.pure_def,
      Option.some.injEq, Prod.mk.injEq, Prod.exists] at found
    obtain ⟨_, _, ⟨_, _, connectiveFound, _, _, _, sameTail⟩, _, _, countFound, _, same⟩ := found
    have connectiveBound := length_readVarint? connectiveFound
    have countBound := length_readVarint? countFound
    subst same sameTail
    omega
  · simp only [Option.bind_eq_some_iff, Option.pure_def, Option.some.injEq, Prod.mk.injEq,
      Prod.exists] at found
    obtain ⟨_, _, inner, _, same⟩ := found
    have innerBound := length_readComparison? inner
    subst same
    omega
  · simp at found

structure Taken (α : Type) (bytes : List UInt8) where
  value : α
  rest : List UInt8
  bound : rest.length ≤ bytes.length

mutual

def readChain? (bytes : List UInt8) : Option (Taken Chain bytes) :=
  match found : readHead? bytes with
  | none => none
  | some (.test comparison, rest) =>
      some ⟨.test comparison, rest, Nat.le_of_lt (length_readHead? found)⟩
  | some (.join connective count, rest) =>
      have shorter := length_readHead? found
      (readChains? count rest).map fun operands =>
        ⟨.join connective operands.value, operands.rest,
          Nat.le_of_lt (Nat.lt_of_le_of_lt operands.bound shorter)⟩
termination_by (bytes.length, 0, 0)

def readChains? (count : Nat) (bytes : List UInt8) : Option (Taken (List Chain) bytes) :=
  match count with
  | 0 => some ⟨[], bytes, Nat.le_refl _⟩
  | count + 1 =>
      match readChain? bytes with
      | none => none
      | some first =>
          have firstBound := first.bound
          (readChains? count first.rest).map fun others =>
            ⟨first.value :: others.value, others.rest, Nat.le_trans others.bound firstBound⟩
termination_by (bytes.length, 1, count)
decreasing_by
  · exact Prod.Lex.right _ (Prod.Lex.left _ _ Nat.zero_lt_one)
  · rcases Nat.lt_or_eq_of_le firstBound with less | same
    · exact Prod.Lex.left _ _ less
    · rw [same]
      exact Prod.Lex.right _ (Prod.Lex.right _ (Nat.lt_succ_self _))

end

def readDigest? : List UInt8 → Option (Option SourceDigest × List UInt8)
  | 0 :: rest => some (none, rest)
  | 1 :: rest =>
      let first := rest.take 32
      if enough : first.length = 32 then
        some (some ⟨first.toArray, by simpa using enough⟩, rest.drop 32)
      else none
  | _ => none

def ofBytes? (bytes : List UInt8) : Option Payload := do
  let (size, bytes) ← readNat? bytes
  let (depth, bytes) ← readNat? bytes
  let (digest, bytes) ← readDigest? bytes
  let chain ← readChain? bytes
  return ⟨size, depth, digest, chain.value⟩

end Payload

namespace Blob

open Bytes

def magic : List UInt8 := [0x52, 0x4b, 0x49, 0x54]

def formatVersion : Nat := 1

def engineVersion : Nat := 1

def headerSize : Nat := 32

def checksum (payload : List UInt8) : List UInt8 :=
  (Blake3.hash payload).toList.take 16

def digestOf (source : String) : SourceDigest :=
  Blake3.hash source.toUTF8.data.toList

structure PayloadTooLarge where
  size : Nat
  deriving DecidableEq

def PayloadTooLarge.message (fault : PayloadTooLarge) : String :=
  s!"payload of {fault.size} bytes exceeds the format limit"

def header (payload : List UInt8) : List UInt8 :=
  magic ++ littleEndian 2 formatVersion ++ littleEndian 2 engineVersion ++ littleEndian 4 0
    ++ littleEndian 4 payload.length ++ checksum payload

def payloadOf (rule : Rule) (source : Option String) : Payload where
  size := rule.size
  depth := rule.depth
  digest := source.map digestOf
  chain := Chain.ofRule rule

def encode (rule : Rule) (source : Option String) : Except PayloadTooLarge (List UInt8) :=
  let payload := (payloadOf rule source).toBytes
  if payload.length < 0x100000000 then .ok (header payload ++ payload)
  else .error ⟨payload.length⟩

inductive Error where
  | badMagic
  | incompatibleVersion (version : Nat)
  | checksumMismatch
  | lengthMismatch (expected actual : Nat)
  | undecodable
  | invalid (fault : Chain.Fault)
  | tooDeep (fault : TooDeep)
  | staleSource
  | missingDigest
  deriving DecidableEq

def Error.message : Error → String
  | badMagic => "not a rulekit binary: invalid magic bytes"
  | incompatibleVersion version =>
      s!"incompatible format version: blob is v{version}, engine supports v{formatVersion}"
  | checksumMismatch => "integrity check failed: BLAKE3 checksum mismatch"
  | lengthMismatch expected actual =>
      s!"payload length mismatch: expected {expected} bytes, got {actual}"
  | undecodable => "failed to decode payload"
  | invalid fault => s!"validation failed: {fault.message}"
  | tooDeep fault => s!"rule tree depth {fault.depth} exceeds the limit of {fault.limit}"
  | staleSource => "blob was encoded from a different rule string"
  | missingDigest => "blob carries no source digest"

def slice (start size : Nat) (bytes : List UInt8) : List UInt8 :=
  (bytes.drop start).take size

def payloadBytes (bytes : List UInt8) : Except Error (List UInt8) :=
  let payload := bytes.drop headerSize
  let version := ofLittleEndian (slice 4 2 bytes)
  let size := ofLittleEndian (slice 12 4 bytes)
  if bytes.length < headerSize then .error (.lengthMismatch headerSize bytes.length)
  else if slice 0 4 bytes ≠ magic then .error .badMagic
  else if version ≠ formatVersion then .error (.incompatibleVersion version)
  else if payload.length ≠ size then .error (.lengthMismatch size payload.length)
  else if checksum payload ≠ slice 16 16 bytes then .error .checksumMismatch
  else .ok payload

def checkSource (expected : Option String) (recorded : Option SourceDigest) : Except Error Unit :=
  match expected, recorded with
  | none, _ => .ok ()
  | some _, none => .error .missingDigest
  | some source, some digest => if digest = digestOf source then .ok () else .error .staleSource

def ruleOf (limits : Limits) (payload : Payload) : Except Error Rule := do
  if limits.maxDepth < payload.depth then
    throw (.tooDeep ⟨payload.depth, limits.maxDepth⟩)
  let rule ← (payload.chain.toRule payload.depth).mapError .invalid
  if payload.size ≠ rule.size then throw (.invalid (.sizeDiffers payload.size rule.size))
  if payload.depth ≠ rule.depth then throw (.invalid (.depthDiffers payload.depth rule.depth))
  return rule

def decode (limits : Limits) (expected : Option String) (bytes : List UInt8) :
    Except Error Rule := do
  let payloadBytes ← payloadBytes bytes
  match Payload.ofBytes? payloadBytes with
  | none => throw .undecodable
  | some payload =>
      checkSource expected payload.digest
      ruleOf limits payload

end Blob

end FieldRules
