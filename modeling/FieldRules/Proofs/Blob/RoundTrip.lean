import FieldRules.Blob
import FieldRules.Proofs.Blob.Chain
import FieldRules.Proofs.Blob.Layout

/-!
A rule comes back from its blob. What is written of a payload is a spelling of it, the header passes
every check on the payload written after it, and the recorded size and depth are those of the rule that
the payload's chain stands for.
-/

namespace FieldRules

namespace Payload

open Bytes

theorem length_varint_pos (value : Nat) : 0 < (varint value).length := by
  unfold varint
  split
  · simp
  · split
    · simp
    · split <;> simp

theorem alternativeForm_varint {number : Nat} (small : number < 251) :
    alternativeForm number (varint number) := by
  rw [varint, if_pos small]
  exact .byte small

theorem length_textBytes (text : String) :
    (textBytes text).length = (varint text.utf8ByteSize).length + text.utf8ByteSize := by
  rw [textBytes, List.length_append]
  exact congrArg _ (length_utf8 text)

theorem textForm_textBytes (text : String) (bound : (textBytes text).length < twoTo 64) :
    textForm text (textBytes text) := by
  have sizeBound : text.utf8ByteSize < twoTo 64 := by
    rw [length_textBytes] at bound
    omega
  exact ⟨_, _, varintForm_varint sizeBound, rfl, rfl⟩

theorem zigzag_lt (value : Int64) : zigzag value.toInt < twoTo 64 := by
  have lower := value.le_toInt
  have upper := value.toInt_lt
  change zigzag value.toInt < 0x10000000000000000
  cases same : value.toInt with
  | ofNat n =>
      rw [same, Int.ofNat_eq_natCast] at upper
      simp only [zigzag]
      omega
  | negSucc n =>
      rw [same] at lower
      simp only [zigzag]
      omega

theorem scalarForm_scalarBytes (value : Scalar) (bound : (scalarBytes value).length < twoTo 64) :
    scalarForm value (scalarBytes value) := by
  cases value with
  | int value =>
      exact ⟨_, _, alternativeForm_varint (by decide), varintForm_varint (zigzag_lt value), rfl⟩
  | float value => exact ⟨_, _, alternativeForm_varint (by decide), rfl, rfl⟩
  | text value =>
      have textBound : (textBytes value).length < twoTo 64 := by
        rw [scalarBytes, List.length_append] at bound
        omega
      exact ⟨_, _, alternativeForm_varint (by decide), textForm_textBytes value textBound, rfl⟩

theorem connectiveForm_connectiveBytes (connective : Connective) :
    connectiveForm connective (connectiveBytes connective) :=
  alternativeForm_varint (by cases connective <;> decide)

theorem comparatorForm_comparatorBytes (comparator : Comparator) :
    comparatorForm comparator (comparatorBytes comparator) :=
  alternativeForm_varint (by cases comparator <;> decide)

theorem comparisonForm_comparisonBytes (comparison : Comparison)
    (bound : (comparisonBytes comparison).length < twoTo 64) :
    comparisonForm comparison (comparisonBytes comparison) := by
  simp only [comparisonBytes, List.length_append] at bound
  have field := textForm_textBytes comparison.field (by omega)
  have literal := scalarForm_scalarBytes comparison.literal (by omega)
  exact ⟨_, _, field, ⟨_, _, comparatorForm_comparatorBytes comparison.comparator, literal, rfl⟩,
    List.append_assoc ..⟩

theorem length_chainBytes_pos (chain : Chain) : 0 < (chainBytes chain).length := by
  have testMark := length_varint_pos 1
  have joinMark := length_varint_pos 0
  cases chain with
  | test comparison =>
      rw [chainBytes, List.length_append]
      omega
  | join connective operands =>
      simp only [chainBytes, List.length_append]
      omega

theorem length_le_chainsBytes (chains : List Chain) :
    chains.length ≤ (chainsBytes chains).length := by
  induction chains with
  | nil => exact Nat.zero_le _
  | cons chain rest ih =>
      have positive := length_chainBytes_pos chain
      rw [chainsBytes, List.length_append, List.length_cons]
      omega

mutual

theorem chainForm_chainBytes (chain : Chain) (bound : (chainBytes chain).length < twoTo 64) :
    chainForm chain (chainBytes chain) := by
  cases chain with
  | test comparison =>
      simp only [chainBytes, List.length_append] at bound
      rw [chainForm, chainBytes]
      exact ⟨_, _, alternativeForm_varint (by decide),
        comparisonForm_comparisonBytes comparison (by omega), rfl⟩
  | join connective operands =>
      have count := length_le_chainsBytes operands
      simp only [chainBytes, List.length_append] at bound
      have counted : natForm operands.length (varint operands.length) :=
        varintForm_varint (by omega)
      rw [chainForm, chainBytes, List.append_assoc, List.append_assoc]
      exact ⟨_, _, alternativeForm_varint (by decide),
        ⟨_, _, connectiveForm_connectiveBytes connective,
          ⟨_, _, counted, chainsForm_chainsBytes operands (by omega), rfl⟩, rfl⟩, rfl⟩

theorem chainsForm_chainsBytes (chains : List Chain)
    (bound : (chainsBytes chains).length < twoTo 64) : chainsForm chains (chainsBytes chains) := by
  cases chains with
  | nil =>
      rw [chainsForm]
      rfl
  | cons chain others =>
      simp only [chainsBytes, List.length_append] at bound
      rw [chainsForm, chainsBytes]
      exact ⟨_, _, chainForm_chainBytes chain (by omega),
        chainsForm_chainsBytes others (by omega), rfl⟩

end

theorem digestForm_digestBytes (digest : Option SourceDigest) :
    digestForm digest (digestBytes digest) := by
  cases digest <;> rfl

theorem form_toBytes (payload : Payload) (bound : payload.toBytes.length < twoTo 64)
    (size : payload.size < twoTo 64) (depth : payload.depth < twoTo 64) :
    payload.form payload.toBytes := by
  simp only [toBytes, List.length_append] at bound
  have chain := chainForm_chainBytes payload.chain (by omega)
  rw [toBytes, List.append_assoc, List.append_assoc]
  exact ⟨_, _, varintForm_varint size, ⟨_, _, varintForm_varint depth,
    ⟨_, _, digestForm_digestBytes payload.digest, chain, rfl⟩, rfl⟩, rfl⟩

theorem ofBytes?_toBytes (payload : Payload) (bound : payload.toBytes.length < twoTo 64)
    (size : payload.size < twoTo 64) (depth : payload.depth < twoTo 64) :
    ofBytes? payload.toBytes = some payload :=
  ofBytes?_eq_some_iff.mpr
    ⟨[], payload.toBytes, form_toBytes payload bound size depth, (List.append_nil _).symm⟩

end Payload

namespace Blob

open Bytes

/-! ### Header -/

theorem slice_append {start size : Nat} {before middle after : List UInt8}
    (startSize : before.length = start) (middleSize : middle.length = size) :
    slice start size (before ++ (middle ++ after)) = middle := by
  rw [slice, List.drop_left' startSize, List.take_left' middleSize]

@[simp] theorem length_checksum (payload : List UInt8) : (checksum payload).length = 16 := by
  simp [checksum]

@[simp] theorem length_header (payload : List UInt8) : (header payload).length = headerSize := by
  simp [header, magic, headerSize]

theorem payloadBytes_header {payload : List UInt8} (small : payload.length < 0x100000000) :
    payloadBytes (header payload ++ payload) = .ok payload := by
  have enough : ¬(header payload ++ payload).length < headerSize := by
    rw [List.length_append, length_header]
    omega
  have rest : (header payload ++ payload).drop headerSize = payload :=
    List.drop_left' (length_header payload)
  have magicSlice : slice 0 4 (header payload ++ payload) = magic := rfl
  have versionSlice : slice 4 2 (header payload ++ payload) = littleEndian 2 formatVersion := rfl
  have sizeSlice : slice 12 4 (header payload ++ payload) = littleEndian 4 payload.length := by
    have regroup : header payload ++ payload = (magic ++ littleEndian 2 formatVersion
        ++ littleEndian 2 engineVersion ++ littleEndian 4 0)
          ++ (littleEndian 4 payload.length ++ (checksum payload ++ payload)) := by
      simp only [header, List.append_assoc]
    rw [regroup]
    exact slice_append (by simp [magic]) (by simp)
  have checksumSlice : slice 16 16 (header payload ++ payload) = checksum payload := by
    have regroup : header payload ++ payload = (magic ++ littleEndian 2 formatVersion
        ++ littleEndian 2 engineVersion ++ littleEndian 4 0 ++ littleEndian 4 payload.length)
          ++ (checksum payload ++ payload) := by
      simp only [header, List.append_assoc]
    rw [regroup]
    exact slice_append (by simp [magic]) (by simp)
  have size : ofLittleEndian (littleEndian 4 payload.length) = payload.length := by
    rw [ofLittleEndian_littleEndian]
    exact Nat.mod_eq_of_lt small
  have version : ofLittleEndian (littleEndian 2 formatVersion) = formatVersion := by decide
  simp only [payloadBytes, enough, rest, magicSlice, versionSlice, sizeSlice, checksumSlice, size,
    version, ne_eq, not_true_eq_false, if_false]

theorem size_le_operandsBefore (rule : Rule) :
    rule.size ≤ (Payload.chainBytes (Chain.ofRule rule)).length ∧
    ∀ connective after, rule.size + (Payload.chainsBytes after).length ≤
      (Payload.chainsBytes (Chain.operandsBefore connective rule after)).length := by
  induction rule with
  | test comparison =>
      have positive := Payload.length_chainBytes_pos (.test comparison)
      refine ⟨positive, ?_⟩
      intro connective after
      simp only [Chain.operandsBefore, Payload.chainsBytes, List.length_append, Rule.size]
      omega
  | join inner left right leftHolds rightHolds =>
      have whole : (Rule.join inner left right).size ≤ (Payload.chainBytes
          (.join inner (Chain.operandsBefore inner left [Chain.ofRule right]))).length := by
        have operands := leftHolds.2 inner [Chain.ofRule right]
        have last := rightHolds.1
        simp only [Payload.chainsBytes, List.append_nil] at operands
        simp only [Payload.chainBytes, List.length_append, Rule.size]
        omega
      refine ⟨whole, ?_⟩
      intro connective after
      by_cases same : inner = connective
      · subst same
        have operands := leftHolds.2 inner (Chain.ofRule right :: after)
        have last := rightHolds.1
        rw [Chain.operandsBefore, if_pos rfl]
        simp only [Payload.chainsBytes, List.length_append] at operands
        simp only [Rule.size]
        omega
      · rw [Chain.operandsBefore, if_neg same, Payload.chainsBytes, List.length_append]
        omega

theorem ofBytes?_payloadOf {rule : Rule} {source : Option String}
    (small : (payloadOf rule source).toBytes.length < 0x100000000) :
    Payload.ofBytes? (payloadOf rule source).toBytes = some (payloadOf rule source) := by
  have chain := (size_le_operandsBefore rule).1
  have depth := rule.depth_le_size
  have within := small
  simp only [Payload.toBytes, payloadOf, List.length_append] at within
  have wide : 0x100000000 < twoTo 64 := by decide
  exact Payload.ofBytes?_toBytes _ (Nat.lt_trans small wide)
    (show rule.size < twoTo 64 by omega) (show rule.depth < twoTo 64 by omega)

theorem ruleOf_payloadOf {limits : Limits} {rule : Rule} (fits : rule.depth ≤ limits.maxDepth)
    (source : Option String) : ruleOf limits (payloadOf rule source) = .ok rule := by
  simp only [ruleOf, payloadOf, Nat.not_lt.mpr fits, if_false,
    Chain.toRule_ofRule (Nat.le_refl rule.depth)]
  simp [Except.mapError, bind, Except.bind, pure, Except.pure]

theorem decode_blob (limits : Limits) {rule : Rule} (source expected : Option String)
    (fits : rule.depth ≤ limits.maxDepth)
    (small : (payloadOf rule source).toBytes.length < 0x100000000) :
    decode limits expected (header (payloadOf rule source).toBytes
        ++ (payloadOf rule source).toBytes) =
      (checkSource expected (source.map digestOf)).map fun _ => rule := by
  have opened : decode limits expected (header (payloadOf rule source).toBytes
      ++ (payloadOf rule source).toBytes) =
        (checkSource expected (source.map digestOf)).bind fun _ =>
          ruleOf limits (payloadOf rule source) := by
    simp only [decode, payloadBytes_header small, bind, Except.bind, ofBytes?_payloadOf small]
    rfl
  rw [opened, ruleOf_payloadOf fits]
  cases checkSource expected (source.map digestOf) <;> rfl

theorem encode_eq_ok_iff {rule : Rule} {source : Option String} {blob : List UInt8} :
    encode rule source = .ok blob ↔ (payloadOf rule source).toBytes.length < 0x100000000 ∧
      blob = header (payloadOf rule source).toBytes ++ (payloadOf rule source).toBytes := by
  by_cases small : (payloadOf rule source).toBytes.length < 0x100000000
  · rw [encode, if_pos small, Except.ok.injEq, eq_comm]
    exact (and_iff_right small).symm
  · rw [encode, if_neg small]
    exact ⟨nofun, fun same => absurd same.1 small⟩

theorem decode_of_encode {limits : Limits} {rule : Rule} {source expected : Option String}
    {blob : List UInt8} (fits : rule.depth ≤ limits.maxDepth)
    (written : encode rule source = .ok blob) (own : expected = none ∨ expected = source) :
    decode limits expected blob = .ok rule := by
  obtain ⟨small, rfl⟩ := encode_eq_ok_iff.mp written
  rw [decode_blob limits source expected fits small]
  rcases own with rfl | rfl
  · rfl
  · cases expected with
    | none => rfl
    | some text => simp [checkSource, Except.map]

/-- Every rule within the limits is written, if its payload is below 4 GiB, and read back exactly. A
text that is expected must be there and have the digest that was stored. -/
theorem decode_encode (limits : Limits) (rule : Rule) (source : Option String)
    (fits : rule.depth ≤ limits.maxDepth)
    (small : (payloadOf rule source).toBytes.length < 0x100000000) :
    ∃ bytes, encode rule source = .ok bytes ∧
      (∀ expected, expected = none ∨ expected = source →
        decode limits expected bytes = .ok rule) ∧
      (∀ wanted, source = none → decode limits (some wanted) bytes = .error .missingDigest) ∧
      ∀ wanted stored, source = some stored → digestOf wanted ≠ digestOf stored →
        decode limits (some wanted) bytes = .error .staleSource := by
  refine ⟨header (payloadOf rule source).toBytes ++ (payloadOf rule source).toBytes, ?_, ?_, ?_, ?_⟩
  · exact if_pos small
  · intro expected absentOrSame
    rw [decode_blob limits source expected fits small]
    rcases absentOrSame with absent | same
    · rw [absent]
      rfl
    · subst same
      cases expected with
      | none => rfl
      | some text => simp [checkSource, Except.map]
  · intro wanted absent
    rw [decode_blob limits source (some wanted) fits small, absent]
    rfl
  · intro wanted stored given differ
    rw [decode_blob limits source (some wanted) fits small, given]
    simp [checkSource, Except.map, Ne.symm differ]

theorem treeFrom_of_length_le {bytes : List UInt8} (short : bytes.length ≤ 64) :
    Blake3.treeFrom 0 bytes = ⟨Blake3.iv, Blake3.blockOfBytes bytes, 0, UInt32.ofNat bytes.length,
      Blake3.chunkStart ||| Blake3.chunkEnd⟩ := by
  rw [Blake3.treeFrom, if_pos (by omega), Blake3.chunkFrom, if_pos short]
  rfl

theorem decode_encode_nested_chain :
    let left : Rule := .join .and (.test ⟨"a", .eq, .int (-1)⟩) (.test ⟨"b", .gt, .float (.nan true)⟩)
    let right : Rule := .join .and (.test ⟨"c", .ne, .text "x"⟩) (.test ⟨"d", .le, .int 300⟩)
    ∃ bytes, encode (.join .and left right) (some "a") = .ok bytes ∧
      decode {} none bytes = .ok (.join .and left right) ∧
      decode {} (some "a") bytes = .ok (.join .and left right) ∧
      decode {} (some "b") bytes = .error .staleSource := by
  intro left right
  have fits : (Rule.join .and left right).depth ≤ ({} : Limits).maxDepth := by decide
  have small : (payloadOf (.join .and left right) (some "a")).toBytes.length < 0x100000000 := by
    have digestSize : (Payload.digestBytes (some (digestOf "a"))).length = 33 := by
      simp [Payload.digestBytes]
    simp only [payloadOf, Payload.toBytes, Option.map_some, List.length_append, digestSize]
    decide
  have differ : digestOf "b" ≠ digestOf "a" := by
    simp only [digestOf, Blake3.hash]
    rw [treeFrom_of_length_le (by decide), treeFrom_of_length_le (by decide)]
    decide +kernel
  obtain ⟨bytes, written, read, _, stale⟩ :=
    decode_encode {} (.join .and left right) (some "a") fits small
  exact ⟨bytes, written, read none (Or.inl rfl), read (some "a") (Or.inr rfl),
    stale "b" "a" rfl differ⟩

end Blob

end FieldRules
