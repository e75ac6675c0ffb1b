import FieldRules.Proofs.Blob.Chain
import FieldRules.Proofs.Blob.Layout
import FieldRules.Proofs.Blob.RoundTrip

/-!
Which blobs are accepted: those with a sound header over a payload that starts with a spelling, and
whose records are right about the source and about the rule that the chain folds to.
-/

namespace FieldRules

structure Payload.Records (payload : Payload) (rule : Rule) : Prop where
  wellFormed : payload.chain.IsWellFormed
  folded : payload.chain.folded? = some rule
  depth : payload.depth = rule.depth
  size : payload.size = rule.size

namespace Blob

open Bytes

/-- The header is right about the bytes that follow it. Bytes 6 to 12 may hold anything. -/
structure Intact (bytes : List UInt8) : Prop where
  long : 32 ≤ bytes.length
  marked : slice 0 4 bytes = "RKIT".toUTF8.data.toList
  version : ofLittleEndian (slice 4 2 bytes) = 1
  size : ofLittleEndian (slice 12 4 bytes) = (bytes.drop 32).length
  hashed : slice 16 16 bytes = (Blake3.hash (bytes.drop 32)).toList.take 16

theorem magic_eq : magic = "RKIT".toUTF8.data.toList := by
  decide +kernel

theorem payloadBytes_eq_ok_iff {bytes payload : List UInt8} :
    payloadBytes bytes = .ok payload ↔ Intact bytes ∧ payload = bytes.drop 32 := by
  simp only [payloadBytes, guard_eq_ok_iff, ne_eq, not_not, Except.ok.injEq, magic_eq]
  constructor
  · rintro ⟨long, marked, version, size, hashed, rfl⟩
    exact ⟨⟨Nat.not_lt.mp long, marked, version, size.symm, hashed.symm⟩, rfl⟩
  · rintro ⟨⟨long, marked, version, size, hashed⟩, rfl⟩
    exact ⟨Nat.not_lt.mpr long, marked, version, size.symm, hashed.symm, rfl⟩

theorem checkSource_eq_ok_iff {expected : Option String} {recorded : Option SourceDigest} :
    checkSource expected recorded = .ok () ↔
      ∀ source, expected = some source → recorded = some (digestOf source) := by
  cases expected with
  | none => simp [checkSource]
  | some source =>
      cases recorded with
      | none => simp [checkSource]
      | some digest => simp [checkSource]

/-- The recorded depth is a budget that is large enough, if it is right. -/
theorem toRule_of_records {payload : Payload} {rule : Rule} (records : payload.Records rule) :
    payload.chain.toRule payload.depth = .ok rule := by
  refine (Chain.toRule_eq_ok_iff payload.chain).mpr ⟨records.wellFormed, records.folded, ?_⟩
  rw [records.depth]
  exact Chain.nesting_le_depth payload.chain records.wellFormed records.folded

theorem ruleOf_eq (limits : Limits) (payload : Payload) :
    ruleOf limits payload =
      if limits.maxDepth < payload.depth then
        .error (.tooDeep ⟨payload.depth, limits.maxDepth⟩)
      else ((payload.chain.toRule payload.depth).mapError Error.invalid).bind fun rule =>
        if payload.size ≠ rule.size then .error (.invalid (.sizeDiffers payload.size rule.size))
        else if payload.depth ≠ rule.depth then
          .error (.invalid (.depthDiffers payload.depth rule.depth))
        else .ok rule := by
  rw [ruleOf]
  by_cases deep : limits.maxDepth < payload.depth
  · rw [if_pos deep, if_pos deep]
    rfl
  · rw [if_neg deep, if_neg deep]
    cases payload.chain.toRule payload.depth with
    | error fault => rfl
    | ok rule =>
        simp only [Except.mapError, bind, Except.bind]
        split
        · rfl
        · split <;> rfl

theorem ruleOf_eq_ok_iff {limits : Limits} {payload : Payload} {rule : Rule} :
    ruleOf limits payload = .ok rule ↔
      payload.Records rule ∧ payload.depth ≤ limits.maxDepth := by
  rw [ruleOf_eq, guard_eq_ok_iff, Nat.not_lt]
  constructor
  · rintro ⟨fits, read⟩
    obtain ⟨own, taken, checked⟩ := bind_eq_ok_iff.mp read
    simp only [guard_eq_ok_iff, ne_eq, not_not, Except.ok.injEq] at checked
    obtain ⟨size, depth, rfl⟩ := checked
    obtain ⟨wellFormed, folded, _⟩ :=
      (Chain.toRule_eq_ok_iff payload.chain).mp (mapError_eq_ok_iff.mp taken)
    exact ⟨⟨wellFormed, folded, depth, size⟩, fits⟩
  · rintro ⟨records, fits⟩
    refine ⟨fits, bind_eq_ok_iff.mpr ⟨rule, ?_, ?_⟩⟩
    · exact mapError_eq_ok_iff.mpr (toRule_of_records records)
    · simp [records.size, records.depth]

theorem decode_eq_ok_iff {limits : Limits} {expected : Option String} {bytes : List UInt8}
    {rule : Rule} :
    decode limits expected bytes = .ok rule ↔
      Intact bytes ∧ ∃ payload, Payload.ofBytes? (bytes.drop 32) = some payload ∧
        checkSource expected payload.digest = .ok () ∧ payload.Records rule ∧
        payload.depth ≤ limits.maxDepth := by
  constructor
  · intro accepted
    obtain ⟨_, found, read⟩ := bind_eq_ok_iff.mp accepted
    obtain ⟨intact, rfl⟩ := payloadBytes_eq_ok_iff.mp found
    cases taken : Payload.ofBytes? (bytes.drop 32) with
    | none =>
        rw [taken] at read
        cases read
    | some payload =>
        rw [taken] at read
        obtain ⟨_, checked, accepted⟩ := bind_eq_ok_iff.mp read
        exact ⟨intact, payload, rfl, checked, ruleOf_eq_ok_iff.mp accepted⟩
  · rintro ⟨intact, payload, taken, checked, accepted⟩
    refine bind_eq_ok_iff.mpr ⟨_, payloadBytes_eq_ok_iff.mpr ⟨intact, rfl⟩, ?_⟩
    rw [taken]
    exact bind_eq_ok_iff.mpr ⟨(), checked, ruleOf_eq_ok_iff.mpr accepted⟩

/-- A blob is accepted just if its header is sound, its payload starts with a spelling, the source that
is expected is the one recorded, and the chain stands for the rule with the size and the depth that
are recorded, within the limits. The budget refuses no payload that records its rule. -/
theorem decode_eq_ok_iff_records (limits : Limits) (expected : Option String) (bytes : List UInt8)
    (rule : Rule) :
    (decode limits expected bytes = .ok rule ↔
      Intact bytes ∧ ∃ (payload : Payload) (value rest : List UInt8),
        bytes.drop 32 = value ++ rest ∧ payload.form value ∧
        (∀ source, expected = some source → payload.digest = some (digestOf source)) ∧
        payload.Records rule ∧ payload.depth ≤ limits.maxDepth) ∧
    ∀ payload : Payload, payload.Records rule → payload.chain.toRule payload.depth = .ok rule := by
  refine ⟨?_, fun payload => toRule_of_records⟩
  rw [decode_eq_ok_iff]
  constructor
  · rintro ⟨intact, payload, taken, checked, records, fits⟩
    obtain ⟨rest, value, form, same⟩ := Payload.ofBytes?_eq_some_iff.mp taken
    exact ⟨intact, payload, value, rest, same, form, checkSource_eq_ok_iff.mp checked, records,
      fits⟩
  · rintro ⟨intact, payload, value, rest, same, form, source, records, fits⟩
    exact ⟨intact, payload, Payload.ofBytes?_eq_some_iff.mpr ⟨rest, value, form, same⟩,
      checkSource_eq_ok_iff.mpr source, records, fits⟩

theorem decode_eq_ok_longer_spelling :
    let a : Comparison := ⟨"a", .eq, .int 1⟩
    let b : Comparison := ⟨"b", .lt, .text "x"⟩
    let chain : Chain := .join .and [.join .and [.test a, .test b], .test a]
    let rule : Rule := .join .and (.join .and (.test a) (.test b)) (.test a)
    let value := (251 :: littleEndian 2 3) ++ (varint 3 ++ ([0] ++ Payload.chainBytes chain))
    let payload := value ++ [0xff]
    decode ⟨3⟩ none (header payload ++ payload) = .ok rule ∧ chain.toRule 3 = .ok rule := by
  intro a b chain rule value payload
  have form : Payload.form ⟨3, 3, none, chain⟩ value :=
    ⟨_, _, .short (by decide), ⟨_, _, varintForm_varint (by decide), ⟨_, _, rfl,
      Payload.chainForm_chainBytes chain (by decide), rfl⟩, rfl⟩, rfl⟩
  have records : Payload.Records ⟨3, 3, none, chain⟩ rule :=
    ⟨by simp [chain, Chain.IsWellFormed, Chain.AreWellFormed], rfl, rfl, rfl⟩
  have intact : Intact (header payload ++ payload) :=
    (payloadBytes_eq_ok_iff.mp (payloadBytes_header (by decide))).1
  have bytes : (header payload ++ payload).drop 32 = value ++ [0xff] :=
    List.drop_left' (length_header payload)
  obtain ⟨accepted, budgeted⟩ := decode_eq_ok_iff_records ⟨3⟩ none (header payload ++ payload) rule
  exact ⟨accepted.mpr ⟨intact, _, value, [0xff], bytes, form, by simp, records, Nat.le_refl 3⟩,
    budgeted _ records⟩

end Blob

end FieldRules
