import FieldRules.Proofs.Blob.Acceptance

/-!
Damaged blobs. A blob that is cut short or goes on is refused for its length, and a byte that is changed
is reported by the check that looks at it. Bytes 6 to 12 are looked at by none.
-/

namespace FieldRules.Blob

open Bytes

theorem slice_take {start size count : Nat} (bytes : List UInt8) (within : start + size ≤ count) :
    slice start size (bytes.take count) = slice start size bytes := by
  rw [slice, slice, List.drop_take, List.take_take, Nat.min_eq_left (by omega)]

theorem slice_set_of_apart {start size offset : Nat} (bytes : List UInt8) (byte : UInt8)
    (apart : offset < start ∨ start + size ≤ offset) :
    slice start size (bytes.set offset byte) = slice start size bytes := by
  rw [slice, slice, List.drop_set]
  rcases apart with before | after
  · rw [if_pos before]
  · rw [if_neg (by omega), List.take_set, List.set_eq_of_length_le]
    rw [List.length_take]
    omega

theorem slice_set_of_inside (start size index : Nat) (bytes : List UInt8) (byte : UInt8) :
    slice start size (bytes.set (start + index) byte) = (slice start size bytes).set index byte := by
  rw [slice, slice, List.drop_set, if_neg (by omega), List.take_set, Nat.add_sub_cancel_left]

theorem slice_set_ne {start size offset : Nat} {bytes : List UInt8} {byte : UInt8}
    (inside : offset < bytes.length) (changed : byte ≠ bytes[offset]) (low : start ≤ offset)
    (high : offset < start + size) :
    slice start size (bytes.set offset byte) ≠ slice start size bytes := by
  obtain ⟨index, rfl⟩ := Nat.exists_eq_add_of_le low
  have bound : index < (slice start size bytes).length := by
    rw [slice, List.length_take, List.length_drop]
    omega
  have old : (slice start size bytes)[index] = bytes[start + index] := by
    simp [slice]
  intro same
  rw [slice_set_of_inside] at same
  have new := List.getElem_set_self (a := byte) (by rwa [List.length_set] : index < _)
  simp only [same, old] at new
  exact changed new.symm

theorem ofLittleEndian_ne {first second : List UInt8} (sizes : first.length = second.length)
    (differ : first ≠ second) : ofLittleEndian first ≠ ofLittleEndian second := by
  intro same
  apply differ
  rw [← littleEndian_ofLittleEndian first, ← littleEndian_ofLittleEndian second, sizes, same]

theorem ofLittleEndian_slice_set_ne {start size offset : Nat} {bytes : List UInt8} {byte : UInt8}
    (inside : offset < bytes.length) (changed : byte ≠ bytes[offset]) (low : start ≤ offset)
    (high : offset < start + size) :
    ofLittleEndian (slice start size (bytes.set offset byte)) ≠
      ofLittleEndian (slice start size bytes) :=
  ofLittleEndian_ne (by simp [slice]) (slice_set_ne inside changed low high)

theorem drop_set_of_lt {count offset : Nat} (bytes : List UInt8) (byte : UInt8)
    (before : offset < count) : (bytes.set offset byte).drop count = bytes.drop count := by
  rw [List.drop_set, if_pos before]

theorem payloadBytes_of_short {bytes : List UInt8} (short : bytes.length < 32) :
    payloadBytes bytes = .error (.lengthMismatch 32 bytes.length) :=
  if_pos short

theorem payloadBytes_of_unchecked_changed {offset : Nat} (bytes : List UInt8) (byte : UInt8)
    (low : 6 ≤ offset) (high : offset < 12) :
    payloadBytes (bytes.set offset byte) = payloadBytes bytes := by
  have payload : (bytes.set offset byte).drop headerSize = bytes.drop headerSize :=
    drop_set_of_lt bytes byte (by simp only [headerSize]; omega)
  have part {start size : Nat} (apart : offset < start ∨ start + size ≤ offset) :=
    slice_set_of_apart bytes byte apart
  rw [payloadBytes, payloadBytes, payload, part (by omega), part (by omega), part (by omega),
    part (by omega), List.length_set]

namespace Intact

variable {bytes : List UInt8} (intact : Intact bytes)

include intact

theorem payloadBytes_of_other_length {other : List UInt8} (long : 32 ≤ other.length)
    (header : other.take 32 = bytes.take 32) (differs : other.length ≠ bytes.length) :
    payloadBytes other = .error (.lengthMismatch (bytes.length - 32) (other.length - 32)) := by
  have part {start size : Nat} (within : start + size ≤ 32) :
      slice start size other = slice start size bytes := by
    rw [← slice_take other within, header, slice_take bytes within]
  have bound := intact.long
  have marked : slice 0 4 other = magic := by
    rw [part (by omega), intact.marked, magic_eq]
  have version : ofLittleEndian (slice 4 2 other) = formatVersion := by
    rw [part (by omega), intact.version, formatVersion]
  have size : ofLittleEndian (slice 12 4 other) = bytes.length - 32 := by
    rw [part (by omega), intact.size, List.length_drop]
  simp only [payloadBytes, headerSize, Nat.not_lt.mpr long, marked, version, size, List.length_drop,
    ne_eq, not_true_eq_false, if_false]
  rw [if_pos (by omega)]

theorem payloadBytes_prefix {part : List UInt8} (cut : part <+: bytes) (proper : part ≠ bytes) :
    payloadBytes part = .error (if part.length < 32 then .lengthMismatch 32 part.length
      else .lengthMismatch (bytes.length - 32) (part.length - 32)) := by
  rcases Nat.lt_or_ge part.length 32 with short | long
  · rw [if_pos short, payloadBytes_of_short short]
  · rw [if_neg (Nat.not_lt.mpr long)]
    apply intact.payloadBytes_of_other_length long
    · obtain ⟨more, rfl⟩ := cut
      rw [List.take_append_of_le_length long]
    · intro same
      exact proper (cut.eq_of_length same)

theorem payloadBytes_append {more : List UInt8} (nonempty : more ≠ []) :
    payloadBytes (bytes ++ more) =
      .error (.lengthMismatch (bytes.length - 32) (bytes.length + more.length - 32)) := by
  have bound := intact.long
  have longer := List.length_pos_iff.mpr nonempty
  rw [← List.length_append]
  apply intact.payloadBytes_of_other_length
  · rw [List.length_append]
    omega
  · rw [List.take_append_of_le_length bound]
  · rw [List.length_append]
    omega

theorem slice_version : slice 4 2 bytes = [1, 0] := by
  have size : (slice 4 2 bytes).length = 2 := by
    have bound := intact.long
    rw [slice, List.length_take, List.length_drop]
    omega
  rw [← littleEndian_ofLittleEndian (slice 4 2 bytes), size, intact.version]
  decide

variable {offset : Nat} {byte : UInt8}

theorem not_short_set : ¬(bytes.set offset byte).length < headerSize := by
  rw [List.length_set]
  exact Nat.not_lt.mpr intact.long

theorem marked_set (apart : 4 ≤ offset) : slice 0 4 (bytes.set offset byte) = magic := by
  rw [slice_set_of_apart _ _ (by omega), intact.marked, magic_eq]

theorem version_set (apart : 6 ≤ offset) :
    ofLittleEndian (slice 4 2 (bytes.set offset byte)) = formatVersion := by
  rw [slice_set_of_apart _ _ (by omega), intact.version, formatVersion]

theorem size_set (apart : 16 ≤ offset) :
    ((bytes.set offset byte).drop headerSize).length =
      ofLittleEndian (slice 12 4 (bytes.set offset byte)) := by
  rw [slice_set_of_apart _ _ (by omega), intact.size, List.length_drop, List.length_drop,
    List.length_set, headerSize]

theorem payloadBytes_of_unhashed (low : 16 ≤ offset)
    (unhashed : checksum ((bytes.set offset byte).drop 32) ≠ slice 16 16 (bytes.set offset byte)) :
    payloadBytes (bytes.set offset byte) = .error .checksumMismatch := by
  simp only [payloadBytes, intact.not_short_set, intact.marked_set (show 4 ≤ offset by omega),
    intact.version_set (show 6 ≤ offset by omega), intact.size_set low, ne_eq, not_true_eq_false,
    if_false]
  exact if_pos unhashed

theorem payloadBytes_of_payload_changed (low : 32 ≤ offset)
    (rehashed : checksum ((bytes.set offset byte).drop 32) ≠ checksum (bytes.drop 32)) :
    payloadBytes (bytes.set offset byte) = .error .checksumMismatch := by
  apply intact.payloadBytes_of_unhashed (by omega)
  rw [slice_set_of_apart _ _ (by omega), intact.hashed]
  exact rehashed

variable (inside : offset < bytes.length) (changed : byte ≠ bytes[offset])

include changed

theorem payloadBytes_of_magic_changed (high : offset < 4) :
    payloadBytes (bytes.set offset byte) = .error .badMagic := by
  have unmarked : slice 0 4 (bytes.set offset byte) ≠ magic := by
    rw [magic_eq, ← intact.marked]
    exact slice_set_ne inside changed (Nat.zero_le _) (by omega)
  simp only [payloadBytes, intact.not_short_set, if_false]
  rw [if_pos unmarked]

theorem payloadBytes_of_version_changed (low : 4 ≤ offset) (high : offset < 6) :
    payloadBytes (bytes.set offset byte) =
      .error (.incompatibleVersion (ofLittleEndian (slice 4 2 (bytes.set offset byte)))) := by
  have other : ofLittleEndian (slice 4 2 (bytes.set offset byte)) ≠ formatVersion := by
    rw [formatVersion, ← intact.version]
    exact ofLittleEndian_slice_set_ne inside changed low high
  simp only [payloadBytes, intact.not_short_set, intact.marked_set low, ne_eq, not_true_eq_false,
    if_false]
  rw [if_pos other]

theorem payloadBytes_of_size_changed (low : 12 ≤ offset) (high : offset < 16) :
    ∃ size, size ≠ bytes.length - 32 ∧ payloadBytes (bytes.set offset byte) =
      .error (.lengthMismatch size (bytes.length - 32)) := by
  have actual : ((bytes.set offset byte).drop headerSize).length = bytes.length - 32 := by
    rw [List.length_drop, List.length_set, headerSize]
  have other : ofLittleEndian (slice 12 4 (bytes.set offset byte)) ≠ bytes.length - 32 := by
    rw [← List.length_drop, ← intact.size]
    exact ofLittleEndian_slice_set_ne inside changed low high
  refine ⟨_, other, ?_⟩
  simp only [payloadBytes, intact.not_short_set, intact.marked_set (show 4 ≤ offset by omega),
    intact.version_set (show 6 ≤ offset by omega), actual, ne_eq, not_true_eq_false, if_false]
  rw [if_pos (Ne.symm other)]

theorem payloadBytes_of_checksum_changed (low : 16 ≤ offset) (high : offset < 32) :
    payloadBytes (bytes.set offset byte) = .error .checksumMismatch := by
  apply intact.payloadBytes_of_unhashed low
  rw [drop_set_of_lt bytes byte high]
  intro same
  exact slice_set_ne inside changed low high (same.symm.trans intact.hashed.symm)

end Intact

theorem decode_of_payloadBytes_eq_error {limits : Limits} {expected : Option String}
    {bytes : List UInt8} {fault : Error} (refused : payloadBytes bytes = .error fault) :
    decode limits expected bytes = .error fault := by
  simp only [decode, refused, bind, Except.bind]

theorem intact_of_encode {rule : Rule} {source : Option String} {blob : List UInt8}
    (written : encode rule source = .ok blob) : Intact blob := by
  obtain ⟨small, rfl⟩ := encode_eq_ok_iff.mp written
  exact (payloadBytes_eq_ok_iff.mp (payloadBytes_header small)).1

/-- What becomes of a written blob that is damaged. Every proper prefix and every extension has the
wrong length. A changed byte is in the magic word, in the version, in the bytes that no check looks at,
in the recorded size, in the checksum or in the payload. -/
theorem decode_damaged (limits : Limits) {rule : Rule} {source : Option String} {blob : List UInt8}
    (fits : rule.depth ≤ limits.maxDepth) (written : encode rule source = .ok blob)
    (expected : Option String) :
    (∀ part, part <+: blob → part ≠ blob → decode limits expected part =
      .error (if part.length < 32 then .lengthMismatch 32 part.length
        else .lengthMismatch (blob.length - 32) (part.length - 32))) ∧
    (∀ more, more ≠ [] → decode limits expected (blob ++ more) =
      .error (.lengthMismatch (blob.length - 32) (blob.length + more.length - 32))) ∧
    ∀ offset byte, ∀ inside : offset < blob.length, byte ≠ blob[offset] →
      (offset < 4 → decode limits expected (blob.set offset byte) = .error .badMagic) ∧
      (offset = 4 → decode limits expected (blob.set offset byte) =
        .error (.incompatibleVersion byte.toNat)) ∧
      (offset = 5 → decode limits expected (blob.set offset byte) =
        .error (.incompatibleVersion (1 + 256 * byte.toNat))) ∧
      (6 ≤ offset → offset < 12 → expected = none ∨ expected = source →
        decode limits expected (blob.set offset byte) = .ok rule) ∧
      (12 ≤ offset → offset < 16 → ∃ size, size ≠ blob.length - 32 ∧
        decode limits expected (blob.set offset byte) =
          .error (.lengthMismatch size (blob.length - 32))) ∧
      (16 ≤ offset → offset < 32 →
        decode limits expected (blob.set offset byte) = .error .checksumMismatch) ∧
      (32 ≤ offset → checksum ((blob.set offset byte).drop 32) ≠ checksum (blob.drop 32) →
        decode limits expected (blob.set offset byte) = .error .checksumMismatch) := by
  have intact := intact_of_encode written
  refine ⟨?_, ?_, ?_⟩
  · intro part cut proper
    exact decode_of_payloadBytes_eq_error (intact.payloadBytes_prefix cut proper)
  · intro more nonempty
    exact decode_of_payloadBytes_eq_error (intact.payloadBytes_append nonempty)
  · intro offset byte inside changed
    refine ⟨?_, ?_, ?_, ?_, ?_, ?_, ?_⟩
    · intro high
      exact decode_of_payloadBytes_eq_error
        (intact.payloadBytes_of_magic_changed inside changed high)
    · rintro rfl
      rw [decode_of_payloadBytes_eq_error
        (intact.payloadBytes_of_version_changed inside changed (by omega) (by omega)),
        slice_set_of_inside 4 2 0, intact.slice_version]
      rfl
    · rintro rfl
      rw [decode_of_payloadBytes_eq_error
        (intact.payloadBytes_of_version_changed inside changed (by omega) (by omega)),
        slice_set_of_inside 4 2 1, intact.slice_version]
      rfl
    · intro low high own
      rw [← decode_of_encode fits written own, decode, decode,
        payloadBytes_of_unchecked_changed blob byte low high]
    · intro low high
      obtain ⟨size, differs, refused⟩ :=
        intact.payloadBytes_of_size_changed inside changed low high
      exact ⟨size, differs, decode_of_payloadBytes_eq_error refused⟩
    · intro low high
      exact decode_of_payloadBytes_eq_error
        (intact.payloadBytes_of_checksum_changed inside changed low high)
    · intro low rehashed
      exact decode_of_payloadBytes_eq_error (intact.payloadBytes_of_payload_changed low rehashed)

theorem decode_damaged_comparison :
    let rule : Rule := .test ⟨"a", .eq, .int 1⟩
    ∃ blob, encode rule none = .ok blob ∧
      decode {} none (blob.take 40) = .error (.lengthMismatch 9 8) ∧
      decode {} none (blob ++ [0]) = .error (.lengthMismatch 9 10) ∧
      decode {} none (blob.set 5 2) = .error (.incompatibleVersion 513) ∧
      decode {} none (blob.set 6 2) = .ok rule ∧
      decode {} none (blob.set 40 4) = .error .checksumMismatch := by
  intro rule
  let payload : List UInt8 := (payloadOf rule none).toBytes
  have size : payload.length = 9 := by decide
  have blobSize : (header payload ++ payload).length = 41 := by
    rw [List.length_append, length_header, size, headerSize]
  have own : (header payload ++ payload).drop 32 = payload := List.drop_left' (length_header payload)
  have changedOwn : ((header payload ++ payload).set 40 4).drop 32 = payload.set 8 4 := by
    rw [List.drop_set, if_neg (by decide), own]
  have written : encode rule none = .ok (header payload ++ payload) :=
    encode_eq_ok_iff.mpr ⟨by decide, rfl⟩
  have fifth : (header payload ++ payload)[5]? = some 0 := rfl
  have sixth : (header payload ++ payload)[6]? = some 1 := rfl
  have last : (header payload ++ payload)[40]? = some 2 := by
    rw [List.getElem?_append_right (by simp [headerSize]), length_header]
    rfl
  obtain ⟨fifthInside, fifthByte⟩ := List.getElem?_eq_some_iff.mp fifth
  obtain ⟨sixthInside, sixthByte⟩ := List.getElem?_eq_some_iff.mp sixth
  obtain ⟨lastInside, lastByte⟩ := List.getElem?_eq_some_iff.mp last
  have rehashed : checksum (((header payload ++ payload).set 40 4).drop 32) ≠
      checksum ((header payload ++ payload).drop 32) := by
    rw [own, changedOwn]
    simp only [checksum, Blake3.hash]
    rw [treeFrom_of_length_le (by decide), treeFrom_of_length_le (by decide)]
    decide +kernel
  obtain ⟨shorter, longer, changed⟩ :=
    decode_damaged {} (show rule.depth ≤ 128 by decide) written none
  refine ⟨_, written, ?_, ?_, ?_, ?_, ?_⟩
  · have proper : (header payload ++ payload).take 40 ≠ header payload ++ payload := by
      intro same
      have sizes := congrArg List.length same
      rw [List.length_take, blobSize] at sizes
      exact absurd sizes (by decide)
    rw [shorter _ (List.take_prefix 40 _) proper, List.length_take, blobSize]
    rfl
  · rw [longer [0] (by decide), blobSize]
    rfl
  · exact (changed 5 2 fifthInside (by rw [fifthByte]; decide)).2.2.1 rfl
  · exact (changed 6 2 sixthInside (by rw [sixthByte]; decide)).2.2.2.1 (by decide) (by decide)
      (Or.inl rfl)
  · exact (changed 40 4 lastInside (by rw [lastByte]; decide)).2.2.2.2.2.2 (by decide) rehashed

end FieldRules.Blob
