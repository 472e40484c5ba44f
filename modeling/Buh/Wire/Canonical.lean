import Buh.Wire.V1

/-! Which byte strings are the encoding of the frame they decode to. Decoding an encoding
gives the frame back and nothing may follow it. The other way round `read_varint` takes
every spelling of a number within ten groups, so a string is canonical just when none of
its varints is overlong. -/

namespace Buh.Wire.Canonical
open Buh.Library.Leb128 Buh.Wire.Codec Buh.Wire.V1

theorem writeVarint_grouped (value : Nat) : Grouped (writeVarint value) := by
  induction value using Nat.strong_induction_on with
  | _ value ih =>
    rw [writeVarint_eq]
    split_ifs with small
    · exact .last (by rw [UInt8.toNat_ofNat']; omega)
    · exact .more (by rw [UInt8.toNat_ofNat']; omega) (ih (value / 128) (by omega))

/-- The writer gives back a group exactly when it is not overlong. -/
theorem writeVarint_groupValue {group : Bytes} (whole : Grouped group) :
    writeVarint (groupValue group) = group ↔ overlong group = false := by
  induction whole with
  | @last byte small =>
    have value : groupValue [byte] = byte.toNat := by
      rw [groupValue, groupValue, Nat.mod_eq_of_lt small, Nat.mul_zero, Nat.add_zero]
    rw [value, writeVarint_eq, if_pos small, UInt8.ofNat_toNat]
    exact iff_of_true rfl rfl
  | @more byte rest large group ih =>
    have bound := byte.toNat_lt
    have long := List.length_pos_iff.mpr group.ne_nil
    rw [← Bool.not_eq_true, overlong_more group, not_or, Bool.not_eq_true, ← ih, groupValue, writeVarint_eq]
    by_cases zero : groupValue rest = 0
    · rw [if_pos (by omega)]
      refine iff_of_false ?_ (fun both => both.1 zero)
      intro same
      have lengths := congrArg List.length same
      simp only [List.length_cons, List.length_nil] at lengths
      omega
    · have digit : (byte.toNat % 128 + 128 * groupValue rest) % 128 + 128 = byte.toNat := by omega
      have quotient : (byte.toNat % 128 + 128 * groupValue rest) / 128 = groupValue rest := by omega
      rw [if_neg (by omega), digit, quotient, UInt8.ofNat_toNat, List.cons.injEq, and_iff_right rfl, and_iff_right zero]

/-- No tag and no length of a field is overlong. -/
def fieldsMinimal (bytes : Bytes) : Bool :=
  if _some : bytes = [] then true
  else
    let tag := splitGroup bytes
    let len := splitGroup tag.2
    !overlong tag.1 && !overlong len.1 && fieldsMinimal (len.2.drop (groupValue len.1))
termination_by bytes.length
decreasing_by
  rw [List.length_drop]
  have first := splitGroup_length bytes _some
  have second := splitGroup_length_le (splitGroup bytes).2
  omega

/-- Neither the flags behind the prelude nor any tag or length is overlong. -/
def minimal (bytes : Bytes) : Bool :=
  let flags := splitGroup (bytes.drop 2)
  !overlong flags.1 && fieldsMinimal flags.2

/-- Two strings that begin with a group are equal when the groups and the rests are. -/
theorem grouped_append_iff {first second rest other : Bytes} (whole : Grouped first) (whole' : Grouped second) :
    first ++ rest = second ++ other ↔ first = second ∧ rest = other :=
  ⟨whole.append_inj whole', fun both => by rw [both.1, both.2]⟩

theorem fieldsMinimal_cons {tag len value rest : Bytes} (wholeTag : Grouped tag) (wholeLen : Grouped len)
    (length : value.length = groupValue len) :
    fieldsMinimal (tag ++ (len ++ (value ++ rest))) = true ↔
      (overlong tag = false ∧ overlong len = false) ∧ fieldsMinimal rest = true := by
  have some_ : ¬tag ++ (len ++ (value ++ rest)) = [] := by
    simp [wholeTag.ne_nil]
  rw [fieldsMinimal, dif_neg some_]
  simp only [wholeTag.split, wholeLen.split, ← length, List.drop_left, Bool.and_eq_true, Bool.not_eq_true']

/-- The fields that the loop reads, and when the bytes are their encoding. -/
theorem decodeFields_spelled {bytes : Bytes} {r : Reader} {done out : List Field} (ahead : r.Ahead bytes)
    (read : Frame.decodeFields r done = .ok out) :
    ∃ fields, out = done ++ fields ∧ (fields = [] ↔ bytes = []) ∧ (∀ field ∈ fields, field.value.length < 2 ^ 64) ∧
      (fields.flatMap Frame.encodeField = bytes ↔ fieldsMinimal bytes = true) := by
  induction size : bytes.length using Nat.strong_induction_on generalizing bytes r done with
  | _ size ih =>
    subst size
    rw [Frame.decodeFields] at read
    by_cases none_ : bytes = []
    · subst none_
      rw [dif_pos (by rw [ahead.isEmpty]; rfl)] at read
      cases read
      exact ⟨[], (List.append_nil _).symm, iff_of_true rfl rfl, (by rintro _ ⟨⟩),
        iff_of_true rfl (by rw [fieldsMinimal, dif_pos rfl])⟩
    · rw [dif_neg (by rw [ahead.isEmpty]; simpa using none_)] at read
      split at read
      · cases read
      · next tag afterTag tagRead =>
        obtain ⟨tagGroup, bytes, rfl, wholeTag, ahead, tagValue⟩ := readVarint_group ahead tagRead
        split at read
        · cases read
        · next len afterLen lenRead =>
          obtain ⟨lenGroup, bytes, rfl, wholeLen, ahead, lenValue⟩ := readVarint_group ahead lenRead
          split_ifs at read
          split at read
          · cases read
          · next value after valueRead =>
            obtain ⟨bytes, rfl, length, ahead⟩ := ahead.of_readBytes valueRead
            have shorter : bytes.length < (tagGroup ++ (lenGroup ++ (value ++ bytes))).length := by
              have some_ := List.length_pos_iff.mpr wholeTag.ne_nil
              simp only [List.length_append]
              omega
            obtain ⟨fields, rfl, _, fits, spelled⟩ := ih _ shorter ahead read rfl
            refine ⟨⟨tag, value⟩ :: fields, by rw [List.append_assoc, List.singleton_append],
              iff_of_false (List.cons_ne_nil _ _) none_, ?_, ?_⟩
            · intro field member
              rcases List.mem_cons.mp member with rfl | later
              · rw [length]
                exact len.toNat_lt
              · exact fits field later
            · rw [List.flatMap_cons, Frame.encodeField, List.append_assoc, List.append_assoc,
                grouped_append_iff (writeVarint_grouped _) wholeTag,
                grouped_append_iff (writeVarint_grouped _) wholeLen, List.append_cancel_left_eq, spelled,
                fieldsMinimal_cons wholeTag wholeLen (length.trans lenValue), length, tagValue, lenValue,
                writeVarint_groupValue wholeTag, writeVarint_groupValue wholeLen, and_assoc]

/-- The frame that `decode` reads off a string, and when the string is its encoding. -/
theorem decode_spelled {bytes : Bytes} {frame : Frame} (read : Frame.decode bytes = .ok frame) :
    frame.Fits ∧ (frame.encode = bytes ↔ minimal bytes = true) := by
  obtain ⟨r, group, rest, rfl, whole, flagsValue, -, ahead, fieldsRead⟩ := Frame.decode_reads read
  obtain ⟨fields, same, _, fits, spelled⟩ := decodeFields_spelled ahead fieldsRead
  rw [List.nil_append] at same
  subst same
  refine ⟨fits, ?_⟩
  have split : minimal (V1.magic :: wireVersion :: (group ++ rest)) = true ↔
      overlong group = false ∧ fieldsMinimal rest = true := by
    change (!overlong (splitGroup (group ++ rest)).1 && fieldsMinimal (splitGroup (group ++ rest)).2) = true ↔ _
    rw [whole.split, Bool.and_eq_true, Bool.not_eq_true']
  rw [split, Frame.encode, List.cons.injEq, and_iff_right rfl, List.cons.injEq, and_iff_right rfl, flagsValue,
    grouped_append_iff (writeVarint_grouped _) whole, writeVarint_groupValue whole, ← spelled]

/-- `decode` undoes `encode` for every frame whose values are as long as a `Vec` can be, and
has then consumed every byte: behind an encoding no further byte is passed over. -/
theorem decode_undoes_encode (frame : Frame) (fits : frame.Fits) :
    Frame.decode frame.encode = .ok frame ∧ ∀ rest, Frame.decode (frame.encode ++ rest) = .ok frame → rest = [] := by
  refine ⟨Frame.decode_encode fits, ?_⟩
  intro rest read
  obtain ⟨afterMagic, magicRead, ahead⟩ := Reader.readU8_ahead (Reader.ahead_new (frame.encode ++ rest))
  obtain ⟨afterVersion, versionRead, ahead⟩ := Reader.readU8_ahead ahead
  change afterVersion.Ahead ((writeVarint frame.flags.toNat ++ frame.fields.flatMap Frame.encodeField) ++ rest) at ahead
  rw [List.append_assoc] at ahead
  obtain ⟨afterFlags, flagsRead, ahead⟩ := readVarint_ahead _ ahead
  obtain ⟨after, behind, same⟩ := Frame.decodeFields_append frame.fields [] fits ahead
  simp only [Frame.decode, magicRead, versionRead, flagsRead, same, ne_eq, not_true_eq_false, if_false,
    List.nil_append] at read
  split at read
  · cases read
  · next fields fieldsRead =>
    have kept : fields = frame.fields := congrArg Frame.fields (Except.ok.inj read)
    obtain ⟨more, extended, none_, _⟩ := decodeFields_spelled behind fieldsRead
    rw [kept] at extended
    exact none_.mp (List.self_eq_append_right.mp extended)

/-- Reserved and repeated tags, an empty value, and flags of ten groups. -/
def sampleFrame : Frame := ⟨UInt64.ofNat (2 ^ 63), [⟨0x20, []⟩, ⟨0x20, [1]⟩, ⟨UInt64.ofNat (2 ^ 64 - 1), [2, 3]⟩]⟩

theorem sampleFrame_fits : sampleFrame.Fits := by
  intro field member
  simp only [sampleFrame, List.mem_cons, List.not_mem_nil, or_false] at member
  rcases member with rfl | rfl | rfl <;> decide

theorem decode_undoes_encode_sample : Frame.decode sampleFrame.encode = .ok sampleFrame :=
  (decode_undoes_encode sampleFrame sampleFrame_fits).1

/-- An accepted string is the encoding of its frame exactly when none of its varints is
overlong; two such strings with one frame are equal. An accepted string with an overlong
varint is a second spelling beside the encoding of its frame. -/
theorem canonical_iff_minimal {bytes : Bytes} {frame : Frame} (read : Frame.decode bytes = .ok frame) :
    (frame.encode = bytes ↔ minimal bytes = true) ∧
      (∀ other, Frame.decode other = .ok frame → minimal bytes = true → minimal other = true → other = bytes) ∧
      (minimal bytes = false → frame.encode ≠ bytes ∧ Frame.decode frame.encode = .ok frame) := by
  obtain ⟨fits, spelled⟩ := decode_spelled read
  refine ⟨spelled, ?_, ?_⟩
  · intro other otherRead here there
    rw [← spelled.mpr here, (decode_spelled otherRead).2.mpr there]
  · intro padded
    refine ⟨fun same => ?_, Frame.decode_encode fits⟩
    rw [spelled.mp same] at padded
    cases padded

theorem canonical_iff_minimal_sample : Frame.decode sampleFrame.encode = .ok sampleFrame ∧
    minimal sampleFrame.encode = true ∧
      ∀ other, Frame.decode other = .ok sampleFrame → minimal other = true → other = sampleFrame.encode := by
  have read := Frame.decode_encode sampleFrame_fits
  have canonical := canonical_iff_minimal read
  have short : minimal sampleFrame.encode = true := canonical.1.mp rfl
  exact ⟨read, short, fun other found minimal => canonical.2.1 other found short minimal⟩

/-- The empty frame. -/
def plainBytes : Bytes := [0xB0, 0x01, 0x00]

theorem new_encode : Frame.new.encode = plainBytes := by
  have flags : writeVarint (0 : UInt64).toNat = [0] := by
    rw [writeVarint_eq]
    rfl
  change magic :: wireVersion :: (writeVarint (0 : UInt64).toNat ++ []) = _
  rw [flags]
  rfl

/-- The empty frame with its flags in two bytes. -/
def paddedBytes : Bytes := [0xB0, 0x01, 0x80, 0x00]

theorem padded_decodes : Frame.decode paddedBytes = .ok Frame.new ∧ Frame.decode Frame.new.encode = .ok Frame.new ∧
    Frame.new.encode ≠ paddedBytes := by
  have done : Frame.decodeFields ⟨paddedBytes, 4⟩ [] = .ok [] := by
    rw [Frame.decodeFields, dif_pos (by decide)]
  refine ⟨?_, Frame.decode_encode (by rintro _ ⟨⟩), ?_⟩
  · have flags : (⟨paddedBytes, 2⟩ : Reader).readVarint = .ok (0, ⟨paddedBytes, 4⟩) := rfl
    have first : (Reader.new paddedBytes).readU8 = .ok (magic, ⟨paddedBytes, 1⟩) := rfl
    have second : (⟨paddedBytes, 1⟩ : Reader).readU8 = .ok (wireVersion, ⟨paddedBytes, 2⟩) := rfl
    simp only [Frame.decode, first, second, flags, done, ne_eq, not_true_eq_false, if_false]
    rfl
  · rw [new_encode]
    decide

end Buh.Wire.Canonical
