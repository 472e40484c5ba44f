import Buh.Wire.Canonical

/-! Encodings with their end cut off. A frame carries neither its length nor the number of
its fields, so a cut between two fields leaves another frame; what is left are the first
fields, and the last one is missing. -/

namespace Buh.Wire.Truncation
open Buh.Library.PrefixCode Buh.Library.Leb128 Buh.Wire.Codec Buh.Wire.V1 Buh.Wire.Canonical

/-- A strict prefix: the first bytes of a string, and not all of them. -/
def CutOff (present whole : Bytes) : Prop := present <+: whole ∧ present ≠ whole

theorem CutOff.missing {present whole : Bytes} (cut : CutOff present whole) :
    ∃ missing, missing ≠ [] ∧ present ++ missing = whole := by
  obtain ⟨⟨missing, rfl⟩, short⟩ := cut
  refine ⟨missing, ?_, rfl⟩
  rintro rfl
  exact short (List.append_nil present).symm

theorem groupValue_writeVarint (value : Nat) : groupValue (writeVarint value) = value := by
  induction value using Nat.strong_induction_on with
  | _ value ih =>
    rw [writeVarint_eq]
    split_ifs with small
    · rw [groupValue, groupValue, UInt8.toNat_ofNat']
      omega
    · rw [groupValue, ih (value / 128) (by omega), UInt8.toNat_ofNat']
      omega

/-- A group that stands where a varint was written is that varint. -/
theorem group_of_writeVarint {group rest other : Bytes} {value : Nat} (whole : Grouped group)
    (same : group ++ rest = writeVarint value ++ other) : groupValue group = value ∧ rest = other := by
  obtain ⟨groups, rests⟩ := whole.append_inj (writeVarint_grouped value) same
  rw [groups, groupValue_writeVarint]
  exact ⟨rfl, rests⟩

/-- The loop over cut off fields ends well only at the end of one, and has then read the
fields before it. -/
theorem decodeFields_cut {r : Reader} {done out fields : List Field} {present missing : Bytes} (ahead : r.Ahead present)
    (cut : present ++ missing = fields.flatMap Frame.encodeField) (read : Frame.decodeFields r done = .ok out) :
    ∃ front back, out = done ++ front ∧ fields = front ++ back ∧ back.flatMap Frame.encodeField = missing := by
  fun_induction Frame.decodeFields r done generalizing fields present with
  | case1 r done empty =>
    cases read
    obtain rfl : present = [] := by simpa [ahead.isEmpty] using empty
    exact ⟨[], fields, (List.append_nil _).symm, rfl, cut.symm⟩
  | case2 => cases read
  | case3 => cases read
  | case4 => cases read
  | case5 => cases read
  | case6 => cases read
  | case7 r done busy tag afterTag tagRead len afterLen lenRead size enough value after valueRead ih =>
    obtain ⟨tagGroup, present, rfl, wholeTag, ahead, tagValue⟩ := readVarint_group ahead tagRead
    obtain ⟨lenGroup, present, rfl, wholeLen, ahead, lenValue⟩ := readVarint_group ahead lenRead
    obtain ⟨present, rfl, length, ahead⟩ := ahead.of_readBytes valueRead
    cases fields with
    | nil =>
      have none_ := (List.append_eq_nil_iff.mp (List.append_eq_nil_iff.mp cut).1).1
      exact absurd none_ wholeTag.ne_nil
    | cons field fields =>
      rw [List.flatMap_cons, Frame.encodeField] at cut
      simp only [List.append_assoc] at cut
      -- Tag, length and value are each as long as what was written.
      obtain ⟨tags, cut⟩ := group_of_writeVarint wholeTag cut
      obtain ⟨lens, cut⟩ := group_of_writeVarint wholeLen cut
      obtain ⟨values, cut⟩ := List.append_inj cut (length.trans (lenValue.trans lens))
      obtain ⟨front, back, rfl, rfl, rest⟩ := ih ahead cut read
      have same : (⟨tag, value⟩ : Field) = field := by
        rw [values, UInt64.toNat_inj.mp (tagValue.trans tags)]
      exact ⟨field :: front, back, by rw [same, List.append_assoc, List.singleton_append], rfl, rest⟩

/-- What is decoded from a cut off frame are its first fields. -/
theorem decode_cut {frame read : Frame} {present : Bytes} (cut : CutOff present frame.encode)
    (decoded : Frame.decode present = .ok read) : ∃ back, back ≠ [] ∧ frame.fields = read.fields ++ back := by
  obtain ⟨missing, some_, same⟩ := cut.missing
  obtain ⟨r, group, rest, rfl, whole, -, -, ahead, fieldsRead⟩ := Frame.decode_reads decoded
  rw [Frame.encode, List.cons_append, List.cons_append, List.append_assoc, List.cons.injEq, List.cons.injEq] at same
  obtain ⟨-, fieldsCut⟩ := group_of_writeVarint whole same.2.2
  obtain ⟨front, back, out, split, written⟩ := decodeFields_cut ahead fieldsCut fieldsRead
  rw [List.nil_append] at out
  refine ⟨back, ?_, by rw [split, out]⟩
  rintro rfl
  exact some_ written.symm

/-- The last field is the first to go: cut off, a frame has no field with its tag. -/
theorem get_cut {front read : Frame} {tag : UInt64} {value present : Bytes} (fresh : front.get tag = none)
    (cut : CutOff present (front.withField tag value).encode) (decoded : Frame.decode present = .ok read) :
    read.get tag = none := by
  obtain ⟨back, some_, split⟩ := decode_cut cut decoded
  have earlier : front.fields = read.fields ++ back.dropLast := by
    have fields : front.fields ++ [⟨tag, value⟩] = read.fields ++ back := split
    rw [← List.dropLast_append_of_ne_nil some_, ← fields, List.dropLast_concat]
  rw [Frame.get, Option.map_eq_none_iff] at fresh ⊢
  rw [earlier, List.find?_append] at fresh
  exact (Option.or_eq_none_iff.mp fresh).1

/-- The cursor is in front of `rest`, the last bytes of which are missing. -/
def Sees (r : Reader) (missing rest : Bytes) : Prop := ∃ present, r.Ahead present ∧ present ++ missing = rest

theorem CutOff.sees {present whole : Bytes} (cut : CutOff present whole) :
    ∃ missing, missing ≠ [] ∧ Sees (Reader.new present) missing whole := by
  obtain ⟨missing, some_, same⟩ := cut.missing
  exact ⟨missing, some_, present, Reader.ahead_new present, same⟩

/-- Where nothing is left to see, nothing is missing. -/
theorem Sees.nothing {r : Reader} {missing : Bytes} (sees : Sees r missing []) : missing = [] := by
  obtain ⟨present, -, same⟩ := sees
  exact (List.append_eq_nil_iff.mp same).2

theorem Sees.readU8 {r after : Reader} {missing rest : Bytes} {first byte : UInt8} (sees : Sees r missing (first :: rest))
    (read : r.readU8 = .ok (byte, after)) : byte = first ∧ Sees after missing rest := by
  obtain ⟨present, ahead, same⟩ := sees
  obtain ⟨left, rfl, behind⟩ := ahead.of_readU8 read
  rw [List.cons_append, List.cons.injEq] at same
  exact ⟨same.1, left, behind, same.2⟩

/-- `read` answers with a value only where the code of that value stands. -/
def ReadsCode {α : Type} (code : α → Bytes) (read : Reader → Except WireError (α × Reader)) : Prop :=
  ∀ ⦃r after : Reader⦄ ⦃bytes : Bytes⦄ ⦃value : α⦄, r.Ahead bytes → read r = .ok (value, after) →
    ∃ rest, bytes = code value ++ rest ∧ after.Ahead rest

theorem Sees.readCode {α : Type} {code : α → Bytes} {read : Reader → Except WireError (α × Reader)}
    (free : PrefixFree code) (reads : ReadsCode code read) {r after : Reader} {missing rest : Bytes} {written value : α}
    (sees : Sees r missing (code written ++ rest)) (found : read r = .ok (value, after)) :
    value = written ∧ Sees after missing rest := by
  obtain ⟨present, ahead, same⟩ := sees
  obtain ⟨left, rfl, behind⟩ := reads ahead found
  rw [List.append_assoc] at same
  obtain ⟨values, same⟩ := free same
  exact ⟨values, left, behind, same⟩

theorem Sees.readBytes {r after : Reader} {missing content written rest : Bytes} {len : Nat} (length : written.length = len)
    (sees : Sees r missing (written ++ rest)) (read : r.readBytes len = .ok (content, after)) :
    content = written ∧ Sees after missing rest := by
  obtain ⟨present, ahead, same⟩ := sees
  obtain ⟨present, rfl, size, ahead⟩ := ahead.of_readBytes read
  rw [List.append_assoc] at same
  obtain ⟨contents, same⟩ := List.append_inj same (size.trans length.symm)
  exact ⟨contents, present, ahead, same⟩

theorem Sees.readVarint {r after : Reader} {missing rest : Bytes} {written : Nat} {value : UInt64}
    (sees : Sees r missing (writeVarint written ++ rest)) (read : r.readVarint = .ok (value, after)) :
    value.toNat = written ∧ Sees after missing rest := by
  obtain ⟨present, ahead, same⟩ := sees
  obtain ⟨group, present, rfl, whole, ahead, total⟩ := readVarint_group ahead read
  rw [List.append_assoc] at same
  obtain ⟨values, same⟩ := group_of_writeVarint whole same
  exact ⟨total.trans values, present, ahead, same⟩

end Buh.Wire.Truncation
