import Buh.Wire.Codec

/-! The version-1 frame of `wire/v1.rs`: a two-byte prelude, a capability-flags
varint, then tag-length-value fields until the input is exhausted. -/

namespace Buh.Wire.V1
open Buh.Library.PrefixCode Buh.Library.Leb128 Buh.Wire.Codec

def magic : UInt8 := 0xB0
def wireVersion : UInt8 := 0x01

def tagIdentityPub : UInt64 := 0x01
def tagPrekeyBundle : UInt64 := 0x02
def tagQueueUri : UInt64 := 0x03
def tagInviteNonce : UInt64 := 0x04
def tagExpiry : UInt64 := 0x05
def tagSignature : UInt64 := 0x06
def tagContext : UInt64 := 0x07
def tagPrekeyX25519 : UInt64 := 0x08
def tagMlkemEk : UInt64 := 0x09
def tagOnetimePrekey : UInt64 := 0x0a
def tagEphemeralX25519 : UInt64 := 0x0b
def tagKemCt : UInt64 := 0x0c
def tagQueueId : UInt64 := 0x0d
def tagRelayUrl : UInt64 := 0x0e
def tagCaFingerprint : UInt64 := 0x0f
def tagRatchetDh : UInt64 := 0x10
def tagRatchetPn : UInt64 := 0x11
def tagRatchetN : UInt64 := 0x12
def tagCiphertext : UInt64 := 0x13
def tagSpqrChunk : UInt64 := 0x20
def tagPqEpoch : UInt64 := 0x21
def tagPqKemCt : UInt64 := 0x22

/-- The range kept for a later post-quantum rekey. No version-1 encoder emits these. -/
def pqReservedTags : Set UInt64 := {tag | 0x20 ≤ tag ∧ tag ≤ 0x2f}

instance : DecidablePred (· ∈ pqReservedTags) :=
  fun tag => inferInstanceAs (Decidable (0x20 ≤ tag ∧ tag ≤ 0x2f))

structure Field where
  tag : UInt64
  value : Bytes
  deriving DecidableEq, Repr

structure Frame where
  flags : UInt64 := 0
  fields : List Field := []
  deriving DecidableEq, Repr

/-- The largest `usize` of a 64-bit target. -/
def usizeMax : Nat := 2 ^ 64 - 1

namespace Frame

def new : Frame := {}

def withField (frame : Frame) (tag : UInt64) (value : Bytes) : Frame :=
  { frame with fields := frame.fields ++ [⟨tag, value⟩] }

/-- The first field carrying `tag`. -/
def get (frame : Frame) (tag : UInt64) : Option Bytes :=
  (frame.fields.find? (fun field => field.tag == tag)).map Field.value

def require (frame : Frame) (tag : UInt64) : Except WireError Bytes :=
  match frame.get tag with
  | some value => .ok value
  | none => .error (.missingField tag)

/-- The gate of the handshake context: the first reserved field aborts. -/
def rejectReservedPq (frame : Frame) : Except WireError Unit :=
  go frame.fields
where
  go : List Field → Except WireError Unit
    | [] => .ok ()
    | field :: rest => if field.tag ∈ pqReservedTags then .error (.reservedTag field.tag) else go rest

def encodeField (field : Field) : Bytes :=
  writeVarint field.tag.toNat ++ (writeVarint field.value.length ++ field.value)

def encode (frame : Frame) : Bytes :=
  magic :: wireVersion :: (writeVarint frame.flags.toNat ++ frame.fields.flatMap encodeField)

/-- The `while !r.is_empty()` loop. Every iteration reads a tag, so the reader moves. -/
def decodeFields (r : Reader) (fields : List Field) : Except WireError (List Field) :=
  if _nonempty : r.isEmpty then .ok fields
  else
    match _tagRead : r.readVarint with
    | .error e => .error e
    | .ok (tag, afterTag) =>
      match _lenRead : afterTag.readVarint with
      | .error e => .error e
      | .ok (len, afterLen) =>
        if usizeMax < len.toNat then .error .fieldTooLong
        else if afterLen.remaining < len.toNat then .error .unexpectedEof
        else
          match _valueRead : afterLen.readBytes len.toNat with
          | .error e => .error e
          | .ok (value, after) => decodeFields after (fields ++ [⟨tag, value⟩])
termination_by r.buf.length - r.pos
decreasing_by
  have first := Reader.readVarint_advances _tagRead
  have second := Reader.readVarint_advances _lenRead
  have third := Reader.readBytes_advances _valueRead
  simp only [Reader.isEmpty, decide_eq_true_eq, not_le] at _nonempty
  rw [third.1, third.2, second.1, first.1]
  omega

def decode (buf : Bytes) : Except WireError Frame :=
  match (Reader.new buf).readU8 with
  | .error e => .error e
  | .ok (first, r) =>
    if first ≠ magic then .error (.badMagic first)
    else
      match r.readU8 with
      | .error e => .error e
      | .ok (version, r) =>
        if version ≠ wireVersion then .error (.unsupportedVersion version)
        else
          match r.readVarint with
          | .error e => .error e
          | .ok (flags, r) =>
            match decodeFields r [] with
            | .error e => .error e
            | .ok fields => .ok { flags, fields }

/-- No field, at any position, carries a reserved tag. -/
def NoReserved (frame : Frame) : Prop := ∀ field ∈ frame.fields, field.tag ∉ pqReservedTags

theorem rejectReservedPq_eq_ok {frame : Frame} : frame.rejectReservedPq = .ok () ↔ frame.NoReserved := by
  unfold rejectReservedPq NoReserved
  induction frame.fields with
  | nil => simp [rejectReservedPq.go]
  | cons field fields ih =>
    rw [rejectReservedPq.go, List.forall_mem_cons]
    split_ifs with reserved
    · simp [reserved]
    · simp [reserved, ih]

theorem require_eq_ok {frame : Frame} {tag : UInt64} {value : Bytes} :
    frame.require tag = .ok value ↔ frame.get tag = some value := by
  unfold require
  cases frame.get tag <;> simp

/-- The frame without the fields in the reserved range. -/
def unreserved (frame : Frame) : Frame :=
  { frame with fields := frame.fields.filter (fun field => decide (field.tag ∉ pqReservedTags)) }

theorem get_unreserved {frame : Frame} {tag : UInt64} (outside : tag ∉ pqReservedTags) :
    frame.unreserved.get tag = frame.get tag := by
  rw [get, get, unreserved, List.find?_filter]
  congr 2
  funext field
  by_cases same : field.tag = tag
  · simp [same, outside]
  · simp [same]

/-- A later field hides behind an earlier one of another tag. -/
theorem get_withField {frame : Frame} {tag other : UInt64} {value : Bytes} (apart : other ≠ tag) :
    (frame.withField other value).get tag = frame.get tag := by
  simp [get, withField, List.find?_append, apart]

theorem encodeField_prefixFree : PrefixFree encodeField := by
  have tags : PrefixFree (fun tag : UInt64 => writeVarint tag.toNat) :=
    writeVarint_prefixFree.comp (fun _ _ same => UInt64.toNat_inj.mp same)
  have code := tags.append writeVarint_prefixFree.lengthPrefixed
  have parts : Function.Injective (fun field : Field => (field.tag, field.value)) := by
    rintro ⟨tag, value⟩ ⟨tag', value'⟩ same
    simpa using same
  exact code.comp parts

theorem encodeField_ne_nil (field : Field) : encodeField field ≠ [] := by
  simp [encodeField, writeVarint_ne_nil]

/-- With one-byte tags a field at most doubles. -/
theorem encodeField_length_le {field : Field} (small : field.tag.toNat < 128) :
    (encodeField field).length ≤ 2 * field.value.length + 2 := by
  have tag := writeVarint_length_le field.tag.toNat
  have size := writeVarint_length_le field.value.length
  rw [encodeField, List.length_append, List.length_append]
  omega

theorem encode_length_le {frame : Frame} (plain : frame.flags = 0)
    (small : ∀ field ∈ frame.fields, field.tag.toNat < 128) :
    frame.encode.length ≤ 3 + (frame.fields.map (fun field => 2 * field.value.length + 2)).sum := by
  have flags := writeVarint_length_le (0 : UInt64).toNat
  have content (fields : List Field) (small : ∀ field ∈ fields, field.tag.toNat < 128) :
      (fields.flatMap encodeField).length ≤ (fields.map (fun field => 2 * field.value.length + 2)).sum := by
    induction fields with
    | nil => simp
    | cons field fields ih =>
      have head := encodeField_length_le (small field (by simp))
      have tail := ih (fun other member => small other (List.mem_cons_of_mem _ member))
      rw [List.flatMap_cons, List.length_append, List.map_cons, List.sum_cons]
      omega
  have total := content frame.fields small
  simp only [UInt64.toNat_zero] at flags
  simp only [encode, plain, List.length_cons, List.length_append, UInt64.toNat_zero]
  omega

/-- No two frames share an encoding, whatever the lengths of their values. -/
theorem encode_injective : Function.Injective encode := by
  rintro ⟨flags, fields⟩ ⟨flags', fields'⟩ same
  simp only [encode, List.cons.injEq, true_and] at same
  obtain ⟨flagsEq, tails⟩ := writeVarint_prefixFree same
  have fieldsEq := encodeField_prefixFree.flatMap_injective encodeField_ne_nil tails
  rw [UInt64.toNat_inj.mp flagsEq, fieldsEq]

/-- Every value is short enough for its length to be a `u64`, as every `Vec` is. -/
def Fits (frame : Frame) : Prop := ∀ field ∈ frame.fields, field.value.length < 2 ^ 64

theorem Fits.withField {frame : Frame} {tag : UInt64} {value : Bytes} (fits : frame.Fits)
    (short : value.length < 2 ^ 64) : (frame.withField tag value).Fits := by
  intro field member
  rcases List.mem_append.mp member with earlier | last
  · exact fits field earlier
  · rw [List.mem_singleton.mp last]
    exact short

theorem Fits.unreserved {frame : Frame} (fits : frame.Fits) : frame.unreserved.Fits :=
  fun field member => fits field (List.mem_of_mem_filter member)

theorem decodeFields_fits {r : Reader} {done out : List Field} (read : decodeFields r done = .ok out)
    (fits : ∀ field ∈ done, field.value.length < 2 ^ 64) : ∀ field ∈ out, field.value.length < 2 ^ 64 := by
  fun_induction decodeFields r done with
  | case1 r done empty =>
    cases read
    exact fits
  | case2 => cases read
  | case3 => cases read
  | case4 => cases read
  | case5 => cases read
  | case6 => cases read
  | case7 r done busy tag afterTag tagRead len afterLen lenRead size enough value after valueRead ih =>
    refine ih read fun field member => ?_
    rcases List.mem_append.mp member with earlier | last
    · exact fits field earlier
    · rw [List.mem_singleton.mp last]
      exact (Reader.readBytes_length_le valueRead).trans_lt len.toNat_lt

/-- The loop reads the encoded fields and goes on with what follows them. -/
theorem decodeFields_append (fields done : List Field)
    (fits : ∀ field ∈ fields, field.value.length < 2 ^ 64) {r : Reader} {rest : Bytes}
    (ahead : r.Ahead (fields.flatMap encodeField ++ rest)) :
    ∃ after, after.Ahead rest ∧ decodeFields r done = decodeFields after (done ++ fields) := by
  induction fields generalizing done r with
  | nil => exact ⟨r, ahead, by rw [List.append_nil]⟩
  | cons field fields ih =>
    have size : field.value.length < 2 ^ 64 := fits field (by simp)
    have lenValue : (UInt64.ofNat field.value.length).toNat = field.value.length := by
      rw [UInt64.toNat_ofNat', Nat.mod_eq_of_lt size]
    rw [List.flatMap_cons, encodeField, List.append_assoc, List.append_assoc, List.append_assoc] at ahead
    have busy : ¬r.isEmpty = true := by
      rw [ahead.isEmpty]
      simp [writeVarint_ne_nil]
    obtain ⟨afterTag, tagRead, ahead⟩ := readVarint_ahead field.tag ahead
    rw [← lenValue] at ahead
    obtain ⟨afterLen, lenRead, ahead⟩ := readVarint_ahead _ ahead
    have enough : ¬afterLen.remaining < field.value.length := by
      rw [ahead.remaining, List.length_append]
      omega
    obtain ⟨after, valueRead, ahead⟩ := Reader.readBytes_ahead ahead
    rw [decodeFields, dif_neg busy]
    split
    · next e failed => rw [tagRead] at failed; cases failed
    · next tag afterTag' read =>
      rw [tagRead] at read
      cases read
      split
      · next e failed => rw [lenRead] at failed; cases failed
      · next len afterLen' read =>
        rw [lenRead] at read
        cases read
        rw [if_neg (by rw [lenValue, usizeMax]; omega), if_neg (by rw [lenValue]; exact enough)]
        split
        · next e failed => rw [lenValue, valueRead] at failed; cases failed
        · next value after' read =>
          rw [lenValue, valueRead] at read
          cases read
          obtain ⟨final, behind, same⟩ := ih (done ++ [⟨field.tag, field.value⟩])
            (fun other member => fits other (List.mem_cons_of_mem _ member)) ahead
          refine ⟨final, behind, ?_⟩
          rw [same, List.append_assoc, List.singleton_append]

theorem decodeFields_ahead (fields done : List Field)
    (fits : ∀ field ∈ fields, field.value.length < 2 ^ 64) {r : Reader}
    (ahead : r.Ahead (fields.flatMap encodeField)) :
    decodeFields r done = .ok (done ++ fields) := by
  rw [← List.append_nil (fields.flatMap encodeField)] at ahead
  obtain ⟨after, behind, same⟩ := decodeFields_append fields done fits ahead
  rw [same, decodeFields, dif_pos (by rw [behind.isEmpty]; rfl)]

theorem decode_encode {frame : Frame} (fits : frame.Fits) : decode frame.encode = .ok frame := by
  obtain ⟨afterMagic, magicRead, ahead⟩ := Reader.readU8_ahead (Reader.ahead_new frame.encode)
  obtain ⟨afterVersion, versionRead, ahead⟩ := Reader.readU8_ahead ahead
  obtain ⟨afterFlags, flagsRead, ahead⟩ := readVarint_ahead _ ahead
  have fieldsRead := decodeFields_ahead frame.fields [] fits ahead
  simp only [decode, magicRead, versionRead, flagsRead, fieldsRead, ne_eq, not_true_eq_false,
    if_false, List.nil_append]

/-- What `decode` has read when it succeeds: the prelude, the flags, and the fields up to the
end. -/
theorem decode_reads {bytes : Bytes} {frame : Frame} (read : decode bytes = .ok frame) :
    ∃ r group rest, bytes = magic :: wireVersion :: (group ++ rest) ∧ Grouped group ∧
      frame.flags.toNat = groupValue group ∧ r.buf = bytes ∧ r.Ahead rest ∧ decodeFields r [] = .ok frame.fields := by
  unfold decode at read
  split at read
  · cases read
  · next first afterFirst firstRead =>
    obtain ⟨afterMagic, rfl, aheadVersion⟩ := (Reader.ahead_new _).of_readU8 firstRead
    split_ifs at read with magic_
    split at read
    · cases read
    · next version afterVersion versionRead =>
      obtain ⟨afterPrelude, rfl, aheadFlags⟩ := aheadVersion.of_readU8 versionRead
      split_ifs at read with version_
      split at read
      · cases read
      · next flags afterFlags flagsRead =>
        obtain ⟨group, rest, rfl, whole, aheadFields, flagsValue⟩ := readVarint_group aheadFlags flagsRead
        split at read
        · cases read
        · next fields fieldsRead =>
          cases read
          have buffer : afterFlags.buf = first :: version :: (group ++ rest) := by
            rw [(Reader.readVarint_advances flagsRead).1, (Reader.readU8_advances versionRead).1,
              (Reader.readU8_advances firstRead).1]
            rfl
          rw [not_not] at magic_ version_
          subst magic_
          subst version_
          exact ⟨afterFlags, group, rest, rfl, whole, flagsValue, buffer, aheadFields, fieldsRead⟩

/-- What was read fits: a length is read as a `u64`. -/
theorem decode_fits {bytes : Bytes} {frame : Frame} (read : decode bytes = .ok frame) : frame.Fits := by
  obtain ⟨r, group, rest, -, -, -, -, -, fieldsRead⟩ := decode_reads read
  exact decodeFields_fits fieldsRead (List.forall_mem_nil _)

end Frame

end Buh.Wire.V1
