import Mathlib.Data.List.Basic
import Buh.Library.Fallible

/-! Hexadecimal text of byte strings. It is written in lowercase and read in either case; a
reader takes pairs of digits from the left and reports the first byte that is no digit. -/

namespace Buh.Library.Hex
open Buh.Library.Fallible

def digit (value : Nat) : Char :=
  ['0', '1', '2', '3', '4', '5', '6', '7', '8', '9', 'a', 'b', 'c', 'd', 'e', 'f'].getD value '0'

def encode (bytes : List UInt8) : List Char :=
  bytes.flatMap (fun byte => [digit (byte.toNat / 16), digit (byte.toNat % 16)])

inductive FromHexError where
  | invalidHexCharacter (c : UInt8) (index : Nat)
  | oddLength
  deriving DecidableEq

def digitValue (c : UInt8) (index : Nat) : Except FromHexError Nat :=
  if 0x41 ≤ c ∧ c ≤ 0x46 then .ok (c.toNat - 0x41 + 10)
  else if 0x61 ≤ c ∧ c ≤ 0x66 then .ok (c.toNat - 0x61 + 10)
  else if 0x30 ≤ c ∧ c ≤ 0x39 then .ok (c.toNat - 0x30)
  else .error (.invalidHexCharacter c index)

/-- The pairs from `index` on. -/
def decodePairs (index : Nat) : List UInt8 → Except FromHexError (List UInt8)
  | high :: low :: rest => do
    let first ← digitValue high index
    let second ← digitValue low (index + 1)
    let bytes ← decodePairs (index + 2) rest
    return UInt8.ofNat (first * 16 + second) :: bytes
  | _ => .ok []

def decode (data : List UInt8) : Except FromHexError (List UInt8) :=
  if data.length % 2 ≠ 0 then .error .oddLength else decodePairs 0 data

/-- The UTF-8 bytes of a text. -/
def utf8 (text : List Char) : List UInt8 := text.flatMap String.utf8EncodeChar

def ofText (text : List Char) : Except FromHexError (List UInt8) := decode (utf8 text)

/-- The index is for the error alone. -/
theorem digitValue_ok_iff {c : UInt8} {index value : Nat} :
    digitValue c index = .ok value ↔ digitValue c 0 = .ok value := by
  unfold digitValue
  split_ifs <;> simp

theorem digitValue_digit {c : UInt8} {index value : Nat} (read : digitValue c index = .ok value) :
    c.toNat < 128 ∧ value < 16 ∧ (Char.ofNat c.toNat).toLower = digit value := by
  have all : ∀ c : Fin 256, ∀ value : Fin 16, digitValue (UInt8.ofNat c.val) 0 = .ok value.val →
      c.val < 128 ∧ (Char.ofNat c.val).toLower = digit value := by decide +kernel
  have plain := digitValue_ok_iff.mp read
  have size := c.toNat_lt
  have small : value < 16 := by
    unfold digitValue at plain
    split_ifs at plain with upper lower decimal
    · have low := UInt8.le_iff_toNat_le.mp upper.1
      have high := UInt8.le_iff_toNat_le.mp upper.2
      cases plain
      change c.toNat ≤ 0x46 at high
      omega
    · have high := UInt8.le_iff_toNat_le.mp lower.2
      cases plain
      change c.toNat ≤ 0x66 at high
      omega
    · have high := UInt8.le_iff_toNat_le.mp decimal.2
      cases plain
      change c.toNat ≤ 0x39 at high
      omega
  have found := all ⟨c.toNat, size⟩ ⟨value, small⟩ (by rw [UInt8.ofNat_toNat]; exact plain)
  exact ⟨found.1, small, found.2⟩

/-- The byte of an ASCII character. -/
def code (c : Char) : UInt8 := UInt8.ofNat c.toNat

theorem utf8EncodeChar_ascii {c : Char} (ascii : c.toNat < 128) : String.utf8EncodeChar c = [code c] := by
  unfold String.utf8EncodeChar
  have low : c.val.toNat ≤ 127 := Nat.le_of_lt_succ ascii
  simp only [low, if_true]
  rfl

/-- The first byte of any other character is no ASCII byte. -/
theorem utf8EncodeChar_head {c : Char} (other : ¬c.toNat < 128) :
    ∃ first rest, String.utf8EncodeChar c = first :: rest ∧ ¬first.toNat < 128 := by
  unfold String.utf8EncodeChar
  have high : ¬c.val.toNat ≤ 127 := fun low => other (Nat.lt_succ_of_le low)
  simp only [high, if_false]
  split_ifs
  · exact ⟨_, _, rfl, by rw [UInt8.toNat_ofNat']; omega⟩
  · exact ⟨_, _, rfl, by rw [UInt8.toNat_ofNat']; omega⟩
  · exact ⟨_, _, rfl, by rw [UInt8.toNat_ofNat']; omega⟩

theorem ofNat_code {c : Char} (ascii : c.toNat < 128) : Char.ofNat (code c).toNat = c := by
  rw [code, UInt8.toNat_ofNat', Nat.mod_eq_of_lt (by omega)]
  exact Char.ofNat_toNat c

theorem toLower_ascii {c : Char} (lower : c.toLower.toNat < 128) : c.toNat < 128 := by
  unfold Char.toLower at lower
  split at lower
  · next capital =>
    have bound : c.toNat ≤ 90 := UInt32.le_iff_toNat_le.mp capital.2
    omega
  · exact lower

/-- Only a digit and its capital become the digit in lowercase. -/
theorem digit_of_toLower {c : Char} {value : Nat} (small : value < 16) (same : c.toLower = digit value) (index : Nat) :
    String.utf8EncodeChar c = [code c] ∧ digitValue (code c) index = .ok value := by
  have each : ∀ value : Fin 16, (digit value).toNat < 128 ∧ ∀ number : Fin 128,
      (Char.ofNat number).toLower = digit value → digitValue (code (Char.ofNat number)) 0 = .ok value.val := by
    decide +kernel
  obtain ⟨low, reads⟩ := each ⟨value, small⟩
  have ascii := toLower_ascii (same ▸ low)
  have number : Char.ofNat c.toNat = c := Char.ofNat_toNat c
  have read := reads ⟨c.toNat, ascii⟩ (by rw [number]; exact same)
  rw [number] at read
  exact ⟨utf8EncodeChar_ascii ascii, digitValue_ok_iff.mpr read⟩

theorem decodePairs_lower {index : Nat} {data bytes : List UInt8} (even : data.length % 2 = 0)
    (read : decodePairs index data = .ok bytes) :
    (∀ byte ∈ data, byte.toNat < 128) ∧ data.map (fun byte => (Char.ofNat byte.toNat).toLower) = encode bytes := by
  induction index, data using decodePairs.induct generalizing bytes with
  | case1 index high low rest ih =>
    obtain ⟨first, readHigh, second, readLow, others, readRest, rfl⟩ :
        ∃ first, digitValue high index = .ok first ∧ ∃ second, digitValue low (index + 1) = .ok second ∧
          ∃ others, decodePairs (index + 2) rest = .ok others ∧ UInt8.ofNat (first * 16 + second) :: others = bytes := by
      rw [decodePairs] at read
      simpa only [bind_eq_ok, pure, Except.pure, Except.ok.injEq] using read
    obtain ⟨asciiHigh, smallHigh, lowerHigh⟩ := digitValue_digit readHigh
    obtain ⟨asciiLow, smallLow, lowerLow⟩ := digitValue_digit readLow
    have shorter : rest.length % 2 = 0 := by
      rw [List.length_cons, List.length_cons] at even
      omega
    obtain ⟨ascii, lower⟩ := ih shorter readRest
    constructor
    · rintro byte (_ | ⟨_, _ | ⟨_, member⟩⟩)
      · exact asciiHigh
      · exact asciiLow
      · exact ascii byte member
    · have number : (UInt8.ofNat (first * 16 + second)).toNat = first * 16 + second := by
        rw [UInt8.toNat_ofNat', Nat.mod_eq_of_lt (by omega)]
      have upper : (first * 16 + second) / 16 = first := by omega
      have lowest : (first * 16 + second) % 16 = second := by omega
      rw [List.map_cons, List.map_cons, lowerHigh, lowerLow, lower, encode, encode, List.flatMap_cons, number, upper,
        lowest]
      rfl
  | case2 data index short =>
    match data, short with
    | [], _ =>
      cases read
      exact ⟨fun _ absent => absurd absent List.not_mem_nil, rfl⟩
    | [_], _ => cases even
    | high :: low :: rest, short => exact absurd rfl (short high low rest)

theorem utf8_ascii {text : List Char} (ascii : ∀ byte ∈ utf8 text, byte.toNat < 128) :
    utf8 text = text.map code ∧ ∀ c ∈ text, c.toNat < 128 := by
  induction text with
  | nil => exact ⟨rfl, fun _ absent => absurd absent List.not_mem_nil⟩
  | cons c text ih =>
    have here : c.toNat < 128 := by
      by_contra other
      obtain ⟨first, rest, encoded, high⟩ := utf8EncodeChar_head other
      apply high
      apply ascii
      rw [utf8, List.flatMap_cons, encoded]
      exact List.mem_append_left _ List.mem_cons_self
    obtain ⟨same, others⟩ := ih (fun byte member => ascii byte (List.mem_append_right _ member))
    constructor
    · rw [List.map_cons, ← same]
      change String.utf8EncodeChar c ++ utf8 text = _
      rw [utf8EncodeChar_ascii here]
      rfl
    · exact List.forall_mem_cons.mpr ⟨here, others⟩

theorem decodePairs_utf8 {text : List Char} {bytes : List UInt8} (same : text.map Char.toLower = encode bytes)
    (index : Nat) : (utf8 text).length % 2 = 0 ∧ decodePairs index (utf8 text) = .ok bytes := by
  induction bytes generalizing text index with
  | nil =>
    obtain rfl := List.map_eq_nil_iff.mp same
    exact ⟨rfl, rfl⟩
  | cons byte bytes ih =>
    obtain ⟨high, text', rfl, highLower, same⟩ := List.map_eq_cons_iff.mp same
    obtain ⟨low, rest, rfl, lowLower, same⟩ := List.map_eq_cons_iff.mp same
    have size := byte.toNat_lt
    obtain ⟨highByte, readHigh⟩ := digit_of_toLower (by omega) highLower index
    obtain ⟨lowByte, readLow⟩ := digit_of_toLower (by omega) lowLower (index + 1)
    obtain ⟨even, read⟩ := ih same (index + 2)
    have split : utf8 (high :: low :: rest) = code high :: code low :: utf8 rest := by
      change String.utf8EncodeChar high ++ (String.utf8EncodeChar low ++ utf8 rest) = _
      rw [highByte, lowByte]
      rfl
    rw [split]
    constructor
    · rw [List.length_cons, List.length_cons]
      omega
    · have whole : byte.toNat / 16 * 16 + byte.toNat % 16 = byte.toNat := by omega
      simp only [decodePairs, readHigh, readLow, read, bind, Except.bind, pure, Except.pure, whole, UInt8.ofNat_toNat]

/-- The texts of a byte string are its digits with letters of either case, and no others. -/
theorem ofText_eq_ok {text : List Char} {bytes : List UInt8} :
    ofText text = .ok bytes ↔ text.map Char.toLower = encode bytes := by
  unfold ofText decode
  constructor
  · intro read
    split at read
    · cases read
    · next even =>
      obtain ⟨ascii, lower⟩ := decodePairs_lower (not_not.mp even) read
      obtain ⟨plain, chars⟩ := utf8_ascii ascii
      rw [← lower, plain, List.map_map]
      apply List.map_congr_left
      intro c member
      exact (congrArg Char.toLower (ofNat_code (chars c member))).symm
  · intro same
    obtain ⟨even, read⟩ := decodePairs_utf8 same 0
    rw [if_neg (not_not.mpr even), read]

theorem encode_lower (bytes : List UInt8) : (encode bytes).map Char.toLower = encode bytes := by
  have lower : ∀ value : Fin 16, (digit value).toLower = digit value := by decide
  induction bytes with
  | nil => rfl
  | cons byte bytes ih =>
    have size := byte.toNat_lt
    have high := lower ⟨byte.toNat / 16, by omega⟩
    have low := lower ⟨byte.toNat % 16, by omega⟩
    change (digit (byte.toNat / 16)).toLower :: (digit (byte.toNat % 16)).toLower :: (encode bytes).map Char.toLower =
      digit (byte.toNat / 16) :: digit (byte.toNat % 16) :: encode bytes
    rw [high, low, ih]

theorem ofText_encode (bytes : List UInt8) : ofText (encode bytes) = .ok bytes :=
  ofText_eq_ok.mpr (encode_lower bytes)

theorem encode_length (bytes : List UInt8) : (encode bytes).length = 2 * bytes.length := by
  induction bytes with
  | nil => rfl
  | cons byte bytes ih =>
    rw [encode, List.flatMap_cons, List.length_append, ← encode, ih, List.length_cons]
    simp only [List.length_cons, List.length_nil]
    omega

theorem mem_encode {bytes : List UInt8} {c : Char} (member : c ∈ encode bytes) :
    ∃ value : Fin 16, c = digit value.val := by
  obtain ⟨byte, -, inside⟩ := List.mem_flatMap.mp member
  have size := byte.toNat_lt
  rcases List.mem_pair.mp inside with rfl | rfl
  · exact ⟨⟨byte.toNat / 16, by omega⟩, rfl⟩
  · exact ⟨⟨byte.toNat % 16, by omega⟩, rfl⟩

theorem utf8_of_ascii {text : List Char} (ascii : ∀ c ∈ text, c.toNat < 128) : utf8 text = text.map code := by
  rw [← List.flatMap_pure_eq_map]
  apply List.flatMap_congr
  intro c member
  exact utf8EncodeChar_ascii (ascii c member)

theorem utf8_encode (bytes : List UInt8) : utf8 (encode bytes) = (encode bytes).map code := by
  have digits : ∀ value : Fin 16, (digit value).toNat < 128 := by decide
  apply utf8_of_ascii
  intro c member
  obtain ⟨value, rfl⟩ := mem_encode member
  exact digits value

end Buh.Library.Hex
