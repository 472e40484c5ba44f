import Mathlib.Tactic
import Buh.Library.Leb128
import Buh.Library.PrefixCode

/-! The low-level wire primitives of `wire/codec.rs`: unsigned LEB128 varints and
the bounds-checked reader, with the error type of `wire/mod.rs`. -/

namespace Buh.Wire.Codec
open Buh.Library.PrefixCode Buh.Library.Leb128

abbrev Bytes := List UInt8

inductive WireError where
  | badMagic (byte : UInt8)
  | unsupportedVersion (byte : UInt8)
  | unexpectedEof
  | varintOverflow
  | fieldTooLong
  | missingField (tag : UInt64)
  | reservedTag (tag : UInt64)
  deriving DecidableEq, Repr

def maxVarintLen : Nat := 10

/-- The source takes a `u64`. Every length it is given is a `usize`, so the model
takes any natural number and the writer never truncates. -/
def writeVarint (value : Nat) : Bytes :=
  let byte := UInt8.ofNat (value &&& 0x7f)
  let rest := value >>> 7
  if rest = 0 then [byte] else (byte ||| 0x80) :: writeVarint rest
termination_by value
decreasing_by
  simp only [rest, Nat.shiftRight_eq_div_pow] at *
  omega

/-- A forward-only cursor over a byte slice. -/
structure Reader where
  buf : Bytes
  pos : Nat
  deriving DecidableEq, Repr

namespace Reader

def new (buf : Bytes) : Reader := ⟨buf, 0⟩

def isEmpty (r : Reader) : Bool := decide (r.buf.length ≤ r.pos)

def remaining (r : Reader) : Nat := r.buf.length - r.pos

def readU8 (r : Reader) : Except WireError (UInt8 × Reader) :=
  match r.buf[r.pos]? with
  | none => .error .unexpectedEof
  | some byte => .ok (byte, { r with pos := r.pos + 1 })

/-- The body of the `for _ in 0..MAX_VARINT_LEN` loop, with the groups still allowed. -/
def readVarintLoop : Nat → UInt64 → UInt64 → Reader → Except WireError (UInt64 × Reader)
  | 0, _, _, _ => .error .varintOverflow
  | groups + 1, result, shift, r =>
    match r.readU8 with
    | .error e => .error e
    | .ok (byte, r) =>
      let payload := (byte &&& 0x7f).toUInt64
      if shift = 63 ∧ 1 < payload then .error .varintOverflow
      else
        let result := result ||| (payload <<< shift)
        if byte &&& 0x80 = 0 then .ok (result, r)
        else readVarintLoop groups result (shift + 7) r

def readVarint (r : Reader) : Except WireError (UInt64 × Reader) :=
  readVarintLoop maxVarintLen 0 0 r

/-- The source's `checked_add` and `get(pos..end)` both answer `UnexpectedEof`. -/
def readBytes (r : Reader) (len : Nat) : Except WireError (Bytes × Reader) :=
  if r.pos + len ≤ r.buf.length then
    .ok ((r.buf.drop r.pos).take len, { r with pos := r.pos + len })
  else .error .unexpectedEof

/-- The cursor is inside its buffer and `rest` is what it has not consumed. -/
def Ahead (r : Reader) (rest : Bytes) : Prop := r.pos ≤ r.buf.length ∧ r.buf.drop r.pos = rest

theorem ahead_new (buf : Bytes) : (new buf).Ahead buf := ⟨Nat.zero_le _, rfl⟩

theorem Ahead.length {r : Reader} {rest : Bytes} (ahead : r.Ahead rest) :
    r.pos + rest.length = r.buf.length := by
  have := ahead.1
  rw [← ahead.2, List.length_drop]
  omega

theorem Ahead.isEmpty {r : Reader} {rest : Bytes} (ahead : r.Ahead rest) :
    r.isEmpty = decide (rest = []) := by
  have total := ahead.length
  cases rest with
  | nil => simp only [Reader.isEmpty, List.length_nil] at *; simp; omega
  | cons byte tail => simp only [Reader.isEmpty, List.length_cons] at *; simp; omega

theorem Ahead.remaining {r : Reader} {rest : Bytes} (ahead : r.Ahead rest) :
    r.remaining = rest.length := by
  have total := ahead.length
  unfold Reader.remaining
  omega

theorem Ahead.advance {r : Reader} {front rest : Bytes} (ahead : r.Ahead (front ++ rest)) :
    ({ r with pos := r.pos + front.length } : Reader).Ahead rest := by
  have total := ahead.length
  rw [List.length_append] at total
  refine ⟨by change r.pos + front.length ≤ r.buf.length; omega, ?_⟩
  change r.buf.drop (r.pos + front.length) = rest
  rw [← List.drop_drop, ahead.2, List.drop_left]

theorem readU8_ahead {r : Reader} {byte : UInt8} {rest : Bytes} (ahead : r.Ahead (byte :: rest)) :
    ∃ after, r.readU8 = .ok (byte, after) ∧ after.Ahead rest := by
  have found : r.buf[r.pos]? = some byte := by
    have head : (r.buf.drop r.pos)[0]? = some byte := by rw [ahead.2]; rfl
    simpa using head
  refine ⟨{ r with pos := r.pos + 1 }, ?_, ?_⟩
  · simp only [readU8, found]
  · have split : r.Ahead ([byte] ++ rest) := ahead
    exact split.advance

/-- A byte that was read was ahead. -/
theorem Ahead.of_readU8 {r after : Reader} {byte : UInt8} {bytes : Bytes} (ahead : r.Ahead bytes)
    (read : r.readU8 = .ok (byte, after)) : ∃ rest, bytes = byte :: rest ∧ after.Ahead rest := by
  cases bytes with
  | nil =>
    have total := ahead.length
    have none_ : r.buf[r.pos]? = none := List.getElem?_eq_none (by rw [List.length_nil] at total; omega)
    simp only [readU8, none_, reduceCtorEq] at read
  | cons first rest =>
    obtain ⟨next, found, behind⟩ := readU8_ahead ahead
    rw [found] at read
    cases read
    exact ⟨rest, rfl, behind⟩

theorem readBytes_ahead {r : Reader} {content rest : Bytes} (ahead : r.Ahead (content ++ rest)) :
    ∃ after, r.readBytes content.length = .ok (content, after) ∧ after.Ahead rest := by
  have total := ahead.length
  rw [List.length_append] at total
  refine ⟨{ r with pos := r.pos + content.length }, ?_, ahead.advance⟩
  rw [readBytes, if_pos (by omega), ahead.2, List.take_left]

/-- Bytes that were read were ahead. -/
theorem Ahead.of_readBytes {r after : Reader} {len : Nat} {content bytes : Bytes} (ahead : r.Ahead bytes)
    (read : r.readBytes len = .ok (content, after)) :
    ∃ rest, bytes = content ++ rest ∧ content.length = len ∧ after.Ahead rest := by
  have total := ahead.length
  unfold readBytes at read
  split_ifs at read with enough
  cases read
  rw [ahead.2]
  refine ⟨bytes.drop len, (List.take_append_drop len bytes).symm, List.length_take_of_le (by omega), enough, ?_⟩
  change r.buf.drop (r.pos + len) = bytes.drop len
  rw [← ahead.2, List.drop_drop]

theorem readU8_advances {r after : Reader} {byte : UInt8} (read : r.readU8 = .ok (byte, after)) :
    after.buf = r.buf ∧ after.pos = r.pos + 1 := by
  unfold readU8 at read
  split at read
  · cases read
  · cases read
    exact ⟨rfl, rfl⟩

theorem readVarintLoop_advances (groups : Nat) {result shift value : UInt64} {r after : Reader}
    (read : readVarintLoop groups result shift r = .ok (value, after)) :
    after.buf = r.buf ∧ r.pos < after.pos := by
  induction groups generalizing result shift r with
  | zero => cases read
  | succ groups ih =>
    unfold readVarintLoop at read
    split at read
    · cases read
    · next byte next head =>
      obtain ⟨sameBuf, stepped⟩ := readU8_advances head
      dsimp only at read
      split_ifs at read
      · cases read
        exact ⟨sameBuf, by omega⟩
      · obtain ⟨tailBuf, tailPos⟩ := ih read
        exact ⟨tailBuf.trans sameBuf, by omega⟩

theorem readVarint_advances {r after : Reader} {value : UInt64}
    (read : r.readVarint = .ok (value, after)) : after.buf = r.buf ∧ r.pos < after.pos :=
  readVarintLoop_advances _ read

theorem readBytes_advances {r after : Reader} {len : Nat} {content : Bytes}
    (read : r.readBytes len = .ok (content, after)) :
    after.buf = r.buf ∧ after.pos = r.pos + len := by
  unfold readBytes at read
  split_ifs at read
  cases read
  exact ⟨rfl, rfl⟩

theorem readBytes_length_le {r after : Reader} {len : Nat} {content : Bytes}
    (read : r.readBytes len = .ok (content, after)) : content.length ≤ len := by
  unfold readBytes at read
  split_ifs at read
  cases read
  exact List.length_take_le _ _

end Reader

/-! The loop of the writer on natural numbers. -/

theorem writeVarint_eq (value : Nat) :
    writeVarint value = if value < 128 then [UInt8.ofNat value]
      else UInt8.ofNat (value % 128 + 128) :: writeVarint (value / 128) := by
  have low : value &&& 0x7f = value % 128 := Nat.and_two_pow_sub_one_eq_mod value 7
  rw [writeVarint]
  simp only [low, Nat.shiftRight_eq_div_pow, Nat.reducePow]
  by_cases small : value < 128
  · rw [if_pos (by omega), if_pos small, Nat.mod_eq_of_lt small]
  · rw [if_neg (by omega), if_neg small]
    congr 1
    apply UInt8.toNat_inj.mp
    have tagged := Nat.two_pow_add_eq_or_of_lt (i := 7) (b := value % 128) (by omega) 1
    simp only [Nat.reducePow, Nat.mul_one] at tagged
    have digit : (UInt8.ofNat (value % 128)).toNat = value % 128 := by
      rw [UInt8.toNat_ofNat']
      omega
    rw [UInt8.toNat_or, digit, UInt8.toNat_ofNat', Nat.or_comm]
    change 128 ||| value % 128 = _
    rw [← tagged]
    omega

theorem writeVarint_ne_nil (value : Nat) : writeVarint value ≠ [] := by
  rw [writeVarint_eq]
  split_ifs <;> simp

theorem writeVarint_length_le (value : Nat) : (writeVarint value).length ≤ value / 128 + 1 := by
  induction value using Nat.strong_induction_on with
  | _ value ih =>
    rw [writeVarint_eq]
    split_ifs with small
    · simp
    · have rest := ih (value / 128) (by omega)
      rw [List.length_cons]
      omega

theorem writeVarint_prefixFree : PrefixFree writeVarint := by
  intro first
  induction first using Nat.strong_induction_on with
  | _ first ih =>
    intro second rest other same
    rw [writeVarint_eq first, writeVarint_eq second] at same
    -- The first byte decides, by its top bit, whether both codes end here.
    split_ifs at same with small small' small'
    · simp only [List.cons_append, List.nil_append, List.cons.injEq] at same
      have heads := congrArg UInt8.toNat same.1
      simp only [UInt8.toNat_ofNat'] at heads
      exact ⟨by omega, same.2⟩
    · simp only [List.cons_append, List.nil_append, List.cons.injEq] at same
      have heads := congrArg UInt8.toNat same.1
      simp only [UInt8.toNat_ofNat'] at heads
      omega
    · simp only [List.cons_append, List.nil_append, List.cons.injEq] at same
      have heads := congrArg UInt8.toNat same.1
      simp only [UInt8.toNat_ofNat'] at heads
      omega
    · simp only [List.cons_append, List.cons.injEq] at same
      have heads := congrArg UInt8.toNat same.1
      simp only [UInt8.toNat_ofNat'] at heads
      obtain ⟨quotients, rests⟩ := ih (first / 128) (by omega) same.2
      exact ⟨by omega, rests⟩

theorem payload_toNat (byte : UInt8) :
    (byte &&& 0x7f).toUInt64.toNat = byte.toNat % 128 := by
  rw [UInt8.toNat_toUInt64, UInt8.toNat_and]
  exact Nat.and_two_pow_sub_one_eq_mod byte.toNat 7

private theorem more_iff (byte : UInt8) : byte &&& 0x80 = 0 ↔ byte.toNat < 128 := by
  have bits : ∀ n : Fin 256, n.val &&& 128 = if n.val < 128 then 0 else 128 := by decide +kernel
  have bit := bits ⟨byte.toNat, byte.toNat_lt⟩
  rw [← UInt8.toNat_inj, UInt8.toNat_and]
  simp only [UInt8.reduceToNat, UInt8.toNat_zero] at *
  rw [bit]
  split_ifs with small <;> simp [small]

theorem merge_toNat (result payload shift : UInt64) (k : Nat) (at_k : shift.toNat = 7 * k)
    (low : k < 10) (small : result.toNat < 2 ^ (7 * k))
    (fits : payload.toNat * 2 ^ (7 * k) < 2 ^ 64) :
    (result ||| (payload <<< shift)).toNat = payload.toNat * 2 ^ (7 * k) + result.toNat := by
  have shifted : (payload <<< shift).toNat = payload.toNat * 2 ^ (7 * k) := by
    rw [UInt64.toNat_shiftLeft, at_k, Nat.mod_eq_of_lt (by omega : 7 * k < 64), Nat.shiftLeft_eq,
      Nat.mod_eq_of_lt fits]
  calc
    _ = result.toNat ||| payload.toNat * 2 ^ (7 * k) := by rw [UInt64.toNat_or, shifted]
    _ = 2 ^ (7 * k) * payload.toNat ||| result.toNat := by rw [Nat.or_comm, Nat.mul_comm]
    _ = 2 ^ (7 * k) * payload.toNat + result.toNat := (Nat.two_pow_add_eq_or_of_lt small _).symm
    _ = _ := by rw [Nat.mul_comm]

/-- A payload that passes the check of the tenth group does not leave the 64 bits. -/
theorem payload_fits {byte : UInt8} {shift : UInt64} {k : Nat} (at_k : shift.toNat = 7 * k) (low : k < 10)
    (checked : ¬(shift = 63 ∧ 1 < (byte &&& 0x7f).toUInt64)) :
    (byte &&& 0x7f).toUInt64.toNat * 2 ^ (7 * k) < 2 ^ 64 := by
  have payload := payload_toNat byte
  by_cases top : k = 9
  · subst top
    have one : ¬1 < (byte &&& 0x7f).toUInt64 := fun big => checked ⟨UInt64.toNat_inj.mp at_k, big⟩
    rw [UInt64.lt_iff_toNat_lt] at one
    calc
      _ ≤ 1 * 2 ^ (7 * 9) := Nat.mul_le_mul_right _ (not_lt.mp one)
      _ < 2 ^ 64 := by norm_num
  · rw [payload]
    calc
      _ < 128 * 2 ^ (7 * k) := Nat.mul_lt_mul_of_pos_right (Nat.mod_lt _ (by decide)) (Nat.two_pow_pos _)
      _ = 2 ^ (7 * k + 7) := by rw [Nat.pow_add, Nat.mul_comm]
      _ ≤ 2 ^ 64 := Nat.pow_le_pow_right (by decide) (by omega)

theorem merge_lt {byte : UInt8} {result shift : UInt64} {k : Nat}
    (merged : (result ||| ((byte &&& 0x7f).toUInt64 <<< shift)).toNat =
      byte.toNat % 128 * 2 ^ (7 * k) + result.toNat) (small : result.toNat < 2 ^ (7 * k)) :
    (result ||| ((byte &&& 0x7f).toUInt64 <<< shift)).toNat < 2 ^ (7 * (k + 1)) := by
  rw [merged, Nat.mul_add, Nat.pow_add]
  have scaled := Nat.mul_le_mul_right (2 ^ (7 * k)) (Nat.mod_lt byte.toNat (by decide : 0 < 128))
  rw [Nat.succ_mul] at scaled
  omega

theorem shift_next {shift : UInt64} {k : Nat} (at_k : shift.toNat = 7 * k) (low : k < 10) :
    (shift + 7).toNat = 7 * (k + 1) := by
  rw [UInt64.toNat_add, at_k]
  simp
  omega

theorem group_of_top {shift : UInt64} {k : Nat} (at_k : shift.toNat = 7 * k) (top : shift = 63) : k = 9 := by
  have same : 7 * k = 63 := at_k.symm.trans (congrArg UInt64.toNat top)
  omega

/-- The lowest group of a value, and the others one group further up. -/
theorem group_split (value k : Nat) :
    value * 2 ^ (7 * k) = value / 128 * 2 ^ (7 * (k + 1)) + value % 128 * 2 ^ (7 * k) := by
  rw [show 7 * (k + 1) = 7 + 7 * k by ring, Nat.pow_add, ← Nat.mul_assoc, ← Nat.add_mul]
  congr 1
  omega

/-- The group that ends a varint. -/
theorem readVarintLoop_last (groups k : Nat) {value : Nat} (last : value < 128) (low : k < maxVarintLen)
    {result shift : UInt64} (at_k : shift.toNat = 7 * k) (small : result.toNat < 2 ^ (7 * k))
    (fits : value * 2 ^ (7 * k) + result.toNat < 2 ^ 64) {r : Reader} {rest : Bytes}
    (ahead : r.Ahead ([UInt8.ofNat value] ++ rest)) :
    ∃ after, Reader.readVarintLoop (groups + 1) result shift r =
      .ok (UInt64.ofNat (value * 2 ^ (7 * k) + result.toNat), after) ∧ after.Ahead rest := by
  obtain ⟨after, read, behind⟩ := Reader.readU8_ahead ahead
  have byte : (UInt8.ofNat value).toNat = value := by
    rw [UInt8.toNat_ofNat']
    omega
  have payload := payload_toNat (UInt8.ofNat value)
  rw [byte, Nat.mod_eq_of_lt last] at payload
  have guard : ¬(shift = 63 ∧ 1 < (UInt8.ofNat value &&& 0x7f).toUInt64) := by
    rintro ⟨top, big⟩
    rw [UInt64.lt_iff_toNat_lt, payload] at big
    obtain rfl := group_of_top at_k top
    simp at big
    omega
  refine ⟨after, ?_, behind⟩
  rw [Reader.readVarintLoop]
  simp only [read, if_neg guard, (more_iff _).mpr (byte ▸ last), if_true]
  congr 2
  rw [← UInt64.toNat_inj, merge_toNat _ _ _ k at_k low small (by rw [payload]; omega), payload,
    UInt64.toNat_ofNat', Nat.mod_eq_of_lt fits]

/-- Reading group `k`: what was read so far stays below the current shift, so no
bit of the next group is lost. -/
theorem readVarintLoop_ahead (groups k value : Nat) (budget : groups + k = maxVarintLen)
    (low : k < maxVarintLen) {result shift : UInt64} (at_k : shift.toNat = 7 * k)
    (small : result.toNat < 2 ^ (7 * k)) (fits : value * 2 ^ (7 * k) + result.toNat < 2 ^ 64)
    {r : Reader} {rest : Bytes} (ahead : r.Ahead (writeVarint value ++ rest)) :
    ∃ after, Reader.readVarintLoop groups result shift r =
      .ok (UInt64.ofNat (value * 2 ^ (7 * k) + result.toNat), after) ∧ after.Ahead rest := by
  induction groups generalizing k value result shift r with
  | zero => omega
  | succ groups ih =>
    rw [writeVarint_eq] at ahead
    by_cases last : value < 128
    · rw [if_pos last] at ahead
      exact readVarintLoop_last groups k last low at_k small fits ahead
    · rw [if_neg last] at ahead
      unfold maxVarintLen at budget low
      obtain ⟨after, read, behind⟩ := Reader.readU8_ahead ahead
      have byte : (UInt8.ofNat (value % 128 + 128)).toNat = value % 128 + 128 := by
        rw [UInt8.toNat_ofNat']
        omega
      have payload := payload_toNat (UInt8.ofNat (value % 128 + 128))
      rw [byte, Nat.add_mod_right, Nat.mod_mod] at payload
      have split := group_split value k
      -- A further group is still inside the 64 bits.
      have room : k + 1 < 10 := by
        by_contra full
        have nine : k = 9 := by omega
        subst nine
        have large : 128 * 2 ^ 63 ≤ value * 2 ^ 63 := Nat.mul_le_mul_right _ (by omega)
        norm_num at large fits
        omega
      have notTop : ¬(shift = 63 ∧
          1 < (UInt8.ofNat (value % 128 + 128) &&& 0x7f).toUInt64) := by
        rintro ⟨top, _⟩
        have nine := group_of_top at_k top
        omega
      have more : ¬(UInt8.ofNat (value % 128 + 128) &&& 0x80 = 0) := by
        rw [more_iff, byte]
        omega
      have merged := merge_toNat result (UInt8.ofNat (value % 128 + 128) &&& 0x7f).toUInt64
        shift k at_k low small (by
        rw [payload]
        exact lt_of_le_of_lt (Nat.mul_le_mul_right _ (Nat.mod_le _ _)) (by omega))
      rw [payload] at merged
      have grown := merge_lt (by rw [merged, byte, Nat.add_mod_right, Nat.mod_mod]) small
      obtain ⟨final, loop, done⟩ := ih (k + 1) (value / 128) (by unfold maxVarintLen; omega) (by unfold maxVarintLen; omega)
        (shift_next at_k low) grown (by rw [merged]; omega) behind
      refine ⟨final, ?_, done⟩
      rw [Reader.readVarintLoop]
      simp only [read, if_neg notTop, if_neg more]
      rw [loop, merged, split]
      congr 3
      ring

theorem readVarint_ahead {r : Reader} {rest : Bytes} (value : UInt64)
    (ahead : r.Ahead (writeVarint value.toNat ++ rest)) :
    ∃ after, r.readVarint = .ok (value, after) ∧ after.Ahead rest := by
  have bound := value.toNat_lt
  have start : (0 : UInt64).toNat = 7 * 0 := rfl
  have empty : (0 : UInt64).toNat < 2 ^ (7 * 0) := by decide
  obtain ⟨after, read, behind⟩ := readVarintLoop_ahead maxVarintLen 0 value.toNat rfl (by decide)
    start empty (by simpa using bound) ahead
  exact ⟨after, by simpa [Reader.readVarint] using read, behind⟩

/-- Whatever is read is a whole group, and its value: at the tenth byte the check on the
payload keeps the value within 64 bits. -/
theorem readVarintLoop_group (groups k : Nat) (budget : groups + k = maxVarintLen) {result shift value : UInt64}
    (at_k : shift.toNat = 7 * k) (small : result.toNat < 2 ^ (7 * k)) {r after : Reader} {bytes : Bytes}
    (ahead : r.Ahead bytes) (read : Reader.readVarintLoop groups result shift r = .ok (value, after)) :
    ∃ group rest, bytes = group ++ rest ∧ Grouped group ∧ after.Ahead rest ∧
      value.toNat = groupValue group * 2 ^ (7 * k) + result.toNat := by
  unfold maxVarintLen at budget
  induction groups generalizing k result shift r bytes with
  | zero => cases read
  | succ groups ih =>
    unfold Reader.readVarintLoop at read
    split at read
    · cases read
    · next byte next head =>
      obtain ⟨rest, rfl, behind⟩ := ahead.of_readU8 head
      dsimp only at read
      split_ifs at read with overflow last
      all_goals
        have payload := payload_toNat byte
        have digit := payload_fits at_k (by omega) overflow
        have merged := merge_toNat result _ shift k at_k (by omega) small digit
        rw [payload] at merged
      · cases read
        refine ⟨[byte], rest, rfl, .last ((more_iff byte).mp last), behind, ?_⟩
        rw [merged, groupValue, groupValue, Nat.mul_zero, Nat.add_zero]
      · obtain ⟨group, others, rfl, whole, ends, total⟩ :=
          ih (k + 1) (by omega) (shift_next at_k (by omega)) (merge_lt merged small) behind read
        refine ⟨byte :: group, others, rfl, .more (fun few => last ((more_iff byte).mpr few)) whole, ends, ?_⟩
        rw [total, merged, groupValue, Nat.mul_add, Nat.pow_add]
        ring

theorem readVarint_group {r after : Reader} {value : UInt64} {bytes : Bytes} (ahead : r.Ahead bytes)
    (read : r.readVarint = .ok (value, after)) :
    ∃ group rest, bytes = group ++ rest ∧ Grouped group ∧ after.Ahead rest ∧ value.toNat = groupValue group := by
  obtain ⟨group, rest, split, whole, behind, total⟩ :=
    readVarintLoop_group maxVarintLen 0 rfl rfl (by decide) ahead read
  refine ⟨group, rest, split, whole, behind, ?_⟩
  simpa using total

end Buh.Wire.Codec
