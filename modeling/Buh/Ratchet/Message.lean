import Buh.Crypto.Primitives
import Buh.Library.BigEndian

/-! The per-message header of `ratchet/header.rs` and the wire form of a ratchet
message: the three header fields followed by the ciphertext. -/

namespace Buh.Ratchet.Message
open Buh.Library.BigEndian Buh.Wire.Codec Buh.Wire.V1 Buh.Crypto.Primitives

structure Header where
  dh : Bytes32
  /-- Number of messages in the sender's previous sending chain. -/
  pn : UInt32
  /-- Message number within the sender's current sending chain. -/
  n : UInt32
  deriving DecidableEq

/-- `u32::to_be_bytes` -/
def u32Bytes (value : UInt32) : Bytes := beBytes 4 value.toNat

def headerFrame (header : Header) : Frame :=
  (((Frame.new.withField tagRatchetDh header.dh.toList).withField tagRatchetPn
    (u32Bytes header.pn)).withField tagRatchetN (u32Bytes header.n))

/-- The additional data of the AEAD: the header's own frame. -/
def toAad (header : Header) : Bytes := (headerFrame header).encode

/-- A big-endian `u32` from exactly four bytes. -/
def readU32 (bytes : Bytes) : Except CryptoError UInt32 :=
  match toArr 4 bytes with
  | some arr => .ok (UInt32.ofNat (beValue arr.toList))
  | none => .error (.malformed "ratchet counter")

/-- The wire message that `encrypt` returns. -/
def messageFrame (header : Header) (ciphertext : Bytes) : Frame :=
  (headerFrame header).withField tagCiphertext ciphertext

/-- The parsing half of `decrypt`: everything it reads before it looks at the state. -/
def parseMessage (message : Bytes) : Except CryptoError (Header × Bytes) := do
  let frame ← liftWire (Frame.decode message)
  let dh ← publicFromSlice (← liftWire (frame.require tagRatchetDh))
  let pn ← readU32 (← liftWire (frame.require tagRatchetPn))
  let n ← readU32 (← liftWire (frame.require tagRatchetN))
  let ciphertext ← liftWire (frame.require tagCiphertext)
  return (⟨dh, pn, n⟩, ciphertext)

@[simp] theorem u32Bytes_length (value : UInt32) : (u32Bytes value).length = 4 := by
  simp [u32Bytes]

theorem u32Bytes_injective : Function.Injective u32Bytes := by
  intro first second same
  apply UInt32.toNat_inj.mp
  exact beBytes_inj (by have := first.toNat_lt; omega) (by have := second.toNat_lt; omega) same

theorem readU32_u32Bytes (value : UInt32) : readU32 (u32Bytes value) = .ok value := by
  have bound := value.toNat_lt
  have arr := toArr_toList (⟨u32Bytes value, u32Bytes_length value⟩ : ByteArr 4)
  change toArr 4 (u32Bytes value) = _ at arr
  rw [readU32, arr]
  change Except.ok (UInt32.ofNat (beValue (beBytes 4 value.toNat))) = _
  rw [beValue_beBytes, Nat.mod_eq_of_lt (by omega), UInt32.ofNat_toNat]

theorem publicFromSlice_toList (key : Bytes32) : publicFromSlice key.toList = .ok key := by
  rw [publicFromSlice, toArr_toList]

theorem toAad_length_le (header : Header) : (toAad header).length ≤ 89 := by
  refine (Frame.encode_length_le rfl ?_).trans ?_
  · intro field member
    simp only [headerFrame, Frame.withField, Frame.new, List.nil_append, List.cons_append, List.mem_cons,
      List.not_mem_nil, or_false] at member
    rcases member with rfl | rfl | rfl <;> exact of_decide_eq_true rfl
  · simp [headerFrame, Frame.withField, Frame.new]

theorem toAad_injective : Function.Injective toAad := by
  rintro ⟨dh, pn, n⟩ ⟨dh', pn', n'⟩ same
  have frames := Frame.encode_injective same
  simp only [headerFrame, Frame.withField, Frame.new, List.nil_append, List.cons_append,
    Frame.mk.injEq, List.cons.injEq, Field.mk.injEq, true_and, and_true] at frames
  obtain ⟨dhs, pns, ns⟩ := frames
  rw [u32Bytes_injective pns, u32Bytes_injective ns, List.Vector.toList_injective dhs]

theorem messageFrame_fits (header : Header) {ciphertext : Bytes} (fits : ciphertext.length < 2 ^ 64) :
    (messageFrame header ciphertext).Fits := by
  intro field member
  simp only [messageFrame, headerFrame, Frame.withField, Frame.new, List.nil_append,
    List.cons_append, List.mem_cons, List.not_mem_nil, or_false] at member
  rcases member with rfl | rfl | rfl | rfl
  · simp
  · simp
  · simp
  · exact fits

/-- A message is read off its fields. -/
theorem parseMessage_fields {message other : Bytes} {frame frame' : Frame}
    (decoded : Frame.decode message = .ok frame) (decoded' : Frame.decode other = .ok frame')
    (same : frame'.fields = frame.fields) : parseMessage other = parseMessage message := by
  have reads (tag : UInt64) : frame'.require tag = frame.require tag := by
    rw [Frame.require, Frame.require, Frame.get, Frame.get, same]
  simp only [parseMessage, decoded, decoded', reads, liftWire, bind, Except.bind]

theorem parseMessage_encode (header : Header) {ciphertext : Bytes}
    (fits : ciphertext.length < 2 ^ 64) :
    parseMessage (messageFrame header ciphertext).encode = .ok (header, ciphertext) := by
  have frameFits := messageFrame_fits header fits
  have dh : (messageFrame header ciphertext).require tagRatchetDh = .ok header.dh.toList := rfl
  have pn : (messageFrame header ciphertext).require tagRatchetPn = .ok (u32Bytes header.pn) := rfl
  have n : (messageFrame header ciphertext).require tagRatchetN = .ok (u32Bytes header.n) := rfl
  have ct : (messageFrame header ciphertext).require tagCiphertext = .ok ciphertext := rfl
  simp only [parseMessage, Frame.decode_encode frameFits, dh, pn, n, ct, liftWire,
    publicFromSlice_toList, readU32_u32Bytes, bind, Except.bind, pure, Except.pure]

end Buh.Ratchet.Message
