import Buh.Ratchet.Session

/-! A later version may add fields to a ratchet message. `decrypt` asks the frame for its
four tags only and takes the first field of each, so what stands between them is passed
over, and the additional data is rebuilt from the header and not from the frame. -/

namespace Buh.Wire.V1.Frame
open Buh.Wire.Codec

/-- Put a field before the one at `position`, or at the end. -/
def insertField (frame : Frame) (position : Nat) (field : Field) : Frame :=
  { frame with fields := frame.fields.take position ++ field :: frame.fields.drop position }

/-- Put fields in one after the other, each at its own position. -/
def insertFields (frame : Frame) (extras : List (Nat × Field)) : Frame :=
  extras.foldl (fun frame extra => frame.insertField extra.1 extra.2) frame

theorem get_insertField {frame : Frame} {position : Nat} {field : Field} {tag : UInt64} (apart : field.tag ≠ tag) :
    (frame.insertField position field).get tag = frame.get tag := by
  have skips : (field :: frame.fields.drop position).find? (fun field => field.tag == tag) =
      (frame.fields.drop position).find? (fun field => field.tag == tag) := by
    rw [List.find?_cons_of_neg (by simpa using apart)]
  rw [get, get, insertField, List.find?_append, skips, ← List.find?_append, List.take_append_drop]

theorem get_insertFields {tag : UInt64} (extras : List (Nat × Field)) (frame : Frame)
    (apart : ∀ extra ∈ extras, extra.2.tag ≠ tag) : (frame.insertFields extras).get tag = frame.get tag := by
  induction extras generalizing frame with
  | nil => rfl
  | cons extra extras ih =>
    have rest := ih (frame.insertField extra.1 extra.2)
      (fun other member => apart other (List.mem_cons_of_mem _ member))
    exact rest.trans (get_insertField (apart extra List.mem_cons_self))

theorem mem_insertField {frame : Frame} {position : Nat} {field other : Field} :
    other ∈ (frame.insertField position field).fields ↔ other = field ∨ other ∈ frame.fields := by
  have parts : other ∈ frame.fields ↔ other ∈ frame.fields.take position ∨ other ∈ frame.fields.drop position := by
    rw [← List.mem_append, List.take_append_drop]
  rw [insertField, List.mem_append, List.mem_cons, parts]
  tauto

/-- Nothing is lost by an insertion, and everything that was put in is there. -/
theorem mem_insertFields (extras : List (Nat × Field)) (frame : Frame) {field : Field} :
    field ∈ (frame.insertFields extras).fields ↔ field ∈ extras.map Prod.snd ∨ field ∈ frame.fields := by
  induction extras generalizing frame with
  | nil => simp [insertFields]
  | cons extra extras ih =>
    have rest := ih (frame.insertField extra.1 extra.2)
    rw [mem_insertField] at rest
    change field ∈ ((frame.insertField extra.1 extra.2).insertFields extras).fields ↔ _
    rw [rest, List.map_cons, List.mem_cons]
    tauto

end Buh.Wire.V1.Frame

namespace Buh.Ratchet.Evolution
open Buh.Wire.Codec Buh.Wire.V1 Buh.Crypto Buh.Crypto.Primitives Buh.Ratchet.Message Buh.Ratchet.Chain
  Buh.Ratchet.State Buh.Ratchet.Session

/-- The tags that `decrypt` reads. -/
def ratchetTags : List UInt64 := [tagRatchetDh, tagRatchetPn, tagRatchetN, tagCiphertext]

/-- Two frames that agree on the four tags are the same message. -/
theorem parseMessage_gets {message other : Bytes} {frame frame' : Frame}
    (decoded : Frame.decode message = .ok frame) (decoded' : Frame.decode other = .ok frame')
    (same : ∀ tag ∈ ratchetTags, frame'.get tag = frame.get tag) : parseMessage other = parseMessage message := by
  have reads (tag : UInt64) (read : tag ∈ ratchetTags) : frame'.require tag = frame.require tag := by
    rw [Frame.require, Frame.require, same tag read]
  have dh := reads tagRatchetDh (by decide)
  have pn := reads tagRatchetPn (by decide)
  have n := reads tagRatchetN (by decide)
  have ciphertext := reads tagCiphertext (by decide)
  simp only [parseMessage, decoded, decoded', dh, pn, n, ciphertext, liftWire, bind, Except.bind]

section
variable {S : Suite}

/-- The state enters `decrypt` only with the header and the ciphertext. -/
theorem decrypt_parseMessage {message other : Bytes} (same : parseMessage other = parseMessage message)
    (s : RatchetState S) (generated : Bytes32) : s.decrypt generated other = s.decrypt generated message := by
  rw [RatchetState.decrypt, RatchetState.decrypt, same]

/-- A receiver does not see fields it has no use for, wherever a sender's successor puts
them: it answers as to the message itself and is left in the same state. -/
theorem decrypt_insertFields {sender after : RatchetState S} {plaintext message : Bytes}
    (sent : sender.encrypt plaintext = (after, .ok message)) {frame : Frame} (framed : frame.encode = message)
    (extras : List (Nat × Field)) (unread : ∀ extra ∈ extras, extra.2.tag ∉ ratchetTags)
    (fits : (frame.insertFields extras).Fits) (receiver : RatchetState S) (generated : Bytes32) :
    receiver.decrypt generated (frame.insertFields extras).encode = receiver.decrypt generated message := by
  obtain ⟨ck, ciphertext, -, -, -, encoded⟩ := RatchetState.encrypt_ok sent
  have own : frame = messageFrame sender.nextHeader ciphertext := Frame.encode_injective (framed.trans encoded)
  have frameFits : frame.Fits := by
    intro field member
    exact fits field ((Frame.mem_insertFields extras frame).mpr (Or.inr member))
  apply decrypt_parseMessage
  rw [encoded, ← own]
  apply parseMessage_gets (Frame.decode_encode frameFits) (Frame.decode_encode fits)
  intro tag read
  apply Frame.get_insertFields
  intro extra member same
  exact unread extra member (same ▸ read)

end

/-- A reserved field in front and an unknown one in the middle of the first message. -/
theorem decrypt_insertFields_sample : ∃ ciphertext : Bytes,
    (RatchetState.responder sampleRoot samplePrekey).decrypt sampleGenerated
        ((messageFrame (firstHeader Symbolic.suite sampleGenerated) ciphertext).insertFields
          [(0, ⟨tagSpqrChunk, [1, 2]⟩), (3, ⟨0xffffffffffffffff, []⟩)]).encode =
      (RatchetState.responder sampleRoot samplePrekey).decrypt sampleGenerated
        (messageFrame (firstHeader Symbolic.suite sampleGenerated) ciphertext).encode := by
  obtain ⟨ciphertext, sealed⟩ := sample_sealed
  obtain ⟨after, sent⟩ := initiator_encrypts sealed
  have fits := messageFrame_fits (firstHeader Symbolic.suite sampleGenerated)
    (sealMessage_fits Symbolic.suite_lawful sealed)
  refine ⟨ciphertext, decrypt_insertFields sent rfl _ (by decide) ?_ _ _⟩
  intro field member
  rcases (Frame.mem_insertFields _ _).mp member with extra | own
  · revert extra
    rw [List.map_cons, List.map_cons, List.map_nil, List.mem_cons, List.mem_singleton]
    rintro (rfl | rfl) <;> decide
  · exact fits field own

end Buh.Ratchet.Evolution
