import Buh.Ratchet.Receiving
import Buh.Ratchet.Authenticity

/-! The capability flags of a ratchet message. `Frame::aad` is there to bind them, but the
ratchet seals under the encoding of a fresh header frame, whose flags are always zero, and
the receiver rebuilds that frame from the header without looking at the flags it parsed. -/

namespace Buh.Ratchet.Flags
open Buh.Wire.Codec Buh.Wire.V1 Buh.Crypto Buh.Crypto.Primitives Buh.Ratchet.Message Buh.Ratchet.Chain
  Buh.Ratchet.State Buh.Ratchet.Session Buh.Ratchet.Secrecy Buh.Ratchet.Authenticity Buh.Ratchet.Receiving

section
variable {S : Suite} {root : S.Key}

/-- `decrypt` does not return `Ok`. -/
def Refused (s : RatchetState S) (generated : Bytes32) (message : Bytes) : Prop :=
  ∀ plaintext, (s.decrypt generated message).2 ≠ .ok plaintext

/-- A byte string with the header and ciphertext of a genuine message is refused only for
want of the message's key. -/
theorem refused_iff (ideal : Ideal S) {s : RatchetState S} {generated : Bytes32} {m : Sent S} {other ciphertext : Bytes}
    {header : Header} (sealed : sealMessage S m.key (toAad header) m.plaintext = .ok ciphertext)
    (parsed : parseMessage other = .ok (header, ciphertext)) :
    Refused s generated other ↔ ¬Yields s header m.key := by
  have opens := openMessage_sealMessage ideal.toLawful sealed
  constructor
  · intro refused yields
    exact refused m.plaintext ((decrypt_ok_iff parsed).mpr ⟨m.key, yields, opens⟩)
  · intro missing plaintext opened
    obtain ⟨key, yields, opened⟩ := (decrypt_ok_iff parsed).mp opened
    rw [← openMessage_key_unique ideal opens opened] at yields
    exact missing yields

variable (ideal : Ideal S) (session : SessionRoot S root)
include ideal session

/-- Flags are not authenticated: with other flags in its frame, a message of the peer is
refused exactly when the receiver has no key for it, as with its own; and so is any other
byte string that is not forged. -/
theorem flags_refused_iff {env : Surroundings S} {signedPrekey generated : Bytes32} {w : World S}
    (run : Run env (World.start root signedPrekey generated) w) (p : Party) (drawn : Bytes32) :
    (∀ m ∈ w.sent, m.sender = p.peer → ∀ header ciphertext, parseMessage m.message = .ok (header, ciphertext) →
      ∀ other frame frame', Frame.decode m.message = .ok frame → Frame.decode other = .ok frame' →
        frame'.fields = frame.fields → frame'.flags ≠ frame.flags →
        (Refused (w.state p) drawn other ↔ ¬Yields (w.state p) header m.key)) ∧
    ∀ other frame header ciphertext, Frame.decode other = .ok frame →
      parseMessage other = .ok (header, ciphertext) → frame.flags ≠ (headerFrame header).flags →
      Unforged root w other →
      (Refused (w.state p) drawn other ↔ ¬∃ m ∈ w.sent, m.sender = p.peer ∧
        parseMessage m.message = .ok (header, ciphertext) ∧ Yields (w.state p) header m.key) := by
  have recorded := recorded_run ideal.toLawful run
  have sealed {m : Sent S} (member : m ∈ w.sent) {header : Header} {ciphertext : Bytes}
      (parsed : parseMessage m.message = .ok (header, ciphertext)) :
      sealMessage S m.key (toAad header) m.plaintext = .ok ciphertext := by
    obtain ⟨header', ciphertext', parsed', sealed⟩ := recorded.sent m member
    rw [parsed] at parsed'
    cases parsed'
    exact sealed
  constructor
  · intro m member _ header ciphertext parsed other frame frame' decoded decoded' same _
    exact refused_iff ideal (sealed member parsed) ((parseMessage_fields decoded decoded' same).trans parsed)
  · intro other frame header ciphertext _ parsed _ unforged
    constructor
    · rintro refused ⟨m, member, _, carries, yields⟩
      exact (refused_iff ideal (sealed member carries) parsed).mp refused yields
    · intro missing plaintext opened
      obtain ⟨key, yields, opens⟩ := (decrypt_ok_iff parsed).mp opened
      obtain ⟨after, received⟩ := (receiveKey_ok_iff drawn).mpr yields
      have ledger := ledger_run ideal session (ledger_start signedPrekey generated) run
      obtain ⟨m, member, sender, _, rfl, carries⟩ :=
        decrypt_attributed ideal session ledger recorded unforged parsed received opens
      exact missing ⟨m, member, sender, carries, yields⟩

end

section
variable {S : Suite} {root : S.Key}

/-- The first message of a session with flags of the network's choice. -/
def flagged (S : Suite) (generated : Bytes32) (ciphertext : Bytes) (flags : UInt64) : Frame :=
  { messageFrame (firstHeader S generated) ciphertext with flags := flags }

theorem flagged_decodes {generated : Bytes32} {ciphertext : Bytes} (fits : ciphertext.length < 2 ^ 64)
    (flags : UInt64) :
    Frame.decode (flagged S generated ciphertext flags).encode = .ok (flagged S generated ciphertext flags) :=
  Frame.decode_encode (messageFrame_fits (firstHeader S generated) fits)

theorem flagged_parses {generated : Bytes32} {ciphertext : Bytes} (fits : ciphertext.length < 2 ^ 64)
    (flags : UInt64) :
    parseMessage (flagged S generated ciphertext flags).encode = .ok (firstHeader S generated, ciphertext) := by
  have plain := Frame.decode_encode (messageFrame_fits (firstHeader S generated) fits)
  exact (parseMessage_fields plain (flagged_decodes fits flags) rfl).trans (parseMessage_encode _ fits)

/-- The first message is on its way and nothing has arrived yet. -/
theorem first_world (env : Surroundings S) {signedPrekey generated : Bytes32} {plaintext ciphertext : Bytes}
    (sealed : sealMessage S (firstKey S root signedPrekey generated)
      (toAad (firstHeader S generated)) plaintext = .ok ciphertext) :
    ∃ w, Run env (World.start root signedPrekey generated) w ∧
      w.sent = [firstSent S root signedPrekey generated plaintext ciphertext] ∧
      w.state .responder = .responder root signedPrekey := by
  obtain ⟨after, encrypted⟩ := initiator_encrypts sealed
  have sends : Step env (World.start root signedPrekey generated) { World.start root signedPrekey generated with
      state := Function.update (World.start root signedPrekey generated).state .initiator after
      sent := [] ++ [firstSent S root signedPrekey generated plaintext ciphertext] } :=
    .encrypt .initiator encrypted rfl
  exact ⟨_, .single sends, rfl, rfl⟩

theorem responder_yields (lawful : Lawful S) (root : S.Key) (signedPrekey generated : Bytes32) :
    Yields (RatchetState.responder root signedPrekey) (firstHeader S generated)
      (firstKey S root signedPrekey generated) := by
  obtain ⟨after, received, _⟩ := responder_receives lawful root signedPrekey generated generated
  exact (receiveKey_ok_iff generated).mp ⟨after, received⟩

end

/-- A fresh responder opens the first message of the initiator with its flags set to one. -/
theorem flags_ignored : ∃ (w : World Symbolic.suite) (m : Sent Symbolic.suite) (other : Bytes) (frame frame' : Frame)
    (drawn : Bytes32),
    Run (anything Symbolic.suite) (World.start sampleRoot samplePrekey sampleGenerated) w ∧ m ∈ w.sent ∧
      m.sender = Party.responder.peer ∧ Frame.decode m.message = .ok frame ∧ Frame.decode other = .ok frame' ∧
      frame'.fields = frame.fields ∧ frame'.flags ≠ frame.flags ∧ ¬Refused (w.state .responder) drawn other := by
  obtain ⟨ciphertext, sealed⟩ := sample_sealed
  have fits := sealMessage_fits Symbolic.suite_lawful sealed
  obtain ⟨w, run, sent, state⟩ := first_world (anything Symbolic.suite) sealed
  refine ⟨w, firstSent Symbolic.suite sampleRoot samplePrekey sampleGenerated [7] ciphertext,
    (flagged Symbolic.suite sampleGenerated ciphertext 1).encode, _, _, sampleGenerated, run, by simp [sent], rfl,
    flagged_decodes fits 0, flagged_decodes fits 1, rfl, (show (1 : UInt64) ≠ 0 by decide),
    fun refused => refused [7] ?_⟩
  rw [state, decrypt_ok_iff (flagged_parses fits 1)]
  exact ⟨_, responder_yields Symbolic.suite_lawful sampleRoot samplePrekey sampleGenerated,
    openMessage_sealMessage Symbolic.suite_lawful sealed⟩

theorem flags_refused_iff_sample : ∃ (w : World Symbolic.suite) (ciphertext : Bytes),
    Run (anything Symbolic.suite) (World.start sampleRoot samplePrekey sampleGenerated) w ∧ w.sent.length = 1 ∧
      ¬Refused (w.state .responder) sampleGenerated
        (flagged Symbolic.suite sampleGenerated ciphertext 2).encode := by
  obtain ⟨ciphertext, sealed⟩ := sample_sealed
  have fits := sealMessage_fits Symbolic.suite_lawful sealed
  obtain ⟨w, run, sent, state⟩ := first_world (anything Symbolic.suite) sealed
  have exact_ := (flags_refused_iff Symbolic.suite_ideal sampleRoot_session run .responder sampleGenerated).1
    (firstSent Symbolic.suite sampleRoot samplePrekey sampleGenerated [7] ciphertext) (by simp [sent]) rfl
    (firstHeader Symbolic.suite sampleGenerated) ciphertext (flagged_parses fits 0)
    (flagged Symbolic.suite sampleGenerated ciphertext 2).encode _ _ (flagged_decodes fits 0)
    (flagged_decodes fits 2) rfl (show (2 : UInt64) ≠ 0 by decide)
  refine ⟨w, ciphertext, run, by rw [sent]; rfl, fun refused => exact_.mp refused ?_⟩
  rw [state]
  exact responder_yields Symbolic.suite_lawful sampleRoot samplePrekey sampleGenerated

end Buh.Ratchet.Flags
