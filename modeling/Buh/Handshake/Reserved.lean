import Buh.Handshake.Signing

/-! Reserved post-quantum tags in the handshake context. The frame has a gate for them,
`rejectReservedPq`, and `wire/v1.rs` says that a handshake decoder calls it. None of the
three decoders does: each looks up the tags it knows and answers as if the reserved fields,
wherever they stand, were not there. -/

namespace Buh.Handshake.Reserved
open Buh.Library.BigEndian Buh.Wire.Codec Buh.Wire.V1 Buh.Crypto.Primitives Buh.Crypto.PostQuantum
  Buh.Handshake.Prekey Buh.Handshake.Pqxdh Buh.Handshake.Invitation Buh.Handshake.Signing

section
variable {S : Suite} {P : Schemes S}

/-- What `decode` accepts has a frame without reserved fields. -/
def Refuses {α : Type} (decode : Bytes → Except CryptoError α) (bytes : Bytes) : Prop :=
  ∀ value, decode bytes = .ok value → ∃ frame, Frame.decode bytes = .ok frame ∧ frame.NoReserved

/-- `decode` reads the same from the frame with its reserved fields taken out. -/
def Ignores {α : Type} (decode : Bytes → Except CryptoError α) (bytes : Bytes) : Prop :=
  ∀ frame, Frame.decode bytes = .ok frame →
    ∀ value, decode bytes = .ok value ↔ decode frame.unreserved.encode = .ok value

/-- The two frames say the same under every tag outside the reserved range. -/
def SameKnown (frame other : Frame) : Prop := ∀ tag ∉ pqReservedTags, frame.get tag = other.get tag

namespace SameKnown
variable {frame other : Frame} (same : SameKnown frame other)
include same

theorem symm : SameKnown other frame := fun tag outside => (same tag outside).symm

theorem carries {α : Type} {tag : UInt64} {parse : Bytes → Except CryptoError α} {value : α}
    (carried : Carries frame tag parse value) (outside : tag ∉ pqReservedTags) : Carries other tag parse value := by
  obtain ⟨bytes, found, parsed⟩ := carried
  exact ⟨bytes, (same tag outside).symm.trans found, parsed⟩

theorem initial {message : InitialMessage P} (reads : InitialMessage.Reads frame message) :
    InitialMessage.Reads other message where
  context := (same _ (by decide)).symm.trans reads.context
  identity := same.carries reads.identity (by decide)
  ephemeral := same.carries reads.ephemeral (by decide)
  kemCiphertext := (same _ (by decide)).symm.trans reads.kemCiphertext
  signature := same.carries reads.signature (by decide)

theorem bundle {bundle : PrekeyBundle P} (reads : PrekeyBundle.Reads frame bundle) :
    PrekeyBundle.Reads other bundle where
  context := (same _ (by decide)).symm.trans reads.context
  identity := same.carries reads.identity (by decide)
  signedPrekey := same.carries reads.signedPrekey (by decide)
  kemKey := same.carries reads.kemKey (by decide)
  oneTimePrekey := by
    rw [← same _ (by decide)]
    exact reads.oneTimePrekey
  signature := same.carries reads.signature (by decide)
  verified := reads.verified

theorem invite {invite : Invite P} {carried : Bytes} {inner : Frame} {inviter : P.VerifyingKey} {deadline : ByteArr 8}
    (reads : Invite.Reads frame invite carried inner inviter deadline) :
    Invite.Reads other invite carried inner inviter deadline :=
  { reads with
    context := (same _ (by decide)).symm.trans reads.context
    queue := same.carries reads.queue (by decide)
    identity := same.carries reads.identity (by decide)
    bundleBytes := (same _ (by decide)).symm.trans reads.bundleBytes
    nonce := same.carries reads.nonce (by decide)
    expiry := same.carries reads.expiry (by decide)
    signature := same.carries reads.signature (by decide) }

end SameKnown

theorem sameKnown_unreserved (frame : Frame) : SameKnown frame.unreserved frame :=
  fun _ outside => Frame.get_unreserved outside

theorem sameKnown_withField {tag : UInt64} (reserved : tag ∈ pqReservedTags) (frame : Frame) (extra : Bytes) :
    SameKnown frame (frame.withField tag extra) := by
  intro known outside
  refine (Frame.get_withField ?_).symm
  rintro rfl
  exact outside reserved

/-- A decoder that reads frames, and reads nothing in the reserved range, refuses reserved
fields in exactly the frames that have none or that say nothing it accepts without them. -/
theorem refuses_iff {α : Type} {decode : Bytes → Except CryptoError α} {Reads : Frame → α → Prop} (bytes : Bytes)
    (inverts : ∀ bytes value, decode bytes = .ok value ↔ ∃ frame, Frame.decode bytes = .ok frame ∧ Reads frame value)
    (respects : ∀ frame other value, SameKnown frame other → Reads frame value → Reads other value) :
    (Refuses decode bytes ↔ ∀ frame, Frame.decode bytes = .ok frame →
      frame.rejectReservedPq = .ok () ∨ ¬∃ value, Reads frame.unreserved value) ∧ Ignores decode bytes := by
  have ignored (frame : Frame) (value : α) : Reads frame value ↔ Reads frame.unreserved value :=
    ⟨respects _ _ value (sameKnown_unreserved frame).symm, respects _ _ value (sameKnown_unreserved frame)⟩
  simp only [Frame.rejectReservedPq_eq_ok]
  refine ⟨⟨?_, ?_⟩, ?_⟩
  · intro refuses frame parsed
    by_cases reads : ∃ value, Reads frame value
    · obtain ⟨value, reads⟩ := reads
      obtain ⟨same, reparsed, clean⟩ := refuses value ((inverts bytes value).mpr ⟨frame, parsed, reads⟩)
      rw [parsed, Except.ok.injEq] at reparsed
      exact .inl (reparsed ▸ clean)
    · refine .inr fun ⟨value, stripped⟩ => reads ⟨value, (ignored frame value).mpr stripped⟩
  · intro gated value accepted
    obtain ⟨frame, parsed, reads⟩ := (inverts bytes value).mp accepted
    have clean := (gated frame parsed).resolve_right (not_not.mpr ⟨value, (ignored frame value).mp reads⟩)
    exact ⟨frame, parsed, clean⟩
  · intro frame parsed value
    have stripped := Frame.decode_encode (Frame.decode_fits parsed).unreserved
    rw [inverts, inverts]
    constructor
    · rintro ⟨same, reparsed, reads⟩
      rw [parsed, Except.ok.injEq] at reparsed
      exact ⟨_, stripped, (ignored frame value).mp (reparsed ▸ reads)⟩
    · rintro ⟨same, reparsed, reads⟩
      rw [stripped, Except.ok.injEq] at reparsed
      exact ⟨frame, parsed, (ignored frame value).mpr (reparsed ▸ reads)⟩

/-- Each decoder keeps reserved fields out of exactly the frames that the gate would let
through, or whose other fields it refuses already: with the reserved fields taken out, at
whatever position they stood, it answers the same value or none. -/
theorem reserved_refused_iff (P : Schemes S) (bytes : Bytes) :
    ((Refuses (InitialMessage.decode P) bytes ↔ ∀ frame, Frame.decode bytes = .ok frame →
        frame.rejectReservedPq = .ok () ∨
          ¬∃ message : InitialMessage P, InitialMessage.Reads frame.unreserved message) ∧
      Ignores (InitialMessage.decode P) bytes) ∧
    ((Refuses (PrekeyBundle.decode P) bytes ↔ ∀ frame, Frame.decode bytes = .ok frame →
        frame.rejectReservedPq = .ok () ∨ ¬∃ bundle : PrekeyBundle P, PrekeyBundle.Reads frame.unreserved bundle) ∧
      Ignores (PrekeyBundle.decode P) bytes) ∧
    ((Refuses (Invite.decode P) bytes ↔ ∀ frame, Frame.decode bytes = .ok frame →
        frame.rejectReservedPq = .ok () ∨
          ¬∃ (invite : Invite P) (carried : Bytes) (inner : Frame) (inviter : P.VerifyingKey) (deadline : ByteArr 8),
            Invite.Reads frame.unreserved invite carried inner inviter deadline) ∧
      Ignores (Invite.decode P) bytes) := by
  refine ⟨refuses_iff bytes (fun _ _ => InitialMessage.decode_eq_ok) fun _ _ _ same reads => same.initial reads,
    refuses_iff bytes (fun _ _ => PrekeyBundle.decode_eq_ok) fun _ _ _ same reads => same.bundle reads,
    refuses_iff bytes (fun _ _ => Invite.decode_eq_ok) ?_⟩
  rintro _ _ _ same ⟨carried, inner, inviter, deadline, reads⟩
  exact ⟨carried, inner, inviter, deadline, same.invite reads⟩

/-- A decoder that accepts a frame with a reserved field behind it does not refuse it. -/
theorem smuggled_not_refused {α : Type} {decode : Bytes → Except CryptoError α} {frame : Frame} {tag : UInt64}
    {extra : Bytes} {value : α} (reserved : tag ∈ pqReservedTags) (fits : frame.Fits)
    (short : extra.length < 2 ^ 64)
    (accepts : ∀ bytes, Frame.decode bytes = .ok (frame.withField tag extra) → decode bytes = .ok value) :
    ¬Refuses decode (frame.withField tag extra).encode := by
  intro refuses
  have parsed : Frame.decode (frame.withField tag extra).encode = .ok (frame.withField tag extra) :=
    Frame.decode_encode (fits.withField short)
  obtain ⟨same, reparsed, clean⟩ := refuses value (accepts _ parsed)
  rw [parsed, Except.ok.injEq] at reparsed
  subst reparsed
  exact clean ⟨tag, extra⟩ (List.mem_append_right _ (List.mem_singleton_self _)) reserved

end

section
open Buh.Crypto

def sampleFlight : InitialMessage (symbolic []) := (initiate (sampleInitiator []) (sampleBundle []) sampleDrawn).1

def sampleQueue : QueueDescriptor :=
  ⟨List.Vector.replicate 32 0x11, "https://relay.example:8443", List.Vector.replicate 32 0x22⟩

def sampleInvite : Invite (symbolic []) :=
  Invite.create (sampleResponder []) sampleQueue (sampleBundle []) (List.Vector.replicate inviteNonceLen 0x33)
    1900000000000 (List.Vector.replicate 32 13)

/-- One field of each reserved kind, behind a genuine first flight, bundle and invite. -/
theorem reserved_accepted :
    ¬Refuses (InitialMessage.decode (symbolic [])) (sampleFlight.frame.withField tagPqKemCt [7]).encode ∧
      ¬Refuses (PrekeyBundle.decode (symbolic [])) ((sampleBundle []).frame.withField tagSpqrChunk [7]).encode ∧
      ¬Refuses (Invite.decode (symbolic [])) (sampleInvite.frame.withField tagPqEpoch [7]).encode := by
  have pq := symbolic_lawful []
  have bundled := PrekeyBundle.generate_verified pq (sampleResponder []) true sampleDraws
  refine ⟨?_, ?_, ?_⟩
  · have ciphertext : sampleFlight.kemCiphertext.length = mlkemCiphertextLen :=
      (symbolic []).encapsulate_length (sampleBundle []).kemKey sampleDrawn.encapsulation
    have reads := InitialMessage.frame_reads pq sampleFlight
    apply smuggled_not_refused (by decide) (InitialMessage.frame_fits (by rw [ciphertext]; decide)) (by decide)
    intro bytes parsed
    exact InitialMessage.decode_eq_ok.mpr ⟨_, parsed, (sameKnown_withField (by decide) _ _).initial reads⟩
  · have reads := PrekeyBundle.frame_reads pq bundled
    apply smuggled_not_refused (by decide) (PrekeyBundle.frame_fits _) (by decide)
    intro bytes parsed
    exact PrekeyBundle.decode_eq_ok.mpr ⟨_, parsed, (sameKnown_withField (by decide) _ _).bundle reads⟩
  · have url : (utf8 sampleQueue.relayUrl).length < 2 ^ 63 := by decide
    have verified := pq.verify_sign (sampleResponder []) (Invitation.signingBody (symbolic []) sampleQueue
      ((symbolic []).verifyingKey (sampleResponder [])) (sampleBundle []).encode
      (List.Vector.replicate inviteNonceLen 0x33) 1900000000000) (List.Vector.replicate 32 13)
    have reads : Invite.Reads sampleInvite.frame sampleInvite _ _ _ _ :=
      Invite.frame_reads pq (url.trans (by decide)) bundled verified
    apply smuggled_not_refused (by decide) (Invite.frame_fits url) (by decide)
    intro bytes parsed
    exact Invite.decode_eq_ok.mpr ⟨_, parsed, _, _, _, _, (sameKnown_withField (by decide) _ _).invite reads⟩

end

end Buh.Handshake.Reserved
