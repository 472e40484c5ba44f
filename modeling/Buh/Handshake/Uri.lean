import Buh.Library.Base64
import Buh.Handshake.Reencoding

/-! The `buh1:` form of an invite, for a QR code or paste. A text is the list of its
characters; the base64 engine is a parameter. -/

namespace Buh.Handshake.Uri
open Buh.Wire.Codec Buh.Wire.V1 Buh.Crypto.Primitives Buh.Crypto.PostQuantum Buh.Handshake.Prekey
  Buh.Handshake.Invitation Buh.Handshake.Signing Buh.Handshake.Reencoding

abbrev Text := List Char

/-- `buh1:` -/
def invitePrefix : Text := ['b', 'u', 'h', '1', ':']

/-- The engine `URL_SAFE_NO_PAD`. -/
structure Engine where
  encode : Bytes → Text
  decode : Text → Option Bytes

/-- What is encoded can be read back. -/
def Engine.Lawful (engine : Engine) : Prop := ∀ bytes, engine.decode (engine.encode bytes) = some bytes

/-- `str::strip_prefix` -/
def stripPrefix (front text : Text) : Option Text :=
  if text.take front.length = front then some (text.drop front.length) else none

section
variable {S : Suite} {P : Schemes S}

def toUri (engine : Engine) (invite : Invite P) : Text := invitePrefix ++ engine.encode invite.encode

def parse (engine : Engine) (P : Schemes S) (uri : Text) : Except CryptoError (Invite P) :=
  match stripPrefix invitePrefix uri with
  | none => .error (.malformed "invite scheme")
  | some b64 =>
    match engine.decode b64 with
    | none => .error (.malformed "invite base64")
    | some bytes => Invite.decode P bytes

theorem parse_toUri {engine : Engine} (base64 : engine.Lawful) (invite : Invite P) :
    parse engine P (toUri engine invite) = Invite.decode P invite.encode := by
  have stripped : stripPrefix invitePrefix (toUri engine invite) = some (engine.encode invite.encode) := by
    rw [stripPrefix, toUri, List.take_left, if_pos rfl, List.drop_left]
  simp only [parse, stripped, base64 invite.encode]

/-- A prekey bundle of an identity: its own, or one that was parsed. -/
def BundleOf (identity : P.SigningKey) (bundle : PrekeyBundle P) : Prop :=
  (∃ withOneTime draws, bundle = (PrekeyBundle.generate P identity withOneTime draws).2) ∨
    ∃ bytes, PrekeyBundle.decode P bytes = .ok bundle ∧ bundle.identity = P.verifyingKey identity

theorem BundleOf.verified (pq : P.Lawful) {identity : P.SigningKey} {bundle : PrekeyBundle P}
    (own : BundleOf identity bundle) :
    bundle.identity = P.verifyingKey identity ∧
      P.verifyWithContext bundle.identity bundle.body bundle.signature = true := by
  rcases own with ⟨withOneTime, draws, rfl⟩ | ⟨bytes, decoded, same⟩
  · exact ⟨rfl, PrekeyBundle.generate_verified pq identity withOneTime draws⟩
  · obtain ⟨frame, -, reads⟩ := PrekeyBundle.decode_eq_ok.mp decoded
    exact ⟨same, reads.verified⟩

theorem signatureBytes_injective (pq : P.Lawful) : Function.Injective P.signatureBytes := by
  intro first second same
  have decoded := pq.signatureFromBytes first
  rw [same, pq.signatureFromBytes] at decoded
  exact (Except.ok.inj decoded).symm

/-- The encoding of a bundle determines it. -/
theorem bundle_encode_injective (pq : P.Lawful) : Function.Injective (PrekeyBundle.encode (P := P)) := by
  intro first second same
  have fields := congrArg Frame.fields (Frame.encode_injective same)
  obtain ⟨⟨identities, spks, kems, opks⟩, rest⟩ := keysFrame_inj pq.identityBytes_injective (by simp; decide) (by simp; decide)
    fields
  have signatures := signatureBytes_injective pq (Field.mk.inj (List.cons.inj rest).1).2
  obtain ⟨_, _, _, _, _⟩ := first
  obtain ⟨_, _, _, _, _⟩ := second
  cases identities
  cases spks
  cases pq.encapsulationBytes_injective kems
  cases opks
  cases signatures
  rfl

/-- Every invite parses back to what it was made of, and with the same signature it parses
with nothing else in it. No string is longer than `isize::MAX` bytes. -/
theorem invite_parses_back (pq : P.Lawful) {engine : Engine} (base64 : engine.Lawful) (identity : P.SigningKey)
    (queue : QueueDescriptor) {bundle : PrekeyBundle P} (own : BundleOf identity bundle)
    (nonce : ByteArr inviteNonceLen) (expiryMs : UInt64) (signing : Bytes32)
    (short : (utf8 queue.relayUrl).length < 2 ^ 63)
    (binds : ∀ key message, P.verifyWithContext key message
      (Invite.create identity queue bundle nonce expiryMs signing).signature = true →
        message = Invitation.signingBody P queue (P.verifyingKey identity) bundle.encode nonce expiryMs) :
    (∃ parsed, parse engine P (toUri engine (Invite.create identity queue bundle nonce expiryMs signing)) = .ok parsed ∧
        parsed.queue = queue ∧ parsed.bundle = bundle ∧ parsed.nonce = nonce ∧ parsed.expiryMs = expiryMs) ∧
      ∀ forged : Invite P, forged.signature = (Invite.create identity queue bundle nonce expiryMs signing).signature →
        (utf8 forged.queue.relayUrl).length < 2 ^ 63 →
        (forged.queue, forged.bundle, forged.nonce, forged.expiryMs) ≠ (queue, bundle, nonce, expiryMs) →
        ∀ parsed, parse engine P (toUri engine forged) ≠ .ok parsed := by
  obtain ⟨sameIdentity, bundled⟩ := own.verified pq
  constructor
  · refine ⟨Invite.create identity queue bundle nonce expiryMs signing, ?_, rfl, rfl, rfl, rfl⟩
    rw [parse_toUri base64, invite_decode_encode_iff pq short]
    refine ⟨rfl, bundled, ?_⟩
    change P.verifyWithContext bundle.identity (Invitation.signingBody P queue bundle.identity bundle.encode nonce expiryMs)
      (P.signRandomized identity (Invitation.signingBody P queue (P.verifyingKey identity) bundle.encode nonce expiryMs)
        signing) = true
    rw [sameIdentity]
    exact pq.verify_sign _ _ _
  · intro forged signature url different parsed accepted
    rw [parse_toUri base64] at accepted
    obtain ⟨-, -, verified⟩ := (invite_decode_encode_iff pq url).mp accepted
    rw [signature] at verified
    have bodies := binds _ _ verified
    have same : (.invite forged.queue forged.bundle.identity forged.bundle.encode forged.nonce forged.expiryMs :
        SignedBody P) = .invite queue (P.verifyingKey identity) bundle.encode nonce expiryMs :=
      SignedBody.bytes_injective pq.identityBytes_injective pq.encapsulationBytes_injective bodies
    obtain ⟨queues, -, bundles, nonces, expiries⟩ := SignedBody.invite.inj same
    apply different
    rw [queues, bundle_encode_injective pq bundles, nonces, expiries]

end

section
open Buh.Crypto Buh.Handshake.Pqxdh Buh.Handshake.Reserved

def sampleEngine : Engine := ⟨Buh.Library.Base64.encode, Buh.Library.Base64.decode⟩

/-- The mark of the schemes in which the sample invite is parsed. -/
def uriMark : Bytes := sampleBody (sampleBundle []).encode

def sampleCreated : Invite (symbolic uriMark) :=
  Invite.create (sampleResponder uriMark) sampleQueue (sampleBundle uriMark) sampleNonce 1900000000000 sampleSigning

theorem uriMark_body : sampleBody (sampleBundle uriMark).encode = uriMark := by
  have bytes : (sampleBundle uriMark).encode = (sampleBundle []).encode :=
    congrArg Frame.encode (sampleBundle_frame (sampleBundle_body_ne (sampleBundle []).encode))
  rw [bytes, uriMark]

theorem invite_parses_back_sample :
    (∃ parsed, parse sampleEngine (symbolic uriMark) (toUri sampleEngine sampleCreated) = .ok parsed ∧
        parsed.queue = sampleQueue ∧ parsed.expiryMs = 1900000000000) ∧
      ∀ parsed, parse sampleEngine (symbolic uriMark) (toUri sampleEngine { sampleCreated with expiryMs := 1 }) ≠
        .ok parsed := by
  have binds : ∀ key message, (symbolic uriMark).verifyWithContext key message sampleCreated.signature = true →
      message = sampleBody (sampleBundle uriMark).encode := by
    intro key message verified
    have signature : sampleCreated.signature =
        (symbolic uriMark).signRandomized (sampleResponder uriMark) uriMark sampleSigning :=
      congrArg (fun body => (symbolic uriMark).signRandomized (sampleResponder uriMark) body sampleSigning)
        uriMark_body
    rw [signature] at verified
    rw [uriMark_body]
    exact symbolic_marked verified
  have base64 : sampleEngine.Lawful := Buh.Library.Base64.decode_encode
  have parses := invite_parses_back (symbolic_lawful uriMark) base64 (sampleResponder uriMark) sampleQueue
    (.inl ⟨true, sampleDraws, rfl⟩) sampleNonce 1900000000000 sampleSigning sampleQueue_short binds
  obtain ⟨parsed, accepted, queue, -, -, expiry⟩ := parses.1
  refine ⟨⟨parsed, accepted, queue, expiry⟩, parses.2 { sampleCreated with expiryMs := 1 } rfl sampleQueue_short ?_⟩
  intro same
  exact absurd (congrArg (fun values => values.2.2.2) same) (by decide)

end

end Buh.Handshake.Uri
