import Buh.Client.Ffi
import Buh.Handshake.Uri

/-! `parse_invite` of `ffi.rs`. It hands out the embedded bundle written anew, and
`initiate_session` parses and verifies that a second time. -/

namespace Buh.Client.Invites
open Buh.Wire.Codec Buh.Wire.V1 Buh.Crypto.Primitives Buh.Crypto.PostQuantum Buh.Ratchet.State Buh.Ratchet.Persist
  Buh.Handshake Buh.Handshake.Prekey Buh.Handshake.Pqxdh Buh.Handshake.Invitation Buh.Handshake.Signing Buh.Handshake.Reencoding
  Buh.Handshake.Uri Buh.Client.Ffi

structure ParsedInvite where
  queueId : Bytes
  relayUrl : String
  caFingerprint : Bytes
  identityPublicKey : Bytes
  bundle : Bytes
  expiryMs : Float

section
variable {S : Suite} {P : Schemes S}

def parseInvite (engine : Engine) (P : Schemes S) (uri : Text) : Except JsError ParsedInvite := do
  let invite ← mapErr (parse engine P uri)
  return {
    queueId := invite.queue.queueId.toList
    relayUrl := invite.queue.relayUrl
    caFingerprint := invite.queue.caFingerprint.toList
    identityPublicKey := P.identityBytes invite.bundle.identity
    bundle := invite.bundle.encode
    expiryMs := invite.expiryMs.toFloat }

/-- The bytes of the bundle inside the text of an invite. -/
def TextEmbeds (engine : Engine) (uri : Text) (carried : Bytes) : Prop :=
  ∃ b64 bytes, stripPrefix invitePrefix uri = some b64 ∧ engine.decode b64 = some bytes ∧ Embeds bytes carried

/-- A bundle that was parsed, from whatever bytes, is covered by its signature. -/
theorem decoded_verified {bytes : Bytes} {bundle : PrekeyBundle P} (accepted : PrekeyBundle.decode P bytes = .ok bundle) :
    P.verifyWithContext bundle.identity bundle.body bundle.signature = true := by
  obtain ⟨frame, -, reads⟩ := PrekeyBundle.decode_eq_ok.mp accepted
  exact reads.verified

theorem decoded_reencodes (pq : P.Lawful) {bytes : Bytes} {bundle : PrekeyBundle P}
    (accepted : PrekeyBundle.decode P bytes = .ok bundle) : PrekeyBundle.decode P bundle.encode = .ok bundle :=
  PrekeyBundle.decode_encode pq (decoded_verified accepted)

/-- The signed body names every key of the bundle, and whether there is a one-time prekey. -/
theorem body_names_keys (pq : P.Lawful) {bundle : PrekeyBundle P} {identity : P.VerifyingKey} {spk : Bytes32}
    {kem : P.EncapsulationKey} {opk : Option Bytes32} (same : Prekey.signingBody P identity spk kem opk = bundle.body) :
    identity = bundle.identity ∧ spk = bundle.signedPrekey ∧ kem = bundle.kemKey ∧ opk = bundle.oneTimePrekey := by
  have bodies : (.prekey identity spk kem opk : SignedBody P) =
      .prekey bundle.identity bundle.signedPrekey bundle.kemKey bundle.oneTimePrekey :=
    SignedBody.bytes_injective pq.identityBytes_injective pq.encapsulationBytes_injective same
  exact SignedBody.prekey.inj bodies

theorem parse_eq_ok {engine : Engine} {uri : Text} {invite : Invite P} :
    parse engine P uri = .ok invite ↔
      ∃ b64 bytes, stripPrefix invitePrefix uri = some b64 ∧ engine.decode b64 = some bytes ∧
        Invite.decode P bytes = .ok invite := by
  unfold parse
  cases stripPrefix invitePrefix uri with
  | none => simp
  | some b64 => cases read : engine.decode b64 <;> simp [read]

/-- A parsed invite carries the bundle it was parsed with. -/
theorem parsed_bundle {engine : Engine} {uri : Text} {invite : Invite P} (accepted : parse engine P uri = .ok invite) :
    ∃ carried, TextEmbeds engine uri carried ∧ PrekeyBundle.decode P carried = .ok invite.bundle := by
  obtain ⟨b64, bytes, stripped, read, decoded⟩ := parse_eq_ok.mp accepted
  obtain ⟨frame, parsed, carried, inner, inviter, deadline, reads⟩ := Invite.decode_eq_ok.mp decoded
  exact ⟨carried, ⟨b64, bytes, stripped, read, frame, parsed, reads.bundleBytes⟩,
    PrekeyBundle.decode_eq_ok.mpr ⟨inner, reads.parsed, reads.bundle⟩⟩

theorem parseInvite_eq_ok {engine : Engine} {uri : Text} {parsed : ParsedInvite}
    (accepted : parseInvite engine P uri = .ok parsed) :
    ∃ invite, parse engine P uri = .ok invite ∧ parsed.bundle = invite.bundle.encode ∧
      parsed.identityPublicKey = P.identityBytes invite.bundle.identity := by
  obtain ⟨invite, read, built⟩ := mapErr_bind_eq_ok.mp accepted
  cases built
  exact ⟨invite, read, rfl, rfl⟩

/-- Whatever the bytes a bundle was accepted from, its own encoding is accepted as the same
bundle, and its signature covers its keys and nothing else. So the bundle that
`parse_invite` hands out starts a session with the keys of the bundle in the invite. -/
theorem verified_bundle_reencodes (pq : P.Lawful) (engine : Engine) :
    (∀ bytes (bundle : PrekeyBundle P), PrekeyBundle.decode P bytes = .ok bundle →
      PrekeyBundle.decode P bundle.encode = .ok bundle ∧
        P.verifyWithContext bundle.identity (Prekey.signingBody P bundle.identity bundle.signedPrekey bundle.kemKey
          bundle.oneTimePrekey) bundle.signature = true ∧
        ∀ identity spk kem opk, Prekey.signingBody P identity spk kem opk =
            Prekey.signingBody P bundle.identity bundle.signedPrekey bundle.kemKey bundle.oneTimePrekey →
          identity = bundle.identity ∧ spk = bundle.signedPrekey ∧ kem = bundle.kemKey ∧ opk = bundle.oneTimePrekey) ∧
    ∀ uri parsed, parseInvite engine P uri = .ok parsed →
      ∃ carried bundle, TextEmbeds engine uri carried ∧ PrekeyBundle.decode P carried = .ok bundle ∧
        PrekeyBundle.decode P parsed.bundle = .ok bundle ∧
        parsed.identityPublicKey = P.identityBytes bundle.identity ∧
        ∀ (seed : Bytes32) drawn generated, initiateSession P seed.toList parsed.bundle drawn generated =
          .ok { session := toBytes (RatchetState.initiator (initiate (P.fromSeed seed) bundle drawn).2
                  bundle.signedPrekey generated),
                initialMessage := (initiate (P.fromSeed seed) bundle drawn).1.encode } := by
  constructor
  · intro bytes bundle accepted
    exact ⟨decoded_reencodes pq accepted, decoded_verified accepted, fun _ _ _ _ => body_names_keys pq⟩
  · intro uri parsed accepted
    obtain ⟨invite, read, written, identity⟩ := parseInvite_eq_ok accepted
    obtain ⟨carried, embedded, decoded⟩ := parsed_bundle read
    rw [written]
    exact ⟨carried, invite.bundle, embedded, decoded, decoded_reencodes pq decoded, identity,
      initiateSession_verified pq (decoded_verified decoded)⟩

end

section
open Buh.Crypto Buh.Handshake.Reserved

/-- The text of an invite around a bundle that was signed with one field more. -/
def sampleUri : Text :=
  invitePrefix ++ sampleEngine.encode ((sampleSigned extended.encode).frameAround extended.encode).encode

theorem sampleUri_parses : ∃ parsed,
    parseInvite sampleEngine (symbolic (sampleBody extended.encode)) sampleUri = .ok parsed := by
  have stripped : stripPrefix invitePrefix sampleUri =
      some (sampleEngine.encode ((sampleSigned extended.encode).frameAround extended.encode).encode) := by
    rw [stripPrefix, sampleUri, List.take_left, if_pos rfl, List.drop_left]
  have read : sampleEngine.decode (sampleEngine.encode ((sampleSigned extended.encode).frameAround extended.encode).encode) =
      some ((sampleSigned extended.encode).frameAround extended.encode).encode := Buh.Library.Base64.decode_encode _
  have accepted := parse_eq_ok.mpr ⟨_, _, stripped, read, extended_decodes.1⟩
  exact ⟨_, mapErr_bind_eq_ok.mpr ⟨_, accepted, rfl⟩⟩

theorem verified_bundle_reencodes_sample : ∃ parsed session,
    parseInvite sampleEngine (symbolic (sampleBody extended.encode)) sampleUri = .ok parsed ∧
      initiateSession (symbolic (sampleBody extended.encode)) sampleSigning.toList parsed.bundle sampleDrawn sampleSigning =
        .ok session := by
  obtain ⟨parsed, accepted⟩ := sampleUri_parses
  have stable := verified_bundle_reencodes (symbolic_lawful (sampleBody extended.encode)) sampleEngine
  obtain ⟨carried, bundle, -, -, -, -, starts⟩ := stable.2 sampleUri parsed accepted
  exact ⟨parsed, _, accepted, starts sampleSigning sampleDrawn sampleSigning⟩

end

end Buh.Client.Invites
