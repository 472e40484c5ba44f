import Buh.Client.Invites
import Buh.Handshake.Hybrid

/-! First contact: `create_invite` of `ffi.rs`, a text that anyone may replace on its way, and
the session that is started from what `parse_invite` reads in it. -/

namespace Buh.Client.FirstContact
open Buh.Library.Fallible Buh.Library.Deduction Buh.Wire.Codec Buh.Wire.V1 Buh.Crypto.Primitives Buh.Crypto.PostQuantum
  Buh.Ratchet.State Buh.Ratchet.Persist Buh.Handshake Buh.Handshake.Prekey Buh.Handshake.Pqxdh Buh.Handshake.Invitation
  Buh.Handshake.Signing Buh.Handshake.Reencoding Buh.Handshake.Uri Buh.Handshake.Hybrid Buh.Client.Ffi Buh.Client.Invites

section
variable {S : Suite}

/-- The bundle may be of another identity; such an invite does not parse. -/
def createInvite (engine : Engine) (P : Schemes S) (identity queueId : Bytes) (relayUrl : String)
    (caFingerprint bundle nonce : Bytes) (expiryMs : Float) (signing : Bytes32) : Except JsError Text := do
  let seed ← fixed seedLen identity "identity"
  let queueId ← fixed 32 queueId "queue id"
  let caFingerprint ← fixed 32 caFingerprint "ca fingerprint"
  let bundle ← mapErr (PrekeyBundle.decode P bundle)
  let nonce ← fixed inviteNonceLen nonce "invite nonce"
  return toUri engine
    (Invite.create (P.fromSeed seed) ⟨queueId, relayUrl, caFingerprint⟩ bundle nonce expiryMs.toUInt64 signing)

variable {P : Schemes S}

/-- An invite of an identity around a bundle of its own parses. -/
theorem createInvite_parses (pq : P.Lawful) {engine : Engine} (base64 : engine.Lawful) (seed queueId caFingerprint : Bytes32)
    (nonce : ByteArr inviteNonceLen) {relayUrl : String} (short : (utf8 relayUrl).length < 2 ^ 63)
    {bundle : PrekeyBundle P} (own : BundleOf (P.fromSeed seed) bundle) (expiryMs : Float) (signing : Bytes32) :
    let invite := Invite.create (P.fromSeed seed) ⟨queueId, relayUrl, caFingerprint⟩ bundle nonce expiryMs.toUInt64 signing
    createInvite engine P seed.toList queueId.toList relayUrl caFingerprint.toList bundle.encode nonce.toList expiryMs
      signing = .ok (toUri engine invite) ∧ parse engine P (toUri engine invite) = .ok invite := by
  intro invite
  obtain ⟨identity, bundled⟩ := own.verified pq
  have seeds : fixed seedLen seed.toList "identity" = .ok seed := fixed_toList (n := seedLen) seed "identity"
  have decoded := mapErr_eq_ok.mpr (PrekeyBundle.decode_encode pq bundled)
  constructor
  · simp only [createInvite, seeds, decoded, fixed_toList, bind, Except.bind, pure, Except.pure]
    rfl
  · rw [parse_toUri base64, invite_decode_encode_iff pq short]
    refine ⟨rfl, bundled, ?_⟩
    simp only [invite, Invite.create, identity]
    exact pq.verify_sign _ _ _

section
variable {inviter : P.SigningKey} {calls : Set (SigningCall P)} {circulating : Set P.Signature}

/-- A verified invite in the name of an honest identity is one that it created. -/
theorem created_of_parsed (pq : P.Lawful) (honest : Honest inviter calls circulating) {engine : Engine} {uri : Text}
    {invite : Invite P} (accepted : parse engine P uri = .ok invite)
    (named : invite.bundle.identity = P.verifyingKey inviter) (carried : invite.signature ∈ circulating) :
    ∃ signing, SigningCall.create invite.queue invite.bundle invite.nonce invite.expiryMs signing ∈ calls := by
  obtain ⟨b64, bytes, -, -, decoded⟩ := parse_eq_ok.mp accepted
  obtain ⟨frame, -, inside, inner, identity, deadline, reads⟩ := Invite.decode_eq_ok.mp decoded
  obtain rfl : identity = P.verifyingKey inviter :=
    (pq.identityBytes_injective reads.sameIdentity).symm.trans named
  obtain ⟨call, member, -, signed⟩ := honest _ carried _ reads.verified
  have same : call.body inviter =
      .invite invite.queue (P.verifyingKey inviter) inside invite.nonce invite.expiryMs :=
    SignedBody.bytes_injective pq.identityBytes_injective pq.encapsulationBytes_injective signed
  cases call with
  | generate => cases same
  | initiate => cases same
  | create queue bundle nonce expiryMs signing =>
    obtain ⟨rfl, -, rfl, rfl, rfl⟩ := SignedBody.invite.inj same
    obtain ⟨rfl, -⟩ := (bundle_decode_encode_iff pq).mp (PrekeyBundle.decode_eq_ok.mpr ⟨inner, reads.parsed, reads.bundle⟩)
    exact ⟨signing, member⟩

/-- A verified bundle in the name of an honest identity has the keys of one that it generated. -/
theorem generated_of_verified (pq : P.Lawful) (honest : Honest inviter calls circulating) {bundle : PrekeyBundle P}
    (named : bundle.identity = P.verifyingKey inviter) (carried : bundle.signature ∈ circulating)
    (verified : P.verifyWithContext bundle.identity bundle.body bundle.signature = true) :
    ∃ withOneTime draws, SigningCall.generate withOneTime draws ∈ calls ∧
      let made := (PrekeyBundle.generate P inviter withOneTime draws).2
      bundle.identity = made.identity ∧ bundle.signedPrekey = made.signedPrekey ∧ bundle.kemKey = made.kemKey ∧
        bundle.oneTimePrekey = made.oneTimePrekey := by
  rw [named] at verified
  obtain ⟨call, member, -, signed⟩ := honest _ carried _ verified
  have same : call.body inviter = .prekey bundle.identity bundle.signedPrekey bundle.kemKey bundle.oneTimePrekey :=
    SignedBody.bytes_injective pq.identityBytes_injective pq.encapsulationBytes_injective signed
  cases call with
  | generate withOneTime draws =>
    obtain ⟨identities, spks, kems, opks⟩ := SignedBody.prekey.inj same
    exact ⟨withOneTime, draws, member, identities.symm, spks.symm, kems.symm, opks.symm⟩
  | initiate => cases same
  | create => cases same

/-- Whoever delivers it, a text that parses to an invite of an honest identity tells of the
queue, the relay, the CA pin and the deadline that this identity put into an invite of its
own, and of keys that it generated. The session started from it is the one that the inviter
accepts with the secrets of these keys, and nobody derives its root who has not broken both
halves of the handshake. -/
theorem scanned_invite_reaches_inviter (ideal : Ideal S) (kem : IdealKem P) (honest : Honest inviter calls circulating)
    {engine : Engine} {uri : Text} {parsed : ParsedInvite} (accepted : parseInvite engine P uri = .ok parsed)
    (named : parsed.identityPublicKey = P.identityBytes (P.verifyingKey inviter))
    (signatures : ∀ invite, parse engine P uri = .ok invite →
      invite.signature ∈ circulating ∧ invite.bundle.signature ∈ circulating) :
    ∃ queue bundle nonce expiryMs signing, SigningCall.create queue bundle nonce expiryMs signing ∈ calls ∧
      parsed = ⟨queue.queueId.toList, queue.relayUrl, queue.caFingerprint.toList, P.identityBytes (P.verifyingKey inviter),
        bundle.encode, expiryMs.toFloat⟩ ∧
      ∃ withOneTime draws, SigningCall.generate withOneTime draws ∈ calls ∧
        ∀ (seed : Bytes32) (drawn : InitiateDraws) (generated : Bytes32),
          let made := PrekeyBundle.generate P inviter withOneTime draws
          let root := (initiate (P.fromSeed seed) made.2 drawn).2
          (∃ initialMessage, initiateSession P seed.toList parsed.bundle drawn generated =
              .ok ⟨toBytes (RatchetState.initiator root (S.publicKey draws.signedPrekey) generated), initialMessage⟩ ∧
            acceptSession P made.1.toBytes made.2.encode initialMessage =
              .ok (toBytes (RatchetState.responder root draws.signedPrekey))) ∧
          ∀ adversary : Adversary P, ¬adversary.Breaks withOneTime draws drawn →
            ¬Derivable (Infers P) adversary.knowledge (.ratchet (.key root)) := by
  have pq := kem.toLawful
  obtain ⟨invite, read, built⟩ := mapErr_bind_eq_ok.mp accepted
  cases built
  have identity : invite.bundle.identity = P.verifyingKey inviter := pq.identityBytes_injective named
  obtain ⟨outer, inner⟩ := signatures invite read
  obtain ⟨carried, -, decoded⟩ := parsed_bundle read
  have verified := decoded_verified decoded
  obtain ⟨signing, created⟩ := created_of_parsed pq honest read identity outer
  obtain ⟨withOneTime, draws, generated, keys⟩ := generated_of_verified pq honest identity inner verified
  refine ⟨invite.queue, invite.bundle, invite.nonce, invite.expiryMs, signing, created, by rw [identity], withOneTime,
    draws, generated, fun seed drawn fresh => ?_⟩
  have flight := initiate_congr (P.fromSeed seed) drawn keys
  refine ⟨⟨(initiate (P.fromSeed seed) (PrekeyBundle.generate P inviter withOneTime draws).2 drawn).1.encode, ?_, ?_⟩,
    fun adversary unbroken => ?_⟩
  · rw [initiateSession_verified pq verified, flight, keys.2.1]
    rfl
  · exact acceptSession_generated ideal.toLawful pq inviter (P.fromSeed seed) withOneTime draws drawn
  · obtain ⟨core, guarded, apart⟩ := sealed_of_unbroken ideal kem inviter (P.fromSeed seed) withOneTime draws drawn unbroken
    exact guarded.not_derivable apart (Or.inr ⟨_, ⟨_, .root, rfl, 0, trivial, .start⟩, rfl⟩)

end

end

section
open Buh.Crypto Buh.Handshake.Reserved

/-- Schemes in which a signature shows which of two messages it is on, or that it is on neither. -/
def marks (first second message : Bytes) : UInt8 := if message = first then 1 else if message = second then 2 else 0

def markedStamp (first second message seed : Bytes) : ByteArr signatureLen :=
  pad signatureLen (marks first second message :: seed.take 32)

def twoMarked (first second : Bytes) : Schemes Symbolic.suite :=
  { symbolic first with
    signRandomized := fun (seed : Bytes32) message _ => markedStamp first second message seed.toList
    verifyWithContext := fun (key : ByteArr publicKeyLen) message (signature : ByteArr signatureLen) =>
      decide (signature = markedStamp first second message key.toList) }

theorem twoMarked_ideal (first second : Bytes) : IdealKem (twoMarked first second) where
  verify_sign := by
    intro seed message randomness
    have size : (List.Vector.toList (n := 32) seed).length = 32 := List.Vector.toList_length _
    have short : (List.Vector.toList (n := 32) seed).length ≤ publicKeyLen := by rw [size]; decide
    have front := pad_take _ short
    rw [size] at front
    change decide (markedStamp first second message (List.Vector.toList (n := 32) seed) =
      markedStamp first second message (pad publicKeyLen (List.Vector.toList (n := 32) seed)).toList) = true
    rw [decide_eq_true_eq, markedStamp, markedStamp, front, List.take_of_length_le size.le]
  decode_key _ := rfl
  decode_signature _ := rfl
  decapsulate_encapsulate _ _ := rfl
  reload_decapsulation _ := rfl
  decode_encapsulation _ := rfl
  encapsulate_free := (symbolic_ideal first).encapsulate_free
  decapsulate_free := (symbolic_ideal first).decapsulate_free
  shared_not_expand := by
    intro key shared
    refine (symbolic_ideal first).shared_not_expand ?_
    cases shared with
    | encapsulated key coins => exact Shared.encapsulated (P := symbolic first) key coins
    | decapsulated secret ciphertext => exact Shared.decapsulated (P := symbolic first) secret ciphertext
  shared_not_dh := by
    intro key shared
    refine (symbolic_ideal first).shared_not_dh ?_
    cases shared with
    | encapsulated key coins => exact Shared.encapsulated (P := symbolic first) key coins
    | decapsulated secret ciphertext => exact Shared.decapsulated (P := symbolic first) secret ciphertext

theorem twoMarked_verify {first second message : Bytes} {key : ByteArr publicKeyLen} {signature : ByteArr signatureLen} :
    (twoMarked first second).verifyWithContext key message signature = true ↔
      signature = markedStamp first second message key.toList := by
  change decide (signature = markedStamp first second message key.toList) = true ↔ _
  exact decide_eq_true_iff

theorem marks_of_stamps {first second message other seed seed' : Bytes}
    (same : markedStamp first second message seed = markedStamp first second other seed') :
    marks first second message = marks first second other := by
  have heads : (markedStamp first second message seed).toList.head? =
      (markedStamp first second other seed').toList.head? := by
    rw [same]
  rw [markedStamp, markedStamp, signatureLen, pad_head, pad_head] at heads
  exact Option.some.inj heads

theorem of_marks {first second message : Bytes} :
    (marks first second message = 1 → message = first) ∧ (marks first second message = 2 → message = second) := by
  unfold marks
  split_ifs with isFirst isSecond
  · exact ⟨fun _ => isFirst, fun two => absurd two (by decide)⟩
  · exact ⟨fun one => absurd one (by decide), fun _ => isSecond⟩
  · exact ⟨fun one => absurd one (by decide), fun two => absurd two (by decide)⟩

def sampleFirst : Bytes := (sampleBundle []).body

def sampleInviter (second : Bytes) : (twoMarked sampleFirst second).SigningKey := sampleResponder []

def contactBundle (second : Bytes) : PrekeyBundle (twoMarked sampleFirst second) :=
  (PrekeyBundle.generate (twoMarked sampleFirst second) (sampleInviter second) true sampleDraws).2

def sampleExpiry : Float := 1900000000000

def sampleSecond : Bytes :=
  Invitation.signingBody (symbolic []) sampleQueue ((symbolic []).verifyingKey (sampleResponder []))
    (contactBundle []).encode sampleNonce sampleExpiry.toUInt64

/-- The mark of the invite is on no bundle. -/
theorem contactBundle_encode (second : Bytes) : (contactBundle second).encode = (contactBundle []).encode := by
  have stamps : (contactBundle second).signature = (contactBundle []).signature := by
    change markedStamp sampleFirst second sampleFirst _ = markedStamp sampleFirst [] sampleFirst _
    rw [markedStamp, markedStamp, marks, marks, if_pos rfl, if_pos rfl]
    rfl
  exact congrArg (fun signature : ByteArr signatureLen => ((keysFrame (symbolic []) prekeyContext (sampleBundle []).identity
    (sampleBundle []).signedPrekey ((symbolic []).encapsulationBytes (sampleBundle []).kemKey)
    (sampleBundle []).oneTimePrekey).withField tagSignature signature.toList).encode) stamps

theorem sampleSecond_ne : sampleSecond ≠ sampleFirst := by
  have pq := symbolic_lawful []
  intro same
  have bodies : (.invite sampleQueue ((symbolic []).verifyingKey (sampleResponder [])) (contactBundle []).encode sampleNonce
      sampleExpiry.toUInt64 : SignedBody (symbolic [])) =
      .prekey (sampleBundle []).identity (sampleBundle []).signedPrekey (sampleBundle []).kemKey
        (sampleBundle []).oneTimePrekey :=
    SignedBody.bytes_injective pq.identityBytes_injective pq.encapsulationBytes_injective same
  cases bodies

abbrev sampleSchemes : Schemes Symbolic.suite := twoMarked sampleFirst sampleSecond

def sampleGenerate : SigningCall sampleSchemes := .generate true sampleDraws

def sampleCreate : SigningCall sampleSchemes :=
  .create sampleQueue (contactBundle sampleSecond) sampleNonce sampleExpiry.toUInt64 sampleSigning

theorem sampleGenerate_bytes : (sampleGenerate.body (sampleInviter sampleSecond)).bytes = sampleFirst := rfl

theorem sampleCreate_bytes : (sampleCreate.body (sampleInviter sampleSecond)).bytes = sampleSecond :=
  congrArg (fun carried => Invitation.signingBody (symbolic []) sampleQueue ((symbolic []).verifyingKey (sampleResponder []))
    carried sampleNonce sampleExpiry.toUInt64) (contactBundle_encode sampleSecond)

def sampleCirculating : Set sampleSchemes.Signature :=
  {sampleGenerate.signature (sampleInviter sampleSecond), sampleCreate.signature (sampleInviter sampleSecond)}

theorem sampleContact_honest :
    Honest (sampleInviter sampleSecond) {sampleGenerate, sampleCreate} sampleCirculating := by
  intro signature circulates message verified
  have stamped := twoMarked_verify.mp verified
  rcases circulates with rfl | rfl
  · refine ⟨sampleGenerate, .inl rfl, rfl, ?_⟩
    obtain ⟨randomness, signs⟩ := sampleGenerate.signature_signs (sampleInviter sampleSecond)
    rw [sampleGenerate_bytes] at signs ⊢
    have same := marks_of_stamps (signs.symm.trans stamped)
    exact (of_marks.1 (same.symm.trans (if_pos rfl))).symm
  · refine ⟨sampleCreate, .inr rfl, rfl, ?_⟩
    obtain ⟨randomness, signs⟩ := sampleCreate.signature_signs (sampleInviter sampleSecond)
    rw [sampleCreate_bytes] at signs ⊢
    have same := marks_of_stamps (signs.symm.trans stamped)
    have second : marks sampleFirst sampleSecond sampleSecond = 2 := by
      rw [marks, if_neg sampleSecond_ne, if_pos rfl]
    exact (of_marks.2 (same.symm.trans second)).symm

def sampleSeed : Bytes32 := List.Vector.replicate 32 11

def sampleInvite : Invite sampleSchemes :=
  Invite.create (sampleInviter sampleSecond) sampleQueue (contactBundle sampleSecond) sampleNonce sampleExpiry.toUInt64
    sampleSigning

/-- An invite created, scanned and answered. -/
theorem scanned_invite_reaches_inviter_sample : ∃ parsed initiated accepted,
    createInvite sampleEngine sampleSchemes sampleSeed.toList sampleQueue.queueId.toList sampleQueue.relayUrl
      sampleQueue.caFingerprint.toList (contactBundle sampleSecond).encode sampleNonce.toList sampleExpiry sampleSigning =
        .ok (toUri sampleEngine sampleInvite) ∧
    parseInvite sampleEngine sampleSchemes (toUri sampleEngine sampleInvite) = .ok parsed ∧
    initiateSession sampleSchemes sampleSigning.toList parsed.bundle sampleDrawn sampleSigning = .ok initiated ∧
    acceptSession sampleSchemes (PrekeyBundle.generate sampleSchemes (sampleInviter sampleSecond) true sampleDraws).1.toBytes
      (contactBundle sampleSecond).encode initiated.initialMessage = .ok accepted := by
  have kem := twoMarked_ideal sampleFirst sampleSecond
  obtain ⟨created, parses⟩ := createInvite_parses (P := sampleSchemes) kem.toLawful
    (show sampleEngine.Lawful from Buh.Library.Base64.decode_encode) sampleSeed sampleQueue.queueId
    sampleQueue.caFingerprint sampleNonce sampleQueue_short (.inl ⟨true, sampleDraws, rfl⟩) sampleExpiry sampleSigning
  have accepted : ∃ parsed, parseInvite sampleEngine sampleSchemes (toUri sampleEngine sampleInvite) = .ok parsed ∧
      parsed.identityPublicKey = sampleSchemes.identityBytes (sampleSchemes.verifyingKey (sampleInviter sampleSecond)) :=
    ⟨_, mapErr_bind_eq_ok.mpr ⟨sampleInvite, parses, rfl⟩, rfl⟩
  have signatures : ∀ invite, parse sampleEngine sampleSchemes (toUri sampleEngine sampleInvite) = .ok invite →
      invite.signature ∈ sampleCirculating ∧ invite.bundle.signature ∈ sampleCirculating := by
    intro invite read
    obtain rfl : sampleInvite = invite := Except.ok.inj (parses.symm.trans read)
    exact ⟨Set.mem_insert_of_mem _ rfl, Set.mem_insert _ _⟩
  obtain ⟨parsed, accepted, named⟩ := accepted
  obtain ⟨_, _, _, _, _, -, -, withOneTime, draws, made, contact⟩ :=
    scanned_invite_reaches_inviter Symbolic.suite_ideal kem sampleContact_honest accepted named signatures
  rcases made with same | same
  · cases same
    obtain ⟨⟨initialMessage, starts, accepts⟩, -⟩ := contact sampleSigning sampleDrawn sampleSigning
    exact ⟨parsed, _, _, created, accepted, starts, accepts⟩
  · cases same

end

end Buh.Client.FirstContact
