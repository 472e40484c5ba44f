import Buh.Handshake.Invitation
import Buh.Handshake.Pqxdh

/-! What an identity signs. One ML-DSA key signs prekey bundles, invites and handshake
transcripts; the three formats never meet, so a responder that accepts a first flight of
an honest identity shares its root with an `initiate` call that identity really made. -/

namespace Buh.Handshake.Signing
open Buh.Wire.Codec Buh.Wire.V1 Buh.Crypto.Primitives Buh.Crypto.PostQuantum Buh.Handshake.Prekey
  Buh.Handshake.Invitation Buh.Handshake.Pqxdh

section
variable {S : Suite}

/-- The arguments of the three functions whose output is signed. -/
inductive SignedBody (P : Schemes S) where
  | prekey (identity : P.VerifyingKey) (spk : Bytes32) (kem : P.EncapsulationKey) (opk : Option Bytes32)
  | invite (queue : QueueDescriptor) (identity : P.VerifyingKey) (bundleBytes : Bytes)
      (nonce : ByteArr inviteNonceLen) (expiryMs : UInt64)
  | transcript (responder : ResponderView P) (initiatorIdentity : P.VerifyingKey) (ephemeral : Bytes32)
      (kemCiphertext : Bytes)

variable {P : Schemes S}

namespace SignedBody

def bytes : SignedBody P → Bytes
  | .prekey identity spk kem opk => Prekey.signingBody P identity spk kem opk
  | .invite queue identity bundleBytes nonce expiryMs =>
    Invitation.signingBody P queue identity bundleBytes nonce expiryMs
  | .transcript responder initiatorIdentity ephemeral kemCiphertext =>
    Pqxdh.transcript responder initiatorIdentity ephemeral kemCiphertext

/-- The label each format starts with. -/
def context : SignedBody P → Bytes
  | .prekey .. => prekeyContext
  | .invite .. => inviteContext
  | .transcript .. => transcriptContext

def frame : SignedBody P → Frame
  | .prekey identity spk kem opk => keysFrame P prekeyContext identity spk (P.encapsulationBytes kem) opk
  | .invite queue identity bundleBytes nonce expiryMs => signingFrame P queue identity bundleBytes nonce expiryMs
  | .transcript responder initiatorIdentity ephemeral kemCiphertext =>
    transcriptFrame responder initiatorIdentity ephemeral kemCiphertext

theorem bytes_eq_encode (body : SignedBody P) : body.bytes = body.frame.encode := by cases body <;> rfl

theorem frame_context (body : SignedBody P) : body.frame.get tagContext = some body.context := by
  rcases body with ⟨identity, spk, kem, _ | opk⟩ | _ | ⟨⟨identity, spk, kem, _ | opk⟩, initiator, ephemeral, ct⟩ <;> rfl

end SignedBody

theorem keysFrame_fields (context : Bytes) (identity : P.VerifyingKey) (spk : Bytes32) (kemKeyBytes : Bytes)
    (opk : Option Bytes32) :
    (keysFrame P context identity spk kemKeyBytes opk).fields =
      [⟨tagContext, context⟩, ⟨tagIdentityPub, P.identityBytes identity⟩, ⟨tagPrekeyX25519, spk.toList⟩,
        ⟨tagMlkemEk, kemKeyBytes⟩] ++ (opk.map (fun key => ⟨tagOnetimePrekey, key.toList⟩)).toList := by
  cases opk <;> rfl

/-- The optional field is recognised by its tag, so what follows it does not matter as long
as it has other tags. -/
theorem keysFrame_inj (identities : Function.Injective P.identityBytes) {context context' : Bytes}
    {identity identity' : P.VerifyingKey} {spk spk' : Bytes32} {kem kem' : Bytes} {opk opk' : Option Bytes32}
    {rest rest' : List Field} (apart : ∀ field ∈ rest, field.tag ≠ tagOnetimePrekey)
    (apart' : ∀ field ∈ rest', field.tag ≠ tagOnetimePrekey)
    (same : (keysFrame P context identity spk kem opk).fields ++ rest =
      (keysFrame P context' identity' spk' kem' opk').fields ++ rest') :
    (identity = identity' ∧ spk = spk' ∧ kem = kem' ∧ opk = opk') ∧ rest = rest' := by
  simp only [keysFrame_fields, List.cons_append, List.nil_append, List.cons.injEq, Field.mk.injEq, true_and]
    at same
  obtain ⟨_, ids, spks, kems, tails⟩ := same
  rw [identities ids, List.Vector.toList_injective spks, kems]
  suffices oneTime : opk = opk' ∧ rest = rest' from ⟨⟨rfl, rfl, rfl, oneTime.1⟩, oneTime.2⟩
  cases opk with
  | none =>
    cases opk' with
    | none => exact ⟨rfl, tails⟩
    | some key =>
      refine absurd rfl (apart ⟨tagOnetimePrekey, key.toList⟩ ?_)
      change rest = _ at tails
      rw [tails]
      exact List.mem_cons_self
  | some key =>
    cases opk' with
    | none =>
      refine absurd rfl (apart' ⟨tagOnetimePrekey, key.toList⟩ ?_)
      change _ = rest' at tails
      rw [← tails]
      exact List.mem_cons_self
    | some key' =>
      obtain ⟨heads, rests⟩ := List.cons.inj tails
      exact ⟨congrArg some (List.Vector.toList_injective (Field.mk.inj heads).2), rests⟩

namespace SignedBody

theorem bytes_injective (identities : Function.Injective P.identityBytes)
    (encapsulations : Function.Injective P.encapsulationBytes) :
    Function.Injective (bytes : SignedBody P → Bytes) := by
  intro first second same
  rw [bytes_eq_encode, bytes_eq_encode] at same
  have frames := Frame.encode_injective same
  have fields := congrArg Frame.fields frames
  have contexts : first.context = second.context := by
    have found := frame_context first
    rw [frames, frame_context, Option.some.injEq] at found
    exact found.symm
  cases first with
  | prekey identity spk kem opk =>
    cases second with
    | prekey identity' spk' kem' opk' =>
      have keys := keysFrame_inj identities (List.forall_mem_nil _) (List.forall_mem_nil _)
        (by simpa only [frame, List.append_nil] using fields)
      obtain ⟨rfl, rfl, kems, rfl⟩ := keys.1
      rw [encapsulations kems]
    | invite => exact absurd contexts (by change ¬prekeyContext = inviteContext; decide)
    | transcript => exact absurd contexts (by change ¬prekeyContext = transcriptContext; decide)
  | invite queue identity bundleBytes nonce expiryMs =>
    cases second with
    | prekey => exact absurd contexts (by change ¬inviteContext = prekeyContext; decide)
    | invite queue' identity' bundleBytes' nonce' expiryMs' =>
      simp only [frame, signingFrame, Frame.withField, Frame.new, List.nil_append, List.cons_append,
        List.cons.injEq, Field.mk.injEq, true_and, and_true] at fields
      obtain ⟨queues, ids, rfl, nonces, expiries⟩ := fields
      rw [QueueDescriptor.encode_injective queues, identities ids, List.Vector.toList_injective nonces,
        u64Bytes_injective expiries]
    | transcript => exact absurd contexts (by change ¬inviteContext = transcriptContext; decide)
  | transcript responder initiator ephemeral ciphertext =>
    cases second with
    | prekey => exact absurd contexts (by change ¬transcriptContext = prekeyContext; decide)
    | invite => exact absurd contexts (by change ¬transcriptContext = inviteContext; decide)
    | transcript responder' initiator' ephemeral' ciphertext' =>
      obtain ⟨identity, spk, kem, opk⟩ := responder
      obtain ⟨identity', spk', kem', opk'⟩ := responder'
      simp only [frame, transcriptFrame, Frame.withField, List.append_assoc, List.cons_append, List.nil_append]
        at fields
      have keys := keysFrame_inj identities (by simp; decide) (by simp; decide) fields
      obtain ⟨⟨rfl, rfl, rfl, rfl⟩, rest⟩ := keys
      simp only [List.cons.injEq, Field.mk.injEq, true_and, and_true] at rest
      rw [identities rest.1, List.Vector.toList_injective rest.2.1, rest.2.2]

end SignedBody

/-- The signed byte strings determine their format and every argument: one injective
function covers all three. A signature that is good for nothing but the bytes it was made
for is therefore good for one role and one choice of fields. -/
theorem signed_bytes_unambiguous (identities : Function.Injective P.identityBytes)
    (encapsulations : Function.Injective P.encapsulationBytes) :
    Function.Injective (SignedBody.bytes : SignedBody P → Bytes) ∧
      ∀ (signer : P.SigningKey) (randomness : Bytes32) (made accepted : SignedBody P),
        (∀ message, P.verifyWithContext (P.verifyingKey signer) message
          (P.signRandomized signer made.bytes randomness) = true → message = made.bytes) →
        P.verifyWithContext (P.verifyingKey signer) accepted.bytes
          (P.signRandomized signer made.bytes randomness) = true →
        accepted = made := by
  refine ⟨SignedBody.bytes_injective identities encapsulations, ?_⟩
  intro signer randomness made accepted bound verified
  exact SignedBody.bytes_injective identities encapsulations (bound _ verified)

/-- The calls by which an identity signs. -/
inductive SigningCall (P : Schemes S) where
  | generate (withOneTime : Bool) (draws : PrekeyDraws)
  | create (queue : QueueDescriptor) (bundle : PrekeyBundle P) (nonce : ByteArr inviteNonceLen)
      (expiryMs : UInt64) (signing : Bytes32)
  | initiate (responder : PrekeyBundle P) (draws : InitiateDraws)

namespace SigningCall

def body (signer : P.SigningKey) : SigningCall P → SignedBody P
  | .generate withOneTime draws =>
    let bundle := (PrekeyBundle.generate P signer withOneTime draws).2
    .prekey bundle.identity bundle.signedPrekey bundle.kemKey bundle.oneTimePrekey
  | .create queue bundle nonce expiryMs _ =>
    .invite queue (P.verifyingKey signer) bundle.encode nonce expiryMs
  | .initiate responder draws =>
    let message := (Pqxdh.initiate signer responder draws).1
    .transcript (.fromBundle responder) message.initiatorIdentity message.ephemeral message.kemCiphertext

def signature (signer : P.SigningKey) : SigningCall P → P.Signature
  | .generate withOneTime draws => (PrekeyBundle.generate P signer withOneTime draws).2.signature
  | .create queue bundle nonce expiryMs signing =>
    (Invite.create signer queue bundle nonce expiryMs signing).signature
  | .initiate responder draws => (Pqxdh.initiate signer responder draws).1.signature

/-- The signature of a call is the signer's, on the bytes of its body. -/
theorem signature_signs (signer : P.SigningKey) (call : SigningCall P) :
    ∃ randomness, call.signature signer = P.signRandomized signer (call.body signer).bytes randomness := by
  cases call with
  | generate withOneTime draws => exact ⟨draws.signing, rfl⟩
  | create queue bundle nonce expiryMs signing => exact ⟨signing, rfl⟩
  | initiate responder draws => exact ⟨draws.signing, rfl⟩

end SigningCall

/-- Of the signatures in circulation, those that verify under the signer's key were made by
the signer's own calls, on what they verify for. -/
def Honest (signer : P.SigningKey) (calls : Set (SigningCall P)) (circulating : Set P.Signature) : Prop :=
  ∀ signature ∈ circulating, ∀ message,
    P.verifyWithContext (P.verifyingKey signer) message signature = true →
      ∃ call ∈ calls, call.signature signer = signature ∧ (call.body signer).bytes = message

/-- A transcript is signed by `initiate` only, and names the keys it was run against. -/
theorem call_of_script (pq : P.Lawful) {signer : P.SigningKey} {call : SigningCall P}
    {bundle : PrekeyBundle P} {message : InitialMessage P}
    (signed : (call.body signer).bytes = script bundle message) :
    ∃ offered drawn, call = .initiate offered drawn ∧
      (offered.identity = bundle.identity ∧ offered.signedPrekey = bundle.signedPrekey ∧
        offered.kemKey = bundle.kemKey ∧ offered.oneTimePrekey = bundle.oneTimePrekey) ∧
      (initiate signer offered drawn).1.ephemeral = message.ephemeral ∧
      (initiate signer offered drawn).1.kemCiphertext = message.kemCiphertext := by
  have same : call.body signer = .transcript (.fromBundle bundle) message.initiatorIdentity message.ephemeral
      message.kemCiphertext :=
    SignedBody.bytes_injective pq.identityBytes_injective pq.encapsulationBytes_injective signed
  cases call with
  | generate => cases same
  | create => cases same
  | initiate offered drawn =>
    obtain ⟨views, _, ephemerals, ciphertexts⟩ := SignedBody.transcript.inj same
    obtain ⟨ids, spks, kems, opks⟩ := ResponderView.mk.inj views
    exact ⟨offered, drawn, rfl, ⟨ids, spks, pq.encapsulationBytes_injective kems, opks⟩, ephemerals, ciphertexts⟩

/-- `initiate` reads the keys of a bundle and not its signature. -/
theorem initiate_congr (signer : P.SigningKey) {offered bundle : PrekeyBundle P} (drawn : InitiateDraws)
    (keys : offered.identity = bundle.identity ∧ offered.signedPrekey = bundle.signedPrekey ∧
      offered.kemKey = bundle.kemKey ∧ offered.oneTimePrekey = bundle.oneTimePrekey) :
    initiate signer offered drawn = initiate signer bundle drawn := by
  obtain ⟨identity, signedPrekey, kemKey, oneTimePrekey⟩ := keys
  simp only [initiate, ResponderView.fromBundle, identity, signedPrekey, kemKey, oneTimePrekey]

/-- A first flight that a responder accepts in the name of an honest identity is the output
of an `initiate` call of that identity against the responder's own keys, and both hold the
same root. No other call of that identity ever signed the accepted transcript. -/
theorem accepted_was_initiated (lawful : Lawful S) (pq : P.Lawful) {signer : P.SigningKey}
    {calls : Set (SigningCall P)} {circulating : Set P.Signature} (honest : Honest signer calls circulating)
    (responder : P.SigningKey) (withOneTime : Bool) (draws : PrekeyDraws) {message : InitialMessage P}
    {root : S.Key} (claimed : message.initiatorIdentity = P.verifyingKey signer)
    (carried : message.signature ∈ circulating)
    (accepted : respond (PrekeyBundle.generate P responder withOneTime draws).2
      (PrekeyBundle.generate P responder withOneTime draws).1 message = .ok root) :
    let bundle := (PrekeyBundle.generate P responder withOneTime draws).2
    (∃ offered drawn, SigningCall.initiate offered drawn ∈ calls ∧
        (offered.identity = bundle.identity ∧ offered.signedPrekey = bundle.signedPrekey ∧
          offered.kemKey = bundle.kemKey ∧ offered.oneTimePrekey = bundle.oneTimePrekey) ∧
        initiate signer offered drawn = (message, root)) ∧
      ∀ call ∈ calls, (call.body signer).bytes = script bundle message →
        ∃ offered drawn, call = .initiate offered drawn ∧
          offered.identity = bundle.identity ∧ offered.signedPrekey = bundle.signedPrekey ∧
          offered.kemKey = bundle.kemKey ∧ offered.oneTimePrekey = bundle.oneTimePrekey := by
  intro bundle
  have verified := (respond_eq_ok.mp accepted).1
  rw [claimed] at verified
  obtain ⟨call, member, signature, signed⟩ := honest _ carried _ verified
  obtain ⟨offered, drawn, rfl, keys, ephemeral, ciphertext⟩ := call_of_script pq signed
  refine ⟨⟨offered, drawn, member, keys, ?_⟩, ?_⟩
  · have flight : (initiate signer offered drawn).1 = message :=
      InitialMessage.ext claimed.symm ephemeral ciphertext signature
    have agreed := respond_initiate lawful pq responder signer withOneTime draws drawn
    rw [← initiate_congr signer drawn keys, flight, accepted, Except.ok.injEq] at agreed
    exact Prod.ext flight agreed.symm
  · intro other _ signed
    obtain ⟨offered, drawn, same, keys, _⟩ := call_of_script pq signed
    exact ⟨offered, drawn, same, keys⟩

end

section
open Buh.Crypto

def sampleBundle (marked : Bytes) : PrekeyBundle (symbolic marked) :=
  (PrekeyBundle.generate (symbolic marked) (sampleResponder marked) true sampleDraws).2

def sampleScript (marked : Bytes) : Bytes :=
  script (sampleBundle marked) (initiate (sampleInitiator marked) (sampleBundle marked) sampleDrawn).1

/-- The schemes whose marked message is the transcript of the sample handshake. -/
def sampleMark : Bytes := sampleScript []

def sampleCall : SigningCall (symbolic sampleMark) := .initiate (sampleBundle sampleMark) sampleDrawn

/-- Marking a message changes no encoding. -/
theorem sampleScript_eq (marked : Bytes) : sampleScript marked = sampleMark := rfl

theorem sampleCall_bytes : (sampleCall.body (sampleInitiator sampleMark)).bytes = sampleMark :=
  sampleScript_eq sampleMark

theorem sample_binds {message : Bytes} (randomness : Bytes32)
    (verified : (symbolic sampleMark).verifyWithContext
      ((symbolic sampleMark).verifyingKey (sampleInitiator sampleMark)) message
      ((symbolic sampleMark).signRandomized (sampleInitiator sampleMark)
        (sampleCall.body (sampleInitiator sampleMark)).bytes randomness) = true) :
    message = (sampleCall.body (sampleInitiator sampleMark)).bytes := by
  rw [sampleCall_bytes] at verified ⊢
  exact symbolic_marked verified

theorem signed_bytes_unambiguous_sample :
    Function.Injective (SignedBody.bytes : SignedBody (symbolic sampleMark) → Bytes) ∧
      ∀ accepted : SignedBody (symbolic sampleMark),
        (symbolic sampleMark).verifyWithContext
          ((symbolic sampleMark).verifyingKey (sampleInitiator sampleMark)) accepted.bytes
          (sampleCall.signature (sampleInitiator sampleMark)) = true →
        accepted = sampleCall.body (sampleInitiator sampleMark) := by
  have pq := symbolic_lawful sampleMark
  have unambiguous := signed_bytes_unambiguous pq.identityBytes_injective pq.encapsulationBytes_injective
  refine ⟨unambiguous.1, fun accepted verified => ?_⟩
  exact unambiguous.2 (sampleInitiator sampleMark) sampleDrawn.signing _ accepted (fun _ => sample_binds _) verified

theorem sample_honest : Honest (sampleInitiator sampleMark) {sampleCall}
    {sampleCall.signature (sampleInitiator sampleMark)} := by
  rintro signature rfl message verified
  exact ⟨sampleCall, rfl, rfl, (sample_binds sampleDrawn.signing verified).symm⟩

theorem accepted_was_initiated_sample :
    ∃ (message : InitialMessage (symbolic sampleMark)) (root : Symbolic.suite.Key),
      respond (sampleBundle sampleMark)
        (PrekeyBundle.generate (symbolic sampleMark) (sampleResponder sampleMark) true sampleDraws).1
        message = .ok root ∧
      ∃ offered drawn, SigningCall.initiate offered drawn = sampleCall ∧
        initiate (sampleInitiator sampleMark) offered drawn = (message, root) := by
  have accepted := respond_initiate Symbolic.suite_lawful (symbolic_lawful sampleMark) (sampleResponder sampleMark)
    (sampleInitiator sampleMark) true sampleDraws sampleDrawn
  obtain ⟨offered, drawn, made, _, same⟩ := (accepted_was_initiated Symbolic.suite_lawful
    (symbolic_lawful sampleMark) sample_honest (sampleResponder sampleMark) true sampleDraws rfl rfl accepted).1
  exact ⟨_, _, accepted, offered, drawn, made, same⟩

end

end Buh.Handshake.Signing
