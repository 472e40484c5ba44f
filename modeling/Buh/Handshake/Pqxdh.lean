import Buh.Handshake.Prekey
import Buh.Ratchet.Session

/-! The handshake of `pqxdh.rs`: an X25519 exchange with the signed prekey, a second one
with the one-time prekey when there is one, and an ML-KEM encapsulation, all hashed under
the signed transcript into the root key of a ratchet session. -/

namespace Buh.Handshake.Pqxdh
open Buh.Library.Fallible Buh.Wire.Codec Buh.Wire.V1 Buh.Crypto.Primitives Buh.Crypto.PostQuantum Buh.Ratchet.Message
  Buh.Ratchet.Chain Buh.Ratchet.State Buh.Ratchet.Session Buh.Handshake.Prekey

def kdfContext : Bytes := ascii "buh-pqxdh-root-v1"
def transcriptContext : Bytes := ascii "buh-pqxdh-transcript-v1"

section
variable {S : Suite}

@[ext]
structure InitialMessage (P : Schemes S) where
  initiatorIdentity : P.VerifyingKey
  ephemeral : Bytes32
  kemCiphertext : Bytes
  signature : P.Signature

/-- The public values of the responder that the transcript refers to. -/
structure ResponderView (P : Schemes S) where
  identity : P.VerifyingKey
  signedPrekey : Bytes32
  kemKeyBytes : Bytes
  oneTimePrekey : Option Bytes32

/-- What one `initiate` call draws from the system generator. -/
structure InitiateDraws where
  ephemeral : Bytes32
  encapsulation : Bytes32
  signing : Bytes32

variable {P : Schemes S}

def ResponderView.fromBundle (bundle : PrekeyBundle P) : ResponderView P where
  identity := bundle.identity
  signedPrekey := bundle.signedPrekey
  kemKeyBytes := P.encapsulationBytes bundle.kemKey
  oneTimePrekey := bundle.oneTimePrekey

def transcriptFrame (responder : ResponderView P) (initiatorIdentity : P.VerifyingKey) (ephemeral : Bytes32)
    (kemCiphertext : Bytes) : Frame :=
  (((keysFrame P transcriptContext responder.identity responder.signedPrekey responder.kemKeyBytes
    responder.oneTimePrekey).withField tagIdentityPub (P.identityBytes initiatorIdentity)).withField
    tagEphemeralX25519 ephemeral.toList).withField tagKemCt kemCiphertext

def transcript (responder : ResponderView P) (initiatorIdentity : P.VerifyingKey) (ephemeral : Bytes32)
    (kemCiphertext : Bytes) : Bytes :=
  (transcriptFrame responder initiatorIdentity ephemeral kemCiphertext).encode

def deriveRoot (S : Suite) (ikm transcript : Bytes) : S.Key :=
  S.hkdfExpand (S.hkdfExtract kdfContext ikm) transcript 0

/-- The concatenated secrets; the one-time exchange sits in the middle. -/
def ikm (S : Suite) (dhSpk : S.Key) (dhOpk : Option S.Key) (ss : S.Key) : Bytes :=
  S.keyBytes dhSpk ++ ((dhOpk.map S.keyBytes).getD [] ++ S.keyBytes ss)

def initiate (initiator : P.SigningKey) (responder : PrekeyBundle P) (draws : InitiateDraws) :
    InitialMessage P × S.Key :=
  let dhSpk := S.diffieHellman draws.ephemeral responder.signedPrekey
  let encapsulated := P.encapsulate responder.kemKey draws.encapsulation
  let secrets := ikm S dhSpk (responder.oneTimePrekey.map (S.diffieHellman draws.ephemeral)) encapsulated.2
  let initiatorIdentity := P.verifyingKey initiator
  let script := transcript (.fromBundle responder) initiatorIdentity (S.publicKey draws.ephemeral) encapsulated.1
  ({ initiatorIdentity, ephemeral := S.publicKey draws.ephemeral, kemCiphertext := encapsulated.1,
     signature := P.signRandomized initiator script draws.signing },
    deriveRoot S secrets script)

/-- The transcript the responder recomputes for a first flight. -/
def script (bundle : PrekeyBundle P) (message : InitialMessage P) : Bytes :=
  transcript (.fromBundle bundle) message.initiatorIdentity message.ephemeral message.kemCiphertext

def respond (bundle : PrekeyBundle P) (secrets : PrekeySecrets P) (message : InitialMessage P) :
    Except CryptoError S.Key := do
  P.verify message.initiatorIdentity (script bundle message) message.signature
  let dhSpk := S.diffieHellman secrets.signedPrekey message.ephemeral
  let ss ← P.decapsulate secrets.kemSecret message.kemCiphertext
  let dhOpk := secrets.oneTimePrekey.map (fun opk => S.diffieHellman opk message.ephemeral)
  return deriveRoot S (ikm S dhSpk dhOpk ss) (script bundle message)

namespace InitialMessage

def frame (message : InitialMessage P) : Frame :=
  ((((Frame.new.withField tagContext transcriptContext).withField tagIdentityPub
    (P.identityBytes message.initiatorIdentity)).withField tagEphemeralX25519 message.ephemeral.toList).withField
    tagKemCt message.kemCiphertext).withField tagSignature (P.signatureBytes message.signature)

def encode (message : InitialMessage P) : Bytes := message.frame.encode

def decode (P : Schemes S) (bytes : Bytes) : Except CryptoError (InitialMessage P) := do
  let frame ← liftWire (Frame.decode bytes)
  if frame.get tagContext ≠ some transcriptContext then
    throw (.malformed "handshake context")
  let initiatorIdentity ← P.identityFromBytes (← liftWire (frame.require tagIdentityPub))
  let ephemeral ← publicFromSlice (← liftWire (frame.require tagEphemeralX25519))
  let kemCiphertext ← liftWire (frame.require tagKemCt)
  let signature ← P.signatureFromBytes (← liftWire (frame.require tagSignature))
  return { initiatorIdentity, ephemeral, kemCiphertext, signature }

/-- What `InitialMessage::decode` asks of a frame. -/
structure Reads (frame : Frame) (message : InitialMessage P) : Prop where
  context : frame.get tagContext = some transcriptContext
  identity : Carries frame tagIdentityPub P.identityFromBytes message.initiatorIdentity
  ephemeral : Carries frame tagEphemeralX25519 publicFromSlice message.ephemeral
  kemCiphertext : frame.get tagKemCt = some message.kemCiphertext
  signature : Carries frame tagSignature P.signatureFromBytes message.signature

theorem decode_eq_ok {bytes : Bytes} {message : InitialMessage P} :
    decode P bytes = .ok message ↔
      ∃ frame, Frame.decode bytes = .ok frame ∧ Reads frame message := by
  rw [decode, bind_eq_ok]
  refine exists_congr fun frame => and_congr liftWire_eq_ok ?_
  dsimp only
  rw [guard_eq_ok, not_not]
  constructor
  · rintro ⟨context, rest⟩
    obtain ⟨identity, read₁, rest⟩ := required_eq_ok.mp rest
    obtain ⟨ephemeral, read₂, rest⟩ := required_eq_ok.mp rest
    obtain ⟨ciphertext, read₃, rest⟩ := bind_eq_ok.mp rest
    obtain ⟨signature, read₄, rest⟩ := required_eq_ok.mp rest
    cases rest
    exact ⟨context, read₁, read₂, Frame.require_eq_ok.mp (liftWire_eq_ok.mp read₃), read₄⟩
  · rintro ⟨context, read₁, read₂, read₃, read₄⟩
    have ciphertext := liftWire_eq_ok.mpr (Frame.require_eq_ok.mpr read₃)
    exact ⟨context, required_eq_ok.mpr ⟨_, read₁, required_eq_ok.mpr ⟨_, read₂,
      bind_eq_ok.mpr ⟨_, ciphertext, required_eq_ok.mpr ⟨_, read₄, rfl⟩⟩⟩⟩⟩

theorem frame_fits {message : InitialMessage P} (fits : message.kemCiphertext.length < 2 ^ 64) :
    message.frame.Fits := by
  intro field member
  simp only [frame, Frame.withField, Frame.new, List.nil_append, List.cons_append, List.mem_cons,
    List.not_mem_nil, or_false] at member
  rcases member with rfl | rfl | rfl | rfl | rfl
  · decide
  · simp [publicKeyLen]
  · simp
  · exact fits
  · simp [signatureLen]

theorem frame_reads (lawful : P.Lawful) (message : InitialMessage P) : Reads message.frame message where
  context := rfl
  identity := ⟨_, rfl, lawful.identityFromBytes _⟩
  ephemeral := ⟨_, rfl, publicFromSlice_toList _⟩
  kemCiphertext := rfl
  signature := ⟨_, rfl, lawful.signatureFromBytes _⟩

theorem decode_encode (lawful : P.Lawful) {message : InitialMessage P}
    (fits : message.kemCiphertext.length < 2 ^ 64) : decode P message.encode = .ok message :=
  decode_eq_ok.mpr ⟨message.frame, Frame.decode_encode (frame_fits fits), frame_reads lawful message⟩

end InitialMessage

theorem respond_eq_ok {bundle : PrekeyBundle P} {secrets : PrekeySecrets P} {message : InitialMessage P}
    {root : S.Key} :
    respond bundle secrets message = .ok root ↔
      P.verifyWithContext message.initiatorIdentity (script bundle message) message.signature = true ∧
        ∃ ss, P.decapsulate secrets.kemSecret message.kemCiphertext = .ok ss ∧
          root = deriveRoot S (ikm S (S.diffieHellman secrets.signedPrekey message.ephemeral)
            (secrets.oneTimePrekey.map (fun opk => S.diffieHellman opk message.ephemeral)) ss)
            (script bundle message) := by
  rw [← P.verify_eq_ok]
  simp only [respond, bind_eq_ok, pure, Except.pure, Except.ok.injEq]
  constructor
  · rintro ⟨_, verified, ss, decapsulated, derived⟩
    exact ⟨verified, ss, decapsulated, derived.symm⟩
  · rintro ⟨verified, ss, decapsulated, derived⟩
    exact ⟨(), verified, ss, decapsulated, derived.symm⟩

/-- The two sides concatenate the same secrets, whichever one-time prekey was offered. -/
theorem ikm_agrees (lawful : Lawful S) (pq : P.Lawful) (identity : P.SigningKey) (withOneTime : Bool)
    (draws : PrekeyDraws) (drawn : InitiateDraws) :
    let secrets := (PrekeyBundle.generate P identity withOneTime draws).1
    let bundle := (PrekeyBundle.generate P identity withOneTime draws).2
    let encapsulated := P.encapsulate bundle.kemKey drawn.encapsulation
    P.decapsulate secrets.kemSecret encapsulated.1 = .ok encapsulated.2 ∧
      ikm S (S.diffieHellman secrets.signedPrekey (S.publicKey drawn.ephemeral))
        (secrets.oneTimePrekey.map (fun opk => S.diffieHellman opk (S.publicKey drawn.ephemeral)))
        encapsulated.2 =
      ikm S (S.diffieHellman drawn.ephemeral bundle.signedPrekey)
        (bundle.oneTimePrekey.map (S.diffieHellman drawn.ephemeral)) encapsulated.2 := by
  refine ⟨pq.decapsulate draws.kem drawn.encapsulation, ?_⟩
  simp only [PrekeyBundle.generate, Option.map_map, Function.comp_def, lawful.dh_comm drawn.ephemeral]

/-- The root of a handshake is derived under a transcript, which is no ratchet label. -/
theorem deriveRoot_session (secrets : Bytes) (responder : ResponderView P) (initiatorIdentity : P.VerifyingKey)
    (ephemeral : Bytes32) (kemCiphertext : Bytes) :
    SessionRoot S (deriveRoot S secrets (transcript responder initiatorIdentity ephemeral kemCiphertext)) := by
  have apart {label : Bytes} (text : label.head? = some 98) :
      transcript responder initiatorIdentity ephemeral kemCiphertext ≠ label := by
    rintro rfl
    exact absurd text (by simp [transcript, Frame.encode, magic])
  exact ⟨_, _, _, rfl, apart rfl, apart rfl, apart rfl, apart rfl⟩

theorem transcript_length_lt (bundle : PrekeyBundle P) (initiatorIdentity : P.VerifyingKey)
    (ephemeral : Bytes32) (kemCiphertext : Bytes) :
    (transcript (.fromBundle bundle) initiatorIdentity ephemeral kemCiphertext).length <
      2 ^ 16 + 2 * kemCiphertext.length := by
  have context : transcriptContext.length = 23 := by decide
  have tags : ∀ tag ∈ [tagContext, tagIdentityPub, tagPrekeyX25519, tagMlkemEk, tagOnetimePrekey,
      tagEphemeralX25519, tagKemCt], tag.toNat < 128 := by
    intro tag member
    simp only [List.mem_cons, List.not_mem_nil, or_false] at member
    rcases member with rfl | rfl | rfl | rfl | rfl | rfl | rfl <;> decide
  obtain ⟨identity, spk, kem, opk, signature⟩ := bundle
  refine (Frame.encode_length_le (by cases opk <;> rfl) ?_).trans_lt ?_
  · intro field member
    apply tags
    cases opk <;>
      · simp only [transcriptFrame, keysFrame, withOneTime, ResponderView.fromBundle, Frame.withField, Frame.new,
          List.nil_append, List.cons_append, List.mem_cons, List.not_mem_nil, or_false] at member
        rcases member with rfl | rfl | rfl | rfl | rfl | rfl | rfl | rfl <;> simp
  · cases opk <;>
      · simp [transcriptFrame, keysFrame, withOneTime, ResponderView.fromBundle, Frame.withField, Frame.new, context,
          mlkemEncapsKeyLen, publicKeyLen]
        omega

theorem respond_initiate (lawful : Lawful S) (pq : P.Lawful) (responder initiator : P.SigningKey)
    (withOneTime : Bool) (draws : PrekeyDraws) (drawn : InitiateDraws) :
    respond (PrekeyBundle.generate P responder withOneTime draws).2
        (PrekeyBundle.generate P responder withOneTime draws).1
        (initiate initiator (PrekeyBundle.generate P responder withOneTime draws).2 drawn).1 =
      .ok (initiate initiator (PrekeyBundle.generate P responder withOneTime draws).2 drawn).2 := by
  obtain ⟨decapsulated, agrees⟩ := ikm_agrees lawful pq responder withOneTime draws drawn
  rw [respond_eq_ok]
  refine ⟨pq.verify_sign _ _ _, _, decapsulated, ?_⟩
  simp only [initiate] at agrees ⊢
  rw [agrees]
  rfl

theorem decode_initiate (pq : P.Lawful) (initiator : P.SigningKey) (bundle : PrekeyBundle P)
    (drawn : InitiateDraws) :
    InitialMessage.decode P (initiate initiator bundle drawn).1.encode =
      .ok (initiate initiator bundle drawn).1 := by
  refine InitialMessage.decode_encode pq ?_
  change (P.encapsulate bundle.kemKey drawn.encapsulation).1.length < _
  rw [Schemes.encapsulate_length]
  decide

/-- Persisted on both sides and sent over the wire, a handshake gives the responder the
root of the initiator, and the ratchet sessions on top of it understand each other. -/
theorem handshake_agrees (lawful : Lawful S) (pq : P.Lawful) (responder initiator : P.SigningKey)
    (withOneTime : Bool) (draws : PrekeyDraws) (drawn : InitiateDraws) :
    let material := PrekeyBundle.generate P responder withOneTime draws
    ∃ bundle secrets message,
      PrekeyBundle.decode P material.2.encode = .ok bundle ∧
      PrekeySecrets.fromBytes P material.1.toBytes = .ok secrets ∧
      InitialMessage.decode P (initiate initiator bundle drawn).1.encode = .ok message ∧
      respond bundle secrets message = .ok (initiate initiator bundle drawn).2 ∧
      ∀ (generated fresh : Bytes32) (plaintext first : Bytes) (after : RatchetState S),
        (RatchetState.initiator (initiate initiator bundle drawn).2 bundle.signedPrekey generated).encrypt
          plaintext = (after, .ok first) →
        ((RatchetState.responder (initiate initiator bundle drawn).2 secrets.signedPrekey).decrypt
          fresh first).2 = .ok plaintext := by
  intro material
  have agreed := respond_initiate lawful pq responder initiator withOneTime draws drawn
  refine ⟨material.2, material.1, (initiate initiator material.2 drawn).1, ?_, ?_, ?_, agreed, ?_⟩
  · exact PrekeyBundle.decode_encode pq (PrekeyBundle.generate_verified pq responder withOneTime draws)
  · exact PrekeySecrets.fromBytes_toBytes (pq.decapsulationFromBytes draws.kem)
  · exact decode_initiate pq initiator material.2 drawn
  · intro generated fresh plaintext first after call
    obtain ⟨ciphertext, sealed, rfl⟩ := initiator_encrypt_ok call
    obtain ⟨_, opened, _⟩ := responder_decrypts lawful fresh sealed
    exact congrArg Prod.snd opened

end

section
open Buh.Crypto

/-- A handshake over the symbolic primitives, from fixed draws. -/
def sampleDraws : PrekeyDraws :=
  ⟨samplePrekey, List.Vector.replicate _ 4, List.Vector.replicate 32 5, List.Vector.replicate 32 6⟩

def sampleDrawn : InitiateDraws :=
  ⟨List.Vector.replicate 32 8, List.Vector.replicate 32 9, List.Vector.replicate 32 10⟩

def sampleResponder (marked : Bytes) : (symbolic marked).SigningKey :=
  (symbolic marked).fromSeed (List.Vector.replicate 32 11)

def sampleInitiator (marked : Bytes) : (symbolic marked).SigningKey :=
  (symbolic marked).fromSeed (List.Vector.replicate 32 12)

theorem deriveRoot_length (secrets script : Bytes) :
    List.length (α := UInt8) (deriveRoot Symbolic.suite secrets script) =
      4 * secrets.length + 2 * script.length + 77 := by
  have context : kdfContext.length = 17 := by decide
  simp only [deriveRoot, Symbolic.suite, List.length_cons, List.length_append, Symbolic.delimit_length,
    List.length_replicate, context]
  omega

theorem ikm_length_le (secret pub : Bytes32) (opk : Option Bytes32) (ss : Bytes) :
    (ikm Symbolic.suite (Symbolic.suite.diffieHellman secret pub)
      (opk.map (Symbolic.suite.diffieHellman secret)) ss).length ≤ 2 * ss.length + 263 := by
  cases opk <;>
    · simp only [ikm, Option.map_none, Option.map_some, Option.getD_none, Option.getD_some, Symbolic.suite,
        List.length_append, List.length_nil, Symbolic.delimit_length, Symbolic.shared_length]
      omega

theorem initiate_root_length {marked : Bytes} (initiator : (symbolic marked).SigningKey)
    (bundle : PrekeyBundle (symbolic marked)) (drawn : InitiateDraws) :
    List.length (α := UInt8) (initiate initiator bundle drawn).2 < 2 ^ 32 := by
  have script := transcript_length_lt bundle ((symbolic marked).verifyingKey initiator)
    (Symbolic.suite.publicKey drawn.ephemeral) ((symbolic marked).encapsulate bundle.kemKey drawn.encapsulation).1
  have secrets := ikm_length_le drawn.ephemeral bundle.signedPrekey bundle.oneTimePrekey
    ((symbolic marked).encapsulate bundle.kemKey drawn.encapsulation).2
  rw [Schemes.encapsulate_length] at script
  rw [symbolic_shared_length] at secrets
  simp only [mlkemEncapsKeyLen, mlkemCiphertextLen] at script secrets
  change List.length (α := UInt8) (deriveRoot Symbolic.suite _ _) < _
  rw [deriveRoot_length]
  omega

theorem handshake_agrees_sample : ∃ bundle secrets message first after,
    PrekeyBundle.decode (symbolic []) (PrekeyBundle.generate (symbolic []) (sampleResponder []) true sampleDraws).2.encode =
        .ok bundle ∧
      PrekeySecrets.fromBytes (symbolic [])
        (PrekeyBundle.generate (symbolic []) (sampleResponder []) true sampleDraws).1.toBytes = .ok secrets ∧
      InitialMessage.decode (symbolic []) (initiate (sampleInitiator []) bundle sampleDrawn).1.encode = .ok message ∧
      respond bundle secrets message = .ok (initiate (sampleInitiator []) bundle sampleDrawn).2 ∧
      (RatchetState.initiator (initiate (sampleInitiator []) bundle sampleDrawn).2 bundle.signedPrekey
        sampleGenerated).encrypt [7] = (after, .ok first) ∧
      ((RatchetState.responder (initiate (sampleInitiator []) bundle sampleDrawn).2 secrets.signedPrekey).decrypt
        sampleGenerated first).2 = .ok [7] := by
  obtain ⟨bundle, secrets, message, parsed, reloaded, received, agreed, opens⟩ :=
    handshake_agrees Symbolic.suite_lawful (symbolic_lawful []) (sampleResponder []) (sampleInitiator []) true
      sampleDraws sampleDrawn
  have verified := PrekeyBundle.generate_verified (symbolic_lawful []) (sampleResponder []) true sampleDraws
  have same := Except.ok.inj (parsed.symm.trans (PrekeyBundle.decode_encode (symbolic_lawful []) verified))
  obtain ⟨ciphertext, sealed⟩ := first_sealed (initiate_root_length (sampleInitiator []) bundle sampleDrawn)
    samplePrekey sampleGenerated
  obtain ⟨after, sent⟩ := initiator_encrypts sealed
  have prekey : bundle.signedPrekey = Symbolic.suite.publicKey samplePrekey := by rw [same]; rfl
  rw [← prekey] at sent
  exact ⟨bundle, secrets, message, _, after, parsed, reloaded, received, agreed, sent, opens _ _ _ _ _ sent⟩

end

end Buh.Handshake.Pqxdh
