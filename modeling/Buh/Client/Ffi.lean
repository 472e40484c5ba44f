import Buh.Handshake.Pqxdh
import Buh.Ratchet.Persist

/-! The session facade of `ffi.rs`. Every call takes the stored blobs, and returns new
ones only when it succeeds; an error is the text of the underlying one. -/

namespace Buh.Client.Ffi
open Buh.Library.Fallible Buh.Wire.Codec Buh.Wire.V1 Buh.Crypto.Primitives Buh.Crypto.PostQuantum Buh.Ratchet.Message
  Buh.Ratchet.State Buh.Ratchet.Persist Buh.Handshake.Prekey Buh.Handshake.Pqxdh

/-- A `JsError`, by its message. -/
abbrev JsError := String

def seedLen : Nat := 32

/-- The format specifier `:02x`. -/
def hex02 (value : Nat) : String :=
  let digits := Nat.toDigits 16 value
  String.ofList (List.replicate (2 - digits.length) '0' ++ digits)

def wireText : WireError → String
  | .badMagic byte => "bad magic byte: 0x" ++ hex02 byte.toNat
  | .unsupportedVersion byte => "unsupported wire version: 0x" ++ hex02 byte.toNat
  | .unexpectedEof => "unexpected end of input"
  | .varintOverflow => "varint overflow"
  | .fieldTooLong => "field length exceeds addressable range"
  | .missingField tag => "missing required field with tag 0x" ++ hex02 tag.toNat
  | .reservedTag tag => "reserved tag 0x" ++ hex02 tag.toNat ++ " not permitted in this context"

def js : CryptoError → JsError
  | .wire error => wireText error
  | .aead => "aead authentication failed"
  | .badSignature => "signature verification failed"
  | .malformed what => "malformed " ++ what
  | .ratchet reason => "ratchet: " ++ reason

/-- `map_err(js)` -/
def mapErr {α : Type} : Except CryptoError α → Except JsError α
  | .ok value => .ok value
  | .error e => .error (js e)

def fixed (n : Nat) (bytes : Bytes) (what : String) : Except JsError (ByteArr n) :=
  match toArr n bytes with
  | some arr => .ok arr
  | none => .error ("expected " ++ toString n ++ "-byte " ++ what)

structure PrekeyMaterial where
  secrets : Bytes
  bundle : Bytes

structure InitiatedSession where
  session : Bytes
  initialMessage : Bytes

structure EncryptedMessage where
  session : Bytes
  message : Bytes

structure DecryptedMessage where
  session : Bytes
  plaintext : Bytes

section
variable {S : Suite} (P : Schemes S)

def publishablePrekeyBundle (identity : Bytes) (draws : PrekeyDraws) : Except JsError PrekeyMaterial := do
  let seed ← fixed seedLen identity "identity"
  let (secrets, bundle) := PrekeyBundle.generate P (P.fromSeed seed) true draws
  return { secrets := secrets.toBytes, bundle := bundle.encode }

def initiateSession (identity bundle : Bytes) (draws : InitiateDraws) (generated : Bytes32) :
    Except JsError InitiatedSession := do
  let seed ← fixed seedLen identity "identity"
  let bundle ← mapErr (PrekeyBundle.decode P bundle)
  let (message, root) := initiate (P.fromSeed seed) bundle draws
  let session := RatchetState.initiator root bundle.signedPrekey generated
  return { session := toBytes session, initialMessage := message.encode }

def acceptSession (secrets bundle initialMessage : Bytes) : Except JsError Bytes := do
  let secrets ← mapErr (PrekeySecrets.fromBytes P secrets)
  let bundle ← mapErr (PrekeyBundle.decode P bundle)
  let message ← mapErr (InitialMessage.decode P initialMessage)
  let root ← mapErr (respond bundle secrets message)
  return toBytes (RatchetState.responder root secrets.signedPrekey)

def encryptMessage (S : Suite) (session plaintext : Bytes) : Except JsError EncryptedMessage := do
  let state ← mapErr (fromBytes S session)
  let (state, result) := state.encrypt plaintext
  let message ← mapErr result
  return { session := toBytes state, message }

def decryptMessage (S : Suite) (session : Bytes) (generated : Bytes32) (message : Bytes) :
    Except JsError DecryptedMessage := do
  let state ← mapErr (fromBytes S session)
  let (state, result) := state.decrypt generated message
  let plaintext ← mapErr result
  return { session := toBytes state, plaintext }

theorem mapErr_eq_ok {α : Type} {result : Except CryptoError α} {value : α} :
    mapErr result = .ok value ↔ result = .ok value := by
  cases result <;> simp [mapErr]

theorem fixed_toList {n : Nat} (arr : ByteArr n) (what : String) : fixed n arr.toList what = .ok arr := by
  rw [fixed, toArr_toList]

/-- What follows a call is reached when the call succeeds. -/
theorem mapErr_bind_eq_ok {α β : Type} {result : Except CryptoError α} {next : α → Except JsError β} {out : β} :
    (mapErr result >>= next) = .ok out ↔ ∃ value, result = .ok value ∧ next value = .ok out := by
  rw [bind_eq_ok]
  simp only [mapErr_eq_ok]

/-- A call on the state handed back with its result, when it has one. -/
theorem returned_iff {called : RatchetState S × Except CryptoError Bytes} {session result : Bytes} :
    (∃ value, called.2 = .ok value ∧ toBytes called.1 = session ∧ value = result) ↔
      ∃ after, called = (after, .ok result) ∧ session = toBytes after := by
  constructor
  · rintro ⟨value, answer, rfl, rfl⟩
    exact ⟨called.1, Prod.ext rfl answer, rfl⟩
  · rintro ⟨after, rfl, rfl⟩
    exact ⟨result, rfl, rfl, rfl⟩

/-- On a stored state, the facade is the call on the state itself. -/
theorem encryptMessage_stored (lawful : Lawful S) {s : RatchetState S} (storable : Storable s)
    {plaintext : Bytes} {out : EncryptedMessage} :
    encryptMessage S (toBytes s) plaintext = .ok out ↔
      ∃ after, s.encrypt plaintext = (after, .ok out.message) ∧ out.session = toBytes after := by
  obtain ⟨session, message⟩ := out
  simp only [encryptMessage, fromBytes_toBytes lawful storable, mapErr_bind_eq_ok, pure, Except.pure,
    Except.ok.injEq, EncryptedMessage.mk.injEq, exists_eq_left']
  exact returned_iff

theorem decryptMessage_stored (lawful : Lawful S) {s : RatchetState S} (storable : Storable s)
    {generated : Bytes32} {message : Bytes} {out : DecryptedMessage} :
    decryptMessage S (toBytes s) generated message = .ok out ↔
      ∃ after, s.decrypt generated message = (after, .ok out.plaintext) ∧ out.session = toBytes after := by
  obtain ⟨session, plaintext⟩ := out
  simp only [decryptMessage, fromBytes_toBytes lawful storable, mapErr_bind_eq_ok, pure, Except.pure,
    Except.ok.injEq, DecryptedMessage.mk.injEq, exists_eq_left']
  exact returned_iff

variable {P}

theorem publishablePrekeyBundle_seed (P : Schemes S) (seed : Bytes32) (draws : PrekeyDraws) :
    publishablePrekeyBundle P seed.toList draws =
      .ok ⟨(PrekeyBundle.generate P (P.fromSeed seed) true draws).1.toBytes,
        (PrekeyBundle.generate P (P.fromSeed seed) true draws).2.encode⟩ := by
  have read : fixed seedLen seed.toList "identity" = .ok seed := fixed_toList (n := seedLen) seed "identity"
  simp only [publishablePrekeyBundle, read, bind, Except.bind, pure, Except.pure]

/-- The blob of the initiator, from a bundle whose signature covers its keys. -/
theorem initiateSession_verified (pq : P.Lawful) {bundle : PrekeyBundle P}
    (verified : P.verifyWithContext bundle.identity bundle.body bundle.signature = true) (seed : Bytes32)
    (drawn : InitiateDraws) (generated : Bytes32) :
    initiateSession P seed.toList bundle.encode drawn generated =
      .ok { session := toBytes (RatchetState.initiator (initiate (P.fromSeed seed) bundle drawn).2
              bundle.signedPrekey generated),
            initialMessage := (initiate (P.fromSeed seed) bundle drawn).1.encode } := by
  have decoded := mapErr_eq_ok.mpr (PrekeyBundle.decode_encode pq verified)
  have read : fixed seedLen seed.toList "identity" = .ok seed := fixed_toList (n := seedLen) seed "identity"
  simp only [initiateSession, read, decoded, bind, Except.bind, pure, Except.pure]

/-- The blob of the initiator, from a published bundle. -/
theorem initiateSession_generated (pq : P.Lawful) (responder : P.SigningKey) (withOneTime : Bool)
    (draws : PrekeyDraws) (seed : Bytes32) (drawn : InitiateDraws) (generated : Bytes32) :
    initiateSession P seed.toList (PrekeyBundle.generate P responder withOneTime draws).2.encode drawn generated =
      .ok ⟨toBytes (RatchetState.initiator
          (initiate (P.fromSeed seed) (PrekeyBundle.generate P responder withOneTime draws).2 drawn).2
          (S.publicKey draws.signedPrekey) generated),
        (initiate (P.fromSeed seed) (PrekeyBundle.generate P responder withOneTime draws).2 drawn).1.encode⟩ :=
  initiateSession_verified pq (PrekeyBundle.generate_verified pq responder withOneTime draws) seed drawn generated

/-- The blob of the responder, from its stored secrets and the first flight. -/
theorem acceptSession_generated (lawful : Lawful S) (pq : P.Lawful) (responder initiator : P.SigningKey)
    (withOneTime : Bool) (draws : PrekeyDraws) (drawn : InitiateDraws) :
    acceptSession P (PrekeyBundle.generate P responder withOneTime draws).1.toBytes
        (PrekeyBundle.generate P responder withOneTime draws).2.encode
        (initiate initiator (PrekeyBundle.generate P responder withOneTime draws).2 drawn).1.encode =
      .ok (toBytes (RatchetState.responder
        (initiate initiator (PrekeyBundle.generate P responder withOneTime draws).2 drawn).2
        draws.signedPrekey)) := by
  have secrets := mapErr_eq_ok.mpr (PrekeySecrets.fromBytes_toBytes
    (show P.decapsulationFromBytes (P.decapsulationBytes
      (PrekeyBundle.generate P responder withOneTime draws).1.kemSecret) = _ from
        pq.decapsulationFromBytes draws.kem))
  have bundle := mapErr_eq_ok.mpr
    (PrekeyBundle.decode_encode pq (PrekeyBundle.generate_verified pq responder withOneTime draws))
  have message := mapErr_eq_ok.mpr (decode_initiate pq initiator
    (PrekeyBundle.generate P responder withOneTime draws).2 drawn)
  have root := mapErr_eq_ok.mpr (respond_initiate lawful pq responder initiator withOneTime draws drawn)
  simp only [acceptSession, secrets, bundle, message, root, bind, Except.bind, pure, Except.pure]
  rfl

/-- A ratchet message is no first flight: it has no context. -/
theorem acceptSession_message (lawful : Lawful S) {session plaintext : Bytes} {out : EncryptedMessage}
    (call : encryptMessage S session plaintext = .ok out) (secrets bundle accepted : Bytes) :
    acceptSession P secrets bundle out.message ≠ .ok accepted := by
  obtain ⟨state, -, rest⟩ := mapErr_bind_eq_ok.mp call
  obtain ⟨message, sealed, rest⟩ := mapErr_bind_eq_ok.mp rest
  cases rest
  obtain ⟨ck, ciphertext, -, -, fits, rfl⟩ := RatchetState.encrypt_ok (Prod.ext rfl sealed :
    state.encrypt plaintext = ((state.encrypt plaintext).1, .ok message))
  have framed := Frame.decode_encode (messageFrame_fits state.nextHeader
    (lawful.ciphertext_fits (aeadSeal_eq_ok.mp fits)))
  intro accepts
  obtain ⟨_, -, rest⟩ := mapErr_bind_eq_ok.mp accepts
  obtain ⟨_, -, rest⟩ := mapErr_bind_eq_ok.mp rest
  obtain ⟨flight, decoded, -⟩ := mapErr_bind_eq_ok.mp rest
  obtain ⟨frame, parsed, reads⟩ := InitialMessage.decode_eq_ok.mp decoded
  rw [framed, Except.ok.injEq] at parsed
  subst parsed
  have absent : (messageFrame state.nextHeader ciphertext).get tagContext = none := rfl
  cases absent.symm.trans reads.context

end

end Buh.Client.Ffi
