import Buh.Ratchet.Message
import Buh.Crypto.PostQuantum

/-! Prekey bundles and their secret halves, from `prekey.rs`. A bundle is verified when
it is parsed, so the parser takes part in the round trip. -/

namespace Buh.Handshake.Prekey
open Buh.Library.Fallible Buh.Wire.Codec Buh.Wire.V1 Buh.Crypto.Primitives Buh.Crypto.PostQuantum Buh.Ratchet.Message

def prekeyContext : Bytes := ascii "buh-prekey-bundle-v1"

def secretsVersion : UInt8 := 1

section
variable {S : Suite}

structure PrekeySecrets (P : Schemes S) where
  signedPrekey : Bytes32
  kemSecret : P.DecapsulationKey
  oneTimePrekey : Option Bytes32

structure PrekeyBundle (P : Schemes S) where
  identity : P.VerifyingKey
  signedPrekey : Bytes32
  kemKey : P.EncapsulationKey
  oneTimePrekey : Option Bytes32
  signature : P.Signature

/-- What one `generate` call draws from the system generator. -/
structure PrekeyDraws where
  signedPrekey : Bytes32
  kem : ByteArr mlkemSecretLen
  oneTimePrekey : Bytes32
  signing : Bytes32

variable {P : Schemes S}

namespace PrekeySecrets

def toBytes (secrets : PrekeySecrets P) : Bytes :=
  secretsVersion :: (secrets.signedPrekey.toList ++ (P.decapsulationBytes secrets.kemSecret ++
    match secrets.oneTimePrekey with
    | some opk => 1 :: opk.toList
    | none => [0]))

def fromBytes (P : Schemes S) (bytes : Bytes) : Except CryptoError (PrekeySecrets P) := do
  let r := Reader.new bytes
  let (version, r) ← liftWire r.readU8
  if version ≠ secretsVersion then
    throw (.malformed "prekey secrets version")
  let (signedPrekey, r) ← liftWire (read32 r)
  let (seed, r) ← liftWire (r.readBytes mlkemSecretLen)
  let kemSecret ← P.decapsulationFromBytes seed
  let (flag, r) ← liftWire r.readU8
  if flag = 0 then
    return { signedPrekey, kemSecret, oneTimePrekey := none }
  if flag = 1 then
    let (opk, _) ← liftWire (read32 r)
    return { signedPrekey, kemSecret, oneTimePrekey := some opk }
  throw (.malformed "prekey secrets opk flag")

theorem fromBytes_toBytes {secrets : PrekeySecrets P}
    (reloads : P.decapsulationFromBytes (P.decapsulationBytes secrets.kemSecret) = .ok secrets.kemSecret) :
    fromBytes P secrets.toBytes = .ok secrets := by
  obtain ⟨r₁, version, ahead⟩ := Reader.readU8_ahead (Reader.ahead_new secrets.toBytes)
  obtain ⟨r₂, signedPrekey, ahead⟩ := read32_ahead _ ahead
  obtain ⟨r₃, seed, ahead⟩ := Reader.readBytes_ahead ahead
  rw [Schemes.decapsulationBytes_length] at seed
  obtain ⟨spk, kem, opk⟩ := secrets
  cases opk with
  | none =>
    obtain ⟨r₄, flag, ahead⟩ := Reader.readU8_ahead ahead
    simp only [fromBytes, version, liftWire, signedPrekey, seed, reloads, flag, bind, Except.bind, pure,
      Except.pure, ne_eq, not_true_eq_false, if_false, if_true]
  | some opk =>
    obtain ⟨r₄, flag, ahead⟩ := Reader.readU8_ahead ahead
    rw [← List.append_nil opk.toList] at ahead
    obtain ⟨r₅, oneTime, _⟩ := read32_ahead _ ahead
    have set : ¬(1 : UInt8) = 0 := by decide
    simp only [fromBytes, version, liftWire, signedPrekey, seed, reloads, flag, oneTime, bind, Except.bind,
      pure, Except.pure, ne_eq, not_true_eq_false, if_false, if_true, set]

end PrekeySecrets

/-- The optional one-time prekey field. -/
def withOneTime (frame : Frame) : Option Bytes32 → Frame
  | some opk => frame.withField tagOnetimePrekey opk.toList
  | none => frame

/-- The fields a responder publishes, under a context of the caller. -/
def keysFrame (P : Schemes S) (context : Bytes) (identity : P.VerifyingKey) (spk : Bytes32)
    (kemKeyBytes : Bytes) (opk : Option Bytes32) : Frame :=
  withOneTime ((((Frame.new.withField tagContext context).withField tagIdentityPub
    (P.identityBytes identity)).withField tagPrekeyX25519 spk.toList).withField tagMlkemEk kemKeyBytes) opk

def signingBody (P : Schemes S) (identity : P.VerifyingKey) (spk : Bytes32) (kem : P.EncapsulationKey)
    (opk : Option Bytes32) : Bytes :=
  (keysFrame P prekeyContext identity spk (P.encapsulationBytes kem) opk).encode

namespace PrekeyBundle

def generate (P : Schemes S) (identity : P.SigningKey) (withOneTime : Bool) (draws : PrekeyDraws) :
    PrekeySecrets P × PrekeyBundle P :=
  let kem := P.generateKeypair draws.kem
  let opk := if withOneTime then some draws.oneTimePrekey else none
  let opkPub := opk.map S.publicKey
  let identityPub := P.verifyingKey identity
  let body := signingBody P identityPub (S.publicKey draws.signedPrekey) kem.2 opkPub
  ({ signedPrekey := draws.signedPrekey, kemSecret := kem.1, oneTimePrekey := opk },
    { identity := identityPub, signedPrekey := S.publicKey draws.signedPrekey, kemKey := kem.2,
      oneTimePrekey := opkPub, signature := P.signRandomized identity body draws.signing })

def body (bundle : PrekeyBundle P) : Bytes :=
  signingBody P bundle.identity bundle.signedPrekey bundle.kemKey bundle.oneTimePrekey

def frame (bundle : PrekeyBundle P) : Frame :=
  (keysFrame P prekeyContext bundle.identity bundle.signedPrekey (P.encapsulationBytes bundle.kemKey)
    bundle.oneTimePrekey).withField tagSignature (P.signatureBytes bundle.signature)

def encode (bundle : PrekeyBundle P) : Bytes := bundle.frame.encode

/-- An optional X25519 key of a frame. -/
def optionalPublic : Option Bytes → Except CryptoError (Option Bytes32)
  | some bytes => (publicFromSlice bytes).map some
  | none => .ok none

def decode (P : Schemes S) (bytes : Bytes) : Except CryptoError (PrekeyBundle P) := do
  let frame ← liftWire (Frame.decode bytes)
  if frame.get tagContext ≠ some prekeyContext then
    throw (.malformed "prekey bundle context")
  let identity ← P.identityFromBytes (← liftWire (frame.require tagIdentityPub))
  let signedPrekey ← publicFromSlice (← liftWire (frame.require tagPrekeyX25519))
  let kemKey ← P.encapsulationFromSlice (← liftWire (frame.require tagMlkemEk))
  let oneTimePrekey ← optionalPublic (frame.get tagOnetimePrekey)
  let signature ← P.signatureFromBytes (← liftWire (frame.require tagSignature))
  let body := signingBody P identity signedPrekey kemKey oneTimePrekey
  P.verify identity body signature
  return { identity, signedPrekey, kemKey, oneTimePrekey, signature }

/-- What `PrekeyBundle::decode` asks of a frame. -/
structure Reads (frame : Frame) (bundle : PrekeyBundle P) : Prop where
  context : frame.get tagContext = some prekeyContext
  identity : Carries frame tagIdentityPub P.identityFromBytes bundle.identity
  signedPrekey : Carries frame tagPrekeyX25519 publicFromSlice bundle.signedPrekey
  kemKey : Carries frame tagMlkemEk P.encapsulationFromSlice bundle.kemKey
  oneTimePrekey : optionalPublic (frame.get tagOnetimePrekey) = .ok bundle.oneTimePrekey
  signature : Carries frame tagSignature P.signatureFromBytes bundle.signature
  verified : P.verifyWithContext bundle.identity bundle.body bundle.signature = true

theorem decode_eq_ok {bytes : Bytes} {bundle : PrekeyBundle P} :
    decode P bytes = .ok bundle ↔
      ∃ frame, Frame.decode bytes = .ok frame ∧ Reads frame bundle := by
  rw [decode, bind_eq_ok]
  refine exists_congr fun frame => and_congr liftWire_eq_ok ?_
  dsimp only
  rw [guard_eq_ok, not_not]
  constructor
  · rintro ⟨context, rest⟩
    obtain ⟨identity, read₁, rest⟩ := required_eq_ok.mp rest
    obtain ⟨signedPrekey, read₂, rest⟩ := required_eq_ok.mp rest
    obtain ⟨kemKey, read₃, rest⟩ := required_eq_ok.mp rest
    obtain ⟨oneTimePrekey, read₄, rest⟩ := bind_eq_ok.mp rest
    obtain ⟨signature, read₅, rest⟩ := required_eq_ok.mp rest
    obtain ⟨_, checked, rest⟩ := bind_eq_ok.mp rest
    cases rest
    exact ⟨context, read₁, read₂, read₃, read₄, read₅, P.verify_eq_ok.mp checked⟩
  · rintro ⟨context, read₁, read₂, read₃, read₄, read₅, verified⟩
    have checked := P.verify_eq_ok.mpr verified
    exact ⟨context, required_eq_ok.mpr ⟨_, read₁, required_eq_ok.mpr ⟨_, read₂, required_eq_ok.mpr ⟨_, read₃,
      bind_eq_ok.mpr ⟨_, read₄, required_eq_ok.mpr ⟨_, read₅, bind_eq_ok.mpr ⟨_, checked, rfl⟩⟩⟩⟩⟩⟩⟩

theorem frame_fits (bundle : PrekeyBundle P) : bundle.frame.Fits := by
  intro field member
  obtain ⟨identity, spk, kem, opk, signature⟩ := bundle
  cases opk <;>
    · simp only [frame, keysFrame, withOneTime, Frame.withField, Frame.new, List.nil_append, List.cons_append,
        List.mem_cons, List.not_mem_nil, or_false] at member
      rcases member with rfl | rfl | rfl | rfl | rfl | rfl <;>
        simp [publicKeyLen, signatureLen, mlkemEncapsKeyLen, prekeyContext, ascii]

theorem encode_length_lt (bundle : PrekeyBundle P) : bundle.encode.length < 2 ^ 16 := by
  have context : prekeyContext.length = 20 := by decide
  obtain ⟨identity, spk, kem, opk, signature⟩ := bundle
  refine (Frame.encode_length_le (by cases opk <;> rfl) ?_).trans_lt ?_
  · intro field member
    cases opk <;>
      · simp only [frame, keysFrame, withOneTime, Frame.withField, Frame.new, List.nil_append, List.cons_append,
          List.mem_cons, List.not_mem_nil, or_false] at member
        rcases member with rfl | rfl | rfl | rfl | rfl | rfl <;> exact of_decide_eq_true rfl
  · cases opk <;>
      simp [frame, keysFrame, withOneTime, Frame.withField, Frame.new, context, mlkemEncapsKeyLen, publicKeyLen,
        signatureLen]

theorem optionalPublic_toList (opk : Option Bytes32) :
    optionalPublic (opk.map List.Vector.toList) = .ok opk := by
  cases opk with
  | none => rfl
  | some key =>
    rw [Option.map_some, optionalPublic, publicFromSlice_toList]
    rfl

/-- What the parser finds in a bundle's own frame, with or without a one-time prekey. -/
theorem frame_reads (lawful : P.Lawful) {bundle : PrekeyBundle P}
    (verified : P.verifyWithContext bundle.identity bundle.body bundle.signature = true) :
    Reads bundle.frame bundle := by
  have known (opk : Option Bytes32) (same : bundle.oneTimePrekey = opk)
      (found : bundle.frame.get tagOnetimePrekey = opk.map List.Vector.toList) :
      optionalPublic (bundle.frame.get tagOnetimePrekey) = .ok bundle.oneTimePrekey := by
    rw [found, same, optionalPublic_toList]
  obtain ⟨identity, spk, kem, opk, signature⟩ := bundle
  cases opk <;>
    exact ⟨rfl, ⟨_, rfl, lawful.identityFromBytes _⟩, ⟨_, rfl, publicFromSlice_toList _⟩,
      ⟨_, rfl, lawful.encapsulationFromSlice _⟩, known _ rfl rfl, ⟨_, rfl, lawful.signatureFromBytes _⟩, verified⟩

/-- A bundle whose signature covers its keys parses back to itself. -/
theorem decode_encode (lawful : P.Lawful) {bundle : PrekeyBundle P}
    (verified : P.verifyWithContext bundle.identity bundle.body bundle.signature = true) :
    decode P bundle.encode = .ok bundle :=
  decode_eq_ok.mpr ⟨bundle.frame, Frame.decode_encode (frame_fits bundle), frame_reads lawful verified⟩

theorem generate_verified (lawful : P.Lawful) (identity : P.SigningKey) (withOneTime : Bool)
    (draws : PrekeyDraws) :
    P.verifyWithContext (generate P identity withOneTime draws).2.identity
      (generate P identity withOneTime draws).2.body (generate P identity withOneTime draws).2.signature = true :=
  lawful.verify_sign _ _ _

end PrekeyBundle

end

end Buh.Handshake.Prekey
