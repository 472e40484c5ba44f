import Buh.Handshake.Prekey

/-! Signed one-time invites, from `invite.rs`: where to reach the inviter and how to
encrypt to them. -/

namespace Buh.Handshake.Invitation
open Buh.Library.BigEndian Buh.Library.Fallible Buh.Wire.Codec Buh.Wire.V1 Buh.Crypto.Primitives
  Buh.Crypto.PostQuantum Buh.Handshake.Prekey

def inviteNonceLen : Nat := 16

def inviteContext : Bytes := ascii "buh-invite-v1"

structure QueueDescriptor where
  queueId : Bytes32
  relayUrl : String
  caFingerprint : Bytes32
  deriving DecidableEq

/-- `String::as_bytes` -/
def utf8 (text : String) : Bytes := text.toByteArray.data.toList

/-- `core::str::from_utf8` -/
def fromUtf8 (bytes : Bytes) : Option String := String.fromUTF8? ⟨bytes.toArray⟩

/-- `u64::to_be_bytes` -/
def u64Bytes (value : UInt64) : Bytes := beBytes 8 value.toNat

/-- `try_into` an array, or the caller's error. -/
def fixedField (n : Nat) (what : String) (bytes : Bytes) : Except CryptoError (ByteArr n) :=
  match toArr n bytes with
  | some arr => .ok arr
  | none => .error (.malformed what)

theorem fixedField_toList {n : Nat} (what : String) (arr : ByteArr n) :
    fixedField n what arr.toList = .ok arr := by
  rw [fixedField, toArr_toList]

namespace QueueDescriptor

def frame (queue : QueueDescriptor) : Frame :=
  ((Frame.new.withField tagQueueId queue.queueId.toList).withField tagRelayUrl (utf8 queue.relayUrl)).withField
    tagCaFingerprint queue.caFingerprint.toList

def encode (queue : QueueDescriptor) : Bytes := queue.frame.encode

def decode (bytes : Bytes) : Except CryptoError QueueDescriptor := do
  let frame ← liftWire (Frame.decode bytes)
  let queueId ← fixedField 32 "queue id" (← liftWire (frame.require tagQueueId))
  let relayUrl ← match fromUtf8 (← liftWire (frame.require tagRelayUrl)) with
    | some url => .ok url
    | none => .error (.malformed "relay url")
  let caFingerprint ← fixedField 32 "ca fingerprint" (← liftWire (frame.require tagCaFingerprint))
  return { queueId, relayUrl, caFingerprint }

theorem utf8_injective : Function.Injective utf8 := by
  intro first second same
  apply String.toByteArray_inj.mp
  exact ByteArray.ext (Array.toList_inj.mp same)

theorem fromUtf8_utf8 (text : String) : fromUtf8 (utf8 text) = some text := by
  change String.fromUTF8? text.toByteArray = some text
  rw [String.fromUTF8?, dif_pos text.isValidUTF8]
  rfl

theorem frame_fits {queue : QueueDescriptor} (fits : (utf8 queue.relayUrl).length < 2 ^ 64) :
    queue.frame.Fits := by
  intro field member
  simp only [frame, Frame.withField, Frame.new, List.nil_append, List.cons_append, List.mem_cons,
    List.not_mem_nil, or_false] at member
  rcases member with rfl | rfl | rfl
  · simp
  · exact fits
  · simp

/-- Next to the relay's address everything in a descriptor is short. -/
theorem encode_length_le (queue : QueueDescriptor) :
    queue.encode.length ≤ (utf8 queue.relayUrl).length + (utf8 queue.relayUrl).length / 128 + 80 := by
  have flags := writeVarint_length_le (0 : UInt64).toNat
  have small (tag : UInt64) (short : tag.toNat < 128) : (writeVarint tag.toNat).length ≤ 1 := by
    have := writeVarint_length_le tag.toNat
    omega
  have first := small tagQueueId (by decide)
  have second := small tagRelayUrl (by decide)
  have third := small tagCaFingerprint (by decide)
  have key := writeVarint_length_le 32
  have url := writeVarint_length_le (utf8 queue.relayUrl).length
  have fields : queue.frame.fields.flatMap Frame.encodeField =
      Frame.encodeField ⟨tagQueueId, queue.queueId.toList⟩ ++ (Frame.encodeField ⟨tagRelayUrl, utf8 queue.relayUrl⟩ ++
        (Frame.encodeField ⟨tagCaFingerprint, queue.caFingerprint.toList⟩ ++ [])) := rfl
  change (magic :: wireVersion :: (writeVarint (0 : UInt64).toNat ++ queue.frame.fields.flatMap Frame.encodeField)).length ≤ _
  rw [fields]
  simp only [Frame.encodeField, List.length_cons, List.length_append, List.length_nil, List.Vector.toList_length,
    UInt64.toNat_zero] at flags ⊢
  omega

theorem decode_encode {queue : QueueDescriptor} (fits : (utf8 queue.relayUrl).length < 2 ^ 64) :
    decode queue.encode = .ok queue := by
  have id : queue.frame.require tagQueueId = .ok queue.queueId.toList := rfl
  have url : queue.frame.require tagRelayUrl = .ok (utf8 queue.relayUrl) := rfl
  have ca : queue.frame.require tagCaFingerprint = .ok queue.caFingerprint.toList := rfl
  simp only [decode, encode, Frame.decode_encode (frame_fits fits), liftWire, id, url, ca, fixedField_toList,
    fromUtf8_utf8, bind, Except.bind, pure, Except.pure]

theorem encode_injective : Function.Injective encode := by
  rintro ⟨id, url, ca⟩ ⟨id', url', ca'⟩ same
  have frames := Frame.encode_injective same
  simp only [frame, Frame.withField, Frame.new, List.nil_append, List.cons_append, Frame.mk.injEq,
    List.cons.injEq, Field.mk.injEq, true_and, and_true] at frames
  obtain ⟨ids, urls, cas⟩ := frames
  rw [List.Vector.toList_injective ids, utf8_injective urls, List.Vector.toList_injective cas]

end QueueDescriptor

/-- The eight bytes as the array that the parser makes of them. -/
def u64Array (value : UInt64) : ByteArr 8 := ⟨u64Bytes value, beBytes_length 8 value.toNat⟩

theorem u64Array_value (value : UInt64) : UInt64.ofNat (beValue (u64Array value).toList) = value := by
  have bound := value.toNat_lt
  change UInt64.ofNat (beValue (beBytes 8 value.toNat)) = value
  rw [beValue_beBytes, Nat.mod_eq_of_lt (by omega), UInt64.ofNat_toNat]

theorem u64Bytes_injective : Function.Injective u64Bytes := by
  intro first second same
  apply UInt64.toNat_inj.mp
  exact beBytes_inj (by have := first.toNat_lt; omega) (by have := second.toNat_lt; omega) same

section
variable {S : Suite}

structure Invite (P : Schemes S) where
  queue : QueueDescriptor
  bundle : PrekeyBundle P
  nonce : ByteArr inviteNonceLen
  expiryMs : UInt64
  signature : P.Signature

/-- The fields that are signed, in their order. -/
def signingFrame (P : Schemes S) (queue : QueueDescriptor) (identity : P.VerifyingKey) (bundleBytes : Bytes)
    (nonce : ByteArr inviteNonceLen) (expiryMs : UInt64) : Frame :=
  (((((Frame.new.withField tagContext inviteContext).withField tagQueueUri queue.encode).withField
    tagIdentityPub (P.identityBytes identity)).withField tagPrekeyBundle bundleBytes).withField
    tagInviteNonce nonce.toList).withField tagExpiry (u64Bytes expiryMs)

def signingBody (P : Schemes S) (queue : QueueDescriptor) (identity : P.VerifyingKey) (bundleBytes : Bytes)
    (nonce : ByteArr inviteNonceLen) (expiryMs : UInt64) : Bytes :=
  (signingFrame P queue identity bundleBytes nonce expiryMs).encode

variable {P : Schemes S}

namespace Invite

def create (identity : P.SigningKey) (queue : QueueDescriptor) (bundle : PrekeyBundle P)
    (nonce : ByteArr inviteNonceLen) (expiryMs : UInt64) (signing : Bytes32) : Invite P :=
  let body := signingBody P queue (P.verifyingKey identity) bundle.encode nonce expiryMs
  { queue, bundle, nonce, expiryMs, signature := P.signRandomized identity body signing }

def encode (invite : Invite P) : Bytes :=
  ((signingFrame P invite.queue invite.bundle.identity invite.bundle.encode invite.nonce
    invite.expiryMs).withField tagSignature (P.signatureBytes invite.signature)).encode

def decode (P : Schemes S) (bytes : Bytes) : Except CryptoError (Invite P) := do
  let frame ← liftWire (Frame.decode bytes)
  if frame.get tagContext ≠ some inviteContext then
    throw (.malformed "invite context")
  let queue ← QueueDescriptor.decode (← liftWire (frame.require tagQueueUri))
  let identity ← P.identityFromBytes (← liftWire (frame.require tagIdentityPub))
  let bundleBytes ← liftWire (frame.require tagPrekeyBundle)
  let nonce ← fixedField inviteNonceLen "invite nonce" (← liftWire (frame.require tagInviteNonce))
  let expiryBytes ← fixedField 8 "invite expiry" (← liftWire (frame.require tagExpiry))
  let expiryMs := UInt64.ofNat (beValue expiryBytes.toList)
  let signature ← P.signatureFromBytes (← liftWire (frame.require tagSignature))
  let bundle ← PrekeyBundle.decode P bundleBytes
  if P.identityBytes bundle.identity ≠ P.identityBytes identity then
    throw (.malformed "invite identity mismatch")
  let body := signingBody P queue identity bundleBytes nonce expiryMs
  P.verify identity body signature
  return { queue, bundle, nonce, expiryMs, signature }

/-- What `Invite::decode` asks of a frame: the bytes of the carried bundle and their own
frame, the inviter's identity and the deadline are what it reads on the way. -/
structure Reads (frame : Frame) (invite : Invite P) (carried : Bytes) (inner : Frame)
    (inviter : P.VerifyingKey) (deadline : ByteArr 8) : Prop where
  context : frame.get tagContext = some inviteContext
  queue : Carries frame tagQueueUri QueueDescriptor.decode invite.queue
  identity : Carries frame tagIdentityPub P.identityFromBytes inviter
  bundleBytes : frame.get tagPrekeyBundle = some carried
  nonce : Carries frame tagInviteNonce (fixedField inviteNonceLen "invite nonce") invite.nonce
  expiry : Carries frame tagExpiry (fixedField 8 "invite expiry") deadline
  expiryMs : invite.expiryMs = UInt64.ofNat (beValue deadline.toList)
  signature : Carries frame tagSignature P.signatureFromBytes invite.signature
  parsed : Frame.decode carried = .ok inner
  bundle : PrekeyBundle.Reads inner invite.bundle
  sameIdentity : P.identityBytes invite.bundle.identity = P.identityBytes inviter
  verified : P.verifyWithContext inviter
    (Invitation.signingBody P invite.queue inviter carried invite.nonce invite.expiryMs) invite.signature = true

theorem decode_eq_ok {bytes : Bytes} {invite : Invite P} :
    decode P bytes = .ok invite ↔
      ∃ frame, Frame.decode bytes = .ok frame ∧
        ∃ carried inner inviter deadline, Reads frame invite carried inner inviter deadline := by
  rw [decode, bind_eq_ok]
  refine exists_congr fun frame => and_congr liftWire_eq_ok ?_
  dsimp only
  rw [guard_eq_ok, not_not]
  constructor
  · rintro ⟨context, rest⟩
    obtain ⟨queue, read₁, rest⟩ := required_eq_ok.mp rest
    obtain ⟨inviter, read₂, rest⟩ := required_eq_ok.mp rest
    obtain ⟨carried, read₃, rest⟩ := bind_eq_ok.mp rest
    obtain ⟨nonce, read₄, rest⟩ := required_eq_ok.mp rest
    obtain ⟨deadline, read₅, rest⟩ := required_eq_ok.mp rest
    obtain ⟨signature, read₆, rest⟩ := required_eq_ok.mp rest
    obtain ⟨bundle, decoded, rest⟩ := bind_eq_ok.mp rest
    obtain ⟨same, rest⟩ := guard_eq_ok.mp rest
    obtain ⟨_, checked, rest⟩ := bind_eq_ok.mp rest
    obtain ⟨inner, parsed, reads⟩ := PrekeyBundle.decode_eq_ok.mp decoded
    cases rest
    exact ⟨carried, inner, inviter, deadline, context, read₁, read₂,
      Frame.require_eq_ok.mp (liftWire_eq_ok.mp read₃), read₄, read₅, rfl, read₆, parsed, reads, not_not.mp same,
      P.verify_eq_ok.mp checked⟩
  · rintro ⟨carried, inner, inviter, deadline, reads⟩
    obtain ⟨context, read₁, read₂, read₃, read₄, read₅, expiryMs, read₆, parsed, bundle, same, verified⟩ := reads
    have bundleBytes := liftWire_eq_ok.mpr (Frame.require_eq_ok.mpr read₃)
    have decoded := PrekeyBundle.decode_eq_ok.mpr ⟨inner, parsed, bundle⟩
    have checked := P.verify_eq_ok.mpr verified
    obtain ⟨queue, bundle, nonce, expiry, signature⟩ := invite
    cases expiryMs
    exact ⟨context, required_eq_ok.mpr ⟨_, read₁, required_eq_ok.mpr ⟨_, read₂, bind_eq_ok.mpr ⟨_, bundleBytes,
      required_eq_ok.mpr ⟨_, read₄, required_eq_ok.mpr ⟨_, read₅, required_eq_ok.mpr ⟨_, read₆,
        bind_eq_ok.mpr ⟨_, decoded, guard_eq_ok.mpr ⟨not_not.mpr same,
          bind_eq_ok.mpr ⟨_, checked, rfl⟩⟩⟩⟩⟩⟩⟩⟩⟩⟩

/-- The frame that `encode` writes. -/
def frame (invite : Invite P) : Frame :=
  (signingFrame P invite.queue invite.bundle.identity invite.bundle.encode invite.nonce
    invite.expiryMs).withField tagSignature (P.signatureBytes invite.signature)

/-- The same frame around other bytes of the bundle. -/
def frameAround (invite : Invite P) (carried : Bytes) : Frame :=
  (signingFrame P invite.queue invite.bundle.identity carried invite.nonce invite.expiryMs).withField tagSignature
    (P.signatureBytes invite.signature)

theorem frameAround_fits {invite : Invite P} {carried : Bytes} (url : (utf8 invite.queue.relayUrl).length < 2 ^ 63)
    (small : carried.length < 2 ^ 64) : (invite.frameAround carried).Fits := by
  have queue := invite.queue.encode_length_le
  intro field member
  simp only [frameAround, signingFrame, Frame.withField, Frame.new, List.nil_append, List.cons_append, List.mem_cons,
    List.not_mem_nil, or_false] at member
  rcases member with rfl | rfl | rfl | rfl | rfl | rfl | rfl
  · decide
  · change invite.queue.encode.length < 2 ^ 64
    omega
  · simp [publicKeyLen]
  · exact small
  · change invite.nonce.toList.length < 2 ^ 64
    rw [List.Vector.toList_length]
    decide
  · simp [u64Bytes]
  · simp [signatureLen]

theorem frame_fits {invite : Invite P} (url : (utf8 invite.queue.relayUrl).length < 2 ^ 63) : invite.frame.Fits :=
  frameAround_fits url (invite.bundle.encode_length_lt.trans (by decide))

/-- What the parser finds in an invite's own frame. -/
theorem frame_reads (lawful : P.Lawful) {invite : Invite P}
    (fits : (utf8 invite.queue.relayUrl).length < 2 ^ 64)
    (bundled : P.verifyWithContext invite.bundle.identity invite.bundle.body invite.bundle.signature = true)
    (verified : P.verifyWithContext invite.bundle.identity (Invitation.signingBody P invite.queue
      invite.bundle.identity invite.bundle.encode invite.nonce invite.expiryMs) invite.signature = true) :
    Reads invite.frame invite invite.bundle.encode invite.bundle.frame invite.bundle.identity
      (u64Array invite.expiryMs) where
  context := rfl
  queue := ⟨_, rfl, QueueDescriptor.decode_encode fits⟩
  identity := ⟨_, rfl, lawful.identityFromBytes _⟩
  bundleBytes := rfl
  nonce := ⟨_, rfl, fixedField_toList _ _⟩
  expiry := ⟨_, rfl, fixedField_toList _ (u64Array invite.expiryMs)⟩
  expiryMs := (u64Array_value _).symm
  signature := ⟨_, rfl, lawful.signatureFromBytes _⟩
  parsed := Frame.decode_encode (PrekeyBundle.frame_fits _)
  bundle := PrekeyBundle.frame_reads lawful bundled
  sameIdentity := rfl
  verified := verified

end Invite

end

end Buh.Handshake.Invitation
