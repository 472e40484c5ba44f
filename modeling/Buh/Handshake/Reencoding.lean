import Buh.Handshake.Reserved

/-! Parsing an invite and writing it out again. `Invite::decode` checks the inviter's
signature over the bytes of the embedded bundle as they came, and `encode` writes the
bundle anew: the two agree only where the bytes were the bundle's own encoding. -/

namespace Buh.Wire.V1.Frame
open Buh.Wire.Codec

theorem readBytes_length_le {r after : Reader} {len : Nat} {content : Bytes}
    (read : r.readBytes len = .ok (content, after)) : content.length ≤ r.buf.length := by
  unfold Reader.readBytes at read
  split_ifs at read
  cases read
  rw [List.length_take, List.length_drop]
  omega

/-- A value is no longer than the bytes it was read from. -/
theorem decodeFields_value_le {r : Reader} {done out : List Field} (read : decodeFields r done = .ok out) :
    ∀ field ∈ out, field ∈ done ∨ field.value.length ≤ r.buf.length := by
  fun_induction decodeFields r done with
  | case1 r done empty =>
    cases read
    exact fun field member => Or.inl member
  | case2 => cases read
  | case3 => cases read
  | case4 => cases read
  | case5 => cases read
  | case6 => cases read
  | case7 r done busy tag afterTag tagRead len afterLen lenRead size enough value after valueRead ih =>
    have sameTag := (Reader.readVarint_advances tagRead).1
    have sameLen := (Reader.readVarint_advances lenRead).1
    have sameValue := (Reader.readBytes_advances valueRead).1
    have short := readBytes_length_le valueRead
    rw [sameLen, sameTag] at short
    intro field member
    rcases ih read field member with earlier | later
    · rcases List.mem_append.mp earlier with before | last
      · exact Or.inl before
      · rw [List.mem_singleton.mp last]
        exact Or.inr short
    · rw [sameValue, sameLen, sameTag] at later
      exact Or.inr later

theorem decode_value_le {bytes : Bytes} {frame : Frame} (read : decode bytes = .ok frame) {tag : UInt64} {value : Bytes}
    (found : frame.get tag = some value) : value.length ≤ bytes.length := by
  obtain ⟨r, group, rest, -, -, -, same, -, fieldsRead⟩ := decode_reads read
  obtain ⟨field, located, rfl⟩ := Option.map_eq_some_iff.mp found
  rcases decodeFields_value_le fieldsRead field (List.mem_of_find?_eq_some located) with absent | short
  · cases absent
  · rwa [same] at short

end Buh.Wire.V1.Frame

namespace Buh.Handshake.Reencoding
open Buh.Library.Fallible Buh.Wire.Codec Buh.Wire.V1 Buh.Crypto.Primitives Buh.Crypto.PostQuantum Buh.Ratchet.Message
  Buh.Handshake.Prekey Buh.Handshake.Invitation Buh.Handshake.Signing

theorem utf8_fromUtf8 {bytes : Bytes} {text : String} (read : fromUtf8 bytes = some text) : utf8 text = bytes := by
  unfold fromUtf8 String.fromUTF8? at read
  split_ifs at read with valid
  cases read
  rfl

/-- A descriptor's relay address is no longer than the bytes it was read from. -/
theorem relayUrl_length_le {bytes : Bytes} {queue : QueueDescriptor} (decoded : QueueDescriptor.decode bytes = .ok queue) :
    (utf8 queue.relayUrl).length ≤ bytes.length := by
  unfold QueueDescriptor.decode at decoded
  obtain ⟨frame, parsed, rest⟩ := bind_eq_ok.mp decoded
  obtain ⟨queueId, -, rest⟩ := required_eq_ok.mp rest
  obtain ⟨urlBytes, found, rest⟩ := bind_eq_ok.mp rest
  have short := Frame.decode_value_le (liftWire_eq_ok.mp parsed) (Frame.require_eq_ok.mp (liftWire_eq_ok.mp found))
  dsimp only at rest
  split at rest
  · next url valid =>
    obtain ⟨relayUrl, same, rest⟩ := bind_eq_ok.mp rest
    obtain ⟨caFingerprint, -, rest⟩ := required_eq_ok.mp rest
    cases same
    cases rest
    rwa [utf8_fromUtf8 valid]
  · cases rest

section
variable {S : Suite} {P : Schemes S}

/-- What a field of a known frame parses to. -/
theorem carries_value {α : Type} {frame : Frame} {tag : UInt64} {parse : Bytes → Except CryptoError α} {bytes : Bytes}
    {value other : α} (found : frame.get tag = some bytes) (parses : parse bytes = .ok value)
    (carries : Carries frame tag parse other) : other = value := by
  obtain ⟨bytes', found', parsed⟩ := carries
  rw [found, Option.some.injEq] at found'
  subst found'
  exact Except.ok.inj (parsed.symm.trans parses)

/-- What the parser makes of a bundle's own encoding: the bundle, if its signature covers
its keys, and nothing otherwise. -/
theorem bundle_decode_encode_iff (pq : P.Lawful) {bundle other : PrekeyBundle P} :
    PrekeyBundle.decode P bundle.encode = .ok other ↔
      other = bundle ∧ P.verifyWithContext bundle.identity bundle.body bundle.signature = true := by
  constructor
  · intro decoded
    obtain ⟨frame, parsed, reads⟩ := PrekeyBundle.decode_eq_ok.mp decoded
    obtain rfl : frame = bundle.frame :=
      Except.ok.inj (parsed.symm.trans (Frame.decode_encode (PrekeyBundle.frame_fits bundle)))
    have oneTime : bundle.frame.get tagOnetimePrekey = bundle.oneTimePrekey.map List.Vector.toList := by
      obtain ⟨_, _, _, _ | _, _⟩ := bundle <;> rfl
    have identity : bundle.frame.get tagIdentityPub = some (P.identityBytes bundle.identity) := by
      obtain ⟨_, _, _, _ | _, _⟩ := bundle <;> rfl
    have signedPrekey : bundle.frame.get tagPrekeyX25519 = some bundle.signedPrekey.toList := by
      obtain ⟨_, _, _, _ | _, _⟩ := bundle <;> rfl
    have kemKey : bundle.frame.get tagMlkemEk = some (P.encapsulationBytes bundle.kemKey) := by
      obtain ⟨_, _, _, _ | _, _⟩ := bundle <;> rfl
    have signature : bundle.frame.get tagSignature = some (P.signatureBytes bundle.signature) := by
      obtain ⟨_, _, _, _ | _, _⟩ := bundle <;> rfl
    have same : other = bundle := by
      have first := carries_value identity (pq.identityFromBytes _) reads.identity
      have second := carries_value signedPrekey (publicFromSlice_toList _) reads.signedPrekey
      have third := carries_value kemKey (pq.encapsulationFromSlice _) reads.kemKey
      have fourth := reads.oneTimePrekey
      have fifth := carries_value signature (pq.signatureFromBytes _) reads.signature
      rw [oneTime, PrekeyBundle.optionalPublic_toList, Except.ok.injEq] at fourth
      obtain ⟨_, _, _, _, _⟩ := other
      cases first
      cases second
      cases third
      cases fourth
      cases fifth
      rfl
    subst same
    exact ⟨rfl, reads.verified⟩
  · rintro ⟨rfl, verified⟩
    exact PrekeyBundle.decode_encode pq verified

/-- What the parser makes of an invite's own encoding. -/
theorem invite_decode_encode_iff (pq : P.Lawful) {invite other : Invite P}
    (short : (utf8 invite.queue.relayUrl).length < 2 ^ 63) :
    Invite.decode P invite.encode = .ok other ↔
      other = invite ∧ P.verifyWithContext invite.bundle.identity invite.bundle.body invite.bundle.signature = true ∧
        P.verifyWithContext invite.bundle.identity (Invitation.signingBody P invite.queue invite.bundle.identity
          invite.bundle.encode invite.nonce invite.expiryMs) invite.signature = true := by
  have fits : (utf8 invite.queue.relayUrl).length < 2 ^ 64 := by omega
  have own : Frame.decode invite.encode = .ok invite.frame := Frame.decode_encode (Invite.frame_fits short)
  constructor
  · intro decoded
    obtain ⟨frame, parsed, carried, inner, inviter, deadline, reads⟩ := Invite.decode_eq_ok.mp decoded
    obtain rfl : frame = invite.frame := Except.ok.inj (parsed.symm.trans own)
    obtain rfl : carried = invite.bundle.encode := (Option.some.inj reads.bundleBytes).symm
    have queue := carries_value rfl (QueueDescriptor.decode_encode fits) reads.queue
    obtain rfl := carries_value rfl (pq.identityFromBytes invite.bundle.identity) reads.identity
    have nonce := carries_value rfl (fixedField_toList _ invite.nonce) reads.nonce
    obtain rfl := carries_value rfl (fixedField_toList _ (u64Array invite.expiryMs)) reads.expiry
    have signature := carries_value rfl (pq.signatureFromBytes invite.signature) reads.signature
    have expiry := reads.expiryMs.trans (u64Array_value invite.expiryMs)
    obtain ⟨bundle, bundled⟩ := (bundle_decode_encode_iff pq).mp
      (PrekeyBundle.decode_eq_ok.mpr ⟨inner, reads.parsed, reads.bundle⟩)
    have same : other = invite := by
      obtain ⟨_, _, _, _, _⟩ := other
      cases queue
      cases bundle
      cases nonce
      cases expiry
      cases signature
      rfl
    subst same
    exact ⟨rfl, bundled, reads.verified⟩
  · rintro ⟨rfl, bundled, verified⟩
    exact Invite.decode_eq_ok.mpr ⟨_, own, _, _, _, _, Invite.frame_reads pq fits bundled verified⟩

/-- The bytes of the bundle inside an invite. -/
def Embeds (bytes carried : Bytes) : Prop :=
  ∃ frame, Frame.decode bytes = .ok frame ∧ frame.get tagPrekeyBundle = some carried

/-- The body that the signature of a parsed invite was checked over. -/
def checkedBody (invite : Invite P) (carried : Bytes) : Bytes :=
  Invitation.signingBody P invite.queue invite.bundle.identity carried invite.nonce invite.expiryMs

/-- The bundle of a parsed invite was parsed from the bytes that the invite carried. -/
theorem decoded_bundle {bytes carried : Bytes} {invite : Invite P} (decoded : Invite.decode P bytes = .ok invite)
    (embedded : Embeds bytes carried) : PrekeyBundle.decode P carried = .ok invite.bundle := by
  obtain ⟨frame, parsed, carried', inner, inviter, deadline, reads⟩ := Invite.decode_eq_ok.mp decoded
  obtain ⟨frame', parsed', found⟩ := embedded
  obtain rfl : frame' = frame := Except.ok.inj (parsed'.symm.trans parsed)
  obtain rfl : carried' = carried := Option.some.inj (reads.bundleBytes.symm.trans found)
  exact PrekeyBundle.decode_eq_ok.mpr ⟨inner, reads.parsed, reads.bundle⟩

/-- What is known of an invite that was parsed from a byte string. -/
theorem decoded_facts (pq : P.Lawful) {bytes carried : Bytes} {invite : Invite P}
    (decoded : Invite.decode P bytes = .ok invite) (embedded : Embeds bytes carried) :
    (utf8 invite.queue.relayUrl).length ≤ bytes.length ∧
      P.verifyWithContext invite.bundle.identity invite.bundle.body invite.bundle.signature = true ∧
      P.verifyWithContext invite.bundle.identity (checkedBody invite carried) invite.signature = true := by
  obtain ⟨frame, parsed, carried', inner, inviter, deadline, reads⟩ := Invite.decode_eq_ok.mp decoded
  obtain ⟨frame', parsed', found⟩ := embedded
  obtain rfl : frame' = frame := Except.ok.inj (parsed'.symm.trans parsed)
  obtain rfl : carried' = carried := Option.some.inj (reads.bundleBytes.symm.trans found)
  obtain rfl : inviter = invite.bundle.identity := (pq.identityBytes_injective reads.sameIdentity).symm
  obtain ⟨queueBytes, located, queue⟩ := reads.queue
  refine ⟨?_, reads.bundle.verified, reads.verified⟩
  exact (relayUrl_length_le queue).trans (Frame.decode_value_le parsed located)

/-- The outer signature is good for the body it was checked over and for no other. -/
def Binds (invite : Invite P) (carried : Bytes) : Prop :=
  ∀ message, P.verifyWithContext invite.bundle.identity message invite.signature = true → message = checkedBody invite carried

/-- The bytes are what `PrekeyBundle::encode` writes for some bundle. -/
def Canonical (P : Schemes S) (carried : Bytes) : Prop := ∃ bundle : PrekeyBundle P, bundle.encode = carried

/-- Canonical bytes are the encoding of the bundle that was parsed from them. -/
theorem canonical_iff_encode (pq : P.Lawful) {bytes carried : Bytes} {invite : Invite P}
    (decoded : Invite.decode P bytes = .ok invite) (embedded : Embeds bytes carried) :
    Canonical P carried ↔ carried = invite.bundle.encode := by
  constructor
  · rintro ⟨bundle, rfl⟩
    have parsed := decoded_bundle decoded embedded
    obtain ⟨same, -⟩ := (bundle_decode_encode_iff pq).mp parsed
    rw [same]
  · intro own
    exact ⟨invite.bundle, own.symm⟩

theorem stable_of_canonical (pq : P.Lawful) {bytes : Bytes} {invite : Invite P} (short : bytes.length < 2 ^ 63)
    (decoded : Invite.decode P bytes = .ok invite) (embedded : Embeds bytes invite.bundle.encode) :
    Invite.decode P invite.encode = .ok invite := by
  obtain ⟨url, bundled, verified⟩ := decoded_facts pq decoded embedded
  exact (invite_decode_encode_iff pq (url.trans_lt short)).mpr ⟨rfl, bundled, verified⟩

/-- Written out and parsed again, an invite is accepted only if nothing in the embedded
bundle changed: otherwise the signature is over other bytes. -/
theorem canonical_of_accepted (pq : P.Lawful) {bytes carried : Bytes} {invite again : Invite P}
    (short : bytes.length < 2 ^ 63) (decoded : Invite.decode P bytes = .ok invite) (embedded : Embeds bytes carried)
    (binds : Binds invite carried) (reparsed : Invite.decode P invite.encode = .ok again) :
    carried = invite.bundle.encode := by
  obtain ⟨url, -, -⟩ := decoded_facts pq decoded embedded
  obtain ⟨-, -, rechecked⟩ := (invite_decode_encode_iff pq (url.trans_lt short)).mp reparsed
  have bodies := binds _ rechecked
  have same : (.invite invite.queue invite.bundle.identity invite.bundle.encode invite.nonce invite.expiryMs : SignedBody P) =
      .invite invite.queue invite.bundle.identity carried invite.nonce invite.expiryMs :=
    SignedBody.bytes_injective pq.identityBytes_injective pq.encapsulationBytes_injective bodies
  exact (SignedBody.invite.inj same).2.2.1.symm

/-- A parsed invite is written out to bytes that parse to it again if the embedded bundle
was spelled as `encode` spells it, and only then, as long as the signature is good for
nothing but the body it was checked over. No slice is longer than `isize::MAX` bytes. -/
theorem reencoding_stable_iff (pq : P.Lawful) {bytes carried : Bytes} {invite : Invite P} (short : bytes.length < 2 ^ 63)
    (decoded : Invite.decode P bytes = .ok invite) (embedded : Embeds bytes carried) :
    (Canonical P carried → Invite.decode P invite.encode = .ok invite) ∧
      (Binds invite carried →
        ((∃ again, Invite.decode P invite.encode = .ok again ∧ again = invite) ↔ Canonical P carried)) := by
  have enough : Canonical P carried → Invite.decode P invite.encode = .ok invite := by
    intro canonical
    obtain rfl := (canonical_iff_encode pq decoded embedded).mp canonical
    exact stable_of_canonical pq short decoded embedded
  refine ⟨enough, fun binds => ⟨?_, fun canonical => ⟨invite, enough canonical, rfl⟩⟩⟩
  rintro ⟨again, reparsed, -⟩
  exact (canonical_iff_encode pq decoded embedded).mpr (canonical_of_accepted pq short decoded embedded binds reparsed)

/-- Whoever signs may spell the bundle in any way that parses. -/
theorem crafted_decodes (pq : P.Lawful) {invite : Invite P} {inner : Frame} (innerFits : inner.Fits)
    (reads : PrekeyBundle.Reads inner invite.bundle) (url : (utf8 invite.queue.relayUrl).length < 2 ^ 63)
    (small : inner.encode.length < 2 ^ 64)
    (verified : P.verifyWithContext invite.bundle.identity (checkedBody invite inner.encode) invite.signature = true) :
    Invite.decode P (invite.frameAround inner.encode).encode = .ok invite ∧
      Embeds (invite.frameAround inner.encode).encode inner.encode := by
  have parsed := Frame.decode_encode (Invite.frameAround_fits url small)
  refine ⟨Invite.decode_eq_ok.mpr ⟨_, parsed, inner.encode, inner, invite.bundle.identity, u64Array invite.expiryMs, ?_⟩,
    _, parsed, rfl⟩
  exact {
    context := rfl
    queue := ⟨_, rfl, QueueDescriptor.decode_encode (url.trans (by decide))⟩
    identity := ⟨_, rfl, pq.identityFromBytes _⟩
    bundleBytes := rfl
    nonce := ⟨_, rfl, fixedField_toList _ _⟩
    expiry := ⟨_, rfl, fixedField_toList _ (u64Array invite.expiryMs)⟩
    expiryMs := (u64Array_value _).symm
    signature := ⟨_, rfl, pq.signatureFromBytes _⟩
    parsed := Frame.decode_encode innerFits
    bundle := reads
    sameIdentity := rfl
    verified := verified }

end

section
open Buh.Crypto Buh.Handshake.Pqxdh Buh.Handshake.Reserved

def sampleNonce : ByteArr inviteNonceLen := List.Vector.replicate inviteNonceLen 0x33

/-- The body of the sample invite around some bytes of its bundle. Marking a message changes
none of it. -/
def sampleBody (carried : Bytes) : Bytes :=
  Invitation.signingBody (symbolic []) sampleQueue ((symbolic []).verifyingKey (sampleResponder [])) carried sampleNonce
    1900000000000

/-- The bytes of the sample bundle do not depend on the mark, unless it is the bundle's
own body. -/
theorem sampleBundle_frame {marked : Bytes} (other : (sampleBundle marked).body ≠ marked) :
    (sampleBundle marked).frame = (sampleBundle []).frame := by
  have nonempty : (sampleBundle []).body ≠ [] := List.cons_ne_nil _ _
  have stamps : (sampleBundle marked).signature = (sampleBundle []).signature := by
    change stamp marked (sampleBundle marked).body _ = stamp [] (sampleBundle []).body _
    rw [stamp, stamp, if_neg other, if_neg nonempty]
    rfl
  exact congrArg (fun signature : ByteArr signatureLen => (keysFrame (symbolic []) prekeyContext (sampleBundle []).identity
    (sampleBundle []).signedPrekey ((symbolic []).encapsulationBytes (sampleBundle []).kemKey)
    (sampleBundle []).oneTimePrekey).withField tagSignature signature.toList) stamps

/-- A prekey bundle is never signed under the bytes of an invite. -/
theorem sampleBundle_body_ne (carried : Bytes) : (sampleBundle (sampleBody carried)).body ≠ sampleBody carried := by
  have pq := symbolic_lawful []
  intro same
  have bodies : (.prekey (sampleBundle []).identity (sampleBundle []).signedPrekey (sampleBundle []).kemKey
      (sampleBundle []).oneTimePrekey : SignedBody (symbolic [])) =
      .invite sampleQueue ((symbolic []).verifyingKey (sampleResponder [])) carried sampleNonce 1900000000000 :=
    SignedBody.bytes_injective pq.identityBytes_injective pq.encapsulationBytes_injective same
  cases bodies

def sampleSigning : Bytes32 := List.Vector.replicate 32 13

/-- The sample invite around some bytes of its bundle, in the schemes that mark its body. -/
def sampleSigned (carried : Bytes) : Invite (symbolic (sampleBody carried)) where
  queue := sampleQueue
  bundle := sampleBundle _
  nonce := sampleNonce
  expiryMs := 1900000000000
  signature := (symbolic (sampleBody carried)).signRandomized (sampleResponder _) (sampleBody carried)
    sampleSigning

theorem sampleSigned_verified (carried : Bytes) :
    (symbolic (sampleBody carried)).verifyWithContext (sampleSigned carried).bundle.identity
      (checkedBody (sampleSigned carried) carried) (sampleSigned carried).signature = true :=
  (symbolic_lawful _).verify_sign _ _ sampleSigning

theorem sampleSigned_binds (carried : Bytes) : Binds (sampleSigned carried) carried :=
  fun _ verified => @symbolic_marked _ _ _ _ sampleSigning verified

theorem sampleSigned_bundled (carried : Bytes) :
    (symbolic (sampleBody carried)).verifyWithContext (sampleSigned carried).bundle.identity
      (sampleSigned carried).bundle.body (sampleSigned carried).bundle.signature = true :=
  PrekeyBundle.generate_verified (symbolic_lawful _) _ true sampleDraws

theorem sampleQueue_short : (utf8 sampleQueue.relayUrl).length < 2 ^ 63 := by decide

/-- The sample invite is a short byte string, for any bundle bytes that are. -/
theorem sampleSigned_length {carried : Bytes} (small : carried.length < 2 ^ 20) :
    ((sampleSigned carried).frameAround carried).encode.length < 2 ^ 63 := by
  have url : (utf8 sampleQueue.relayUrl).length = 26 := by decide
  have queue := sampleQueue.encode_length_le
  have context : inviteContext.length = 13 := by decide
  rw [url] at queue
  refine (Frame.encode_length_le rfl ?_).trans_lt ?_
  · intro field member
    simp only [Invite.frameAround, signingFrame, Frame.withField, Frame.new, List.nil_append, List.cons_append,
      List.mem_cons, List.not_mem_nil, or_false] at member
    rcases member with rfl | rfl | rfl | rfl | rfl | rfl | rfl <;> exact of_decide_eq_true rfl
  · have nonce : (sampleSigned carried).nonce.toList.length = 16 := List.Vector.toList_length _
    have queue' : (sampleSigned carried).queue.encode.length ≤ 106 := queue
    simp only [Invite.frameAround, signingFrame, Frame.withField, Frame.new, List.nil_append, List.cons_append,
      List.map_cons, List.map_nil, List.sum_cons, List.sum_nil, Schemes.identityBytes_length,
      Schemes.signatureBytes_length, context, nonce, u64Bytes, Buh.Library.BigEndian.beBytes_length, publicKeyLen,
      signatureLen]
    omega

/-- The sample invite parses, with the bundle's own bytes or with others that read the
same. -/
theorem sampleSigned_decodes {inner : Frame} (fits : inner.Fits) (small : inner.encode.length < 2 ^ 20)
    (reads : PrekeyBundle.Reads inner (sampleSigned inner.encode).bundle) :
    Invite.decode (symbolic (sampleBody inner.encode)) ((sampleSigned inner.encode).frameAround inner.encode).encode =
        .ok (sampleSigned inner.encode) ∧
      Embeds ((sampleSigned inner.encode).frameAround inner.encode).encode inner.encode :=
  crafted_decodes (symbolic_lawful _) fits reads sampleQueue_short (small.trans (by decide))
    (sampleSigned_verified inner.encode)

theorem sampleBundle_small : (sampleBundle []).encode.length < 2 ^ 20 :=
  (PrekeyBundle.encode_length_lt _).trans (by decide)

theorem sampleCanonical_decodes :
    Invite.decode (symbolic (sampleBody (sampleBundle []).encode))
        ((sampleSigned (sampleBundle []).encode).frameAround (sampleBundle []).encode).encode =
          .ok (sampleSigned (sampleBundle []).encode) ∧
      Embeds ((sampleSigned (sampleBundle []).encode).frameAround (sampleBundle []).encode).encode
        (sampleBundle []).encode := by
  have pq := symbolic_lawful (sampleBody (sampleBundle []).encode)
  have same := sampleBundle_frame (sampleBundle_body_ne (sampleBundle []).encode)
  have reads : PrekeyBundle.Reads (sampleBundle []).frame (sampleSigned (sampleBundle []).encode).bundle := by
    rw [← same]
    exact PrekeyBundle.frame_reads pq (sampleSigned_bundled _)
  exact sampleSigned_decodes (PrekeyBundle.frame_fits _) sampleBundle_small reads

theorem reencoding_stable_sample : ∃ again,
    Invite.decode (symbolic (sampleBody (sampleBundle []).encode)) (sampleSigned (sampleBundle []).encode).encode =
      .ok again ∧ again = sampleSigned (sampleBundle []).encode := by
  have pq := symbolic_lawful (sampleBody (sampleBundle []).encode)
  have same := sampleBundle_frame (sampleBundle_body_ne (sampleBundle []).encode)
  obtain ⟨decoded, embedded⟩ := sampleCanonical_decodes
  have stable := reencoding_stable_iff pq (sampleSigned_length sampleBundle_small) decoded embedded
  have canonical : (sampleSigned (sampleBundle []).encode).bundle.encode = (sampleBundle []).encode :=
    congrArg Frame.encode same
  exact (stable.2 (sampleSigned_binds _)).mpr ⟨_, canonical⟩

/-- The sample bundle with a field that this version does not know. -/
def extended : Frame := (sampleBundle []).frame.withField tagSpqrChunk [7]

theorem extended_small : extended.encode.length < 2 ^ 20 := by
  have bundle := PrekeyBundle.encode_length_lt (sampleBundle [])
  have field : (Frame.encodeField ⟨tagSpqrChunk, [7]⟩).length ≤ 2 * [(7 : UInt8)].length + 2 :=
    Frame.encodeField_length_le (by decide)
  have split : extended.encode = (sampleBundle []).encode ++ Frame.encodeField ⟨tagSpqrChunk, [7]⟩ := by
    simp only [extended, Frame.encode, Frame.withField, PrekeyBundle.encode, List.flatMap_append, List.flatMap_singleton,
      List.cons_append, List.append_assoc]
  rw [split, List.length_append]
  rw [List.length_singleton] at field
  omega

/-- An inviter may sign over a bundle with one field more than it needs. -/
theorem extended_decodes :
    Invite.decode (symbolic (sampleBody extended.encode)) ((sampleSigned extended.encode).frameAround extended.encode).encode =
        .ok (sampleSigned extended.encode) ∧
      Embeds ((sampleSigned extended.encode).frameAround extended.encode).encode extended.encode := by
  have pq := symbolic_lawful (sampleBody extended.encode)
  have same := sampleBundle_frame (sampleBundle_body_ne extended.encode)
  have longer : (sampleSigned extended.encode).bundle.frame.withField tagSpqrChunk [7] = extended :=
    congrArg (fun frame => frame.withField tagSpqrChunk [7]) same
  have reads : PrekeyBundle.Reads ((sampleSigned extended.encode).bundle.frame.withField tagSpqrChunk [7])
      (sampleSigned extended.encode).bundle :=
    (sameKnown_withField (by decide) _ _).bundle (PrekeyBundle.frame_reads pq (sampleSigned_bundled _))
  rw [longer] at reads
  exact sampleSigned_decodes ((PrekeyBundle.frame_fits _).withField (by decide)) extended_small reads

/-- The added field is not in the bundle's own encoding. -/
theorem extended_ne : extended.encode ≠ (sampleSigned extended.encode).bundle.encode := by
  have same := sampleBundle_frame (sampleBundle_body_ne extended.encode)
  intro canonical
  have frames : extended = (sampleBundle []).frame := (Frame.encode_injective canonical).trans same
  have lengths := congrArg (fun frame => frame.fields.length) frames
  simp [extended, Frame.withField] at lengths

/-- That invite parses, and what it is written out to does not. -/
theorem reencoding_breaks :
    Invite.decode (symbolic (sampleBody extended.encode)) ((sampleSigned extended.encode).frameAround extended.encode).encode =
        .ok (sampleSigned extended.encode) ∧
      ∀ again, Invite.decode (symbolic (sampleBody extended.encode)) (sampleSigned extended.encode).encode ≠ .ok again := by
  obtain ⟨decoded, embedded⟩ := extended_decodes
  refine ⟨decoded, fun again reparsed => extended_ne ?_⟩
  exact canonical_of_accepted (symbolic_lawful (sampleBody extended.encode)) (sampleSigned_length extended_small) decoded
    embedded (sampleSigned_binds extended.encode) reparsed

end

end Buh.Handshake.Reencoding
