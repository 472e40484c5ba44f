import Buh.Crypto.Symbolic
import Buh.Wire.Truncation
import Buh.Ratchet.Persist
import Buh.Handshake.Invitation
import Buh.Handshake.Pqxdh

/-! Truncated messages and blobs. The four frames end in the field that their decoder asks
for last, so a cut takes that field first. The two stored blobs are read in the order they
were written, up to their last byte. -/

namespace Buh.Client.Truncation
open Buh.Library.Fallible Buh.Library.PrefixCode Buh.Wire.Codec Buh.Wire.V1 Buh.Wire.Truncation
  Buh.Crypto.Primitives Buh.Crypto.PostQuantum Buh.Ratchet.Message Buh.Ratchet.Chain Buh.Ratchet.State
  Buh.Ratchet.Persist Buh.Handshake.Prekey Buh.Handshake.Pqxdh Buh.Handshake.Invitation

theorem error_of_ne_ok {ε α : Type} {result : Except ε α} (refused : ∀ value, result ≠ .ok value) :
    ∃ e, result = .error e := by
  cases result with
  | error e => exact ⟨e, rfl⟩
  | ok value => exact absurd rfl (refused value)

/-- A decoder that asks for the last field of a frame refuses the frame cut off. -/
theorem carries_cut {α : Type} {front read : Frame} {tag : UInt64} {value present : Bytes}
    {parse : Bytes → Except CryptoError α} {parsed : α} (fresh : front.get tag = none)
    (cut : CutOff present (front.withField tag value).encode) (decoded : Frame.decode present = .ok read) :
    ¬Carries read tag parse parsed := by
  rintro ⟨bytes, found, -⟩
  rw [get_cut fresh cut decoded] at found
  cases found

theorem toList_prefixFree {n : Nat} : PrefixFree (List.Vector.toList : ByteArr n → Bytes) := by
  intro first second rest other same
  obtain ⟨arrays, rests⟩ := List.append_inj same (by rw [List.Vector.toList_length, List.Vector.toList_length])
  exact ⟨List.Vector.toList_injective arrays, rests⟩

theorem read32_reads : ReadsCode List.Vector.toList read32 := by
  intro r after bytes value ahead read
  have slice : r.readBytes 32 = .ok (value.toList, after) := by
    unfold read32 at read
    split_ifs at read with enough
    cases read
    rw [Reader.readBytes, if_pos enough]
    rfl
  obtain ⟨rest, split, -, behind⟩ := ahead.of_readBytes slice
  exact ⟨rest, split, behind⟩

section
variable {S : Suite}

theorem sees_readU32From {r after : Reader} {missing rest : Bytes} {written value : UInt32}
    (sees : Sees r missing (u32Bytes written ++ rest)) (read : readU32From r = .ok (value, after)) :
    value = written ∧ Sees after missing rest := by
  unfold readU32From at read
  obtain ⟨⟨bytes, r'⟩, taken, read⟩ := bind_eq_ok.mp read
  obtain ⟨number, parsed, read⟩ := bind_eq_ok.mp read
  cases read
  obtain ⟨rfl, sees⟩ := sees.readBytes (u32Bytes_length written) (liftWire_eq_ok.mp taken)
  rw [readU32_u32Bytes] at parsed
  cases parsed
  exact ⟨rfl, sees⟩

theorem sees_readFlagged {α : Type} {code : α → Bytes} {read : Reader → Except WireError (α × Reader)}
    (free : PrefixFree code) (reads : ReadsCode code read) {r after : Reader} {missing rest : Bytes}
    {written value : Option α} {flag : UInt8} (set : flag ≠ 0 ↔ written.isSome)
    (sees : Sees r missing (optionBytes code written ++ rest)) (found : readFlagged flag read r = .ok (value, after)) :
    value = written ∧ Sees after missing rest := by
  unfold readFlagged at found
  cases written with
  | none =>
    rw [if_neg (by simpa using set)] at found
    cases found
    exact ⟨rfl, sees⟩
  | some written =>
    rw [if_pos (by simpa using set)] at found
    obtain ⟨⟨value, r'⟩, taken, found⟩ := bind_eq_ok.mp found
    cases found
    obtain ⟨same, behind⟩ := sees.readCode free reads (liftWire_eq_ok.mp taken)
    exact ⟨congrArg some same, behind⟩

/-- Reading all the banked entries takes all their bytes. -/
theorem readEntries_cut (lawful : Lawful S) (keys : ReadsCode S.keyBytes S.readKey)
    (entries : List ((Bytes32 × UInt32) × S.Key)) {r : Reader} {missing : Bytes} {bank out : Skipped S}
    (sees : Sees r missing (entries.flatMap entryBytes)) (read : readEntries entries.length r bank = .ok out) :
    missing = [] := by
  induction entries generalizing r bank with
  | nil => exact sees.nothing
  | cons entry entries ih =>
    simp only [List.flatMap_cons, entryBytes, List.append_assoc] at sees
    rw [List.length_cons, readEntries] at read
    obtain ⟨⟨dh, r₁⟩, read₁, read⟩ := bind_eq_ok.mp read
    obtain ⟨-, sees⟩ := sees.readCode toList_prefixFree read32_reads (liftWire_eq_ok.mp read₁)
    obtain ⟨⟨n, r₂⟩, read₂, read⟩ := bind_eq_ok.mp read
    obtain ⟨-, sees⟩ := sees_readU32From sees read₂
    obtain ⟨⟨mk, r₃⟩, read₃, read⟩ := bind_eq_ok.mp read
    obtain ⟨-, sees⟩ := sees.readCode lawful.keyBytes_prefixFree keys (liftWire_eq_ok.mp read₃)
    exact ih sees read

/-- A session cut off does not load, whatever was banked in it. -/
theorem fromBytes_cut (lawful : Lawful S) (keys : ReadsCode S.keyBytes S.readKey) {s loaded : RatchetState S}
    {present : Bytes} (cut : CutOff present (toBytes s)) : fromBytes S present ≠ .ok loaded := by
  have free := lawful.keyBytes_prefixFree
  intro read
  obtain ⟨missing, some_, sees⟩ := cut.sees
  unfold toBytes at sees
  unfold fromBytes at read
  obtain ⟨⟨version, r₁⟩, read₁, read⟩ := bind_eq_ok.mp read
  obtain ⟨-, sees⟩ := sees.readU8 (liftWire_eq_ok.mp read₁)
  obtain ⟨-, read⟩ := guard_eq_ok.mp read
  obtain ⟨⟨dhs, r₂⟩, read₂, read⟩ := bind_eq_ok.mp read
  obtain ⟨-, sees⟩ := sees.readCode toList_prefixFree read32_reads (liftWire_eq_ok.mp read₂)
  obtain ⟨⟨flags, r₃⟩, read₃, read⟩ := bind_eq_ok.mp read
  obtain ⟨rfl, sees⟩ := sees.readU8 (liftWire_eq_ok.mp read₃)
  obtain ⟨⟨dhr, r₄⟩, read₄, read⟩ := bind_eq_ok.mp read
  obtain ⟨-, sees⟩ := sees_readFlagged toList_prefixFree read32_reads (stateFlags_dhr s) sees read₄
  obtain ⟨⟨rk, r₅⟩, read₅, read⟩ := bind_eq_ok.mp read
  obtain ⟨-, sees⟩ := sees.readCode free keys (liftWire_eq_ok.mp read₅)
  obtain ⟨⟨cks, r₆⟩, read₆, read⟩ := bind_eq_ok.mp read
  obtain ⟨-, sees⟩ := sees_readFlagged free keys (stateFlags_cks s) sees read₆
  obtain ⟨⟨ckr, r₇⟩, read₇, read⟩ := bind_eq_ok.mp read
  obtain ⟨-, sees⟩ := sees_readFlagged free keys (stateFlags_ckr s) sees read₇
  obtain ⟨⟨ns, r₈⟩, read₈, read⟩ := bind_eq_ok.mp read
  obtain ⟨-, sees⟩ := sees_readU32From sees read₈
  obtain ⟨⟨nr, r₉⟩, read₉, read⟩ := bind_eq_ok.mp read
  obtain ⟨-, sees⟩ := sees_readU32From sees read₉
  obtain ⟨⟨pn, r₁₀⟩, read₁₀, read⟩ := bind_eq_ok.mp read
  obtain ⟨-, sees⟩ := sees_readU32From sees read₁₀
  obtain ⟨⟨count, r₁₁⟩, read₁₁, read⟩ := bind_eq_ok.mp read
  obtain ⟨counted, sees⟩ := sees.readVarint (liftWire_eq_ok.mp read₁₁)
  obtain ⟨-, read⟩ := guard_eq_ok.mp read
  obtain ⟨bank, entries, -⟩ := bind_eq_ok.mp read
  rw [counted, ← sortedEntries_length] at entries
  exact some_ (readEntries_cut lawful keys (sortedEntries s.skipped) sees entries)

variable {P : Schemes S}

theorem secrets_cut {secrets loaded : PrekeySecrets P} {present : Bytes} (cut : CutOff present secrets.toBytes) :
    PrekeySecrets.fromBytes P present ≠ .ok loaded := by
  intro read
  obtain ⟨missing, some_, sees⟩ := cut.sees
  unfold PrekeySecrets.toBytes at sees
  unfold PrekeySecrets.fromBytes at read
  obtain ⟨⟨version, r₁⟩, read₁, read⟩ := bind_eq_ok.mp read
  obtain ⟨-, sees⟩ := sees.readU8 (liftWire_eq_ok.mp read₁)
  obtain ⟨-, read⟩ := guard_eq_ok.mp read
  obtain ⟨⟨signedPrekey, r₂⟩, read₂, read⟩ := bind_eq_ok.mp read
  obtain ⟨-, sees⟩ := sees.readCode toList_prefixFree read32_reads (liftWire_eq_ok.mp read₂)
  obtain ⟨⟨seed, r₃⟩, read₃, read⟩ := bind_eq_ok.mp read
  obtain ⟨-, sees⟩ := sees.readBytes (P.decapsulationBytes_length secrets.kemSecret) (liftWire_eq_ok.mp read₃)
  obtain ⟨kemSecret, -, read⟩ := bind_eq_ok.mp read
  obtain ⟨⟨flag, r₄⟩, read₄, read⟩ := bind_eq_ok.mp read
  obtain ⟨spk, kem, opk⟩ := secrets
  cases opk with
  | none =>
    obtain ⟨-, sees⟩ := sees.readU8 (liftWire_eq_ok.mp read₄)
    exact some_ sees.nothing
  | some opk =>
    obtain ⟨rfl, sees⟩ := sees.readU8 (liftWire_eq_ok.mp read₄)
    -- The flag is set, so the key behind it is read.
    obtain ⟨⟨oneTime, r₅⟩, read₅, -⟩ := bind_eq_ok.mp read
    rw [← List.append_nil opk.toList] at sees
    obtain ⟨-, sees⟩ := sees.readCode toList_prefixFree read32_reads (liftWire_eq_ok.mp read₅)
    exact some_ sees.nothing

theorem initial_cut {message read : InitialMessage P} {present : Bytes} (cut : CutOff present message.encode) :
    InitialMessage.decode P present ≠ .ok read := by
  intro decoded
  obtain ⟨frame, parsed, reads⟩ := InitialMessage.decode_eq_ok.mp decoded
  exact carries_cut rfl cut parsed reads.signature

theorem bundle_cut {bundle read : PrekeyBundle P} {present : Bytes} (cut : CutOff present bundle.encode) :
    PrekeyBundle.decode P present ≠ .ok read := by
  intro decoded
  obtain ⟨frame, parsed, reads⟩ := PrekeyBundle.decode_eq_ok.mp decoded
  have fresh : (keysFrame P prekeyContext bundle.identity bundle.signedPrekey (P.encapsulationBytes bundle.kemKey)
      bundle.oneTimePrekey).get tagSignature = none := by
    cases bundle.oneTimePrekey <;> rfl
  exact carries_cut fresh cut parsed reads.signature

theorem invite_cut {invite read : Invite P} {present : Bytes} (cut : CutOff present invite.encode) :
    Invite.decode P present ≠ .ok read := by
  intro decoded
  obtain ⟨frame, parsed, carried, inner, inviter, deadline, reads⟩ := Invite.decode_eq_ok.mp decoded
  exact carries_cut rfl cut parsed reads.signature

theorem parseMessage_cut {header : Header} {ciphertext present : Bytes} {content : Header × Bytes}
    (cut : CutOff present (messageFrame header ciphertext).encode) : parseMessage present ≠ .ok content := by
  intro parsed
  unfold parseMessage at parsed
  obtain ⟨frame, decoded, parsed⟩ := bind_eq_ok.mp parsed
  obtain ⟨dh, -, parsed⟩ := required_eq_ok.mp parsed
  obtain ⟨pn, -, parsed⟩ := required_eq_ok.mp parsed
  obtain ⟨n, -, parsed⟩ := required_eq_ok.mp parsed
  obtain ⟨sealed, found, -⟩ := bind_eq_ok.mp parsed
  have carried := Frame.require_eq_ok.mp (liftWire_eq_ok.mp found)
  have fresh : (headerFrame header).get tagCiphertext = none := rfl
  rw [get_cut fresh cut (liftWire_eq_ok.mp decoded)] at carried
  cases carried

/-- The receiver has touched nothing when it finds that the ciphertext is missing. -/
theorem decrypt_cut {sender after receiver : RatchetState S} {plaintext message present : Bytes}
    (sent : sender.encrypt plaintext = (after, .ok message)) (cut : CutOff present message) (generated : Bytes32) :
    ∃ e, receiver.decrypt generated present = (receiver, .error e) := by
  obtain ⟨ck, ciphertext, -, -, -, rfl⟩ := RatchetState.encrypt_ok sent
  obtain ⟨e, failed⟩ := error_of_ne_ok fun _ => parseMessage_cut cut
  exact ⟨e, by rw [RatchetState.decrypt, failed]⟩

/-- Whatever is cut off the end of a message, a first flight, a bundle, an invite or either
stored blob, its decoder answers with an error; and a receiver keeps its state. -/
theorem truncation_detected (lawful : Lawful S) (keys : ReadsCode S.keyBytes S.readKey) :
    (∀ (sender : RatchetState S) plaintext after message, sender.encrypt plaintext = (after, .ok message) →
      ∀ present, CutOff present message → ∀ (receiver : RatchetState S) generated,
        ∃ e, receiver.decrypt generated present = (receiver, .error e)) ∧
    (∀ s : RatchetState S, ∀ present, CutOff present (toBytes s) → ∃ e, fromBytes S present = .error e) ∧
    ∀ P : Schemes S,
      (∀ message : InitialMessage P, ∀ present, CutOff present message.encode →
        ∃ e, InitialMessage.decode P present = .error e) ∧
      (∀ bundle : PrekeyBundle P, ∀ present, CutOff present bundle.encode →
        ∃ e, PrekeyBundle.decode P present = .error e) ∧
      (∀ invite : Invite P, ∀ present, CutOff present invite.encode → ∃ e, Invite.decode P present = .error e) ∧
      ∀ secrets : PrekeySecrets P, ∀ present, CutOff present secrets.toBytes →
        ∃ e, PrekeySecrets.fromBytes P present = .error e := by
  refine ⟨?_, ?_, fun P => ⟨?_, ?_, ?_, ?_⟩⟩
  · intro sender plaintext after message sent present cut receiver generated
    exact decrypt_cut sent cut generated
  · exact fun s present cut => error_of_ne_ok fun loaded => fromBytes_cut lawful keys cut
  · exact fun message present cut => error_of_ne_ok fun read => initial_cut cut
  · exact fun bundle present cut => error_of_ne_ok fun read => bundle_cut cut
  · exact fun invite present cut => error_of_ne_ok fun read => invite_cut cut
  · exact fun secrets present cut => error_of_ne_ok fun loaded => secrets_cut cut

end

section
open Buh.Crypto

def sampleSession : RatchetState Symbolic.arrays :=
  RatchetState.initiator (List.Vector.replicate 32 3) (List.Vector.replicate 32 5) (List.Vector.replicate 32 7)

theorem sampleSession_sends : ∃ after ciphertext,
    sampleSession.encrypt [1, 2, 3] = (after, .ok (messageFrame sampleSession.nextHeader ciphertext).encode) :=
  ⟨_, [1, 2, 3], rfl⟩

theorem cutOff_dropLast {whole : Bytes} (some_ : whole ≠ []) : CutOff whole.dropLast whole := by
  refine ⟨List.dropLast_prefix whole, fun same => ?_⟩
  have shorter := congrArg List.length same
  have long := List.length_pos_iff.mpr some_
  rw [List.length_dropLast] at shorter
  omega

/-- The schemes of the symbolic suite, with shared secrets that are arrays. -/
def sampleSchemes : Schemes Symbolic.arrays where
  SigningKey := (symbolic []).SigningKey
  VerifyingKey := (symbolic []).VerifyingKey
  Signature := (symbolic []).Signature
  fromSeed := (symbolic []).fromSeed
  verifyingKey := (symbolic []).verifyingKey
  signRandomized := (symbolic []).signRandomized
  verifyWithContext := (symbolic []).verifyWithContext
  encodeKey := (symbolic []).encodeKey
  decodeKey := (symbolic []).decodeKey
  encodeSignature := (symbolic []).encodeSignature
  decodeSignature := (symbolic []).decodeSignature
  DecapsulationKey := (symbolic []).DecapsulationKey
  EncapsulationKey := (symbolic []).EncapsulationKey
  generateKeypair := (symbolic []).generateKeypair
  decapsulationSeed := (symbolic []).decapsulationSeed
  newDecapsulation := (symbolic []).newDecapsulation
  kemEncapsulate _ randomness := (pad mlkemCiphertextLen randomness.toList, randomness)
  kemDecapsulate _ ciphertext := ⟨ciphertext.toList.take 32, by
    rw [List.length_take, ciphertext.toList_length]
    rfl⟩
  encodeEncapsulation := (symbolic []).encodeEncapsulation
  newEncapsulation := (symbolic []).newEncapsulation

def sampleIdentity : sampleSchemes.SigningKey := sampleSchemes.fromSeed (List.Vector.replicate 32 11)

def samplePrekeys : PrekeySecrets sampleSchemes × PrekeyBundle sampleSchemes :=
  PrekeyBundle.generate sampleSchemes sampleIdentity true sampleDraws

def sampleFlight : InitialMessage sampleSchemes := (initiate sampleIdentity samplePrekeys.2 sampleDrawn).1

def sampleInvite : Invite sampleSchemes :=
  Invite.create sampleIdentity ⟨List.Vector.replicate 32 1, "proxied:/v1", List.Vector.replicate 32 0⟩ samplePrekeys.2
    (List.Vector.replicate inviteNonceLen 2) 1900000000000 (List.Vector.replicate 32 13)

/-- Each of the six formats without its last byte. -/
theorem truncation_detected_sample :
    (∃ after message, sampleSession.encrypt [1, 2, 3] = (after, .ok message) ∧ CutOff message.dropLast message ∧
      ∃ e, sampleSession.decrypt (List.Vector.replicate 32 9) message.dropLast = (sampleSession, .error e)) ∧
    (CutOff (toBytes sampleSession).dropLast (toBytes sampleSession) ∧
      ∃ e, fromBytes Symbolic.arrays (toBytes sampleSession).dropLast = .error e) ∧
    (CutOff sampleFlight.encode.dropLast sampleFlight.encode ∧
      ∃ e, InitialMessage.decode sampleSchemes sampleFlight.encode.dropLast = .error e) ∧
    (CutOff samplePrekeys.2.encode.dropLast samplePrekeys.2.encode ∧
      ∃ e, PrekeyBundle.decode sampleSchemes samplePrekeys.2.encode.dropLast = .error e) ∧
    (CutOff sampleInvite.encode.dropLast sampleInvite.encode ∧
      ∃ e, Invite.decode sampleSchemes sampleInvite.encode.dropLast = .error e) ∧
    CutOff samplePrekeys.1.toBytes.dropLast samplePrekeys.1.toBytes ∧
      ∃ e, PrekeySecrets.fromBytes sampleSchemes samplePrekeys.1.toBytes.dropLast = .error e := by
  obtain ⟨messages, sessions, others⟩ := truncation_detected Symbolic.arrays_lawful read32_reads
  obtain ⟨flights, bundles, invites, secrets⟩ := others sampleSchemes
  obtain ⟨after, ciphertext, sent⟩ := sampleSession_sends
  have message := cutOff_dropLast (List.cons_ne_nil _ _ : (messageFrame sampleSession.nextHeader ciphertext).encode ≠ [])
  have session := cutOff_dropLast (List.cons_ne_nil _ _ : toBytes sampleSession ≠ [])
  have flight := cutOff_dropLast (List.cons_ne_nil _ _ : sampleFlight.encode ≠ [])
  have bundle := cutOff_dropLast (List.cons_ne_nil _ _ : samplePrekeys.2.encode ≠ [])
  have invite := cutOff_dropLast (List.cons_ne_nil _ _ : sampleInvite.encode ≠ [])
  have secret := cutOff_dropLast (List.cons_ne_nil _ _ : samplePrekeys.1.toBytes ≠ [])
  exact ⟨⟨after, _, sent, message, messages _ _ _ _ sent _ message sampleSession _⟩,
    ⟨session, sessions _ _ session⟩, ⟨flight, flights _ _ flight⟩, ⟨bundle, bundles _ _ bundle⟩,
    ⟨invite, invites _ _ invite⟩, secret, secrets _ _ secret⟩

end

end Buh.Client.Truncation
