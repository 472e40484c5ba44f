import Mathlib.Data.Finmap
import Buh.Ratchet.Message
import Buh.Ratchet.Chain

/-! The Double Ratchet session of `ratchet/mod.rs`. Calls that mutate `self` return
the state they leave behind next to their result, because an error does not undo
what was done before it. A fresh X25519 secret is an argument of the call that
draws it. -/

namespace Buh.Ratchet.State
open Buh.Wire.Codec Buh.Wire.V1 Buh.Crypto.Primitives Buh.Ratchet.Message Buh.Ratchet.Chain

def maxSkip : UInt32 := 1000
def maxStoredSkipped : Nat := 2000

/-- The banked message keys, by ratchet key and message number. -/
abbrev Skipped (S : Suite) := Finmap (fun _ : Bytes32 × UInt32 => S.Key)

structure RatchetState (S : Suite) where
  dhs : Bytes32
  dhsPub : Bytes32
  dhr : Option Bytes32
  rk : S.Key
  cks : Option S.Key
  ckr : Option S.Key
  ns : UInt32
  nr : UInt32
  pn : UInt32
  skipped : Skipped S

/-- `u32::saturating_add` -/
def saturatingAdd (value delta : UInt32) : UInt32 :=
  if value.toNat + delta.toNat < 2 ^ 32 then value + delta else 0xffffffff

/-- Derive the AEAD key and nonce from a message key and open the ciphertext. -/
def openMessage (S : Suite) (mk : S.Key) (aad ciphertext : Bytes) : Except CryptoError Bytes :=
  aeadOpen S (messageKeys S mk).1 (messageKeys S mk).2 aad ciphertext

/-- The sealing counterpart inside `encrypt`. -/
def sealMessage (S : Suite) (mk : S.Key) (aad plaintext : Bytes) : Except CryptoError Bytes :=
  aeadSeal S (messageKeys S mk).1 (messageKeys S mk).2 aad plaintext

namespace RatchetState
variable {S : Suite}

def initiator (root : S.Key) (remoteRatchetKey generated : Bytes32) : RatchetState S :=
  let derived := kdfRk S root (S.diffieHellman generated remoteRatchetKey)
  { dhs := generated, dhsPub := S.publicKey generated, dhr := some remoteRatchetKey,
    rk := derived.1, cks := some derived.2, ckr := none, ns := 0, nr := 0, pn := 0, skipped := ∅ }

def responder (root : S.Key) (ratchetKey : Bytes32) : RatchetState S :=
  { dhs := ratchetKey, dhsPub := S.publicKey ratchetKey, dhr := none,
    rk := root, cks := none, ckr := none, ns := 0, nr := 0, pn := 0, skipped := ∅ }

/-- The header of the next message to be sent. -/
def nextHeader (s : RatchetState S) : Header := ⟨s.dhsPub, s.pn, s.ns⟩

/-- The message key of the next message to be sent. -/
def sendKey (s : RatchetState S) : Option S.Key := s.cks.map (fun ck => (kdfCk S ck).2)

def encrypt (s : RatchetState S) (plaintext : Bytes) : RatchetState S × Except CryptoError Bytes :=
  match s.cks with
  | none => (s, .error (.ratchet "no sending chain yet"))
  | some ck =>
    let header := s.nextHeader
    let after := { s with cks := some (kdfCk S ck).1, ns := s.ns + 1 }
    match sealMessage S (kdfCk S ck).2 (toAad header) plaintext with
    | .error e => (after, .error e)
    | .ok ciphertext => (after, .ok (messageFrame header ciphertext).encode)

/-- The `while self.nr < until` loop with its remaining iterations; `ck` is the
chain key the previous iteration stored. -/
def skipLoop (dhr : Bytes32) : Nat → S.Key → RatchetState S → RatchetState S × Except CryptoError Unit
  | 0, _, s => (s, .ok ())
  | count + 1, ck, s =>
    let s := { s with ckr := some (kdfCk S ck).1 }
    if maxStoredSkipped ≤ s.skipped.keys.card then
      (s, .error (.ratchet "skipped-key store full"))
    else
      skipLoop dhr count (kdfCk S ck).1
        { s with skipped := s.skipped.insert (dhr, s.nr) (kdfCk S ck).2, nr := s.nr + 1 }

/-- Advance the receiving chain up to `upto`, banking each skipped message key. -/
def skipMessageKeys (s : RatchetState S) (upto : UInt32) :
    RatchetState S × Except CryptoError Unit :=
  match s.dhr with
  | none => (s, .ok ())
  | some dhr =>
    match s.ckr with
    | none => (s, .ok ())
    | some ck =>
      if saturatingAdd s.nr maxSkip < upto then
        (s, .error (.ratchet "too many skipped messages"))
      else skipLoop dhr (upto.toNat - s.nr.toNat) ck s

/-- The two outputs of each `kdf_rk` call that turning the ratchet makes: first the
receiving chain under the old secret, then the sending chain under the new one. -/
def turnOutputs (s : RatchetState S) (header : Header) (generated : Bytes32) :
    (S.Key × S.Key) × (S.Key × S.Key) :=
  let receiving := kdfRk S s.rk (S.diffieHellman s.dhs header.dh)
  (receiving, kdfRk S receiving.1 (S.diffieHellman generated header.dh))

def dhRatchet (s : RatchetState S) (header : Header) (generated : Bytes32) : RatchetState S :=
  let derived := s.turnOutputs header generated
  { s with
    pn := s.ns, ns := 0, nr := 0, dhr := some header.dh, ckr := some derived.1.2,
    dhs := generated, dhsPub := S.publicKey generated, rk := derived.2.1, cks := some derived.2.2 }

/-- Step 2 of `decrypt`: a new ratchet key banks the rest of the receiving chain and
turns the ratchet. -/
def turnIfNew (s : RatchetState S) (header : Header) (generated : Bytes32) :
    RatchetState S × Except CryptoError Unit :=
  if s.dhr = some header.dh then (s, .ok ())
  else
    match s.skipMessageKeys header.pn with
    | (s, .error e) => (s, .error e)
    | (s, .ok ()) => (s.dhRatchet header generated, .ok ())

/-- Steps 3 and 4 of `decrypt`: skip forward to the message's number and take its key
from the receiving chain. -/
def chainKey (s : RatchetState S) (n : UInt32) : RatchetState S × Except CryptoError S.Key :=
  match s.skipMessageKeys n with
  | (s, .error e) => (s, .error e)
  | (s, .ok ()) =>
    match s.ckr with
    | none => (s, .error (.ratchet "no receiving chain"))
    | some ck => ({ s with ckr := some (kdfCk S ck).1, nr := s.nr + 1 }, .ok (kdfCk S ck).2)

/-- `decrypt` up to the opening of the ciphertext, which is the last thing it does on
either path. -/
def receiveKey (s : RatchetState S) (header : Header) (generated : Bytes32) :
    RatchetState S × Except CryptoError S.Key :=
  match s.skipped.lookup (header.dh, header.n) with
  | some key => ({ s with skipped := s.skipped.erase (header.dh, header.n) }, .ok key)
  | none =>
    match s.turnIfNew header generated with
    | (s, .error e) => (s, .error e)
    | (s, .ok ()) => s.chainKey header.n

def decrypt (s : RatchetState S) (generated : Bytes32) (message : Bytes) :
    RatchetState S × Except CryptoError Bytes :=
  match parseMessage message with
  | .error e => (s, .error e)
  | .ok (header, ciphertext) =>
    match s.receiveKey header generated with
    | (s, .error e) => (s, .error e)
    | (s, .ok key) => (s, openMessage S key (toAad header) ciphertext)

/-- The message key `decrypt` opens the ciphertext with, when it gets that far. -/
def openKey (s : RatchetState S) (generated : Bytes32) (message : Bytes) : Option S.Key :=
  match parseMessage message with
  | .error _ => none
  | .ok (header, _) => (s.receiveKey header generated).2.toOption

/-! What each call can do, once. -/

theorem encrypt_ok {s after : RatchetState S} {plaintext message : Bytes}
    (call : s.encrypt plaintext = (after, .ok message)) :
    ∃ ck ciphertext, s.cks = some ck ∧
      after = { s with cks := some (kdfCk S ck).1, ns := s.ns + 1 } ∧
      sealMessage S (kdfCk S ck).2 (toAad s.nextHeader) plaintext = .ok ciphertext ∧
      message = (messageFrame s.nextHeader ciphertext).encode := by
  unfold encrypt at call
  split at call
  · cases call
  · next ck chain =>
    dsimp only at call
    split at call
    · cases call
    · next ciphertext sealed =>
      cases call
      exact ⟨ck, ciphertext, chain, rfl, sealed, rfl⟩

theorem encrypt_error {s after : RatchetState S} {plaintext : Bytes} {e : CryptoError}
    (call : s.encrypt plaintext = (after, .error e)) :
    after = s ∨ ∃ ck, s.cks = some ck ∧
      after = { s with cks := some (kdfCk S ck).1, ns := s.ns + 1 } := by
  unfold encrypt at call
  split at call
  · cases call
    exact Or.inl rfl
  · next ck chain =>
    dsimp only at call
    split at call <;> cases call
    exact Or.inr ⟨ck, chain, rfl⟩

theorem chainKey_ok {s after : RatchetState S} {n : UInt32} {key : S.Key}
    (call : s.chainKey n = (after, .ok key)) :
    ∃ middle ck, s.skipMessageKeys n = (middle, .ok ()) ∧ middle.ckr = some ck ∧ key = (kdfCk S ck).2 ∧
      after = { middle with ckr := some (kdfCk S ck).1, nr := middle.nr + 1 } := by
  unfold chainKey at call
  split at call
  · cases call
  · next middle skipped =>
    split at call
    · cases call
    · next ck chain =>
      cases call
      exact ⟨middle, ck, skipped, chain, rfl, rfl⟩

/-- The three ways to a message key: from the bank, from the current receiving chain, or
from the one that turning the ratchet starts. -/
theorem receiveKey_ok {s after : RatchetState S} {header : Header} {generated : Bytes32} {key : S.Key}
    (call : s.receiveKey header generated = (after, .ok key)) :
    (s.skipped.lookup (header.dh, header.n) = some key ∧
        after = { s with skipped := s.skipped.erase (header.dh, header.n) }) ∨
      (s.skipped.lookup (header.dh, header.n) = none ∧ s.dhr = some header.dh ∧
        s.chainKey header.n = (after, .ok key)) ∨
      (s.skipped.lookup (header.dh, header.n) = none ∧ s.dhr ≠ some header.dh ∧
        ∃ middle, s.skipMessageKeys header.pn = (middle, .ok ()) ∧
          (middle.dhRatchet header generated).chainKey header.n = (after, .ok key)) := by
  unfold receiveKey at call
  split at call
  · next found =>
    cases call
    exact Or.inl ⟨found, rfl⟩
  · next absent =>
    unfold turnIfNew at call
    split_ifs at call with current
    · exact Or.inr (Or.inl ⟨absent, current, call⟩)
    · cases skipped : s.skipMessageKeys header.pn with
      | mk middle answer =>
        cases answer with
        | error e => simp [skipped] at call
        | ok done =>
          simp only [skipped] at call
          exact Or.inr (Or.inr ⟨absent, current, middle, rfl, call⟩)

theorem decrypt_ok {s after : RatchetState S} {generated : Bytes32} {message plaintext : Bytes}
    (call : s.decrypt generated message = (after, .ok plaintext)) :
    ∃ header ciphertext key, parseMessage message = .ok (header, ciphertext) ∧
      s.receiveKey header generated = (after, .ok key) ∧
      openMessage S key (toAad header) ciphertext = .ok plaintext ∧
      s.openKey generated message = some key := by
  unfold decrypt at call
  split at call
  · cases call
  · next header ciphertext parsed =>
    split at call
    · cases call
    · next middle key received =>
      simp only [Prod.mk.injEq] at call
      obtain ⟨rfl, opened⟩ := call
      exact ⟨header, ciphertext, key, parsed, received, opened, by simp [openKey, parsed, received, Except.toOption]⟩

/-- The same, with the key it is known to have opened the ciphertext with. -/
theorem decrypt_used {s after : RatchetState S} {generated : Bytes32} {message plaintext : Bytes} {key : S.Key}
    (call : s.decrypt generated message = (after, .ok plaintext))
    (used : s.openKey generated message = some key) :
    ∃ header ciphertext, parseMessage message = .ok (header, ciphertext) ∧
      s.receiveKey header generated = (after, .ok key) ∧
      openMessage S key (toAad header) ciphertext = .ok plaintext := by
  obtain ⟨header, ciphertext, other, parsed, received, opened, same⟩ := decrypt_ok call
  rw [same, Option.some.injEq] at used
  subst used
  exact ⟨header, ciphertext, parsed, received, opened⟩

theorem decrypt_received {s after : RatchetState S} {generated : Bytes32} {message : Bytes} {header : Header}
    {ciphertext : Bytes} {key : S.Key} (parsed : parseMessage message = .ok (header, ciphertext))
    (received : s.receiveKey header generated = (after, .ok key)) :
    s.decrypt generated message = (after, openMessage S key (toAad header) ciphertext) := by
  simp only [decrypt, parsed, received]

/-- Whatever `decrypt` answers, its state is the one that looking up the message key
left behind, or the one it started with when the bytes are no message. -/
theorem decrypt_parsed {s : RatchetState S} {generated : Bytes32} {message : Bytes} {header : Header}
    {ciphertext : Bytes} (parsed : parseMessage message = .ok (header, ciphertext)) :
    (s.decrypt generated message).1 = (s.receiveKey header generated).1 := by
  rw [decrypt, parsed]
  dsimp only
  split <;> next received => rw [received]

theorem decrypt_state (s : RatchetState S) (generated : Bytes32) (message : Bytes) :
    (s.decrypt generated message).1 = s ∨
      ∃ header, (s.decrypt generated message).1 = (s.receiveKey header generated).1 := by
  cases parsed : parseMessage message with
  | error e =>
    rw [decrypt, parsed]
    exact Or.inl rfl
  | ok content => exact Or.inr ⟨content.1, decrypt_parsed parsed⟩

end RatchetState

end Buh.Ratchet.State
