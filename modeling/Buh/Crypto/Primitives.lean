import Buh.Library.Fallible
import Buh.Wire.V1

/-! The primitives the session code rests on, as a parameter of the model: X25519
(`kem.rs`), HKDF-SHA256 as `ratchet/chain.rs` and `pqxdh.rs` call it, and
XChaCha20-Poly1305 (`aead.rs`). X25519 keys are the 32-byte arrays of the source.
Derived secrets are `[u8; 32]` in the source too; here their type is a parameter
with its own fixed encoding, because the idealised reading of HKDF (injective, with
outputs told apart by their labels) has no model on a finite set of keys. -/

namespace Buh.Crypto.Primitives
open Buh.Library.Fallible Buh.Library.PrefixCode Buh.Wire.Codec Buh.Wire.V1

inductive CryptoError where
  | wire (error : WireError)
  | aead
  | badSignature
  | malformed (what : String)
  | ratchet (reason : String)
  deriving DecidableEq, Repr

/-- The `?` operator on a wire result, through `From<WireError>`. -/
def liftWire {α : Type} : Except WireError α → Except CryptoError α
  | .ok value => .ok value
  | .error e => .error (.wire e)

theorem liftWire_eq_ok {α : Type} {read : Except WireError α} {value : α} :
    liftWire read = .ok value ↔ read = .ok value := by
  cases read <;> simp [liftWire]

/-- The first field under `tag` is there and parses to `value`. -/
def Carries {α : Type} (frame : Frame) (tag : UInt64) (parse : Bytes → Except CryptoError α) (value : α) : Prop :=
  ∃ bytes, frame.get tag = some bytes ∧ parse bytes = .ok value

theorem required_eq_ok {α β : Type} {frame : Frame} {tag : UInt64} {parse : Bytes → Except CryptoError α}
    {next : α → Except CryptoError β} {result : β} :
    (liftWire (frame.require tag) >>= fun bytes => parse bytes >>= next) = .ok result ↔
      ∃ value, Carries frame tag parse value ∧ next value = .ok result := by
  simp only [bind_eq_ok, liftWire_eq_ok, Frame.require_eq_ok, Carries]
  constructor
  · rintro ⟨bytes, found, value, parsed, rest⟩
    exact ⟨value, ⟨bytes, found, parsed⟩, rest⟩
  · rintro ⟨value, ⟨bytes, found, parsed⟩, rest⟩
    exact ⟨bytes, found, value, parsed, rest⟩

/-- `[u8; n]` -/
abbrev ByteArr (n : Nat) := List.Vector UInt8 n

abbrev Bytes32 := ByteArr 32

/-- `try_into` from a slice. -/
def toArr (n : Nat) (bytes : Bytes) : Option (ByteArr n) :=
  if size : bytes.length = n then some ⟨bytes, size⟩ else none

@[simp] theorem toArr_toList {n : Nat} (arr : ByteArr n) : toArr n arr.toList = some arr := by
  unfold toArr
  rw [dif_pos arr.toList_length]
  rfl

/-- The bytes of a string literal of the source. -/
def ascii (text : String) : Bytes := text.toList.map (fun c => UInt8.ofNat c.toNat)

/-- `X25519PublicKey::from_slice` -/
def publicFromSlice (bytes : Bytes) : Except CryptoError Bytes32 :=
  match toArr 32 bytes with
  | some key => .ok key
  | none => .error (.malformed "x25519 public key")

/-- Read exactly 32 bytes into an array. -/
def read32 (r : Reader) : Except WireError (Bytes32 × Reader) :=
  if enough : r.pos + 32 ≤ r.buf.length then
    .ok (⟨(r.buf.drop r.pos).take 32, by simp; omega⟩, { r with pos := r.pos + 32 })
  else .error .unexpectedEof

theorem read32_ahead {r : Reader} {rest : Bytes} (arr : Bytes32)
    (ahead : r.Ahead (arr.toList ++ rest)) :
    ∃ after, read32 r = .ok (arr, after) ∧ after.Ahead rest := by
  have size : arr.toList.length = 32 := arr.toList_length
  have total := ahead.length
  rw [List.length_append, size] at total
  refine ⟨{ r with pos := r.pos + 32 }, ?_, size ▸ ahead.advance⟩
  rw [read32, dif_pos (by omega)]
  congr 2
  apply Subtype.ext
  change (r.buf.drop r.pos).take 32 = arr.toList
  rw [ahead.2, List.take_left' size]

structure Suite where
  /-- A derived secret: root key, chain key, message key, AEAD key or DH output. -/
  Key : Type
  keyBytes : Key → Bytes
  /-- `read_32` at the type of derived secrets. -/
  readKey : Reader → Except WireError (Key × Reader)
  /-- The public half of an X25519 secret. -/
  publicKey : Bytes32 → Bytes32
  diffieHellman : Bytes32 → Bytes32 → Key
  /-- An HKDF pseudo-random key. -/
  Prk : Type
  /-- `Hkdf::new(Some(salt), ikm)` -/
  hkdfExtract : Bytes → Bytes → Prk
  /-- `Hkdf::from_prk` -/
  hkdfFromPrk : Key → Prk
  /-- The given 32-byte block of `expand(info)`. -/
  hkdfExpand : Prk → Bytes → Nat → Key
  /-- `XChaCha20Poly1305::encrypt` by key, nonce, additional data and message. -/
  aeadEncrypt : Key → Bytes → Bytes → Bytes → Option Bytes
  aeadDecrypt : Key → Bytes → Bytes → Bytes → Option Bytes

/-- What the code relies on for its own operations to work. -/
structure Lawful (S : Suite) : Prop where
  read_key : ∀ {r : Reader} {rest : Bytes} (key : S.Key), r.Ahead (S.keyBytes key ++ rest) →
    ∃ after, S.readKey r = .ok (key, after) ∧ after.Ahead rest
  dh_comm : ∀ first second : Bytes32, S.diffieHellman first (S.publicKey second) =
    S.diffieHellman second (S.publicKey first)
  decrypt_encrypt : ∀ {key : S.Key} {nonce aad message ciphertext : Bytes},
    S.aeadEncrypt key nonce aad message = some ciphertext →
      S.aeadDecrypt key nonce aad ciphertext = some message
  /-- XChaCha20-Poly1305 refuses messages past 2^38 bytes. -/
  ciphertext_fits : ∀ {key : S.Key} {nonce aad message ciphertext : Bytes},
    S.aeadEncrypt key nonce aad message = some ciphertext → ciphertext.length < 2 ^ 64

theorem Lawful.keyBytes_prefixFree {S : Suite} (lawful : Lawful S) : PrefixFree S.keyBytes := by
  intro first second rest other same
  have ahead := Reader.ahead_new (S.keyBytes first ++ rest)
  obtain ⟨r₁, firstRead, firstAhead⟩ := lawful.read_key first ahead
  rw [same] at ahead firstRead
  obtain ⟨r₂, secondRead, secondAhead⟩ := lawful.read_key second ahead
  have read := Except.ok.inj (firstRead.symm.trans secondRead)
  obtain ⟨rfl, rfl⟩ := Prod.mk.inj read
  exact ⟨rfl, firstAhead.2.symm.trans secondAhead.2⟩

/-- Symbolic cryptography: HKDF is a free constructor, Diffie-Hellman outputs are
not HKDF outputs and come from one pair of keys only, and the AEAD opens what was
sealed under the same key, nonce and additional data and nothing else. -/
structure Ideal (S : Suite) : Prop extends Lawful S where
  extract_inj : ∀ {salt salt' ikm ikm' : Bytes},
    S.hkdfExtract salt ikm = S.hkdfExtract salt' ikm' → salt = salt' ∧ ikm = ikm'
  fromPrk_inj : ∀ {key key' : S.Key}, S.hkdfFromPrk key = S.hkdfFromPrk key' → key = key'
  expand_inj : ∀ {prk prk' : S.Prk} {info info' : Bytes} {block block' : Nat},
    S.hkdfExpand prk info block = S.hkdfExpand prk' info' block' →
      prk = prk' ∧ info = info' ∧ block = block'
  dh_not_expand : ∀ (secret pub : Bytes32) (prk : S.Prk) (info : Bytes) (block : Nat),
    S.diffieHellman secret pub ≠ S.hkdfExpand prk info block
  dh_free : ∀ {secret secret' pub pub' : Bytes32},
    S.diffieHellman secret pub = S.diffieHellman secret' pub' →
      (S.publicKey secret = S.publicKey secret' ∧ pub = pub') ∨
        (S.publicKey secret = pub' ∧ pub = S.publicKey secret')
  encrypt_inj : ∀ {key key' : S.Key} {nonce nonce' aad aad' message message' ciphertext : Bytes},
    S.aeadEncrypt key nonce aad message = some ciphertext →
      S.aeadEncrypt key' nonce' aad' message' = some ciphertext →
      key = key' ∧ nonce = nonce' ∧ aad = aad' ∧ message = message'
  encrypt_decrypt : ∀ {key : S.Key} {nonce aad ciphertext message : Bytes},
    S.aeadDecrypt key nonce aad ciphertext = some message →
      S.aeadEncrypt key nonce aad message = some ciphertext

theorem Lawful.keyBytes_inj {S : Suite} (lawful : Lawful S) : Function.Injective S.keyBytes := by
  intro first second same
  have ahead := Reader.ahead_new (S.keyBytes first)
  rw [← List.append_nil (S.keyBytes first)] at ahead
  obtain ⟨_, firstRead, _⟩ := lawful.read_key first ahead
  rw [same] at ahead
  obtain ⟨_, secondRead, _⟩ := lawful.read_key second ahead
  rw [same, secondRead] at firstRead
  cases firstRead
  rfl

/-- `aead::seal` -/
def aeadSeal (S : Suite) (key : S.Key) (nonce aad plaintext : Bytes) : Except CryptoError Bytes :=
  match S.aeadEncrypt key nonce aad plaintext with
  | some ciphertext => .ok ciphertext
  | none => .error .aead

/-- `aead::open` -/
def aeadOpen (S : Suite) (key : S.Key) (nonce aad ciphertext : Bytes) : Except CryptoError Bytes :=
  match S.aeadDecrypt key nonce aad ciphertext with
  | some plaintext => .ok plaintext
  | none => .error .aead

theorem aeadSeal_eq_ok {S : Suite} {key : S.Key} {nonce aad plaintext ciphertext : Bytes} :
    aeadSeal S key nonce aad plaintext = .ok ciphertext ↔
      S.aeadEncrypt key nonce aad plaintext = some ciphertext := by
  unfold aeadSeal
  split
  · next found => rw [found]; simp
  · next missing => rw [missing]; simp

theorem aeadOpen_eq_ok {S : Suite} {key : S.Key} {nonce aad plaintext ciphertext : Bytes} :
    aeadOpen S key nonce aad ciphertext = .ok plaintext ↔
      S.aeadDecrypt key nonce aad ciphertext = some plaintext := by
  unfold aeadOpen
  split
  · next found => rw [found]; simp
  · next missing => rw [missing]; simp

end Buh.Crypto.Primitives
