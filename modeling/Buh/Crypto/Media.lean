import Buh.Crypto.Primitives

/-! Media files of `media.rs`: a file is sealed once under a content key of its own, and
key and nonce travel in a message. -/

namespace Buh.Crypto.Media
open Buh.Wire.Codec Buh.Wire.V1 Buh.Crypto.Primitives

def mediaAad : Bytes := ascii "buh-media-v1"

def nonceLen : Nat := 24

structure MediaKey (S : Suite) where
  key : S.Key
  nonce : ByteArr nonceLen

section
variable {S : Suite}

/-- `key ‖ nonce` -/
def MediaKey.toBytes (mediaKey : MediaKey S) : Bytes := S.keyBytes mediaKey.key ++ mediaKey.nonce.toList

/-- The length is that of a key and a nonce when these are read and nothing is left. -/
def MediaKey.fromBytes (S : Suite) (bytes : Bytes) : Except CryptoError (MediaKey S) :=
  match S.readKey (.new bytes) with
  | .error _ => .error (.malformed "media key")
  | .ok (key, r) =>
    match toArr nonceLen (r.buf.drop r.pos) with
    | none => .error (.malformed "media key")
    | some nonce => .ok ⟨key, nonce⟩

/-- What `MediaKey::generate` draws is an argument, and there is no result where the source
panics. -/
def sealMedia (drawn : MediaKey S) (plaintext : Bytes) : Option (MediaKey S × Bytes) :=
  match aeadSeal S drawn.key drawn.nonce.toList mediaAad plaintext with
  | .ok ciphertext => some (drawn, ciphertext)
  | .error _ => none

def openMedia (mediaKey : MediaKey S) (ciphertext : Bytes) : Except CryptoError Bytes :=
  aeadOpen S mediaKey.key mediaKey.nonce.toList mediaAad ciphertext

theorem sealMedia_eq_some {drawn mediaKey : MediaKey S} {plaintext ciphertext : Bytes} :
    sealMedia drawn plaintext = some (mediaKey, ciphertext) ↔
      mediaKey = drawn ∧ S.aeadEncrypt drawn.key drawn.nonce.toList mediaAad plaintext = some ciphertext := by
  rw [← aeadSeal_eq_ok]
  unfold sealMedia
  cases aeadSeal S drawn.key drawn.nonce.toList mediaAad plaintext with
  | error e => simp
  | ok sealed => simp [eq_comm]

theorem MediaKey.fromBytes_toBytes (lawful : Lawful S) (mediaKey : MediaKey S) :
    fromBytes S mediaKey.toBytes = .ok mediaKey := by
  obtain ⟨after, read, ahead⟩ := lawful.read_key mediaKey.key (Reader.ahead_new mediaKey.toBytes)
  simp only [fromBytes, read, ahead.2, toArr_toList]

theorem openMedia_sealMedia (lawful : Lawful S) {drawn mediaKey : MediaKey S} {plaintext ciphertext : Bytes}
    (sealed : sealMedia drawn plaintext = some (mediaKey, ciphertext)) : openMedia mediaKey ciphertext = .ok plaintext := by
  obtain ⟨rfl, encrypted⟩ := sealMedia_eq_some.mp sealed
  exact aeadOpen_eq_ok.mpr (lawful.decrypt_encrypt encrypted)

end

end Buh.Crypto.Media
