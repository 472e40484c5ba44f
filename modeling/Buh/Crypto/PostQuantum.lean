import Buh.Crypto.Symbolic

/-! ML-DSA-65 and ML-KEM-768 as `identity.rs` and `kem.rs` call them, again as a
parameter of the model. Encodings have the fixed lengths of the two standards, and
every call that draws randomness takes it as an argument. -/

namespace Buh.Crypto.PostQuantum
open Buh.Wire.Codec Buh.Crypto.Primitives

def publicKeyLen : Nat := 1952
def signatureLen : Nat := 3309
def mlkemEncapsKeyLen : Nat := 1184
def mlkemCiphertextLen : Nat := 1088
def mlkemSecretLen : Nat := 64

structure Schemes (S : Suite) where
  SigningKey : Type
  VerifyingKey : Type
  Signature : Type
  fromSeed : Bytes32 → SigningKey
  verifyingKey : SigningKey → VerifyingKey
  /-- `sign_randomized`, hedged with the given randomness. -/
  signRandomized : SigningKey → Bytes → Bytes32 → Signature
  verifyWithContext : VerifyingKey → Bytes → Signature → Bool
  encodeKey : VerifyingKey → ByteArr publicKeyLen
  decodeKey : ByteArr publicKeyLen → VerifyingKey
  encodeSignature : Signature → ByteArr signatureLen
  decodeSignature : ByteArr signatureLen → Option Signature
  DecapsulationKey : Type
  EncapsulationKey : Type
  generateKeypair : ByteArr mlkemSecretLen → DecapsulationKey × EncapsulationKey
  /-- The keygen seed a decapsulation key is stored as. -/
  decapsulationSeed : DecapsulationKey → ByteArr mlkemSecretLen
  newDecapsulation : ByteArr mlkemSecretLen → DecapsulationKey
  kemEncapsulate : EncapsulationKey → Bytes32 → ByteArr mlkemCiphertextLen × S.Key
  kemDecapsulate : DecapsulationKey → ByteArr mlkemCiphertextLen → S.Key
  encodeEncapsulation : EncapsulationKey → ByteArr mlkemEncapsKeyLen
  newEncapsulation : ByteArr mlkemEncapsKeyLen → Option EncapsulationKey

namespace Schemes
variable {S : Suite} (P : Schemes S)

/-- What the handshake relies on: signing and verifying agree, so do both ends of the
KEM, and every encoding can be read back. -/
structure Lawful : Prop where
  verify_sign : ∀ key message randomness,
    P.verifyWithContext (P.verifyingKey key) message (P.signRandomized key message randomness) = true
  decode_key : ∀ key, P.decodeKey (P.encodeKey key) = key
  decode_signature : ∀ signature, P.decodeSignature (P.encodeSignature signature) = some signature
  decapsulate_encapsulate : ∀ seed randomness,
    P.kemDecapsulate (P.generateKeypair seed).1 (P.kemEncapsulate (P.generateKeypair seed).2 randomness).1 =
      (P.kemEncapsulate (P.generateKeypair seed).2 randomness).2
  reload_decapsulation : ∀ seed,
    P.newDecapsulation (P.decapsulationSeed (P.generateKeypair seed).1) = (P.generateKeypair seed).1
  decode_encapsulation : ∀ key, P.newEncapsulation (P.encodeEncapsulation key) = some key

/-- `IdentityPublicKey::to_bytes` -/
def identityBytes (key : P.VerifyingKey) : Bytes := (P.encodeKey key).toList

/-- `IdentityPublicKey::from_bytes` -/
def identityFromBytes (bytes : Bytes) : Except CryptoError P.VerifyingKey :=
  match toArr publicKeyLen bytes with
  | some arr => .ok (P.decodeKey arr)
  | none => .error (.malformed "identity public key")

/-- `IdentityPublicKey::verify` -/
def verify (key : P.VerifyingKey) (message : Bytes) (signature : P.Signature) : Except CryptoError Unit :=
  if P.verifyWithContext key message signature then .ok () else .error .badSignature

/-- `IdentitySignature::to_bytes` -/
def signatureBytes (signature : P.Signature) : Bytes := (P.encodeSignature signature).toList

/-- `IdentitySignature::from_bytes` -/
def signatureFromBytes (bytes : Bytes) : Except CryptoError P.Signature :=
  match toArr signatureLen bytes with
  | none => .error (.malformed "signature")
  | some arr =>
    match P.decodeSignature arr with
    | some signature => .ok signature
    | none => .error (.malformed "signature")

/-- `MlKemPublicKey::to_bytes` -/
def encapsulationBytes (key : P.EncapsulationKey) : Bytes := (P.encodeEncapsulation key).toList

/-- `MlKemPublicKey::from_slice` -/
def encapsulationFromSlice (bytes : Bytes) : Except CryptoError P.EncapsulationKey :=
  match toArr mlkemEncapsKeyLen bytes with
  | none => .error (.malformed "ml-kem public key")
  | some arr =>
    match P.newEncapsulation arr with
    | some key => .ok key
    | none => .error (.malformed "ml-kem public key")

/-- `MlKemSecretKey::to_bytes` -/
def decapsulationBytes (key : P.DecapsulationKey) : Bytes := (P.decapsulationSeed key).toList

/-- `MlKemSecretKey::from_bytes` -/
def decapsulationFromBytes (bytes : Bytes) : Except CryptoError P.DecapsulationKey :=
  match toArr mlkemSecretLen bytes with
  | some seed => .ok (P.newDecapsulation seed)
  | none => .error (.malformed "ml-kem secret key")

/-- `MlKemPublicKey::encapsulate` -/
def encapsulate (key : P.EncapsulationKey) (randomness : Bytes32) : Bytes × S.Key :=
  ((P.kemEncapsulate key randomness).1.toList, (P.kemEncapsulate key randomness).2)

/-- `MlKemSecretKey::decapsulate` -/
def decapsulate (key : P.DecapsulationKey) (ciphertext : Bytes) : Except CryptoError S.Key :=
  match toArr mlkemCiphertextLen ciphertext with
  | some arr => .ok (P.kemDecapsulate key arr)
  | none => .error (.malformed "ml-kem ciphertext")

@[simp] theorem identityBytes_length (key : P.VerifyingKey) : (P.identityBytes key).length = publicKeyLen := by
  simp [identityBytes]

@[simp] theorem signatureBytes_length (signature : P.Signature) :
    (P.signatureBytes signature).length = signatureLen := by
  simp [signatureBytes]

@[simp] theorem encapsulationBytes_length (key : P.EncapsulationKey) :
    (P.encapsulationBytes key).length = mlkemEncapsKeyLen := by
  simp [encapsulationBytes]

@[simp] theorem decapsulationBytes_length (key : P.DecapsulationKey) :
    (P.decapsulationBytes key).length = mlkemSecretLen := by
  simp [decapsulationBytes]

@[simp] theorem encapsulate_length (key : P.EncapsulationKey) (randomness : Bytes32) :
    (P.encapsulate key randomness).1.length = mlkemCiphertextLen := by
  simp [encapsulate]

theorem verify_eq_ok {key : P.VerifyingKey} {message : Bytes} {signature : P.Signature} :
    P.verify key message signature = .ok () ↔ P.verifyWithContext key message signature = true := by
  unfold verify
  split_ifs with valid <;> simp [valid]

variable {P}

theorem Lawful.identityFromBytes (lawful : P.Lawful) (key : P.VerifyingKey) :
    P.identityFromBytes (P.identityBytes key) = .ok key := by
  rw [Schemes.identityFromBytes, identityBytes, toArr_toList]
  exact congrArg Except.ok (lawful.decode_key key)

theorem Lawful.signatureFromBytes (lawful : P.Lawful) (signature : P.Signature) :
    P.signatureFromBytes (P.signatureBytes signature) = .ok signature := by
  simp only [Schemes.signatureFromBytes, signatureBytes, toArr_toList, lawful.decode_signature]

theorem Lawful.encapsulationFromSlice (lawful : P.Lawful) (key : P.EncapsulationKey) :
    P.encapsulationFromSlice (P.encapsulationBytes key) = .ok key := by
  simp only [Schemes.encapsulationFromSlice, encapsulationBytes, toArr_toList, lawful.decode_encapsulation]

theorem Lawful.decapsulationFromBytes (lawful : P.Lawful) (seed : ByteArr mlkemSecretLen) :
    P.decapsulationFromBytes (P.decapsulationBytes (P.generateKeypair seed).1) =
      .ok (P.generateKeypair seed).1 := by
  simp only [Schemes.decapsulationFromBytes, decapsulationBytes, toArr_toList, lawful.reload_decapsulation]

theorem Lawful.decapsulate (lawful : P.Lawful) (seed : ByteArr mlkemSecretLen) (randomness : Bytes32) :
    P.decapsulate (P.generateKeypair seed).1 (P.encapsulate (P.generateKeypair seed).2 randomness).1 =
      .ok (P.encapsulate (P.generateKeypair seed).2 randomness).2 := by
  simp only [Schemes.decapsulate, encapsulate, toArr_toList, lawful.decapsulate_encapsulate]

theorem Lawful.identityBytes_injective (lawful : P.Lawful) : Function.Injective P.identityBytes := by
  intro first second same
  have decoded := lawful.identityFromBytes first
  rw [same, lawful.identityFromBytes] at decoded
  exact (Except.ok.inj decoded).symm

theorem Lawful.encapsulationBytes_injective (lawful : P.Lawful) : Function.Injective P.encapsulationBytes := by
  intro first second same
  have decoded := lawful.encapsulationFromSlice first
  rw [same, lawful.encapsulationFromSlice] at decoded
  exact (Except.ok.inj decoded).symm

end Schemes

/-- Zeros after the content, up to a fixed length. -/
def pad (size : Nat) (content : Bytes) : ByteArr size :=
  ⟨(content ++ List.replicate size 0).take size, by simp⟩

theorem pad_take {size : Nat} (content : Bytes) (short : content.length ≤ size) :
    (pad size content).toList.take content.length = content := by
  change ((content ++ List.replicate size 0).take size).take content.length = content
  rw [List.take_take, min_eq_left short, List.take_left]

/-- A counterpart of the symbolic suite. A signature names the key it was made with and
whether it is on one marked message; a shared secret spells out the encapsulation key and
the ciphertext. -/
def stamp (marked message seed : Bytes) : ByteArr signatureLen :=
  pad signatureLen ((if message = marked then 1 else 0) :: seed.take 32)

def symbolic (marked : Bytes) : Schemes Symbolic.suite where
  SigningKey := Bytes32
  VerifyingKey := ByteArr publicKeyLen
  Signature := ByteArr signatureLen
  fromSeed seed := seed
  verifyingKey seed := pad publicKeyLen seed.toList
  signRandomized seed message _ := stamp marked message seed.toList
  verifyWithContext key message signature := decide (signature = stamp marked message key.toList)
  encodeKey key := key
  decodeKey arr := arr
  encodeSignature signature := signature
  decodeSignature arr := some arr
  DecapsulationKey := ByteArr mlkemSecretLen
  EncapsulationKey := ByteArr mlkemEncapsKeyLen
  generateKeypair seed := (seed, pad mlkemEncapsKeyLen seed.toList)
  decapsulationSeed key := key
  newDecapsulation seed := seed
  kemEncapsulate key randomness :=
    (pad mlkemCiphertextLen randomness.toList,
      (2 :: (key.toList ++ (pad mlkemCiphertextLen randomness.toList).toList) : Bytes))
  kemDecapsulate key ciphertext :=
    (2 :: ((pad mlkemEncapsKeyLen key.toList).toList ++ ciphertext.toList) : Bytes)
  encodeEncapsulation key := key
  newEncapsulation arr := some arr

theorem symbolic_lawful (marked : Bytes) : (symbolic marked).Lawful where
  verify_sign := by
    intro seed message randomness
    have size : (List.Vector.toList seed).length = 32 := List.Vector.toList_length seed
    have short : (List.Vector.toList seed).length ≤ publicKeyLen := by rw [size]; decide
    have front := pad_take _ short
    rw [size] at front
    change decide (stamp marked message (List.Vector.toList seed) =
      stamp marked message (pad publicKeyLen (List.Vector.toList seed)).toList) = true
    rw [decide_eq_true_eq, stamp, stamp, front, List.take_of_length_le size.le]
  decode_key _ := rfl
  decode_signature _ := rfl
  decapsulate_encapsulate _ _ := rfl
  reload_decapsulation _ := rfl
  decode_encapsulation _ := rfl

theorem symbolic_shared_length {marked : Bytes} (key : (symbolic marked).EncapsulationKey) (randomness : Bytes32) :
    List.length (α := UInt8) ((symbolic marked).encapsulate key randomness).2 =
      mlkemEncapsKeyLen + mlkemCiphertextLen + 1 := by
  have encapsulation : (List.Vector.toList (n := mlkemEncapsKeyLen) key).length = mlkemEncapsKeyLen :=
    List.Vector.toList_length _
  have ciphertext := (pad mlkemCiphertextLen randomness.toList).toList_length
  change (2 :: (List.Vector.toList (n := mlkemEncapsKeyLen) key ++
    (pad mlkemCiphertextLen randomness.toList).toList)).length = _
  rw [List.length_cons, List.length_append, encapsulation, ciphertext]

theorem pad_head {size : Nat} (byte : UInt8) (content : Bytes) :
    (pad (size + 1) (byte :: content)).toList.head? = some byte := rfl

/-- Whether a signature is on the marked message can be seen, whatever the key. -/
theorem stamp_marked {marked message seed other : Bytes} (same : stamp marked marked seed = stamp marked message other) :
    message = marked := by
  by_contra unmarked
  have heads : (stamp marked marked seed).toList.head? = (stamp marked message other).toList.head? := by rw [same]
  rw [stamp, stamp, if_pos rfl, if_neg unmarked, signatureLen, pad_head, pad_head] at heads
  exact absurd (Option.some.inj heads) (by decide)

theorem symbolic_verify {marked message : Bytes} {key : ByteArr publicKeyLen} {signature : ByteArr signatureLen} :
    (symbolic marked).verifyWithContext key message signature = true ↔
      signature = stamp marked message key.toList := by
  change decide (signature = stamp marked message key.toList) = true ↔ _
  exact decide_eq_true_iff

/-- The signature on the marked message verifies for no other, under any key. -/
theorem symbolic_marked {marked message : Bytes} {signer : (symbolic marked).SigningKey}
    {key : (symbolic marked).VerifyingKey} {randomness : Bytes32}
    (verified : (symbolic marked).verifyWithContext key message
      ((symbolic marked).signRandomized signer marked randomness) = true) : message = marked :=
  stamp_marked (symbolic_verify.mp verified)

end Buh.Crypto.PostQuantum
