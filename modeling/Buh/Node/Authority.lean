import Mathlib.Logic.Encodable.Basic
import Buh.Library.Fallible
import Buh.Library.PrefixCode
import Buh.Node.Trust

/-! The CA of a node: how `node_ca.rs` makes, keeps and reloads it and issues leaves under
it, held against the verifiers of `tls.rs`. The file system answers every call here. A key
that is drawn and the randomness of a signature are arguments of the call that uses them. -/

namespace Buh.Node.Authority
open Buh.Library.Fallible Buh.Library.PrefixCode Buh.Wire.Codec Buh.Node.Trust

abbrev Text := List Char

inductive IsCa where
  | noCa
  /-- With the path length of `BasicConstraints::Constrained`. -/
  | ca (pathLength : Nat)
  deriving DecidableEq

inductive KeyUsagePurpose where
  | digitalSignature
  | keyCertSign
  | crlSign

inductive ExtendedKeyUsagePurpose where
  | serverAuth
  | clientAuth

/-- What rcgen is asked to certify. The distinguished names here have a common name only,
and an `OffsetDateTime` is its nanoseconds since the epoch. -/
structure CertificateParams (San : Type) where
  subjectAltNames : List San
  distinguishedName : String
  isCa : IsCa
  notBefore : Int
  notAfter : Int
  useAuthorityKeyIdentifierExtension : Bool
  keyUsages : List KeyUsagePurpose
  extendedKeyUsages : List ExtendedKeyUsagePurpose

/-- What the node takes from rcgen, `x509_parser` and the hash. -/
structure Pki where
  KeyPair : Type
  PublicKey : Type
  San : Type
  Error : Type
  display : Error → String
  publicKey : KeyPair → PublicKey
  serializePem : KeyPair → Text
  fromPem : Text → Except Error KeyPair
  serializeDer : KeyPair → Bytes
  /-- `CertificateParams::new` -/
  newParams : List Text → Except Error (CertificateParams San)
  /-- The DER of a certificate for the subject's key, in the name of the issuer's params and
  signed with the issuer's key. -/
  sign : CertificateParams San → PublicKey → CertificateParams San → KeyPair → Bytes → Except Error Bytes
  sha256 : Bytes → Bytes
  Certificate : Type
  fromDer : Bytes → Option Certificate
  isCa : Certificate → Bool
  subjectKey : Certificate → PublicKey
  /-- The signature of the certificate is good under the key. -/
  signedUnder : Certificate → PublicKey → Bool
  notBefore : Certificate → Int
  notAfter : Certificate → Int

def hexDigit (value : Nat) : Char :=
  ['0', '1', '2', '3', '4', '5', '6', '7', '8', '9', 'a', 'b', 'c', 'd', 'e', 'f'].getD value '0'

/-- `hex::encode` -/
def hexEncode (bytes : Bytes) : Text :=
  bytes.flatMap (fun byte => [hexDigit (byte.toNat / 16), hexDigit (byte.toNat % 16)])

def fingerprint (pki : Pki) (caDer : Bytes) : Text := hexEncode (pki.sha256 caDer)

/-- The certificates as the verifiers see them: without an issuer a signature is checked
under the certificate's own key. -/
def Pki.certificates (pki : Pki) : Certificates where
  Certificate := pki.Certificate
  fingerprint := fingerprint pki
  fromDer := pki.fromDer
  isCa := pki.isCa
  verifySignature cert issuer := pki.signedUnder cert (pki.subjectKey (issuer.getD cert))
  notBefore := pki.notBefore
  notAfter := pki.notAfter

/-- `CoreError::Internal` -/
structure CoreError where
  internal : String

/-- Nanoseconds in a second. -/
def second : Int := 1000000000

/-- `OffsetDateTime::unix_timestamp` -/
def unixTimestamp (time : Int) : Int := time / second

/-- From the year -9999 to the end of 9999, outside of which the operators panic. -/
def offsetDateTime (time : Int) : Option Int :=
  if -377705116800 * second ≤ time ∧ time < 253402300800 * second then some time else none

def clockSkew : Int := 300 * second
def caCommonName : String := "buh node CA"
def leafCommonName : String := "buh node leaf"

section
variable (pki : Pki)

/-- The `pki` helper. -/
def pkiError (context : String) (e : pki.Error) : CoreError := ⟨"pki: " ++ context ++ ": " ++ pki.display e⟩

/-- An rcgen certificate: what it was made from, and its DER. -/
structure IssuedCertificate where
  params : CertificateParams pki.San
  der : Bytes

def selfSigned (params : CertificateParams pki.San) (key : pki.KeyPair) (entropy : Bytes) :
    Except pki.Error (IssuedCertificate pki) :=
  (pki.sign params (pki.publicKey key) params key entropy).map (fun der => ⟨params, der⟩)

def signedBy (params : CertificateParams pki.San) (key : pki.KeyPair) (issuer : IssuedCertificate pki)
    (issuerKey : pki.KeyPair) (entropy : Bytes) : Except pki.Error (IssuedCertificate pki) :=
  (pki.sign params (pki.publicKey key) issuer.params issuerKey entropy).map (fun der => ⟨params, der⟩)

structure RcgenNodeCa where
  caKey : pki.KeyPair
  /-- Rebuilt on every load; leaves take their issuer's name from it. -/
  caIssuer : IssuedCertificate pki
  caDer : Bytes
  caFingerprint : Text
  sans : List Text
  /-- In nanoseconds. -/
  leafTtl : Nat

structure NodeLeaf where
  chainDer : List Bytes
  privateKeyDer : Bytes
  notAfterMs : Int

def caParams : Except CoreError (CertificateParams pki.San) := do
  let params ← (pki.newParams []).mapError (pkiError pki "CA params")
  pure { params with
    distinguishedName := caCommonName
    isCa := .ca 0
    keyUsages := [.keyCertSign, .crlSign] }

def fromLoaded (caKey : pki.KeyPair) (caDer : Bytes) (sans : List Text) (leafTtl : Nat) (entropy : Bytes) :
    Except CoreError (RcgenNodeCa pki) := do
  let params ← caParams pki
  let caIssuer ← (selfSigned pki params caKey entropy).mapError (pkiError pki "rebuild CA issuer")
  pure ⟨caKey, caIssuer, caDer, fingerprint pki caDer, sans, leafTtl⟩

/-- The files of the PKI directory. -/
structure PkiDir where
  caCert : Option Bytes
  caKey : Option Text
  caCertBak : Option Bytes
  caKeyBak : Option Text

/-- What a start of the node brings along: its settings and its draws. -/
structure Start where
  sans : List Text
  leafTtl : Nat
  generated : Except pki.Error pki.KeyPair
  certEntropy : Bytes
  issuerEntropy : Bytes

/-- A new CA key and the DER of its certificate. -/
def generate (start : Start pki) : Except CoreError (pki.KeyPair × Bytes) := do
  let caKey ← start.generated.mapError (pkiError pki "generate CA key")
  let params ← caParams pki
  let caCert ← (selfSigned pki params caKey start.certEntropy).mapError (pkiError pki "self-sign CA")
  pure (caKey, caCert.der)

def loadOrInit (dir : PkiDir) (start : Start pki) : PkiDir × Except CoreError (RcgenNodeCa pki) :=
  match dir.caCert, dir.caKey with
  | some caDer, some keyPem =>
    (dir, do
      let caKey ← (pki.fromPem keyPem).mapError (pkiError pki "parse CA key")
      fromLoaded pki caKey caDer start.sans start.leafTtl start.issuerEntropy)
  | _, _ =>
    match generate pki start with
    | .error e => (dir, .error e)
    | .ok (caKey, caDer) =>
      ({ dir with caCert := some caDer, caKey := some (pki.serializePem caKey) },
        fromLoaded pki caKey caDer start.sans start.leafTtl start.issuerEntropy)

/-- The files that are there are renamed to their backups first. -/
def rekey (dir : PkiDir) (start : Start pki) : PkiDir × Except CoreError (RcgenNodeCa pki) :=
  loadOrInit pki ⟨none, none, dir.caCert.or dir.caCertBak, dir.caKey.or dir.caKeyBak⟩ start

/-- What the issue of a leaf draws. -/
structure Draws where
  generated : Except pki.Error pki.KeyPair
  entropy : Bytes

variable {pki}

/-- `none` where the times leave the range of `OffsetDateTime`. -/
def RcgenNodeCa.issueLeaf (ca : RcgenNodeCa pki) (now : Int) (draws : Draws pki) :
    Option (Except CoreError NodeLeaf) :=
  match draws.generated with
  | .error e => some (.error (pkiError pki "generate leaf key" e))
  | .ok leafKey => do
    let notBefore ← offsetDateTime (now - clockSkew)
    let notAfter ← offsetDateTime (now + ca.leafTtl)
    some do
      let params ← (pki.newParams ca.sans).mapError (pkiError pki "leaf params")
      let params := { params with
        distinguishedName := leafCommonName
        isCa := .noCa
        notBefore
        notAfter
        useAuthorityKeyIdentifierExtension := true
        keyUsages := [.digitalSignature]
        extendedKeyUsages := [.serverAuth, .clientAuth] }
      let leaf ← (signedBy pki params leafKey ca.caIssuer ca.caKey draws.entropy).mapError (pkiError pki "sign leaf")
      pure ⟨[leaf.der, ca.caDer], pki.serializeDer leafKey, unixTimestamp notAfter * 1000⟩

end

/-! What the verifiers accept, as one condition. -/

section
variable (certificates : Certificates)

/-- Every check that `verifyPinnedChain` makes. -/
structure Accepted (endEntity : Bytes) (intermediates : List Bytes) (now : Nat) (trust : TrustStore) (caDer : Bytes)
    (ca leaf : certificates.Certificate) : Prop where
  last : intermediates.getLast? = some caDer
  pinned : certificates.fingerprint caDer ∈ trust
  caParsed : certificates.fromDer caDer = some ca
  leafParsed : certificates.fromDer endEntity = some leaf
  isCa : certificates.isCa ca = true
  selfSigned : certificates.verifySignature ca none = true
  chained : certificates.verifySignature leaf (some ca) = true
  leafValid : certificates.notBefore leaf ≤ min (now : Int) (2 ^ 63 - 1) ∧
    min (now : Int) (2 ^ 63 - 1) ≤ certificates.notAfter leaf
  caValid : certificates.notBefore ca ≤ min (now : Int) (2 ^ 63 - 1) ∧
    min (now : Int) (2 ^ 63 - 1) ≤ certificates.notAfter ca

variable {certificates}

theorem checkValidity_ok_iff {cert : certificates.Certificate} {nowSecs : Int} {what : String} :
    checkValidity certificates cert nowSecs what = .ok () ↔
      certificates.notBefore cert ≤ nowSecs ∧ nowSecs ≤ certificates.notAfter cert := by
  unfold checkValidity
  split_ifs with early late
  · simp [not_le.mpr early]
  · simp [not_le.mpr late]
  · simp [not_lt.mp early, not_lt.mp late]

theorem verify_ok_iff {endEntity : Bytes} {intermediates : List Bytes} {now : Nat} {trust : TrustStore} :
    verifyPinnedChain certificates endEntity intermediates now trust = .ok () ↔
      ∃ caDer ca leaf, Accepted certificates endEntity intermediates now trust caDer ca leaf := by
  constructor
  · intro ok
    simp only [verifyPinnedChain, bind, Except.bind] at ok
    split at ok
    · next caDer last =>
      split_ifs at ok with pinned
      split at ok
      · next ca caParsed =>
        split at ok
        · next leaf leafParsed =>
          split_ifs at ok with noCa unsigned loose
          split at ok
          · cases ok
          · next leafOk =>
            exact ⟨caDer, ca, leaf, last, pinned, caParsed, leafParsed, by simpa using noCa,
              by simpa using unsigned, by simpa using loose, checkValidity_ok_iff.mp leafOk, checkValidity_ok_iff.mp ok⟩
        · cases ok
      · cases ok
    · cases ok
  · rintro ⟨caDer, ca, leaf, accepted⟩
    have leafOk : checkValidity certificates leaf (min now (2 ^ 63 - 1)) "leaf" = .ok () :=
      checkValidity_ok_iff.mpr accepted.leafValid
    have caOk : checkValidity certificates ca (min now (2 ^ 63 - 1)) "CA" = .ok () :=
      checkValidity_ok_iff.mpr accepted.caValid
    simp only [verifyPinnedChain, accepted.last, not_not.mpr accepted.pinned, accepted.caParsed, accepted.leafParsed,
      accepted.isCa, accepted.selfSigned, accepted.chained, leafOk, caOk, bind, Except.bind, Bool.not_true,
      Bool.false_eq_true, if_false]

end

/-! The life of a CA. -/

section
variable (pki : Pki)

/-- The directories that starts of a node lead to, from one that lacks a file. -/
inductive Kept : PkiDir → Prop where
  | fresh (dir : PkiDir) (missing : dir.caCert = none ∨ dir.caKey = none) : Kept dir
  | load {dir : PkiDir} (kept : Kept dir) (start : Start pki) : Kept (loadOrInit pki dir start).1
  | rekey {dir : PkiDir} (kept : Kept dir) (start : Start pki) : Kept (rekey pki dir start).1

/-- A CA that a start of a node ends with, be it fresh, reloaded or re-keyed. -/
def NodeCa (ca : RcgenNodeCa pki) : Prop :=
  ∃ dir start, Kept pki dir ∧ ((loadOrInit pki dir start).2 = .ok ca ∨ (rekey pki dir start).2 = .ok ca)

/-- What the surroundings promise: the hash does not collide, a key is read back from its
PEM, `CertificateParams::new` stamps the years 1975 to 4096, and a signed certificate is read
back with its times cut to seconds and verifies under the key that signed it alone. -/
structure Laws (signer : pki.Certificate → Option pki.PublicKey) : Prop where
  sha256_inj : Function.Injective pki.sha256
  fromPem_serializePem : ∀ key, pki.fromPem (pki.serializePem key) = .ok key
  stamped : ∀ sans params, pki.newParams sans = .ok params →
    params.notBefore = 157766400 * second ∧ params.notAfter = 67090118400 * second
  exact : ∀ cert key, pki.signedUnder cert key = true ↔ signer cert = some key
  encoded : ∀ params subject issuer issuerKey entropy der, pki.sign params subject issuer issuerKey entropy = .ok der →
    ∃ cert, pki.fromDer der = some cert ∧ pki.isCa cert = decide (params.isCa ≠ .noCa) ∧
      pki.subjectKey cert = subject ∧ pki.notBefore cert = unixTimestamp params.notBefore ∧
      pki.notAfter cert = unixTimestamp params.notAfter ∧ signer cert = some (pki.publicKey issuerKey)

/-- The DER is one that `ca_params` and the key were self-signed to. -/
def MadeFor (caKey : pki.KeyPair) (caDer : Bytes) : Prop :=
  ∃ params entropy, caParams pki = .ok params ∧
    pki.sign params (pki.publicKey caKey) params caKey entropy = .ok caDer

/-- Where both files are there, they belong together. -/
def Paired (dir : PkiDir) : Prop :=
  ∀ caDer keyPem, dir.caCert = some caDer → dir.caKey = some keyPem →
    ∃ caKey, keyPem = pki.serializePem caKey ∧ MadeFor pki caKey caDer

variable {pki}

theorem caParams_ok {params : CertificateParams pki.San} (ok : caParams pki = .ok params) :
    ∃ stamped, pki.newParams [] = .ok stamped ∧ params.isCa = .ca 0 ∧ params.notBefore = stamped.notBefore ∧
      params.notAfter = stamped.notAfter := by
  obtain ⟨stamped, made, same⟩ := bind_eq_ok.mp ok
  cases same
  exact ⟨stamped, mapError_eq_ok.mp made, rfl, rfl, rfl⟩

theorem fromLoaded_ok {caKey : pki.KeyPair} {caDer entropy : Bytes} {sans : List Text} {leafTtl : Nat}
    {ca : RcgenNodeCa pki} (ok : fromLoaded pki caKey caDer sans leafTtl entropy = .ok ca) :
    ca.caKey = caKey ∧ ca.caDer = caDer ∧ ca.caFingerprint = fingerprint pki caDer := by
  obtain ⟨params, _, rest⟩ := bind_eq_ok.mp ok
  obtain ⟨caIssuer, _, same⟩ := bind_eq_ok.mp rest
  cases same
  exact ⟨rfl, rfl, rfl⟩

theorem generate_ok {start : Start pki} {caKey : pki.KeyPair} {caDer : Bytes}
    (ok : generate pki start = .ok (caKey, caDer)) : MadeFor pki caKey caDer := by
  obtain ⟨key, _, rest⟩ := bind_eq_ok.mp ok
  obtain ⟨params, made, rest⟩ := bind_eq_ok.mp rest
  obtain ⟨caCert, certified, same⟩ := bind_eq_ok.mp rest
  cases same
  obtain ⟨der, signed, rfl⟩ := map_eq_ok.mp (mapError_eq_ok.mp certified)
  exact ⟨params, start.certEntropy, made, signed⟩

/-- A start leaves files that belong together and ends with the CA they hold. -/
theorem loadOrInit_paired {signer : pki.Certificate → Option pki.PublicKey} (laws : Laws pki signer) {dir : PkiDir}
    (paired : Paired pki dir) (start : Start pki) :
    Paired pki (loadOrInit pki dir start).1 ∧ ∀ ca, (loadOrInit pki dir start).2 = .ok ca →
      MadeFor pki ca.caKey ca.caDer ∧ ca.caFingerprint = fingerprint pki ca.caDer := by
  unfold loadOrInit
  split
  · next caDer keyPem cert key =>
    refine ⟨paired, fun ca ok => ?_⟩
    obtain ⟨caKey, rfl, made⟩ := paired caDer keyPem cert key
    obtain ⟨read, parsed, loaded⟩ := bind_eq_ok.mp ok
    have parsed := mapError_eq_ok.mp parsed
    rw [laws.fromPem_serializePem] at parsed
    cases parsed
    obtain ⟨sameKey, sameDer, named⟩ := fromLoaded_ok loaded
    rw [sameKey, sameDer]
    exact ⟨made, named⟩
  · split
    · exact ⟨paired, fun ca ok => by cases ok⟩
    · next caKey caDer generated =>
      have made := generate_ok generated
      refine ⟨?_, fun ca ok => ?_⟩
      · intro der pem cert key
        cases cert
        cases key
        exact ⟨caKey, rfl, made⟩
      · obtain ⟨sameKey, sameDer, named⟩ := fromLoaded_ok ok
        rw [sameKey, sameDer]
        exact ⟨made, named⟩

theorem paired_of_missing {dir : PkiDir} (missing : dir.caCert = none ∨ dir.caKey = none) : Paired pki dir := by
  intro caDer keyPem cert key
  rw [cert, key] at missing
  rcases missing with absent | absent <;> cases absent

theorem Kept.paired {signer : pki.Certificate → Option pki.PublicKey} (laws : Laws pki signer) {dir : PkiDir}
    (kept : Kept pki dir) : Paired pki dir := by
  induction kept with
  | fresh dir missing => exact paired_of_missing missing
  | load _ start ih => exact (loadOrInit_paired laws ih start).1
  | rekey _ start _ => exact (loadOrInit_paired laws (paired_of_missing (.inl rfl)) start).1

theorem NodeCa.made {signer : pki.Certificate → Option pki.PublicKey} (laws : Laws pki signer) {ca : RcgenNodeCa pki}
    (node : NodeCa pki ca) : MadeFor pki ca.caKey ca.caDer ∧ ca.caFingerprint = fingerprint pki ca.caDer := by
  obtain ⟨dir, start, kept, loaded | rekeyed⟩ := node
  · exact (loadOrInit_paired laws (kept.paired laws) start).2 ca loaded
  · exact (loadOrInit_paired laws (paired_of_missing (.inl rfl)) start).2 ca rekeyed

end

/-! A leaf and its verification. -/

section
variable {pki : Pki}

theorem offsetDateTime_some {time other : Int} (inside : offsetDateTime time = some other) : other = time :=
  (Option.some.inj (Option.ite_none_right_eq_some.mp inside).2).symm

theorem issueLeaf_ok {ca : RcgenNodeCa pki} {now : Int} {draws : Draws pki} {leaf : NodeLeaf}
    (issued : ca.issueLeaf now draws = some (.ok leaf)) :
    ∃ leafKey leafDer params, leaf.chainDer = [leafDer, ca.caDer] ∧ params.notBefore = now - clockSkew ∧
      params.notAfter = now + ca.leafTtl ∧
      pki.sign params (pki.publicKey leafKey) ca.caIssuer.params ca.caKey draws.entropy = .ok leafDer := by
  unfold RcgenNodeCa.issueLeaf at issued
  split at issued
  · cases issued
  · next leafKey _ =>
    obtain ⟨notBefore, early, rest⟩ := Option.bind_eq_some_iff.mp issued
    obtain ⟨notAfter, late, answer⟩ := Option.bind_eq_some_iff.mp rest
    obtain rfl := offsetDateTime_some early
    obtain rfl := offsetDateTime_some late
    obtain ⟨stamped, _, rest⟩ := bind_eq_ok.mp (Option.some.inj answer)
    obtain ⟨cert, certified, same⟩ := bind_eq_ok.mp rest
    cases same
    obtain ⟨leafDer, signed, rfl⟩ := map_eq_ok.mp (mapError_eq_ok.mp certified)
    exact ⟨leafKey, leafDer, _, rfl, rfl, rfl, signed⟩

theorem hexDigit_inj {first second : Nat} (small : first < 16) (small' : second < 16)
    (same : hexDigit first = hexDigit second) : first = second := by
  have all : ∀ first second : Fin 16, hexDigit first = hexDigit second → first = second := by decide
  exact congrArg Fin.val (all ⟨first, small⟩ ⟨second, small'⟩ same)

theorem hexEncode_injective : Function.Injective hexEncode := by
  apply PrefixFree.flatMap_injective
  · intro first second rest other same
    simp only [List.cons_append, List.nil_append, List.cons.injEq] at same
    obtain ⟨high, low, rests⟩ := same
    have bound := first.toNat_lt
    have bound' := second.toNat_lt
    have highs := hexDigit_inj (by omega) (by omega) high
    have lows := hexDigit_inj (by omega) (by omega) low
    exact ⟨UInt8.toNat_inj.mp (by omega), rests⟩
  · simp

variable {signer : pki.Certificate → Option pki.PublicKey} (laws : Laws pki signer)
include laws

theorem fingerprint_injective : Function.Injective (fingerprint pki) :=
  hexEncode_injective.comp laws.sha256_inj

/-- The certificate of a CA that the node made itself. -/
theorem MadeFor.certificate {caKey : pki.KeyPair} {caDer : Bytes} (made : MadeFor pki caKey caDer) :
    ∃ ca, pki.fromDer caDer = some ca ∧ pki.isCa ca = true ∧ pki.subjectKey ca = pki.publicKey caKey ∧
      signer ca = some (pki.publicKey caKey) ∧ pki.notBefore ca = 157766400 ∧ pki.notAfter ca = 67090118400 := by
  obtain ⟨params, entropy, ok, signed⟩ := made
  obtain ⟨stamped, new, isCa, notBefore, notAfter⟩ := caParams_ok ok
  obtain ⟨ca, parsed, basic, subject, begins, expires, signs⟩ := laws.encoded _ _ _ _ _ _ signed
  obtain ⟨first, last⟩ := laws.stamped _ _ new
  refine ⟨ca, parsed, ?_, subject, signs, ?_, ?_⟩
  · rw [basic, isCa]
    rfl
  · rw [begins, notBefore, first]
    rfl
  · rw [expires, notAfter, last]
    rfl

/-- The certificate of a leaf that the CA issued. -/
theorem issueLeaf_certificate {ca : RcgenNodeCa pki} {now : Int} {draws : Draws pki} {leaf : NodeLeaf}
    (issued : ca.issueLeaf now draws = some (.ok leaf)) :
    ∃ leafDer cert, leaf.chainDer = [leafDer, ca.caDer] ∧ pki.fromDer leafDer = some cert ∧
      signer cert = some (pki.publicKey ca.caKey) ∧ pki.notBefore cert = unixTimestamp now - 300 ∧
      pki.notAfter cert = unixTimestamp (now + ca.leafTtl) := by
  obtain ⟨leafKey, leafDer, params, chain, begins, ends, signed⟩ := issueLeaf_ok issued
  obtain ⟨cert, parsed, _, _, notBefore, notAfter, signs⟩ := laws.encoded _ _ _ _ _ _ signed
  refine ⟨leafDer, cert, chain, parsed, signs, ?_, ?_⟩
  · rw [notBefore, begins]
    unfold unixTimestamp clockSkew second
    omega
  · rw [notAfter, ends]

end

/-- A node that has come up with a CA and got a leaf from it. -/
structure Presenting (pki : Pki) where
  ca : RcgenNodeCa pki
  node : NodeCa pki ca
  issuedAt : Int
  draws : Draws pki
  leaf : NodeLeaf
  issued : ca.issueLeaf issuedAt draws = some (.ok leaf)

section
variable {pki : Pki}

/-- From 300 seconds before the issue to the end of its lifetime, in whole seconds. -/
def Presenting.Current (node : Presenting pki) (now : Nat) : Prop :=
  unixTimestamp node.issuedAt - 300 ≤ now ∧ now ≤ unixTimestamp (node.issuedAt + node.ca.leafTtl)

/-- The time is inside the validity of the node's CA certificate. -/
def Presenting.CaValid (node : Presenting pki) (now : Nat) : Prop :=
  ∃ ca, pki.fromDer node.ca.caDer = some ca ∧ pki.notBefore ca ≤ now ∧ now ≤ pki.notAfter ca

/-- The end entity is signed with the key of a self-signed CA at the end of the chain. The
trust set has the fingerprint of that CA, and no other certificate has it. -/
def ChainsToPinned (pki : Pki) (signer : pki.Certificate → Option pki.PublicKey) (endEntity : Bytes)
    (intermediates : List Bytes) (trust : TrustStore) : Prop :=
  ∃ caDer ca leaf, intermediates.getLast? = some caDer ∧ pki.fromDer caDer = some ca ∧
    pki.fromDer endEntity = some leaf ∧ pki.isCa ca = true ∧ signer ca = some (pki.subjectKey ca) ∧
    signer leaf = some (pki.subjectKey ca) ∧ fingerprint pki caDer ∈ trust ∧
    ∀ der, fingerprint pki der = fingerprint pki caDer → der = caDer

/-- `PinnedClientCertVerifier::verify_client_cert` -/
def verifyClientCert (pki : Pki) (trust : TrustStore) (endEntity : Bytes) (intermediates : List Bytes) (now : Nat) :
    Except String Unit :=
  verifyPinnedChain pki.certificates endEntity intermediates now trust

/-- `PinnedServerCertVerifier::verify_server_cert`, which looks at neither the name nor the
OCSP response. -/
def verifyServerCert (pki : Pki) (trust : TrustStore) (endEntity : Bytes) (intermediates : List Bytes)
    (_serverName _ocspResponse : Bytes) (now : Nat) : Except String Unit :=
  verifyPinnedChain pki.certificates endEntity intermediates now trust

/-- rustls hands the first certificate of a chain to the verifier as the end entity. -/
def presented (certs : List Bytes) (verify : Bytes → List Bytes → Except String Unit) : Except String Unit :=
  match certs with
  | [] => .error "no certificates presented"
  | endEntity :: intermediates => verify endEntity intermediates

/-- Both verifiers of a mutual handshake accept the chain of the other side, each with its
own trust and at its own time. -/
def HandshakeAccepted (client server : Presenting pki) (clientTrust serverTrust : TrustStore)
    (clientNow serverNow : Nat) (serverName ocspResponse : Bytes) : Prop :=
  presented server.leaf.chainDer (fun endEntity intermediates =>
      verifyServerCert pki clientTrust endEntity intermediates serverName ocspResponse clientNow) = .ok () ∧
    presented client.leaf.chainDer (fun endEntity intermediates =>
      verifyClientCert pki serverTrust endEntity intermediates serverNow) = .ok ()

variable {signer : pki.Certificate → Option pki.PublicKey} (laws : Laws pki signer)
include laws

/-- The verifier and the issuer agree on a leaf, as long as the CA itself is valid. -/
theorem Presenting.verify_iff (node : Presenting pki) :
    ∃ leafDer, node.leaf.chainDer = [leafDer, node.ca.caDer] ∧
      ∀ (others : List Bytes) (now : Nat) (trust : TrustStore), node.CaValid now →
        (verifyPinnedChain pki.certificates leafDer (others ++ [node.ca.caDer]) now trust = .ok () ↔
          node.ca.caFingerprint ∈ trust ∧ node.Current now) := by
  obtain ⟨made, named⟩ := node.node.made laws
  obtain ⟨ca, caParsed, isCa, subject, caSigner, _, expires⟩ := made.certificate laws
  obtain ⟨leafDer, leaf, chain, leafParsed, leafSigner, notBefore, notAfter⟩ := issueLeaf_certificate laws node.issued
  refine ⟨leafDer, chain, fun others now trust valid => ?_⟩
  obtain ⟨same, parsed, begun, lasts⟩ := valid
  rw [caParsed] at parsed
  cases parsed
  -- the CA ends long before the seconds leave an `i64`
  have seconds : min (now : Int) (2 ^ 63 - 1) = now := by omega
  rw [verify_ok_iff, Presenting.Current, named]
  constructor
  · rintro ⟨caDer, _, other, accepted⟩
    have last := accepted.last
    rw [List.getLast?_concat, Option.some.injEq] at last
    subst last
    have parsed := accepted.leafParsed
    change pki.fromDer leafDer = some other at parsed
    rw [leafParsed] at parsed
    cases parsed
    have window := accepted.leafValid
    rw [seconds] at window
    change pki.notBefore leaf ≤ _ ∧ _ ≤ pki.notAfter leaf at window
    rw [notBefore, notAfter] at window
    exact ⟨accepted.pinned, window⟩
  · rintro ⟨pinned, window⟩
    rw [← notBefore, ← notAfter] at window
    refine ⟨node.ca.caDer, ca, leaf, List.getLast?_concat, pinned, caParsed, leafParsed, isCa, ?_, ?_, ?_, ?_⟩
    · apply (laws.exact ca (pki.subjectKey ca)).mpr
      rw [caSigner, subject]
    · apply (laws.exact leaf (pki.subjectKey ca)).mpr
      rw [leafSigner, subject]
    · rw [seconds]
      exact window
    · rw [seconds]
      exact ⟨begun, lasts⟩

theorem verify_pinned {endEntity : Bytes} {intermediates : List Bytes} {now : Nat} {trust : TrustStore}
    (ok : verifyPinnedChain pki.certificates endEntity intermediates now trust = .ok ()) :
    ChainsToPinned pki signer endEntity intermediates trust := by
  obtain ⟨caDer, ca, leaf, accepted⟩ := verify_ok_iff.mp ok
  refine ⟨caDer, ca, leaf, accepted.last, accepted.caParsed, accepted.leafParsed, accepted.isCa, ?_, ?_, accepted.pinned,
    fun der same => fingerprint_injective laws same⟩
  · exact (laws.exact _ _).mp accepted.selfSigned
  · exact (laws.exact _ _).mp accepted.chained

/-- The verifiers accept a node's leaf exactly while it is current and its CA is pinned; they
accept nothing that a pinned CA has not signed; so a mutual handshake is accepted exactly
when each side pins the other's CA. -/
theorem issuing_and_verifying_agree :
    (∀ node : Presenting pki, ∃ leafDer, node.leaf.chainDer = [leafDer, node.ca.caDer] ∧
      ∀ (others : List Bytes) (now : Nat) (trust : TrustStore), node.CaValid now →
        (verifyPinnedChain pki.certificates leafDer (others ++ [node.ca.caDer]) now trust = .ok () ↔
          node.ca.caFingerprint ∈ trust ∧ node.Current now)) ∧
      (∀ (endEntity : Bytes) (intermediates : List Bytes) (now : Nat) (trust : TrustStore),
        verifyPinnedChain pki.certificates endEntity intermediates now trust = .ok () →
          ChainsToPinned pki signer endEntity intermediates trust) ∧
      ∀ (client server : Presenting pki) (clientTrust serverTrust : TrustStore) (clientNow serverNow : Nat)
        (serverName ocspResponse : Bytes), server.Current clientNow → server.CaValid clientNow →
          client.Current serverNow → client.CaValid serverNow →
            (HandshakeAccepted client server clientTrust serverTrust clientNow serverNow serverName ocspResponse ↔
              server.ca.caFingerprint ∈ clientTrust ∧ client.ca.caFingerprint ∈ serverTrust) := by
  refine ⟨Presenting.verify_iff laws, fun _ _ _ _ ok => verify_pinned laws ok, ?_⟩
  intro client server clientTrust serverTrust clientNow serverNow serverName ocspResponse current valid current' valid'
  obtain ⟨serverDer, serverChain, server_iff⟩ := server.verify_iff laws
  obtain ⟨clientDer, clientChain, client_iff⟩ := client.verify_iff laws
  have atClient := server_iff [] clientNow clientTrust valid
  have atServer := client_iff [] serverNow serverTrust valid'
  rw [List.nil_append] at atClient atServer
  rw [HandshakeAccepted, serverChain, clientChain]
  dsimp only [presented, verifyServerCert, verifyClientCert]
  rw [atClient, atServer, and_iff_left current, and_iff_left current']

end

/-- Certificates as numbers in unary, under keys that are numbers themselves. -/
def samplePki : Pki where
  KeyPair := Nat
  PublicKey := Nat
  San := Text
  Error := Empty
  display := Empty.elim
  publicKey := id
  serializePem key := List.replicate key '-'
  fromPem text := .ok text.length
  serializeDer key := List.replicate key 0
  newParams sans := .ok ⟨sans, "rcgen self signed cert", .noCa, 157766400 * second, 67090118400 * second, false, [], []⟩
  sign params subject _ issuerKey _ := .ok (List.replicate (Encodable.encode (decide (params.isCa ≠ .noCa), subject,
    unixTimestamp params.notBefore, unixTimestamp params.notAfter, issuerKey)) 0)
  sha256 := id
  Certificate := Bool × Nat × Int × Int × Nat
  fromDer der := Encodable.decode der.length
  isCa cert := cert.1
  subjectKey cert := cert.2.1
  signedUnder cert key := decide (cert.2.2.2.2 = key)
  notBefore cert := cert.2.2.1
  notAfter cert := cert.2.2.2.1

theorem samplePki_laws : Laws samplePki (fun cert => some cert.2.2.2.2) where
  sha256_inj := Function.injective_id
  fromPem_serializePem key := congrArg Except.ok List.length_replicate
  stamped := by
    intro sans params made
    cases made
    exact ⟨rfl, rfl⟩
  exact := by
    rintro (cert : Bool × Nat × Int × Int × Nat) (key : Nat)
    change decide (cert.2.2.2.2 = key) = true ↔ some cert.2.2.2.2 = some key
    rw [decide_eq_true_iff, Option.some.injEq]
  encoded := by
    intro params subject issuer issuerKey entropy der signed
    cases signed
    refine ⟨(decide (params.isCa ≠ .noCa), subject, unixTimestamp params.notBefore, unixTimestamp params.notAfter,
      issuerKey), ?_, rfl, rfl, rfl, rfl, rfl⟩
    change Encodable.decode (List.replicate _ (0 : UInt8)).length = _
    rw [List.length_replicate, Encodable.encodek]
    rfl

def sampleStart : Start samplePki := ⟨[], 3600 * 1000000000, .ok (1 : Nat), [], []⟩

theorem sample_presents : ∃ node : Presenting samplePki, node.issuedAt = 1700000000 * second + 500000000 ∧
    node.ca.leafTtl = 3600 * 1000000000 := by
  have fresh : Kept samplePki ⟨none, none, none, none⟩ := .fresh _ (.inl rfl)
  obtain ⟨ca, made, leafTtl⟩ : ∃ ca, (loadOrInit samplePki ⟨none, none, none, none⟩ sampleStart).2 = .ok ca ∧
      ca.leafTtl = sampleStart.leafTtl := ⟨_, rfl, rfl⟩
  have begins : offsetDateTime (1700000000 * second + 500000000 - clockSkew) =
      some (1700000000 * second + 500000000 - clockSkew) := by decide
  have ends : offsetDateTime (1700000000 * second + 500000000 + ca.leafTtl) =
      some (1700000000 * second + 500000000 + ca.leafTtl) := by
    rw [leafTtl]
    decide
  obtain ⟨leaf, issued⟩ : ∃ leaf, ca.issueLeaf (1700000000 * second + 500000000) ⟨.ok (2 : Nat), []⟩ = some (.ok leaf) := by
    simp only [RcgenNodeCa.issueLeaf, begins, ends]
    exact ⟨_, rfl⟩
  exact ⟨⟨ca, ⟨_, _, fresh, .inl made⟩, _, _, leaf, issued⟩, rfl, leafTtl⟩

/-- A leaf is good for its hour, and for the five minutes before its issue, to whoever pins
the CA. -/
theorem issuing_and_verifying_agree_sample : ∃ (node : Presenting samplePki) (leafDer : Bytes),
    node.leaf.chainDer = [leafDer, node.ca.caDer] ∧
      verifyPinnedChain samplePki.certificates leafDer [node.ca.caDer] 1699999700 {node.ca.caFingerprint} = .ok () ∧
      verifyPinnedChain samplePki.certificates leafDer [node.ca.caDer] 1700003601 {node.ca.caFingerprint} ≠ .ok () := by
  obtain ⟨node, issuedAt, leafTtl⟩ := sample_presents
  obtain ⟨made, _⟩ := node.node.made samplePki_laws
  obtain ⟨ca, parsed, _, _, _, begins, expires⟩ := made.certificate samplePki_laws
  have window (now : Nat) : node.Current now ↔ 1699999700 ≤ now ∧ now ≤ 1700003600 := by
    rw [Presenting.Current, issuedAt, leafTtl]
    unfold unixTimestamp second
    omega
  obtain ⟨leafDer, chain, agree⟩ := (issuing_and_verifying_agree samplePki_laws).1 node
  refine ⟨node, leafDer, chain, ?_, ?_⟩
  · apply (agree [] 1699999700 {node.ca.caFingerprint} ⟨ca, parsed, by omega, by omega⟩).mpr
    exact ⟨Finset.mem_singleton_self _, (window _).mpr (by decide)⟩
  · intro ok
    have accepted := (agree [] 1700003601 {node.ca.caFingerprint} ⟨ca, parsed, by omega, by omega⟩).mp ok
    have late := (window _).mp accepted.2
    omega

end Buh.Node.Authority
