import Buh.Library.Deduction
import Buh.Ratchet.Session
import Buh.Ratchet.Persist

/-! What can be computed from known secrets with the functions of the ratchet, and
which keys of a session stay out of reach of a given knowledge. -/

namespace Buh.Ratchet.Secrecy
open Buh.Library.Deduction Buh.Wire.Codec Buh.Crypto Buh.Crypto.Primitives Buh.Ratchet.Message
  Buh.Ratchet.Chain Buh.Ratchet.State Buh.Ratchet.Placement Buh.Ratchet.Session Buh.Ratchet.Persist

/-- Something one may know: an X25519 secret, a public key or a derived key. -/
inductive Fact (S : Suite) where
  | secret (value : Bytes32)
  | pub (value : Bytes32)
  | key (value : S.Key)

/-- `kdf_rk`, `kdf_ck`, `message_keys` and Diffie-Hellman with a known secret. -/
inductive Rule (S : Suite) : List (Fact S) → Fact S → Prop where
  | publish (s : Bytes32) : Rule S [.secret s] (.pub (S.publicKey s))
  | share (s pub : Bytes32) : Rule S [.secret s, .pub pub] (.key (S.diffieHellman s pub))
  | root (rk dhOut : S.Key) : Rule S [.key rk, .key dhOut] (.key (kdfRk S rk dhOut).1)
  | seed (rk dhOut : S.Key) : Rule S [.key rk, .key dhOut] (.key (kdfRk S rk dhOut).2)
  | next (ck : S.Key) : Rule S [.key ck] (.key (kdfCk S ck).1)
  | message (ck : S.Key) : Rule S [.key ck] (.key (kdfCk S ck).2)
  | aead (mk : S.Key) : Rule S [.key mk] (.key (messageKeys S mk).1)

/-- The four kinds of derived key. -/
inductive Kind where
  | root
  | chain
  | message
  | aead
  deriving DecidableEq

/-- The HKDF labels and output blocks a key of each kind comes from. The root that a
session starts from has a label of its own. -/
def Kind.Label : Kind → Bytes → Nat → Prop
  | .root, info, block => (info = rkInfo ∧ block = 0) ∨
      (info ≠ rkInfo ∧ info ≠ ckNextInfo ∧ info ≠ mkInfo ∧ info ≠ msgKeysInfo)
  | .chain, info, block => (info = rkInfo ∧ block = 1) ∨ info = ckNextInfo
  | .message, info, _ => info = mkInfo
  | .aead, info, _ => info = msgKeysInfo

def Labelled (S : Suite) (kind : Kind) (key : S.Key) : Prop :=
  ∃ prk info block, key = S.hkdfExpand prk info block ∧ kind.Label info block

theorem Kind.Label.unique {kind other : Kind} {info : Bytes} {block : Nat}
    (left : kind.Label info block) (right : other.Label info block) : kind = other := by
  have rk_next : rkInfo ≠ ckNextInfo := by decide
  have rk_mk : rkInfo ≠ mkInfo := by decide
  have rk_keys : rkInfo ≠ msgKeysInfo := by decide
  have next_mk : ckNextInfo ≠ mkInfo := by decide
  have next_keys : ckNextInfo ≠ msgKeysInfo := by decide
  have mk_keys : mkInfo ≠ msgKeysInfo := by decide
  cases kind <;> cases other <;> simp only [Kind.Label] at left right <;> grind

/-- Places of the key schedule that are reached from each other only. -/
structure Region where
  roots : Nat → Prop
  chains : Nat → Nat → Prop
  roots_below : ∀ depth, roots (depth + 1) → roots depth
  seeds_below : ∀ depth, chains (depth + 1) 0 → roots depth
  chains_before : ∀ depth position, chains depth (position + 1) → chains depth position

/-- Every key of the session. -/
def everywhere : Region where
  roots _ := True
  chains _ _ := True
  roots_below _ _ := trivial
  seeds_below _ _ := trivial
  chains_before _ _ _ := trivial

section
variable {S : Suite} {root : S.Key}

/-- The message keys of a region, but for those in `held`. -/
def Region.Message (region : Region) (root : S.Key) (held : Set S.Key) (mk : S.Key) : Prop :=
  ∃ d k, region.chains d k ∧ MessageAt S root d k mk ∧ mk ∉ held

theorem rootAt_labelled (session : SessionRoot S root) {d : Nat} {key : S.Key}
    (place : RootAt S root d key) : Labelled S .root key := by
  cases place with
  | start =>
    obtain ⟨prk, info, block, same, others⟩ := session
    exact ⟨prk, info, block, same, Or.inr others⟩
  | step below dhOut => exact ⟨_, _, _, rfl, Or.inl ⟨rfl, rfl⟩⟩

theorem chainAt_labelled {d k : Nat} {key : S.Key} (place : ChainAt S root d k key) :
    Labelled S .chain key := by
  cases place with
  | seed below dhOut => exact ⟨_, _, _, rfl, Or.inl ⟨rfl, rfl⟩⟩
  | next before => exact ⟨_, _, _, rfl, Or.inr rfl⟩

theorem messageAt_labelled {d k : Nat} {key : S.Key} (place : MessageAt S root d k key) :
    Labelled S .message key := by
  obtain ⟨ck, _, rfl⟩ := place
  exact ⟨_, _, _, rfl, rfl⟩

theorem messageKeys_labelled (mk : S.Key) : Labelled S .aead (messageKeys S mk).1 :=
  ⟨_, _, _, rfl, rfl⟩

theorem Labelled.unique (ideal : Ideal S) {kind other : Kind} {key : S.Key}
    (left : Labelled S kind key) (right : Labelled S other key) : kind = other := by
  obtain ⟨prk, info, block, rfl, holds⟩ := left
  obtain ⟨prk', info', block', same, holds'⟩ := right
  obtain ⟨_, rfl, rfl⟩ := ideal.expand_inj same
  exact holds.unique holds'

theorem share_not_labelled (ideal : Ideal S) (s pub : Bytes32) (kind : Kind) :
    ¬Labelled S kind (S.diffieHellman s pub) := by
  rintro ⟨prk, info, block, same, _⟩
  exact ideal.dh_not_expand s pub prk info block same

/-- What it means for a key of each kind to be blocked. -/
def Region.At (region : Region) (root : S.Key) (held : Set S.Key) : Kind → S.Key → Prop
  | .root, key => ∃ d, region.roots d ∧ RootAt S root d key
  | .chain, key => ∃ d k, region.chains d k ∧ ChainAt S root d k key
  | .message, key => region.Message root held key
  | .aead, key => ∃ mk, region.Message root held mk ∧ key = (messageKeys S mk).1

/-- The keys of a region, all of them to be kept secret. -/
def Region.blocked (region : Region) (root : S.Key) (held : Set S.Key) : Set (Fact S) :=
  { fact | ∃ key kind, fact = .key key ∧ region.At root held kind key }

theorem Region.At.labelled (session : SessionRoot S root) {region : Region} {held : Set S.Key} {kind : Kind}
    {key : S.Key} (inside : region.At root held kind key) : Labelled S kind key := by
  cases kind with
  | root =>
    obtain ⟨d, _, place⟩ := inside
    exact rootAt_labelled session place
  | chain =>
    obtain ⟨d, k, _, place⟩ := inside
    exact chainAt_labelled place
  | message =>
    obtain ⟨d, k, _, place, _⟩ := inside
    exact messageAt_labelled place
  | aead =>
    obtain ⟨mk, _, rfl⟩ := inside
    exact messageKeys_labelled mk

end

section
variable {S : Suite} (ideal : Ideal S) {root : S.Key} (session : SessionRoot S root)
  {region : Region} {held : Set S.Key} {key : S.Key}
include ideal session

/-- The label of a blocked key says which clause blocks it. -/
theorem Region.at_of_blocked (kind : Kind) (labelled : Labelled S kind key)
    (inside : Fact.key key ∈ region.blocked root held) : region.At root held kind key := by
  obtain ⟨_, other, ⟨⟩, found⟩ := inside
  obtain rfl := labelled.unique ideal (found.labelled session)
  exact found

/-- One case per function: a blocked output comes from a blocked input. -/
theorem Region.guarded : Guarded (Rule S) (region.blocked root held) := by
  intro premises fact rule inside
  cases rule with
  | publish s => obtain ⟨_, _, ⟨⟩, _⟩ := inside
  | share s pub =>
    obtain ⟨_, kind, ⟨⟩, found⟩ := inside
    exact absurd (found.labelled session) (share_not_labelled ideal s pub kind)
  | root rk dhOut =>
    obtain ⟨d, low, place⟩ := Region.at_of_blocked ideal session .root
      ⟨_, _, _, rfl, Or.inl ⟨rfl, rfl⟩⟩ inside
    obtain ⟨below, rfl, under⟩ := RootAt.of_root_eq ideal session place
    exact ⟨.key rk, List.mem_cons_self, rk, .root, rfl, below, region.roots_below _ low, under⟩
  | seed rk dhOut =>
    obtain ⟨d, k, low, place⟩ := Region.at_of_blocked ideal session .chain
      ⟨_, _, _, rfl, Or.inl ⟨rfl, rfl⟩⟩ inside
    obtain ⟨rfl, below, rfl, under⟩ := ChainAt.of_seed_eq ideal place
    exact ⟨.key rk, List.mem_cons_self, rk, .root, rfl, below, region.seeds_below _ low, under⟩
  | next ck =>
    obtain ⟨d, k, low, place⟩ := Region.at_of_blocked ideal session .chain
      ⟨_, _, _, rfl, Or.inr rfl⟩ inside
    obtain ⟨before, rfl, under⟩ := ChainAt.of_next_eq ideal place
    exact ⟨.key ck, List.mem_cons_self, ck, .chain, rfl, d, before, region.chains_before _ _ low, under⟩
  | message ck =>
    obtain ⟨d, k, low, ⟨ck', under, same⟩, _⟩ := Region.at_of_blocked ideal session .message
      ⟨_, _, _, rfl, rfl⟩ inside
    obtain rfl := kdfCk_mk_inj ideal same
    exact ⟨.key ck, List.mem_cons_self, ck, .chain, rfl, d, k, low, under⟩
  | aead mk =>
    obtain ⟨mk', found, same⟩ := Region.at_of_blocked ideal session .aead (messageKeys_labelled mk) inside
    obtain rfl := messageKeys_key_inj ideal same
    exact ⟨.key mk, List.mem_cons_self, mk, .message, rfl, found⟩

/-- Knowledge that holds no key of a region derives none. -/
theorem Region.not_derivable {knowledge : Set (Fact S)}
    (apart : ∀ fact ∈ knowledge, fact ∉ region.blocked root held) (kind : Kind)
    (inside : region.At root held kind key) : ¬Derivable (Rule S) knowledge (.key key) :=
  (Region.guarded ideal session).not_derivable apart ⟨key, kind, rfl, inside⟩

end

/-! What a captured state gives away. -/

/-- The whole contents of a state, with the public keys seen on the wire. -/
inductive Held {S : Suite} (s : RatchetState S) (publics : Set Bytes32) : Fact S → Prop where
  | dhs : Held s publics (.secret s.dhs)
  | dhsPub : Held s publics (.pub s.dhsPub)
  | dhr {remote : Bytes32} (known : s.dhr = some remote) : Held s publics (.pub remote)
  | rk : Held s publics (.key s.rk)
  | cks {ck : S.Key} (chain : s.cks = some ck) : Held s publics (.key ck)
  | ckr {ck : S.Key} (chain : s.ckr = some ck) : Held s publics (.key ck)
  | banked {slot : Bytes32 × UInt32} {mk : S.Key} (found : s.skipped.lookup slot = some mk) :
      Held s publics (.key mk)
  | seen {remote : Bytes32} (member : remote ∈ publics) : Held s publics (.pub remote)

def stateFacts {S : Suite} (s : RatchetState S) (publics : Set Bytes32) : Set (Fact S) :=
  { fact | Held s publics fact }

def bankedKeys {S : Suite} (s : RatchetState S) : Set S.Key := { mk | ∃ slot, s.skipped.lookup slot = some mk }

/-- The places a state has left behind: older roots, older chains, and the part of its
two chains it has walked. -/
def behind (depth sendPos recvPos : Nat) : Region where
  roots d := d < depth
  chains d k := d + 1 < depth ∨ (d + 1 = depth ∧ k < recvPos) ∨ (d = depth ∧ k < sendPos)
  roots_below d low := by omega
  seeds_below d low := by omega
  chains_before d k low := by omega

/-- A message key that a successful call of `p` used. -/
def Consumed {S : Suite} (w : World S) (p : Party) (key : S.Key) : Prop :=
  (∃ m ∈ w.sent, m.sender = p ∧ m.key = key) ∨ ∃ o ∈ w.opened, o.receiver = p ∧ o.key = key

section
variable {S : Suite} (ideal : Ideal S) {root : S.Key} (session : SessionRoot S root)
include ideal session

/-- Nothing a placed state holds lies behind it. -/
theorem stateFacts_apart {s : RatchetState S} {depth sendPos recvPos : Nat}
    (placed : Placed S root s depth sendPos recvPos) (publics : Set Bytes32) :
    ∀ fact ∈ stateFacts s publics, fact ∉ (behind depth sendPos recvPos).blocked root (bankedKeys s) := by
  intro fact held inside
  cases held with
  | dhs => obtain ⟨_, _, ⟨⟩, _⟩ := inside
  | dhsPub => obtain ⟨_, _, ⟨⟩, _⟩ := inside
  | dhr known => obtain ⟨_, _, ⟨⟩, _⟩ := inside
  | seen member => obtain ⟨_, _, ⟨⟩, _⟩ := inside
  | rk =>
    obtain ⟨d, low, place⟩ := Region.at_of_blocked ideal session .root (rootAt_labelled session placed.rk) inside
    have same := RootAt.unique ideal session place placed.rk
    simp only [behind] at low
    omega
  | cks chain =>
    have sending := placed.cks _ chain
    obtain ⟨d, k, low, place⟩ := Region.at_of_blocked ideal session .chain (chainAt_labelled sending) inside
    have same := ChainAt.unique ideal session place sending
    simp only [behind] at low
    omega
  | ckr chain =>
    obtain ⟨below, total, receiving⟩ := placed.ckr _ chain
    obtain ⟨d, k, low, place⟩ := Region.at_of_blocked ideal session .chain (chainAt_labelled receiving) inside
    have same := ChainAt.unique ideal session place receiving
    simp only [behind] at low
    omega
  | banked found =>
    obtain ⟨d, k, place, _⟩ := placed.bank _ _ found
    obtain ⟨_, _, _, _, gone⟩ := Region.at_of_blocked ideal session .message (messageAt_labelled place) inside
    exact gone ⟨_, found⟩

/-- Every key a party consumed lies behind its state and is not banked. -/
theorem consumed_behind {w : World S} {p : Party} {depth sendPos recvPos : Nat}
    (accounted : Accounted S root w p depth sendPos recvPos) {key : S.Key} (consumed : Consumed w p key) :
    (behind depth sendPos recvPos).Message root (bankedKeys (w.state p)) key := by
  rcases consumed with ⟨m, member, mine, rfl⟩ | ⟨o, member, mine, rfl⟩
  · obtain ⟨d, k, place, turns, total, inside⟩ := accounted.sent m member mine
    refine ⟨d, k, ?_, place, ?_⟩
    · simp only [behind]
      omega
    · rintro ⟨slot, found⟩
      obtain ⟨d', k', other, turns', total', _⟩ := accounted.placed.bank slot _ found
      have same := (MessageAt.unique ideal session place other).1
      omega
  · obtain ⟨⟨d, k, place, turns, total, inside⟩, gone⟩ := accounted.opened o member mine
    refine ⟨d, k, ?_, place, fun ⟨slot, found⟩ => gone slot found⟩
    simp only [behind]
    omega

/-- A state never opens with a key its party has consumed. -/
theorem not_reopened {w : World S} {p : Party} {depth sendPos recvPos : Nat}
    (accounted : Accounted S root w p depth sendPos recvPos) {key : S.Key} (consumed : Consumed w p key)
    (header : Header) (generated : Bytes32) : ((w.state p).receiveKey header generated).2 ≠ .ok key := by
  intro received
  obtain ⟨_, _, _, _, returned⟩ := receiveKey_evolves ideal session header generated accounted.placed
  obtain ⟨_, source, _⟩ := returned key received
  obtain ⟨d, k, low, place, gone⟩ := consumed_behind ideal session accounted consumed
  rcases source with ⟨slot, found⟩ | ⟨d', k', turns, ahead, total, beyond⟩
  · exact gone ⟨slot, found⟩
  · obtain ⟨rfl, rfl⟩ := MessageAt.unique ideal session place ahead
    simp only [behind] at low
    omega

omit session in
/-- A ciphertext opens under one message key only. -/
theorem openMessage_key_unique {key key' : S.Key} {aad aad' ciphertext plaintext plaintext' : Bytes}
    (opened : openMessage S key aad ciphertext = .ok plaintext)
    (again : openMessage S key' aad' ciphertext = .ok plaintext') : key = key' := by
  have sealed := ideal.encrypt_decrypt (aeadOpen_eq_ok.mp opened)
  have resealed := ideal.encrypt_decrypt (aeadOpen_eq_ok.mp again)
  exact messageKeys_key_inj ideal (ideal.encrypt_inj sealed resealed).1

omit ideal session in
theorem storable_step {env : Surroundings S} {w w' : World S} (storable : ∀ p, Storable (w.state p))
    (step : Step env w w') : ∀ p, Storable (w'.state p) := by
  have updated (p : Party) (after : RatchetState S) (kept : Storable after) :
      ∀ q, Storable (Function.update w.state p after q) :=
    (Function.forall_update_iff w.state (fun _ s => Storable s)).mpr ⟨kept, fun q _ => storable q⟩
  cases step with
  | encrypt p call used => exact updated p _ ((storable p).encrypt call)
  | encryptFailed p call kept => exact updated p _ ((storable p).encrypt call)
  | decrypt p delivered draw call used => exact updated p _ ((storable p).decrypt call)
  | decryptFailed p delivered draw call kept => exact updated p _ ((storable p).decrypt call)
  | rolledBack => exact storable

omit ideal session in
theorem storable_run {env : Surroundings S} {signedPrekey generated : Bytes32} {w : World S}
    (run : Run env (World.start root signedPrekey generated) w) : ∀ p, Storable (w.state p) := by
  induction run with
  | refl =>
    intro p
    cases p with
    | initiator => exact storable_initiator _ _ _
    | responder => exact storable_responder _ _
  | tail _ step ih => exact storable_step ih step

/-- Forward secrecy. In every reachable state, what a party holds and all the public
keys in the world do not give back a message key it has used, nor that key's AEAD key;
and the blob of the state opens nothing that a used key opens. -/
theorem consumed_keys_secret {env : Surroundings S} {signedPrekey generated : Bytes32} {w : World S}
    (run : Run env (World.start root signedPrekey generated) w) {p : Party} {key : S.Key}
    (consumed : Consumed w p key) (publics : Set Bytes32) :
    ¬Derivable (Rule S) (stateFacts (w.state p) publics) (.key key) ∧
      ¬Derivable (Rule S) (stateFacts (w.state p) publics) (.key (messageKeys S key).1) ∧
      ∃ restored, fromBytes S (toBytes (w.state p)) = .ok restored ∧
        ∀ message header ciphertext plaintext, parseMessage message = .ok (header, ciphertext) →
          openMessage S key (toAad header) ciphertext = .ok plaintext →
          ∀ drawn answer, (restored.decrypt drawn message).2 ≠ .ok answer := by
  have ledger := ledger_run ideal session (ledger_start signedPrekey generated) run
  obtain ⟨depth, sendPos, recvPos, accounted⟩ := ledger.party p
  have spent := consumed_behind ideal session accounted consumed
  have apart := stateFacts_apart ideal session accounted.placed publics
  refine ⟨?_, ?_, w.state p, fromBytes_toBytes ideal.toLawful (storable_run run p), ?_⟩
  · exact Region.not_derivable ideal session apart .message spent
  · exact Region.not_derivable ideal session apart .aead ⟨key, spent, rfl⟩
  · intro message header ciphertext plaintext parsed opens drawn answer decrypted
    obtain ⟨header', ciphertext', key', parsed', received, opened, _⟩ :=
      RatchetState.decrypt_ok (Prod.ext rfl decrypted)
    rw [parsed] at parsed'
    cases parsed'
    obtain rfl := openMessage_key_unique ideal opens opened
    exact not_reopened ideal session accounted consumed header drawn (by rw [received])

end

theorem consumed_keys_secret_sample : ∃ w, Run (anything Symbolic.suite)
      (World.start sampleRoot samplePrekey sampleGenerated) w ∧
    ∃ key, Consumed w .initiator key ∧ Consumed w .responder key ∧
      ¬Derivable (Rule Symbolic.suite) (stateFacts (w.state .initiator) Set.univ) (.key key) ∧
      ¬Derivable (Rule Symbolic.suite) (stateFacts (w.state .responder) Set.univ) (.key key) := by
  obtain ⟨ciphertext, sealed⟩ := sample_sealed
  obtain ⟨w, run, sent, opened⟩ := exchange_run Symbolic.suite_lawful (anything Symbolic.suite)
    (List.Vector.replicate 32 3) sealed (fun _ _ => trivial) (fun _ _ => trivial)
  have used : Consumed w .initiator (firstKey Symbolic.suite sampleRoot samplePrekey sampleGenerated) :=
    Or.inl ⟨_, by rw [sent]; exact List.mem_singleton_self _, rfl, rfl⟩
  have received : Consumed w .responder (firstKey Symbolic.suite sampleRoot samplePrekey sampleGenerated) :=
    Or.inr ⟨_, by rw [opened]; exact List.mem_singleton_self _, rfl, rfl⟩
  exact ⟨w, run, _, used, received,
    (consumed_keys_secret Symbolic.suite_ideal sampleRoot_session run used Set.univ).1,
    (consumed_keys_secret Symbolic.suite_ideal sampleRoot_session run received Set.univ).1⟩

end Buh.Ratchet.Secrecy
