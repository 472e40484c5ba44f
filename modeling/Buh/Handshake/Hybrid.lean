import Buh.Handshake.Pqxdh
import Buh.Ratchet.Secrecy

/-! The hybrid promise of `pqxdh.rs`: a root mixes X25519 exchanges and an ML-KEM
encapsulation, so an adversary must break both to recover the session. What can be
computed is again a matter of deduction, now with the functions of the handshake
beside those of the ratchet. -/

namespace Buh.Handshake.Hybrid
open Buh.Library.Deduction Buh.Library.PrefixCode Buh.Wire.Codec Buh.Crypto Buh.Crypto.Primitives
  Buh.Crypto.PostQuantum Buh.Ratchet.Message Buh.Ratchet.Chain Buh.Ratchet.State Buh.Ratchet.Session
  Buh.Ratchet.Secrecy Buh.Handshake.Prekey Buh.Handshake.Pqxdh

section
variable {S : Suite}

/-- Of two keys only one could have the empty encoding, and an empty one would end any other. -/
theorem keyBytes_ne_nil (ideal : Ideal S) (key : S.Key) : S.keyBytes key ≠ [] := by
  intro empty
  have all : ∀ other, other = key := by
    intro other
    have ends : S.keyBytes key ++ S.keyBytes other = S.keyBytes other ++ [] := by
      rw [empty, List.nil_append, List.append_nil]
    exact (ideal.keyBytes_prefixFree ends).1.symm
  have same := (all (S.hkdfExpand (S.hkdfExtract [] []) [] 0)).trans
    (all (S.hkdfExpand (S.hkdfExtract [] []) [] 1)).symm
  exact absurd (ideal.expand_inj same).2.2 (by decide)

/-- The concatenation hides neither how many secrets went in nor where one ends. -/
theorem ikm_inj (ideal : Ideal S) {dhSpk dhSpk' : S.Key} {dhOpk dhOpk' : Option S.Key} {ss ss' : S.Key}
    (same : ikm S dhSpk dhOpk ss = ikm S dhSpk' dhOpk' ss') : dhSpk = dhSpk' ∧ dhOpk = dhOpk' ∧ ss = ss' := by
  have free := ideal.keyBytes_prefixFree
  have lone {key other last : S.Key} (ends : S.keyBytes key = S.keyBytes other ++ S.keyBytes last) : False := by
    have tails : S.keyBytes key ++ [] = S.keyBytes other ++ S.keyBytes last := by rw [List.append_nil, ends]
    exact keyBytes_ne_nil ideal last (free tails).2.symm
  obtain ⟨firsts, tails⟩ := free same
  refine ⟨firsts, ?_⟩
  cases dhOpk with
  | none =>
    cases dhOpk' with
    | none => exact ⟨rfl, free.injective tails⟩
    | some other => exact absurd tails lone
  | some key =>
    cases dhOpk' with
    | none => exact absurd tails.symm lone
    | some other =>
      obtain ⟨seconds, thirds⟩ := free tails
      exact ⟨congrArg some seconds, free.injective thirds⟩

/-- A value of the kind ML-KEM shares, whichever side computed it. -/
inductive Shared (P : Schemes S) : S.Key → Prop where
  | encapsulated (key : P.EncapsulationKey) (coins : Bytes32) : Shared P (P.kemEncapsulate key coins).2
  | decapsulated (secret : P.DecapsulationKey) (ciphertext : ByteArr mlkemCiphertextLen) :
      Shared P (P.kemDecapsulate secret ciphertext)

/-- Symbolic ML-KEM: a shared secret tells which encapsulation key and which ciphertext it
belongs to, no other decapsulation key recovers it, and it is no other kind of key. -/
structure IdealKem (P : Schemes S) : Prop extends P.Lawful where
  encapsulate_free : ∀ {key key' : P.EncapsulationKey} {coins coins' : Bytes32},
    (P.kemEncapsulate key coins).2 = (P.kemEncapsulate key' coins').2 →
      key = key' ∧ (P.kemEncapsulate key coins).1 = (P.kemEncapsulate key' coins').1
  decapsulate_free : ∀ {secret : P.DecapsulationKey} {ciphertext : ByteArr mlkemCiphertextLen}
    {seed : ByteArr mlkemSecretLen} {coins : Bytes32},
    P.kemDecapsulate secret ciphertext = (P.kemEncapsulate (P.generateKeypair seed).2 coins).2 →
      secret = (P.generateKeypair seed).1
  shared_not_expand : ∀ {key : S.Key}, Shared P key → ∀ prk info block, key ≠ S.hkdfExpand prk info block
  shared_not_dh : ∀ {key : S.Key}, Shared P key → ∀ secret pub, key ≠ S.diffieHellman secret pub

/-- Something one may know: what the ratchet deals in, or a secret of ML-KEM. -/
inductive Known (P : Schemes S) where
  | ratchet (fact : Fact S)
  | decapsulation (secret : P.DecapsulationKey)
  | coins (value : Bytes32)

/-- What `derive_root` is fed with. -/
def inputs {P : Schemes S} (dhSpk : S.Key) (dhOpk : Option S.Key) (ss : S.Key) : List (Known P) :=
  (dhSpk :: ss :: dhOpk.toList).map (fun key => .ratchet (.key key))

/-- `encapsulate`, `decapsulate` and `derive_root` under any transcript, with everything
the ratchet computes. -/
inductive Infers (P : Schemes S) : List (Known P) → Known P → Prop where
  | ratchet {premises : List (Fact S)} {fact : Fact S} (rule : Rule S premises fact) :
      Infers P (premises.map .ratchet) (.ratchet fact)
  | encapsulate (key : P.EncapsulationKey) (value : Bytes32) :
      Infers P [.coins value] (.ratchet (.key (P.encapsulate key value).2))
  | decapsulate {secret : P.DecapsulationKey} {ciphertext : Bytes} {shared : S.Key}
      (opens : P.decapsulate secret ciphertext = .ok shared) :
      Infers P [.decapsulation secret] (.ratchet (.key shared))
  | root (dhSpk : S.Key) (dhOpk : Option S.Key) (ss : S.Key) (responder : ResponderView P)
      (initiatorIdentity : P.VerifyingKey) (ephemeral : Bytes32) (kemCiphertext : Bytes) :
      Infers P (inputs dhSpk dhOpk ss) (.ratchet (.key (deriveRoot S (ikm S dhSpk dhOpk ss)
        (transcript responder initiatorIdentity ephemeral kemCiphertext))))

theorem decapsulate_shared {P : Schemes S} {secret : P.DecapsulationKey} {ciphertext : Bytes} {shared : S.Key}
    (opens : P.decapsulate secret ciphertext = .ok shared) :
    ∃ arr, toArr mlkemCiphertextLen ciphertext = some arr ∧ shared = P.kemDecapsulate secret arr := by
  unfold Schemes.decapsulate at opens
  split at opens
  · next arr found =>
    cases opens
    exact ⟨arr, found, rfl⟩
  · cases opens

/-! What one half of a handshake keeps secret. -/

/-- The ML-KEM half: the decapsulation key, whatever encapsulates to the same ciphertext, and
the shared secret. -/
def kemCore (P : Schemes S) (seed : ByteArr mlkemSecretLen) (coins : Bytes32) : Set (Known P)
  | .decapsulation secret => secret = (P.generateKeypair seed).1
  | .coins value =>
      (P.kemEncapsulate (P.generateKeypair seed).2 value).1 = (P.kemEncapsulate (P.generateKeypair seed).2 coins).1
  | .ratchet (.key key) => key = (P.kemEncapsulate (P.generateKeypair seed).2 coins).2
  | .ratchet _ => False

/-- One X25519 exchange: a secret of either end, and the output. -/
def dhCore (P : Schemes S) (ephemeral prekey : Bytes32) : Set (Known P)
  | .ratchet (.secret secret) => S.publicKey secret = S.publicKey ephemeral ∨ S.publicKey secret = S.publicKey prekey
  | .ratchet (.key key) => key = S.diffieHellman ephemeral (S.publicKey prekey)
  | _ => False

section
variable {P : Schemes S} (ideal : Ideal S) (kem : IdealKem P)
include kem

theorem kemCore_guarded (seed : ByteArr mlkemSecretLen) (coins : Bytes32) :
    Guarded (Infers P) (kemCore P seed coins) := by
  have shared : Shared P (P.kemEncapsulate (P.generateKeypair seed).2 coins).2 := .encapsulated _ _
  have fresh {prk : S.Prk} {info : Bytes} {block : Nat}
      (inside : S.hkdfExpand prk info block = (P.kemEncapsulate (P.generateKeypair seed).2 coins).2) : False :=
    kem.shared_not_expand shared _ _ _ inside.symm
  intro premises fact rule inside
  cases rule with
  | ratchet rule =>
    cases rule with
    | publish s => exact inside.elim
    | share s pub => exact absurd inside.symm (kem.shared_not_dh shared s pub)
    | root rk dhOut => exact (fresh inside).elim
    | seed rk dhOut => exact (fresh inside).elim
    | next ck => exact (fresh inside).elim
    | message ck => exact (fresh inside).elim
    | aead mk => exact (fresh inside).elim
  | encapsulate key value =>
    obtain ⟨rfl, ciphertexts⟩ := kem.encapsulate_free inside
    exact ⟨.coins value, List.mem_singleton_self _, ciphertexts⟩
  | decapsulate opens =>
    obtain ⟨arr, _, rfl⟩ := decapsulate_shared opens
    exact ⟨_, List.mem_singleton_self _, kem.decapsulate_free inside⟩
  | root dhSpk dhOpk ss responder initiatorIdentity ephemeral kemCiphertext => exact (fresh inside).elim

include ideal

theorem dhCore_guarded (ephemeral prekey : Bytes32) : Guarded (Infers P) (dhCore P ephemeral prekey) := by
  have fresh {prk : S.Prk} {info : Bytes} {block : Nat}
      (inside : S.hkdfExpand prk info block = S.diffieHellman ephemeral (S.publicKey prekey)) : False :=
    ideal.dh_not_expand _ _ _ _ _ inside.symm
  intro premises fact rule inside
  cases rule with
  | ratchet rule =>
    cases rule with
    | publish s => exact inside.elim
    | share s pub =>
      refine ⟨.ratchet (.secret s), List.mem_cons_self, ?_⟩
      rcases ideal.dh_free inside with ⟨ends, _⟩ | ⟨ends, _⟩
      · exact Or.inl ends
      · exact Or.inr ends
    | root rk dhOut => exact (fresh inside).elim
    | seed rk dhOut => exact (fresh inside).elim
    | next ck => exact (fresh inside).elim
    | message ck => exact (fresh inside).elim
    | aead mk => exact (fresh inside).elim
  | encapsulate key value => exact absurd inside (kem.shared_not_dh (.encapsulated key value) _ _)
  | decapsulate opens =>
    obtain ⟨arr, _, rfl⟩ := decapsulate_shared opens
    exact absurd inside (kem.shared_not_dh (.decapsulated _ arr) _ _)
  | root dhSpk dhOpk ss responder initiatorIdentity ephemeral kemCiphertext => exact (fresh inside).elim

/-- One half of a handshake, and every key of the session that starts from its root. -/
def sealedBy (core : Set (Known P)) (root : S.Key) : Set (Known P) :=
  core ∪ Known.ratchet '' everywhere.blocked root ∅

/-- A secret that goes into the root keeps the whole session secret: the root is computed
from it and every key of the session from the root. -/
theorem sealedBy_guarded {core : Set (Known P)} (guarded : Guarded (Infers P) core) {dhSpk ss : S.Key}
    {dhOpk : Option S.Key} {responder : ResponderView P} {initiatorIdentity : P.VerifyingKey}
    {ephemeral : Bytes32} {kemCiphertext : Bytes} (mixed : ∃ input ∈ inputs dhSpk dhOpk ss, input ∈ core) :
    Guarded (Infers P) (sealedBy core (deriveRoot S (ikm S dhSpk dhOpk ss)
      (transcript responder initiatorIdentity ephemeral kemCiphertext))) := by
  have session := deriveRoot_session (S := S) (ikm S dhSpk dhOpk ss) responder initiatorIdentity ephemeral
    kemCiphertext
  intro premises fact rule inside
  rcases inside with inside | ⟨fact, inside, rfl⟩
  · obtain ⟨premise, member, hidden⟩ := guarded _ _ rule inside
    exact ⟨premise, member, Or.inl hidden⟩
  cases rule with
  | ratchet rule =>
    obtain ⟨premise, member, hidden⟩ := Region.guarded ideal session _ _ rule inside
    exact ⟨.ratchet premise, List.mem_map_of_mem member, Or.inr ⟨premise, hidden, rfl⟩⟩
  | encapsulate key value =>
    obtain ⟨_, kind, ⟨⟩, found⟩ := inside
    obtain ⟨prk, info, block, same, _⟩ := found.labelled session
    exact absurd same (kem.shared_not_expand (.encapsulated key value) _ _ _)
  | decapsulate opens =>
    obtain ⟨arr, _, rfl⟩ := decapsulate_shared opens
    obtain ⟨_, kind, ⟨⟩, found⟩ := inside
    obtain ⟨prk, info, block, same, _⟩ := found.labelled session
    exact absurd same (kem.shared_not_expand (.decapsulated _ arr) _ _ _)
  | root dhSpk' dhOpk' ss' responder' initiatorIdentity' ephemeral' kemCiphertext' =>
    obtain ⟨d, _, place⟩ := Region.at_of_blocked ideal session .root (rootAt_labelled
      (deriveRoot_session _ responder' initiatorIdentity' ephemeral' kemCiphertext') .start) inside
    generalize derived : deriveRoot S (ikm S dhSpk' dhOpk' ss')
      (transcript responder' initiatorIdentity' ephemeral' kemCiphertext') = key at place
    cases place with
    | start =>
      obtain ⟨extracts, _⟩ := ideal.expand_inj derived
      obtain ⟨rfl, rfl, rfl⟩ := ikm_inj ideal (ideal.extract_inj extracts).2
      obtain ⟨input, member, hidden⟩ := mixed
      exact ⟨input, member, Or.inl hidden⟩
    | step below dhOut =>
      obtain ⟨_, _, _, same, ratchet, _⟩ := deriveRoot_session (S := S) (ikm S dhSpk' dhOpk' ss') responder'
        initiatorIdentity' ephemeral' kemCiphertext'
      obtain ⟨_, infos, _⟩ := ideal.expand_inj (same.symm.trans derived)
      exact absurd infos ratchet

end

/-! What an adversary has broken. -/

/-- Someone who has recorded all public values, and got hold of some secrets of X25519 and of
ML-KEM. -/
structure Adversary (P : Schemes S) where
  secrets : Set Bytes32
  decapsulation : Set P.DecapsulationKey
  coins : Set Bytes32

namespace Adversary
variable {P : Schemes S} (adversary : Adversary P)

def knowledge : Set (Known P)
  | .ratchet (.secret value) => value ∈ adversary.secrets
  | .ratchet (.pub _) => True
  | .ratchet (.key _) => False
  | .decapsulation secret => secret ∈ adversary.decapsulation
  | .coins value => value ∈ adversary.coins

/-- It holds a secret of one end of an X25519 exchange. -/
def Exchanges (ephemeral prekey : Bytes32) : Prop :=
  ∃ secret ∈ adversary.secrets, S.publicKey secret = S.publicKey ephemeral ∨ S.publicKey secret = S.publicKey prekey

/-- It holds the decapsulation key, or coins that lead to the same ciphertext. -/
def Decapsulates (seed : ByteArr mlkemSecretLen) (coins : Bytes32) : Prop :=
  (P.generateKeypair seed).1 ∈ adversary.decapsulation ∨ ∃ value ∈ adversary.coins,
    (P.kemEncapsulate (P.generateKeypair seed).2 value).1 = (P.kemEncapsulate (P.generateKeypair seed).2 coins).1

/-- It has broken both halves of a handshake: every X25519 exchange in it, and ML-KEM. -/
structure Breaks (withOneTime : Bool) (draws : PrekeyDraws) (drawn : InitiateDraws) : Prop where
  signedPrekey : adversary.Exchanges drawn.ephemeral draws.signedPrekey
  oneTimePrekey : withOneTime = true → adversary.Exchanges drawn.ephemeral draws.oneTimePrekey
  kem : adversary.Decapsulates draws.kem drawn.encapsulation

theorem kemCore_apart {seed : ByteArr mlkemSecretLen} {coins : Bytes32}
    (unbroken : ¬adversary.Decapsulates seed coins) : ∀ fact ∈ adversary.knowledge, fact ∉ kemCore P seed coins := by
  intro fact held inside
  apply unbroken
  match fact, held, inside with
  | .decapsulation secret, held, inside => exact Or.inl (inside ▸ held)
  | .coins value, held, inside => exact Or.inr ⟨value, held, inside⟩

theorem dhCore_apart {ephemeral prekey : Bytes32} (unbroken : ¬adversary.Exchanges ephemeral prekey) :
    ∀ fact ∈ adversary.knowledge, fact ∉ dhCore P ephemeral prekey := by
  intro fact held inside
  apply unbroken
  match fact, held, inside with
  | .ratchet (.secret secret), held, inside => exact ⟨secret, held, inside⟩

theorem sealedBy_apart {core : Set (Known P)} {root : S.Key} (apart : ∀ fact ∈ adversary.knowledge, fact ∉ core) :
    ∀ fact ∈ adversary.knowledge, fact ∉ sealedBy core root := by
  intro fact held inside
  rcases inside with inside | ⟨_, ⟨key, kind, rfl, _⟩, rfl⟩
  · exact apart fact held inside
  · exact held

/-- With a secret of either end the exchange can be repeated, from that end. -/
theorem Exchanges.derives (lawful : Lawful S) {adversary : Adversary P} {ephemeral prekey : Bytes32}
    (exchanges : adversary.Exchanges ephemeral prekey) :
    Derivable (Infers P) adversary.knowledge
      (.ratchet (.key (S.diffieHellman ephemeral (S.publicKey prekey)))) := by
  obtain ⟨secret, held, ends⟩ := exchanges
  have shares (pub : Bytes32) : Derivable (Infers P) adversary.knowledge
      (.ratchet (.key (S.diffieHellman secret pub))) := by
    refine .infer (.ratchet (.share secret pub)) fun premise member => ?_
    simp only [List.map_cons, List.map_nil, List.mem_cons, List.not_mem_nil, or_false] at member
    rcases member with rfl | rfl
    · exact .known held
    · exact .known trivial
  rcases ends with ends | ends
  · have same : S.diffieHellman secret (S.publicKey prekey) = S.diffieHellman ephemeral (S.publicKey prekey) :=
      calc
        _ = S.diffieHellman prekey (S.publicKey secret) := lawful.dh_comm _ _
        _ = S.diffieHellman prekey (S.publicKey ephemeral) := by rw [ends]
        _ = _ := lawful.dh_comm _ _
    exact same ▸ shares _
  · have same : S.diffieHellman secret (S.publicKey ephemeral) = S.diffieHellman ephemeral (S.publicKey prekey) :=
      calc
        _ = S.diffieHellman ephemeral (S.publicKey secret) := lawful.dh_comm _ _
        _ = _ := by rw [ends]
    exact same ▸ shares _

theorem Decapsulates.derives (lawful : P.Lawful) {adversary : Adversary P} {seed : ByteArr mlkemSecretLen}
    {coins : Bytes32} (decapsulates : adversary.Decapsulates seed coins) :
    Derivable (Infers P) adversary.knowledge
      (.ratchet (.key (P.kemEncapsulate (P.generateKeypair seed).2 coins).2)) := by
  rcases decapsulates with held | ⟨value, held, ciphertexts⟩
  · refine .infer (.decapsulate (lawful.decapsulate seed coins)) fun premise member => ?_
    obtain rfl := List.mem_singleton.mp member
    exact .known held
  · have same := lawful.decapsulate_encapsulate seed value
    rw [ciphertexts, lawful.decapsulate_encapsulate] at same
    rw [same]
    refine .infer (.encapsulate _ value) fun premise member => ?_
    obtain rfl := List.mem_singleton.mp member
    exact .known held

end Adversary

end

section
variable {S : Suite} {P : Schemes S} (ideal : Ideal S) (kem : IdealKem P) (responder initiator : P.SigningKey)
  (withOneTime : Bool) (draws : PrekeyDraws) (drawn : InitiateDraws)

/-- The root that an honest initiator derives from an honest responder's bundle. -/
def agreedRoot : S.Key := (initiate initiator (PrekeyBundle.generate P responder withOneTime draws).2 drawn).2

/-- The one-time exchange, as it goes into the root. -/
def oneTimeExchange (S : Suite) (withOneTime : Bool) (draws : PrekeyDraws) (drawn : InitiateDraws) : Option S.Key :=
  if withOneTime then some (S.diffieHellman drawn.ephemeral (S.publicKey draws.oneTimePrekey)) else none

theorem agreedRoot_eq : agreedRoot responder initiator withOneTime draws drawn =
    deriveRoot S (ikm S (S.diffieHellman drawn.ephemeral (S.publicKey draws.signedPrekey))
        (oneTimeExchange S withOneTime draws drawn)
        (P.kemEncapsulate (P.generateKeypair draws.kem).2 drawn.encapsulation).2)
      (transcript (.fromBundle (PrekeyBundle.generate P responder withOneTime draws).2) (P.verifyingKey initiator)
        (S.publicKey drawn.ephemeral)
        (P.encapsulate (P.generateKeypair draws.kem).2 drawn.encapsulation).1) := by
  cases withOneTime <;> rfl

include ideal kem

/-- Whichever half is left unbroken seals the session. -/
theorem sealed_of_unbroken {adversary : Adversary P} (unbroken : ¬adversary.Breaks withOneTime draws drawn) :
    ∃ core, Guarded (Infers P) (sealedBy core (agreedRoot responder initiator withOneTime draws drawn)) ∧
      ∀ fact ∈ adversary.knowledge,
        fact ∉ sealedBy core (agreedRoot responder initiator withOneTime draws drawn) := by
  rw [agreedRoot_eq]
  by_cases decapsulates : adversary.Decapsulates draws.kem drawn.encapsulation
  swap
  · refine ⟨_, sealedBy_guarded ideal kem (kemCore_guarded kem draws.kem drawn.encapsulation) ?_,
      adversary.sealedBy_apart (adversary.kemCore_apart decapsulates)⟩
    exact ⟨_, List.mem_cons_of_mem _ List.mem_cons_self, rfl⟩
  by_cases exchanges : adversary.Exchanges drawn.ephemeral draws.signedPrekey
  swap
  · refine ⟨_, sealedBy_guarded ideal kem (dhCore_guarded ideal kem drawn.ephemeral draws.signedPrekey) ?_,
      adversary.sealedBy_apart (adversary.dhCore_apart exchanges)⟩
    exact ⟨_, List.mem_cons_self, rfl⟩
  · have missing : ¬(withOneTime = true → adversary.Exchanges drawn.ephemeral draws.oneTimePrekey) :=
      fun oneTime => unbroken ⟨exchanges, oneTime, decapsulates⟩
    obtain ⟨rfl, oneTime⟩ := Classical.not_imp.mp missing
    refine ⟨_, sealedBy_guarded ideal kem (dhCore_guarded ideal kem drawn.ephemeral draws.oneTimePrekey) ?_,
      adversary.sealedBy_apart (adversary.dhCore_apart oneTime)⟩
    exact ⟨_, List.mem_cons_of_mem _ (List.mem_cons_of_mem _ List.mem_cons_self), rfl⟩

/-- The root can be computed from what an adversary holds exactly when it has broken both
halves of the handshake: ML-KEM, and every X25519 exchange that went in. -/
theorem root_derivable_iff (adversary : Adversary P) :
    Derivable (Infers P) adversary.knowledge
        (.ratchet (.key (initiate initiator (PrekeyBundle.generate P responder withOneTime draws).2 drawn).2)) ↔
      adversary.Breaks withOneTime draws drawn := by
  change Derivable _ _ (Known.ratchet (.key (agreedRoot responder initiator withOneTime draws drawn))) ↔ _
  constructor
  · intro derivable
    by_contra unbroken
    obtain ⟨core, guarded, apart⟩ := sealed_of_unbroken ideal kem responder initiator withOneTime draws drawn unbroken
    refine guarded.not_derivable apart (Or.inr ⟨_, ⟨_, .root, rfl, 0, trivial, .start⟩, rfl⟩) derivable
  · rintro ⟨signedPrekey, oneTimePrekey, decapsulates⟩
    rw [agreedRoot_eq]
    refine .infer (.root _ _ _ _ _ _ _) fun input member => ?_
    obtain ⟨key, listed, rfl⟩ := List.mem_map.mp member
    rcases List.mem_cons.mp listed with rfl | listed
    · exact signedPrekey.derives ideal.toLawful
    rcases List.mem_cons.mp listed with rfl | listed
    · exact decapsulates.derives kem.toLawful
    cases withOneTime with
    | false => exact absurd listed List.not_mem_nil
    | true =>
      obtain rfl := List.mem_singleton.mp listed
      exact (oneTimePrekey rfl).derives ideal.toLawful

/-- Recorded traffic stays closed. One who has not broken both halves derives no message key
of any run of the session, and no key it does derive opens any message of the run, whatever
other X25519 secrets it has, those of the ratchet included. -/
theorem recorded_traffic_closed {env : Surroundings S} {generated : Bytes32} {w : World S}
    (run : Run env (World.start (initiate initiator (PrekeyBundle.generate P responder withOneTime draws).2 drawn).2
      draws.signedPrekey generated) w)
    {adversary : Adversary P} (unbroken : ¬adversary.Breaks withOneTime draws drawn) {m : Sent S}
    (sent : m ∈ w.sent) :
    ¬Derivable (Infers P) adversary.knowledge (.ratchet (.key m.key)) ∧
      ∃ header ciphertext, parseMessage m.message = .ok (header, ciphertext) ∧
        ∀ key, Derivable (Infers P) adversary.knowledge (.ratchet (.key key)) →
          ∀ nonce aad, S.aeadDecrypt key nonce aad ciphertext = none := by
  have session : SessionRoot S (agreedRoot responder initiator withOneTime draws drawn) := deriveRoot_session _ _ _ _ _
  obtain ⟨core, guarded, apart⟩ := sealed_of_unbroken ideal kem responder initiator withOneTime draws drawn unbroken
  have ledger := ledger_run ideal session (ledger_start draws.signedPrekey generated) run
  obtain ⟨depth, sendPos, recvPos, accounted⟩ := ledger.party m.sender
  obtain ⟨d, k, place, _⟩ := accounted.sent m sent rfl
  have inside : everywhere.Message (agreedRoot responder initiator withOneTime draws drawn) ∅ m.key :=
    ⟨d, k, trivial, place, Set.notMem_empty _⟩
  refine ⟨guarded.not_derivable apart (Or.inr ⟨_, ⟨_, .message, rfl, inside⟩, rfl⟩), ?_⟩
  obtain ⟨header, ciphertext, parsed, sealed⟩ := (recorded_run ideal.toLawful run).sent m sent
  refine ⟨header, ciphertext, parsed, fun key derivable nonce aad => ?_⟩
  by_contra opens
  obtain ⟨plaintext, opened⟩ := Option.ne_none_iff_exists'.mp opens
  obtain ⟨rfl, _⟩ := ideal.encrypt_inj (ideal.encrypt_decrypt opened) (aeadSeal_eq_ok.mp sealed)
  exact guarded.not_derivable apart (Or.inr ⟨_, ⟨_, .aead, rfl, m.key, inside, rfl⟩, rfl⟩) derivable

end

section

theorem padded_inj {size : Nat} {first second : Bytes} (small : first.length ≤ size)
    (lengths : first.length = second.length) (same : pad size first = pad size second) : first = second := by
  have front := pad_take first small
  rw [same, lengths, pad_take second (lengths ▸ small)] at front
  exact front.symm

theorem symbolic_ideal (marked : Bytes) : IdealKem (symbolic marked) where
  toLawful := symbolic_lawful marked
  encapsulate_free := by
    intro key key' coins coins' same
    have lengths := (List.Vector.toList_length (n := mlkemEncapsKeyLen) key).trans
      (List.Vector.toList_length (n := mlkemEncapsKeyLen) key').symm
    obtain ⟨keys, ciphertexts⟩ := List.append_inj (List.cons.inj same).2 lengths
    exact ⟨List.Vector.toList_injective keys, List.Vector.toList_injective ciphertexts⟩
  decapsulate_free := by
    intro secret ciphertext seed coins same
    have lengths := (pad mlkemEncapsKeyLen (List.Vector.toList (n := mlkemSecretLen) secret)).toList_length.trans
      (pad mlkemEncapsKeyLen (List.Vector.toList (n := mlkemSecretLen) seed)).toList_length.symm
    obtain ⟨keys, _⟩ := List.append_inj (List.cons.inj same).2 lengths
    have secretSize := List.Vector.toList_length (n := mlkemSecretLen) secret
    have seedSize := List.Vector.toList_length (n := mlkemSecretLen) seed
    have small : mlkemSecretLen ≤ mlkemEncapsKeyLen := by decide
    exact List.Vector.toList_injective (padded_inj (secretSize.trans_le small) (secretSize.trans seedSize.symm)
      (List.Vector.toList_injective keys))
  shared_not_expand := by
    intro key shared prk info block same
    cases shared with
    | encapsulated key coins => exact absurd (List.cons.inj same).1 (by decide)
    | decapsulated secret ciphertext => exact absurd (List.cons.inj same).1 (by decide)
  shared_not_dh := by
    intro key shared secret pub same
    cases shared with
    | encapsulated key coins => exact absurd (List.cons.inj same).1 (by decide)
    | decapsulated secret ciphertext => exact absurd (List.cons.inj same).1 (by decide)

/-- All of X25519 is broken, ML-KEM is not. -/
def quantum : Adversary (symbolic []) := ⟨Set.univ, ∅, ∅⟩

theorem quantum_breaks_not (withOneTime : Bool) (draws : PrekeyDraws) (drawn : InitiateDraws) :
    ¬quantum.Breaks withOneTime draws drawn := by
  rintro ⟨_, _, decapsulates⟩
  rcases decapsulates with held | ⟨_, held, _⟩
  · exact held
  · exact held

theorem root_derivable_iff_sample :
    ¬Derivable (Infers (symbolic [])) quantum.knowledge (.ratchet (.key
      (initiate (sampleInitiator []) (PrekeyBundle.generate (symbolic []) (sampleResponder []) true sampleDraws).2
        sampleDrawn).2)) ∧
    Derivable (Infers (symbolic []))
      (Adversary.knowledge ⟨{sampleDrawn.ephemeral}, ∅, {sampleDrawn.encapsulation}⟩) (.ratchet (.key
      (initiate (sampleInitiator []) (PrekeyBundle.generate (symbolic []) (sampleResponder []) true sampleDraws).2
        sampleDrawn).2)) := by
  constructor
  · exact (root_derivable_iff Symbolic.suite_ideal (symbolic_ideal []) _ _ _ _ _ _).not.mpr
      (quantum_breaks_not true sampleDraws sampleDrawn)
  · exact (root_derivable_iff Symbolic.suite_ideal (symbolic_ideal []) _ _ _ _ _ _).mpr
      ⟨⟨_, rfl, Or.inl rfl⟩, fun _ => ⟨_, rfl, Or.inl rfl⟩, Or.inr ⟨_, rfl, rfl⟩⟩

theorem recorded_traffic_closed_sample : ∃ w m,
    Run (anything Symbolic.suite) (World.start (initiate (sampleInitiator [])
      (PrekeyBundle.generate (symbolic []) (sampleResponder []) true sampleDraws).2 sampleDrawn).2
      sampleDraws.signedPrekey sampleGenerated) w ∧ m ∈ w.sent ∧ m.plaintext = [7] ∧
    ¬Derivable (Infers (symbolic [])) quantum.knowledge (.ratchet (.key m.key)) := by
  obtain ⟨ciphertext, sealed⟩ := first_sealed (initiate_root_length (sampleInitiator [])
    (PrekeyBundle.generate (symbolic []) (sampleResponder []) true sampleDraws).2 sampleDrawn)
    sampleDraws.signedPrekey sampleGenerated
  obtain ⟨w, run, sent, _⟩ := exchange_run Symbolic.suite_lawful (anything Symbolic.suite)
    (List.Vector.replicate 32 3) sealed (fun _ _ => trivial) (fun _ _ => trivial)
  have member := sent.symm.subst (motive := fun log => _ ∈ log) (List.mem_singleton_self _)
  exact ⟨w, _, run, member, rfl, (recorded_traffic_closed Symbolic.suite_ideal (symbolic_ideal []) _ _ _ _ _ run
    (quantum_breaks_not true sampleDraws sampleDrawn) member).1⟩

end

end Buh.Handshake.Hybrid
