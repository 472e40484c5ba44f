import Buh.Crypto.Primitives

/-! The key-derivation functions of `ratchet/chain.rs` and the place every derived
key has in a session: how many root steps lie under it and how far its chain has
been iterated. Over the idealised HKDF that place is unique. -/

namespace Buh.Ratchet.Chain
open Buh.Wire.Codec Buh.Crypto.Primitives

def nonceLen : Nat := 24

def rkInfo : Bytes := ascii "buh-ratchet-rk-v1"
def ckNextInfo : Bytes := ascii "buh-ratchet-ck-v1"
def mkInfo : Bytes := ascii "buh-ratchet-mk-v1"
def msgKeysInfo : Bytes := ascii "buh-ratchet-msg-keys-v1"

/-- Root KDF: the next root key and a new chain key. -/
def kdfRk (S : Suite) (rk dhOut : S.Key) : S.Key × S.Key :=
  let hk := S.hkdfExtract (S.keyBytes rk) (S.keyBytes dhOut)
  (S.hkdfExpand hk rkInfo 0, S.hkdfExpand hk rkInfo 1)

/-- Chain KDF: the next chain key and the message key of this step. -/
def kdfCk (S : Suite) (ck : S.Key) : S.Key × S.Key :=
  let hk := S.hkdfFromPrk ck
  (S.hkdfExpand hk ckNextInfo 0, S.hkdfExpand hk mkInfo 0)

/-- The AEAD key and the 24-byte nonce of one message. -/
def messageKeys (S : Suite) (mk : S.Key) : S.Key × Bytes :=
  let hk := S.hkdfFromPrk mk
  (S.hkdfExpand hk msgKeysInfo 0, (S.keyBytes (S.hkdfExpand hk msgKeysInfo 1)).take nonceLen)

/-- The chain key after `count` steps. -/
def chainIter (S : Suite) (ck : S.Key) : Nat → S.Key
  | 0 => ck
  | count + 1 => (kdfCk S (chainIter S ck count)).1

theorem chainIter_succ_left (S : Suite) (ck : S.Key) (count : Nat) :
    chainIter S (kdfCk S ck).1 count = chainIter S ck (count + 1) := by
  induction count with
  | zero => rfl
  | succ count ih =>
    change (kdfCk S (chainIter S (kdfCk S ck).1 count)).1 = _
    rw [ih]
    rfl

theorem chainIter_add (S : Suite) (ck : S.Key) (first second : Nat) :
    chainIter S (chainIter S ck first) second = chainIter S ck (first + second) := by
  induction second with
  | zero => rfl
  | succ second ih =>
    change (kdfCk S (chainIter S (chainIter S ck first) second)).1 = _
    rw [ih]
    rfl

/-- A root key that no function of the ratchet outputs: it comes from HKDF under a
label of its own, as the root of the handshake does. -/
def SessionRoot (S : Suite) (root : S.Key) : Prop :=
  ∃ prk info block, root = S.hkdfExpand prk info block ∧
    info ≠ rkInfo ∧ info ≠ ckNextInfo ∧ info ≠ mkInfo ∧ info ≠ msgKeysInfo

section Ideal
variable {S : Suite} (ideal : Ideal S)
include ideal

theorem kdfRk_root_inj {rk rk' d d' : S.Key} (same : (kdfRk S rk d).1 = (kdfRk S rk' d').1) :
    rk = rk' ∧ d = d' := by
  obtain ⟨salts, ikms⟩ := ideal.extract_inj (ideal.expand_inj same).1
  exact ⟨ideal.keyBytes_inj salts, ideal.keyBytes_inj ikms⟩

theorem kdfRk_chain_inj {rk rk' d d' : S.Key} (same : (kdfRk S rk d).2 = (kdfRk S rk' d').2) :
    rk = rk' ∧ d = d' := by
  obtain ⟨salts, ikms⟩ := ideal.extract_inj (ideal.expand_inj same).1
  exact ⟨ideal.keyBytes_inj salts, ideal.keyBytes_inj ikms⟩

theorem kdfCk_next_inj {ck ck' : S.Key} (same : (kdfCk S ck).1 = (kdfCk S ck').1) : ck = ck' :=
  ideal.fromPrk_inj (ideal.expand_inj same).1

theorem kdfCk_mk_inj {ck ck' : S.Key} (same : (kdfCk S ck).2 = (kdfCk S ck').2) : ck = ck' :=
  ideal.fromPrk_inj (ideal.expand_inj same).1

theorem messageKeys_key_inj {mk mk' : S.Key} (same : (messageKeys S mk).1 = (messageKeys S mk').1) :
    mk = mk' := ideal.fromPrk_inj (ideal.expand_inj same).1

theorem seed_ne_next (rk d ck : S.Key) : (kdfRk S rk d).2 ≠ (kdfCk S ck).1 :=
  fun same => absurd (ideal.expand_inj same).2.1 (by decide)

end Ideal

/-- `rk` is a root key of a session started at `root`, `depth` root steps later. -/
inductive RootAt (S : Suite) (root : S.Key) : Nat → S.Key → Prop where
  | start : RootAt S root 0 root
  | step {depth : Nat} {rk : S.Key} (below : RootAt S root depth rk) (dhOut : S.Key) :
      RootAt S root (depth + 1) (kdfRk S rk dhOut).1

/-- `ck` is a chain key seeded by the root step to `depth`, `position` steps on. -/
inductive ChainAt (S : Suite) (root : S.Key) : Nat → Nat → S.Key → Prop where
  | seed {depth : Nat} {rk : S.Key} (below : RootAt S root depth rk) (dhOut : S.Key) :
      ChainAt S root (depth + 1) 0 (kdfRk S rk dhOut).2
  | next {depth position : Nat} {ck : S.Key} (before : ChainAt S root depth position ck) :
      ChainAt S root depth (position + 1) (kdfCk S ck).1

/-- `mk` is the message key at that place of the schedule. -/
def MessageAt (S : Suite) (root : S.Key) (depth position : Nat) (mk : S.Key) : Prop :=
  ∃ ck, ChainAt S root depth position ck ∧ mk = (kdfCk S ck).2

theorem ChainAt.iter {S : Suite} {root ck : S.Key} {depth position : Nat}
    (place : ChainAt S root depth position ck) (count : Nat) :
    ChainAt S root depth (position + count) (chainIter S ck count) := by
  induction count with
  | zero => exact place
  | succ count ih => exact ih.next

section Places
variable {S : Suite} (ideal : Ideal S) {root : S.Key} (session : SessionRoot S root)
include ideal session

theorem root_ne_kdfRk (rk d : S.Key) : root ≠ (kdfRk S rk d).1 := by
  obtain ⟨prk, info, block, rfl, other, _⟩ := session
  exact fun same => other (ideal.expand_inj same).2.1

theorem RootAt.of_root_eq {depth : Nat} {rk d : S.Key}
    (place : RootAt S root depth (kdfRk S rk d).1) :
    ∃ below, depth = below + 1 ∧ RootAt S root below rk := by
  generalize same : (kdfRk S rk d).1 = key at place
  cases place with
  | start => exact absurd same.symm (root_ne_kdfRk ideal session rk d)
  | step below dhOut =>
    obtain ⟨rfl, _⟩ := kdfRk_root_inj ideal same
    exact ⟨_, rfl, below⟩

theorem RootAt.unique {depth depth' : Nat} {rk : S.Key} (place : RootAt S root depth rk)
    (other : RootAt S root depth' rk) : depth = depth' := by
  induction place generalizing depth' with
  | start =>
    generalize same : root = key at other
    cases other with
    | start => rfl
    | step below dhOut => exact absurd same (root_ne_kdfRk ideal session _ _)
  | step below dhOut ih =>
    obtain ⟨under, rfl, lower⟩ := RootAt.of_root_eq ideal session other
    rw [ih lower]

omit session in
theorem ChainAt.of_seed_eq {depth position : Nat} {rk d : S.Key}
    (place : ChainAt S root depth position (kdfRk S rk d).2) :
    position = 0 ∧ ∃ below, depth = below + 1 ∧ RootAt S root below rk := by
  generalize same : (kdfRk S rk d).2 = key at place
  cases place with
  | seed below dhOut =>
    obtain ⟨rfl, _⟩ := kdfRk_chain_inj ideal same
    exact ⟨rfl, _, rfl, below⟩
  | next before => exact absurd same (seed_ne_next ideal _ _ _)

omit session in
theorem ChainAt.of_next_eq {depth position : Nat} {ck : S.Key}
    (place : ChainAt S root depth position (kdfCk S ck).1) :
    ∃ before, position = before + 1 ∧ ChainAt S root depth before ck := by
  generalize same : (kdfCk S ck).1 = key at place
  cases place with
  | seed below dhOut => exact absurd same.symm (seed_ne_next ideal _ _ _)
  | next before =>
    obtain rfl := kdfCk_next_inj ideal same
    exact ⟨_, rfl, before⟩

theorem ChainAt.unique {depth depth' position position' : Nat} {ck : S.Key}
    (place : ChainAt S root depth position ck) (other : ChainAt S root depth' position' ck) :
    depth = depth' ∧ position = position' := by
  induction place generalizing depth' position' with
  | seed below dhOut =>
    obtain ⟨rfl, under, rfl, lower⟩ := ChainAt.of_seed_eq ideal other
    rw [RootAt.unique ideal session below lower]
    exact ⟨rfl, rfl⟩
  | next before ih =>
    obtain ⟨under, rfl, lower⟩ := ChainAt.of_next_eq ideal other
    obtain ⟨depths, positions⟩ := ih lower
    exact ⟨depths, by rw [positions]⟩

/-- Walking a chain never comes back to the same chain key. -/
theorem ChainAt.iter_inj {depth position first second : Nat} {ck : S.Key} (place : ChainAt S root depth position ck)
    (same : chainIter S ck first = chainIter S ck second) : first = second := by
  have ahead := place.iter first
  rw [same] at ahead
  have := (ChainAt.unique ideal session ahead (place.iter second)).2
  omega

theorem MessageAt.unique {depth depth' position position' : Nat} {mk : S.Key}
    (place : MessageAt S root depth position mk) (other : MessageAt S root depth' position' mk) :
    depth = depth' ∧ position = position' := by
  obtain ⟨ck, chain, rfl⟩ := place
  obtain ⟨ck', chain', same⟩ := other
  obtain rfl := kdfCk_mk_inj ideal same
  exact ChainAt.unique ideal session chain chain'

end Places

end Buh.Ratchet.Chain
