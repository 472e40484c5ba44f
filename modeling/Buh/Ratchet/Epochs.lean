import Buh.Ratchet.Authenticity
import Buh.Ratchet.Skipping

/-! The two parties of a session in step. The ratchet keys of both sides, in the order
they come into use, form one sequence of epochs: epoch zero is the responder's signed
prekey, the initiator's first key opens epoch one, and every turn of either side opens
the next. As long as only what returns `Ok` is kept, both states can be read off that
sequence and the number of messages sent in each epoch. -/

namespace Buh.Ratchet.Epochs
open Buh.Wire.Codec Buh.Crypto.Primitives Buh.Ratchet.Message Buh.Ratchet.Chain Buh.Ratchet.State
  Buh.Ratchet.Placement Buh.Ratchet.Persist Buh.Ratchet.Session Buh.Ratchet.Authenticity Buh.Ratchet.Skipping

section Schedule
variable (S : Suite) (root : S.Key) (secret : Nat → Bytes32)

/-- The root key of an epoch: every epoch agrees its own secret with the previous one. -/
def epochRoot : Nat → S.Key
  | 0 => root
  | d + 1 => (kdfRk S (epochRoot d) (S.diffieHellman (secret (d + 1)) (S.publicKey (secret d)))).1

/-- The chain key an epoch's sender starts from. Epoch zero sends nothing. -/
def epochSeed : Nat → S.Key
  | 0 => root
  | d + 1 => (kdfRk S (epochRoot S root secret d) (S.diffieHellman (secret (d + 1)) (S.publicKey (secret d)))).2

def epochKey (d n : Nat) : S.Key := (kdfCk S (chainIter S (epochSeed S root secret d) n)).2

/-- The remote ratchet key of a party in an epoch. -/
def remoteAt : Nat → Option Bytes32
  | 0 => none
  | d + 1 => some (S.publicKey (secret d))

def sendingAt (n : Nat) : Nat → Option S.Key
  | 0 => none
  | d + 1 => some (chainIter S (epochSeed S root secret (d + 1)) n)

def receivingAt (n : Nat) : Nat → Option S.Key
  | 0 => none
  | 1 => none
  | d + 2 => some (chainIter S (epochSeed S root secret (d + 1)) n)

/-- The length of the chain that the sender of an epoch had before. -/
def previousIn (sentIn : Nat → Nat) : Nat → Nat
  | 0 => 0
  | 1 => 0
  | d + 2 => sentIn d

/-- No two epochs up to `top` have the same ratchet key. -/
def Distinct (top : Nat) : Prop :=
  ∀ i ≤ top, ∀ j ≤ top, S.publicKey (secret i) = S.publicKey (secret j) → i = j

/-- The ratchet and root keys of a party in the epoch `depth` of its own ratchet key. -/
structure Rooted (s : RatchetState S) (depth : Nat) : Prop where
  dhs : s.dhs = secret depth
  dhsPub : s.dhsPub = S.publicKey (secret depth)
  rk : s.rk = epochRoot S root secret depth
  dhr : s.dhr = remoteAt S secret depth

/-- The whole state of a party in an epoch, with its counters. What it has walked past is
banked or spent. -/
structure AtEpoch (sentIn : Nat → Nat) (spent : Set S.Key) (s : RatchetState S) (depth : Nat) : Prop
    extends Rooted S root secret s depth where
  cks : s.cks = sendingAt S root secret (sentIn depth) depth
  ckr : s.ckr = receivingAt S root secret s.nr.toNat depth
  ns : s.ns.toNat = sentIn depth
  pn : s.pn.toNat = previousIn sentIn depth
  nr : s.nr.toNat ≤ sentIn (depth - 1)
  bank : ∀ dh n mk, s.skipped.lookup (dh, n) = some mk →
    ∃ d < depth, dh = S.publicKey (secret d) ∧ mk = epochKey S root secret d n.toNat
  covered : ∀ d (n : UInt32), Past depth s.nr.toNat d n.toNat → n.toNat < sentIn d →
    s.skipped.lookup (S.publicKey (secret d), n) = some (epochKey S root secret d n.toNat) ∨
      epochKey S root secret d n.toNat ∈ spent

end Schedule

section Places
variable {S : Suite} {root : S.Key} {secret : Nat → Bytes32}

theorem epochRoot_at (d : Nat) : RootAt S root d (epochRoot S root secret d) := by
  induction d with
  | zero => exact .start
  | succ d ih => exact ih.step _

theorem epochChain_at (d n : Nat) :
    ChainAt S root (d + 1) n (chainIter S (epochSeed S root secret (d + 1)) n) := by
  have below : RootAt S root d (epochRoot S root secret d) := epochRoot_at d
  have walked := (ChainAt.seed below (S.diffieHellman (secret (d + 1)) (S.publicKey (secret d)))).iter n
  rw [Nat.zero_add] at walked
  exact walked

theorem epochKey_at (d n : Nat) : MessageAt S root (d + 1) n (epochKey S root secret (d + 1) n) :=
  ⟨_, epochChain_at d n, rfl⟩

theorem epochRoot_congr {other : Nat → Bytes32} {d : Nat} (same : ∀ i ≤ d, secret i = other i) :
    epochRoot S root secret d = epochRoot S root other d := by
  induction d with
  | zero => rfl
  | succ d ih =>
    rw [epochRoot, epochRoot, ih (fun i low => same i (by omega)), same d (by omega), same (d + 1) le_rfl]

theorem epochSeed_congr {other : Nat → Bytes32} {d : Nat} (same : ∀ i ≤ d, secret i = other i) :
    epochSeed S root secret d = epochSeed S root other d := by
  cases d with
  | zero => rfl
  | succ d =>
    rw [epochSeed, epochSeed, epochRoot_congr (fun i low => same i (by omega)), same d (by omega),
      same (d + 1) le_rfl]

theorem epochKey_congr {other : Nat → Bytes32} {d : Nat} (same : ∀ i ≤ d, secret i = other i) (n : Nat) :
    epochKey S root secret d n = epochKey S root other d n := by
  rw [epochKey, epochKey, epochSeed_congr same]

theorem previousIn_congr {sentIn sentIn' : Nat → Nat} {d : Nat} (same : ∀ i, i + 2 = d → sentIn' i = sentIn i) :
    previousIn sentIn' d = previousIn sentIn d := by
  match d with
  | 0 => rfl
  | 1 => rfl
  | d + 2 => exact same d rfl

end Places

section Turning
variable {S : Suite} {root : S.Key} {secret : Nat → Bytes32} {s after : RatchetState S} {depth : Nat}

theorem Rooted.adapt (here : Rooted S root secret s depth) {other : Nat → Bytes32}
    (same : ∀ i ≤ depth, secret i = other i) : Rooted S root other s depth where
  dhs := here.dhs.trans (same depth le_rfl)
  dhsPub := by rw [here.dhsPub, same depth le_rfl]
  rk := here.rk.trans (epochRoot_congr same)
  dhr := by
    rw [here.dhr]
    cases depth with
    | zero => rfl
    | succ d => rw [remoteAt, remoteAt, same d (by omega)]

theorem Rooted.same (here : Rooted S root secret s depth) (ratchet : SameRatchet s after) :
    Rooted S root secret after depth :=
  ⟨ratchet.dhs.trans here.dhs, ratchet.dhsPub.trans here.dhsPub, ratchet.rk.trans here.rk,
    ratchet.dhr.trans here.dhr⟩

/-- Both sides of an epoch agree on its keys. -/
theorem Rooted.receiving (lawful : Lawful S) (here : Rooted S root secret s depth) :
    kdfRk S s.rk (S.diffieHellman s.dhs (S.publicKey (secret (depth + 1)))) =
      (epochRoot S root secret (depth + 1), epochSeed S root secret (depth + 1)) := by
  rw [here.rk, here.dhs, lawful.dh_comm]
  rfl

/-- Turning on the ratchet key of the next epoch derives the keys of the next two. -/
theorem Rooted.turnOutputs (lawful : Lawful S) (here : Rooted S root secret s depth) {header : Header}
    {generated : Bytes32} (next : header.dh = S.publicKey (secret (depth + 1)))
    (opens : secret (depth + 2) = generated) :
    s.turnOutputs header generated =
      ((epochRoot S root secret (depth + 1), epochSeed S root secret (depth + 1)),
        (epochRoot S root secret (depth + 2), epochSeed S root secret (depth + 2))) := by
  have receiving := here.receiving lawful
  rw [← next] at receiving
  calc
    _ = ((epochRoot S root secret (depth + 1), epochSeed S root secret (depth + 1)),
        kdfRk S (epochRoot S root secret (depth + 1)) (S.diffieHellman generated header.dh)) := by
      rw [RatchetState.turnOutputs, receiving]
    _ = _ := by
      rw [next, ← opens]
      rfl

/-- A key received across a turn lies one root step above the state. -/
theorem Rooted.turned_key (here : Rooted S root secret s depth) {header : Header} {generated : Bytes32}
    {key : S.Key} (turned : Turned s after header generated key) : ∃ k, MessageAt S root (depth + 1) k key := by
  obtain ⟨count, same⟩ := turned.key
  have below : RootAt S root depth s.rk := by
    rw [here.rk]
    exact epochRoot_at depth
  exact ⟨0 + count, _, (ChainAt.seed below _).iter count, same⟩

end Turning

section Moves
variable {S : Suite} {root : S.Key} {secret : Nat → Bytes32} {sentIn : Nat → Nat} {spent : Set S.Key}
  {s after : RatchetState S} {depth : Nat}

/-- Only the epochs up to the party's own matter, counts may grow in the epoch it
receives from, and more may be spent. -/
theorem AtEpoch.adapt (here : AtEpoch S root secret sentIn spent s depth) {other : Nat → Bytes32}
    {sentIn' : Nat → Nat} {spent' : Set S.Key} (same : ∀ i ≤ depth, secret i = other i)
    (grown : ∀ i ≤ depth, sentIn i ≤ sentIn' i) (own : ∀ i ≤ depth, i + 1 ≠ depth → sentIn' i = sentIn i)
    (more : ∀ key ∈ spent, key ∈ spent') : AtEpoch S root other sentIn' spent' s depth where
  toRooted := here.toRooted.adapt same
  cks := by
    rw [here.cks, own depth le_rfl (by omega)]
    cases depth with
    | zero => rfl
    | succ d => rw [sendingAt, sendingAt, epochSeed_congr same]
  ckr := by
    refine here.ckr.trans ?_
    match depth with
    | 0 => rfl
    | 1 => rfl
    | d + 2 => rw [receivingAt, receivingAt, epochSeed_congr (fun i low => same i (by omega))]
  ns := by rw [here.ns, own depth le_rfl (by omega)]
  pn := by
    rw [here.pn, previousIn_congr]
    exact fun i below => (own i (by omega) (by omega)).symm
  nr := here.nr.trans (grown _ (by omega))
  bank := by
    intro dh n mk found
    obtain ⟨d, low, rfl, rfl⟩ := here.bank dh n mk found
    exact ⟨d, low, by rw [same d (by omega)], epochKey_congr (fun i below => same i (by omega)) _⟩
  covered := by
    intro d n past sent
    have low : d < depth := by
      obtain ⟨turns, total, _⟩ := past
      omega
    have before : n.toNat < sentIn d := by
      by_cases receiving : d + 1 = depth
      · obtain ⟨turns, total, inside⟩ := past
        have := inside (by omega)
        have := here.nr
        rw [show depth - 1 = d by omega] at this
        omega
      · rwa [own d (by omega) receiving] at sent
    rw [← same d (by omega), ← epochKey_congr (fun i below => same i (by omega))]
    exact (here.covered d n past before).imp_right (more _)

theorem AtEpoch.skip (here : AtEpoch S root secret sentIn spent s depth) (distinct : Distinct S secret depth)
    {upto : UInt32} (call : s.skipMessageKeys upto = (after, .ok ())) (sent : upto.toNat ≤ sentIn (depth - 1)) :
    AtEpoch S root secret sentIn spent after depth ∧
      (2 ≤ depth → after.nr.toNat = max s.nr.toNat upto.toNat) := by
  rcases skipMessageKeys_ok call with ⟨ended, rfl⟩ | ⟨dhr, ck, remote, chain, skips⟩
  · refine ⟨here, fun far => ?_⟩
    rw [here.dhr, here.ckr] at ended
    match depth, far with
    | d + 2, _ => simp [remoteAt, receivingAt] at ended
  · match depth with
    | 0 => rw [here.dhr] at remote; cases remote
    | 1 => rw [here.ckr] at chain; cases chain
    | d + 2 =>
      rw [here.dhr] at remote
      cases remote
      have start : ck = chainIter S (epochSeed S root secret (d + 1)) s.nr.toNat := by
        rw [here.ckr] at chain
        exact (Option.some.inj chain).symm
      obtain ⟨rest, nr, banked, kept, _⟩ := skips
      have walked : after.nr.toNat = max s.nr.toNat upto.toNat := by omega
      have low : s.nr.toNat ≤ sentIn (d + 1) := here.nr
      replace sent : upto.toNat ≤ sentIn (d + 1) := sent
      refine ⟨?_, fun _ => walked⟩
      have fresh : ∀ n : UInt32, s.nr.toNat ≤ n.toNat → n.toNat < after.nr.toNat →
          after.skipped.lookup (S.publicKey (secret (d + 1)), n) =
            some (epochKey S root secret (d + 1) n.toNat) := by
        intro n above below
        rw [banked n above (by omega), start, chainIter_add, epochKey, Nat.add_sub_cancel' above]
      refine ⟨here.toRooted.same (skipMessageKeys_same call), by rw [rest]; exact here.cks, ?_,
        by rw [rest]; exact here.ns, by rw [rest]; exact here.pn, ?_, ?_, ?_⟩
      · rw [nr, receivingAt, ← chainIter_add, ← start, rest]
      · change after.nr.toNat ≤ sentIn (d + 1)
        omega
      · intro dh n mk found
        by_cases new : dh = S.publicKey (secret (d + 1)) ∧ s.nr.toNat ≤ n.toNat ∧ n.toNat < after.nr.toNat
        · obtain ⟨rfl, above, below⟩ := new
          rw [fresh n above below] at found
          cases found
          exact ⟨d + 1, by omega, rfl, rfl⟩
        · rw [kept (dh, n) (by rw [← nr]; exact new)] at found
          exact here.bank dh n mk found
      · intro e n past count
        have older : e ≤ d + 1 := by
          obtain ⟨turns, total, _⟩ := past
          omega
        by_cases new : S.publicKey (secret e) = S.publicKey (secret (d + 1)) ∧
            s.nr.toNat ≤ n.toNat ∧ n.toNat < after.nr.toNat
        · obtain ⟨same, above, below⟩ := new
          obtain rfl := distinct e (by omega) (d + 1) (by omega) same
          exact Or.inl (fresh n above below)
        · rw [kept (_, n) (by rw [← nr]; exact new)]
          refine here.covered e n ?_ count
          obtain ⟨turns, total, inside⟩ := past
          refine ⟨turns, total, fun last => ?_⟩
          have below := inside last
          obtain rfl : e = d + 1 := by omega
          by_contra above
          exact new ⟨rfl, by omega, below⟩

theorem AtEpoch.current_key (here : AtEpoch S root secret sentIn spent s depth) {ck : S.Key}
    (chain : s.ckr = some ck) :
    2 ≤ depth ∧ (kdfCk S ck).2 = epochKey S root secret (depth - 1) s.nr.toNat := by
  rw [here.ckr] at chain
  match depth with
  | 0 => cases chain
  | 1 => cases chain
  | d + 2 =>
    cases chain
    exact ⟨by omega, rfl⟩

/-- Taking the next key of the receiving chain spends it. -/
theorem AtEpoch.take (here : AtEpoch S root secret sentIn spent s depth) {ck : S.Key} (chain : s.ckr = some ck)
    (sent : s.nr.toNat < sentIn (depth - 1)) (short : sentIn (depth - 1) < 2 ^ 32) :
    AtEpoch S root secret sentIn (insert (kdfCk S ck).2 spent)
      { s with ckr := some (kdfCk S ck).1, nr := s.nr + 1 } depth := by
  have key := (here.current_key chain).2
  match depth with
  | 0 => rw [here.ckr] at chain; cases chain
  | 1 => rw [here.ckr] at chain; cases chain
  | d + 2 =>
    have start : ck = chainIter S (epochSeed S root secret (d + 1)) s.nr.toNat := by
      rw [here.ckr] at chain
      exact (Option.some.inj chain).symm
    replace key : (kdfCk S ck).2 = epochKey S root secret (d + 1) s.nr.toNat := key
    replace sent : s.nr.toNat < sentIn (d + 1) := sent
    replace short : sentIn (d + 1) < 2 ^ 32 := short
    have next := toNat_succ s.nr (by omega)
    refine ⟨here.toRooted.same ⟨rfl, rfl, rfl, rfl, rfl⟩, here.cks, ?_, here.ns, here.pn, ?_, here.bank, ?_⟩
    · rw [next, receivingAt, start]
      rfl
    · rw [next]
      exact sent
    · intro e n past count
      rw [next] at past
      by_cases last : e = d + 1 ∧ n.toNat = s.nr.toNat
      · rw [last.1, last.2, ← key]
        exact Or.inr (Set.mem_insert _ _)
      · have before : Past (d + 2) s.nr.toNat e n.toNat := by
          obtain ⟨turns, total, inside⟩ := past
          exact ⟨turns, total, by omega⟩
        exact (here.covered e n before count).imp_right (Set.mem_insert_of_mem _)

/-- Taking a banked key spends it. -/
theorem AtEpoch.erase (here : AtEpoch S root secret sentIn spent s depth) {slot : Bytes32 × UInt32} {mk : S.Key}
    (found : s.skipped.lookup slot = some mk) :
    AtEpoch S root secret sentIn (insert mk spent) { s with skipped := s.skipped.erase slot } depth where
  toRooted := here.toRooted.same ⟨rfl, rfl, rfl, rfl, rfl⟩
  cks := here.cks
  ckr := here.ckr
  ns := here.ns
  pn := here.pn
  nr := here.nr
  bank := by
    intro dh n key held
    by_cases same : (dh, n) = slot
    · rw [same, Finmap.lookup_erase] at held
      cases held
    · rw [Finmap.lookup_erase_ne same] at held
      exact here.bank dh n key held
  covered := by
    intro d n past sent
    by_cases same : (S.publicKey (secret d), n) = slot
    · rcases here.covered d n past sent with held | old
      · rw [same, found] at held
        exact Or.inr (by rw [← Option.some.inj held]; exact Set.mem_insert _ _)
      · exact Or.inr (Set.mem_insert_of_mem _ old)
    · rw [Finmap.lookup_erase_ne same]
      exact (here.covered d n past sent).imp_right (Set.mem_insert_of_mem _)

theorem AtEpoch.send_key (here : AtEpoch S root secret sentIn spent s depth) {ck : S.Key}
    (chain : s.cks = some ck) : 0 < depth ∧ (kdfCk S ck).2 = epochKey S root secret depth (sentIn depth) := by
  rw [here.cks] at chain
  match depth with
  | 0 => cases chain
  | d + 1 =>
    cases chain
    exact ⟨Nat.succ_pos d, rfl⟩

theorem AtEpoch.send (here : AtEpoch S root secret sentIn spent s depth) {ck : S.Key} (chain : s.cks = some ck)
    {sentIn' : Nat → Nat} (more : sentIn' depth = sentIn depth + 1) (others : ∀ i < depth, sentIn' i = sentIn i)
    (short : sentIn' depth < 2 ^ 32) :
    AtEpoch S root secret sentIn' spent { s with cks := some (kdfCk S ck).1, ns := s.ns + 1 } depth := by
  match depth with
  | 0 => rw [here.cks] at chain; cases chain
  | d + 1 =>
    have counted := here.ns
    have start : ck = chainIter S (epochSeed S root secret (d + 1)) (sentIn (d + 1)) := by
      rw [here.cks] at chain
      exact (Option.some.inj chain).symm
    refine ⟨⟨here.dhs, here.dhsPub, here.rk, here.dhr⟩, ?_, here.ckr, ?_, ?_, ?_, here.bank, ?_⟩
    · rw [more, sendingAt, start]
      rfl
    · rw [more, ← counted]
      exact toNat_succ s.ns (by omega)
    · rw [here.pn, previousIn_congr]
      exact fun i below => (others i (by omega)).symm
    · rw [others _ (by omega)]
      exact here.nr
    · intro e n past sent
      have low : e < d + 1 := by
        obtain ⟨turns, total, _⟩ := past
        omega
      rw [others e low] at sent
      exact here.covered e n past sent

/-- Turning on the ratchet key of the next epoch, once the rest of the old chain is
banked, opens the epoch after it. -/
theorem AtEpoch.turn (lawful : Lawful S) (here : AtEpoch S root secret sentIn spent s depth) {header : Header}
    {generated : Bytes32} (next : header.dh = S.publicKey (secret (depth + 1)))
    (drained : s.nr.toNat = sentIn (depth - 1)) (opens : secret (depth + 2) = generated)
    (empty : sentIn (depth + 2) = 0) :
    AtEpoch S root secret sentIn spent (s.dhRatchet header generated) (depth + 2) := by
  have outputs := here.toRooted.turnOutputs lawful next opens
  refine ⟨⟨opens.symm, by rw [opens]; rfl, ?_, ?_⟩, ?_, ?_, empty.symm, here.ns, Nat.zero_le _, ?_, ?_⟩
  · simp only [RatchetState.dhRatchet, outputs]
  · simp only [RatchetState.dhRatchet, remoteAt, next]
  · simp only [RatchetState.dhRatchet, outputs, sendingAt, empty, chainIter]
  · simp only [RatchetState.dhRatchet, outputs, receivingAt]
    rfl
  · intro dh n mk found
    obtain ⟨d, low, rest⟩ := here.bank dh n mk found
    exact ⟨d, by omega, rest⟩
  · intro d n past sent
    refine here.covered d n ?_ sent
    obtain ⟨turns, total, inside⟩ := past
    have moved : turns ≠ 0 := fun none => absurd (inside none) (Nat.not_lt_zero _)
    refine ⟨turns - 1, by omega, fun last => ?_⟩
    rw [drained, show depth - 1 = d by omega]
    exact sent

section Ideal
variable (ideal : Ideal S) (session : SessionRoot S root)
include ideal session

theorem epochKey_unique {d n d' n' : Nat} (positive : 0 < d) (positive' : 0 < d')
    (same : epochKey S root secret d n = epochKey S root secret d' n') : d = d' ∧ n = n' := by
  obtain ⟨e, rfl⟩ := Nat.exists_eq_add_of_lt positive
  obtain ⟨e', rfl⟩ := Nat.exists_eq_add_of_lt positive'
  have place : MessageAt S root (0 + e + 1) n (epochKey S root secret (0 + e + 1) n) := epochKey_at (0 + e) n
  rw [same] at place
  exact MessageAt.unique ideal session place (epochKey_at _ _)

/-- The key of a message sent in the epoch received from, taken from the chain. -/
theorem AtEpoch.chainKey (here : AtEpoch S root secret sentIn spent s depth) (distinct : Distinct S secret depth)
    {n : UInt32} {key : S.Key} (call : s.chainKey n = (after, .ok key))
    (named : key = epochKey S root secret (depth - 1) n.toNat) (sent : n.toNat < sentIn (depth - 1))
    (short : sentIn (depth - 1) < 2 ^ 32) : AtEpoch S root secret sentIn (insert key spent) after depth := by
  obtain ⟨middle, ck, skipped, chain, rfl, rfl⟩ := RatchetState.chainKey_ok call
  obtain ⟨there, _⟩ := here.skip distinct skipped sent.le
  obtain ⟨far, current⟩ := there.current_key chain
  have same := (epochKey_unique ideal session (by omega) (by omega) (current.symm.trans named)).2
  exact there.take chain (by omega) short

end Ideal

end Moves

end Buh.Ratchet.Epochs
