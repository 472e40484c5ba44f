import Buh.Ratchet.Alignment

/-! Post-compromise healing. A state of one party is captured; once that party has turned
the ratchet, every root key and chain that either party derives from then on rests on a
Diffie-Hellman output that neither the captured state nor the wire gives away. -/

namespace Buh.Ratchet.Healing
open Buh.Library.Deduction Buh.Wire.Codec Buh.Crypto Buh.Crypto.Primitives Buh.Ratchet.Message
  Buh.Ratchet.Chain Buh.Ratchet.State Buh.Ratchet.Placement Buh.Ratchet.Persist Buh.Ratchet.Session
  Buh.Ratchet.Secrecy Buh.Ratchet.Authenticity Buh.Ratchet.Skipping Buh.Ratchet.Epochs Buh.Ratchet.Alignment

/-- An agreement between two keys that are both other than the captured one. -/
def SafeShare {S : Suite} (captured : Bytes32) (key : S.Key) : Prop :=
  ∃ s remote, S.publicKey s ≠ captured ∧ remote ≠ captured ∧ key = S.diffieHellman s remote

/-- Root keys from the first safe agreement on, which is mixed into a root key `depth`
steps from the start. -/
inductive HealedRoot {S : Suite} (root : S.Key) (depth : Nat) (captured : Bytes32) : S.Key → Prop where
  | first {rk dhOut : S.Key} (below : RootAt S root depth rk) (safe : SafeShare captured dhOut) :
      HealedRoot root depth captured (kdfRk S rk dhOut).1
  | next {rk : S.Key} (before : HealedRoot root depth captured rk) (dhOut : S.Key) :
      HealedRoot root depth captured (kdfRk S rk dhOut).1

inductive HealedChain {S : Suite} (root : S.Key) (depth : Nat) (captured : Bytes32) : S.Key → Prop where
  | first {rk dhOut : S.Key} (below : RootAt S root depth rk) (safe : SafeShare captured dhOut) :
      HealedChain root depth captured (kdfRk S rk dhOut).2
  | seed {rk : S.Key} (before : HealedRoot root depth captured rk) (dhOut : S.Key) :
      HealedChain root depth captured (kdfRk S rk dhOut).2
  | next {ck : S.Key} (before : HealedChain root depth captured ck) :
      HealedChain root depth captured (kdfCk S ck).1

/-- The healed keys of each kind. -/
def HealedAt {S : Suite} (root : S.Key) (depth : Nat) (captured : Bytes32) : Kind → S.Key → Prop
  | .root, key => HealedRoot root depth captured key
  | .chain, key => HealedChain root depth captured key
  | .message, key => ∃ ck, HealedChain root depth captured ck ∧ key = (kdfCk S ck).2
  | .aead, key => ∃ ck, HealedChain root depth captured ck ∧ key = (messageKeys S (kdfCk S ck).2).1

/-- Everything to be kept secret: the healed keys, the safe agreements, and every X25519
secret but the captured one. -/
def healed {S : Suite} (root : S.Key) (depth : Nat) (captured : Bytes32) : Set (Fact S) :=
  { fact | (∃ s, fact = .secret s ∧ S.publicKey s ≠ captured) ∨
    (∃ key, fact = .key key ∧ SafeShare captured key) ∨
    ∃ key kind, fact = .key key ∧ HealedAt root depth captured kind key }

section
variable {S : Suite} {root : S.Key} {depth : Nat} {captured : Bytes32}

theorem pub_not_healed (value : Bytes32) : Fact.pub value ∉ healed (S := S) root depth captured := by
  rintro (⟨_, ⟨⟩, _⟩ | ⟨_, ⟨⟩, _⟩ | ⟨_, _, ⟨⟩, _⟩)

theorem HealedRoot.place {key : S.Key} (inside : HealedRoot root depth captured key) :
    ∃ d, depth < d ∧ RootAt S root d key := by
  induction inside with
  | first below safe => exact ⟨_, Nat.lt_succ_self _, below.step _⟩
  | next before dhOut ih =>
    obtain ⟨d, further, place⟩ := ih
    exact ⟨d + 1, by omega, place.step _⟩

theorem HealedChain.place {key : S.Key} (inside : HealedChain root depth captured key) :
    ∃ d k, depth < d ∧ ChainAt S root d k key := by
  induction inside with
  | first below safe => exact ⟨_, 0, Nat.lt_succ_self _, .seed below _⟩
  | seed before dhOut =>
    obtain ⟨d, further, place⟩ := before.place
    exact ⟨d + 1, 0, by omega, .seed place _⟩
  | next before ih =>
    obtain ⟨d, k, further, place⟩ := ih
    exact ⟨d, k + 1, further, place.next⟩

theorem HealedChain.iter {ck : S.Key} (inside : HealedChain root depth captured ck) (count : Nat) :
    HealedChain root depth captured (chainIter S ck count) := by
  induction count with
  | zero => exact inside
  | succ count ih => exact ih.next

theorem HealedAt.labelled {kind : Kind} {key : S.Key} (inside : HealedAt root depth captured kind key) :
    Labelled S kind key := by
  cases kind with
  | root => cases inside <;> exact ⟨_, _, _, rfl, Or.inl ⟨rfl, rfl⟩⟩
  | chain =>
    cases inside with
    | first below safe => exact ⟨_, _, _, rfl, Or.inl ⟨rfl, rfl⟩⟩
    | seed before dhOut => exact ⟨_, _, _, rfl, Or.inl ⟨rfl, rfl⟩⟩
    | next before => exact ⟨_, _, _, rfl, Or.inr rfl⟩
  | message =>
    obtain ⟨ck, _, rfl⟩ := inside
    exact ⟨_, _, _, rfl, rfl⟩
  | aead =>
    obtain ⟨ck, _, rfl⟩ := inside
    exact messageKeys_labelled _

variable (ideal : Ideal S)
include ideal

theorem SafeShare.of_eq {s remote : Bytes32} (safe : SafeShare captured (S.diffieHellman s remote)) :
    S.publicKey s ≠ captured := by
  obtain ⟨s', remote', first, second, same⟩ := safe
  rcases ideal.dh_free same with ⟨secrets, _⟩ | ⟨crossed, _⟩
  · rw [secrets]
    exact first
  · rw [crossed]
    exact second

/-- The label of a healed key says which clause it is healed by. -/
theorem healedAt_of_mem (kind : Kind) {key : S.Key} (labelled : Labelled S kind key)
    (inside : Fact.key key ∈ healed root depth captured) : HealedAt root depth captured kind key := by
  rcases inside with ⟨_, ⟨⟩, _⟩ | ⟨_, ⟨⟩, s, remote, _, _, rfl⟩ | ⟨_, other, ⟨⟩, found⟩
  · exact absurd labelled (share_not_labelled ideal s remote kind)
  · obtain rfl := labelled.unique ideal found.labelled
    exact found

/-- One case per function: what is healed comes from something healed, from a safe
agreement or from a secret other than the captured one. -/
theorem healed_guarded : Guarded (Rule S) (healed root depth captured) := by
  intro premises fact rule inside
  cases rule with
  | publish s => exact absurd inside (pub_not_healed _)
  | share s remote =>
    refine ⟨.secret s, List.mem_cons_self, Or.inl ⟨s, rfl, ?_⟩⟩
    rcases inside with ⟨_, ⟨⟩, _⟩ | ⟨_, ⟨⟩, safe⟩ | ⟨_, kind, ⟨⟩, found⟩
    · exact safe.of_eq ideal
    · exact absurd found.labelled (share_not_labelled ideal s remote kind)
  | root rk dhOut =>
    have found := healedAt_of_mem ideal .root ⟨_, _, _, rfl, Or.inl ⟨rfl, rfl⟩⟩ inside
    change HealedRoot root depth captured (kdfRk S rk dhOut).1 at found
    generalize same : (kdfRk S rk dhOut).1 = key at found
    cases found with
    | first below safe =>
      obtain ⟨_, rfl⟩ := kdfRk_root_inj ideal same
      exact ⟨.key dhOut, by simp, Or.inr (Or.inl ⟨_, rfl, safe⟩)⟩
    | next before dhOut' =>
      obtain ⟨rfl, _⟩ := kdfRk_root_inj ideal same
      exact ⟨.key rk, by simp, Or.inr (Or.inr ⟨_, .root, rfl, before⟩)⟩
  | seed rk dhOut =>
    have found := healedAt_of_mem ideal .chain ⟨_, _, _, rfl, Or.inl ⟨rfl, rfl⟩⟩ inside
    change HealedChain root depth captured (kdfRk S rk dhOut).2 at found
    generalize same : (kdfRk S rk dhOut).2 = key at found
    cases found with
    | first below safe =>
      obtain ⟨_, rfl⟩ := kdfRk_chain_inj ideal same
      exact ⟨.key dhOut, by simp, Or.inr (Or.inl ⟨_, rfl, safe⟩)⟩
    | seed before dhOut' =>
      obtain ⟨rfl, _⟩ := kdfRk_chain_inj ideal same
      exact ⟨.key rk, by simp, Or.inr (Or.inr ⟨_, .root, rfl, before⟩)⟩
    | next before => exact absurd same (seed_ne_next ideal _ _ _)
  | next ck =>
    have found := healedAt_of_mem ideal .chain ⟨_, _, _, rfl, Or.inr rfl⟩ inside
    change HealedChain root depth captured (kdfCk S ck).1 at found
    generalize same : (kdfCk S ck).1 = key at found
    cases found with
    | first below safe => exact absurd same.symm (seed_ne_next ideal _ _ _)
    | seed before dhOut' => exact absurd same.symm (seed_ne_next ideal _ _ _)
    | next before =>
      obtain rfl := kdfCk_next_inj ideal same
      exact ⟨.key ck, by simp, Or.inr (Or.inr ⟨_, .chain, rfl, before⟩)⟩
  | message ck =>
    obtain ⟨ck', before, same⟩ := healedAt_of_mem ideal .message ⟨_, _, _, rfl, rfl⟩ inside
    obtain rfl := kdfCk_mk_inj ideal same
    exact ⟨.key ck, by simp, Or.inr (Or.inr ⟨_, .chain, rfl, before⟩)⟩
  | aead mk =>
    obtain ⟨ck, before, same⟩ := healedAt_of_mem ideal .aead (messageKeys_labelled mk) inside
    obtain rfl := messageKeys_key_inj ideal same
    exact ⟨.key _, by simp, Or.inr (Or.inr ⟨_, .message, rfl, ck, before, rfl⟩)⟩

/-- A state at or below `depth` whose own ratchet key is the captured one holds nothing
healed. -/
theorem captured_apart (session : SessionRoot S root) {s : RatchetState S} {sendPos recvPos below : Nat}
    (placed : Placed S root s below sendPos recvPos) (low : below ≤ depth) (storable : Storable s)
    (own : s.dhsPub = captured) (publics : Set Bytes32) :
    ∀ fact ∈ stateFacts s publics, fact ∉ healed root depth captured := by
  intro fact held inside
  cases held with
  | dhs =>
    rcases inside with ⟨_, ⟨⟩, other⟩ | ⟨_, ⟨⟩, _⟩ | ⟨_, _, ⟨⟩, _⟩
    exact other (storable.dhsPub.symm.trans own)
  | dhsPub => exact pub_not_healed _ inside
  | dhr known => exact pub_not_healed _ inside
  | seen member => exact pub_not_healed _ inside
  | rk =>
    obtain ⟨d, further, place⟩ :=
      HealedRoot.place (healedAt_of_mem ideal .root (rootAt_labelled session placed.rk) inside)
    have same := RootAt.unique ideal session place placed.rk
    omega
  | cks chain =>
    have sending := placed.cks _ chain
    obtain ⟨d, k, further, place⟩ :=
      HealedChain.place (healedAt_of_mem ideal .chain (chainAt_labelled sending) inside)
    have same := ChainAt.unique ideal session place sending
    omega
  | ckr chain =>
    obtain ⟨under, total, receiving⟩ := placed.ckr _ chain
    obtain ⟨d, k, further, place⟩ :=
      HealedChain.place (healedAt_of_mem ideal .chain (chainAt_labelled receiving) inside)
    have same := ChainAt.unique ideal session place receiving
    omega
  | banked found =>
    obtain ⟨d, k, at_, turns, total, _⟩ := placed.bank _ _ found
    obtain ⟨ck, before, rfl⟩ := healedAt_of_mem ideal .message (messageAt_labelled at_) inside
    obtain ⟨d', k', further, place⟩ := before.place
    have same := MessageAt.unique ideal session at_ ⟨ck, place, rfl⟩
    omega

end

/-! The honest run. -/

/-- What reaches a party was sent by its peer, in whatever order and however often; drawn
keys are new; and a call that fails is dropped, as `decrypt_message` drops it. -/
def honest (S : Suite) : Surroundings S where
  delivers w p message := ∃ m ∈ w.sent, m.sender = p.peer ∧ m.message = message
  draws w generated := S.publicKey generated ∉ w.drawn
  keepsErrors := False

theorem honest_faithful {S : Suite} (root : S.Key) : Faithful root (honest S) where
  unforged := by
    rintro w p message ⟨m, member, _, rfl⟩ header ciphertext parsed _ _ _ _ _ _ _ _
    exact ⟨m, member, header, parsed⟩
  fresh _ _ new := new
  rollsBack := id

/-- The two states have their ratchet in the same place. -/
structure Unturned {S : Suite} (s after : RatchetState S) : Prop where
  dhs : after.dhs = s.dhs
  dhsPub : after.dhsPub = s.dhsPub
  dhr : after.dhr = s.dhr
  rk : after.rk = s.rk

/-- `p` turns its ratchet on a message of the peer, which stands still meanwhile. -/
structure TurnsOn {S : Suite} (w w' : World S) (p : Party) (header : Header) (generated : Bytes32) (key : S.Key) :
    Prop where
  turned : Turned (w.state p) (w'.state p) header generated key
  fresh : S.publicKey generated ∉ w.drawn
  peer : w'.state p.peer = w.state p.peer
  genuine : ∃ message ciphertext plaintext, (honest S).delivers w p message ∧
    parseMessage message = .ok (header, ciphertext) ∧
    (w.state p).receiveKey header generated = (w'.state p, .ok key) ∧
    openMessage S key (toAad header) ciphertext = .ok plaintext

/-- What one step of an honest run can do to the ratchet of a party. -/
theorem honest_step {S : Suite} {w w' : World S} (step : Step (honest S) w w') (p : Party) :
    Unturned (w.state p) (w'.state p) ∨ ∃ header generated key, TurnsOn w w' p header generated key := by
  cases step with
  | encrypt q call used =>
    obtain ⟨ck, _, _, rfl, _⟩ := RatchetState.encrypt_ok call
    left
    by_cases mine : p = q
    · subst mine
      simp only [Function.update_self]
      exact ⟨rfl, rfl, rfl, rfl⟩
    · simp only [Function.update_of_ne mine]
      exact ⟨rfl, rfl, rfl, rfl⟩
  | encryptFailed q call kept => exact absurd kept id
  | decrypt q delivered draw call used =>
    by_cases mine : p = q
    · subst mine
      obtain ⟨header, ciphertext, key, parsed, received, opened, _⟩ := RatchetState.decrypt_ok call
      rcases receiveKey_turned received with same | turned
      · left
        simp only [Function.update_self]
        exact ⟨same.dhs, same.dhsPub, same.dhr, same.rk⟩
      · refine Or.inr ⟨header, _, key, ?_, draw turned.moved, Function.update_of_ne p.peer_ne _ _, _, ciphertext, _,
          delivered, parsed, ?_, opened⟩
        · simp only [Function.update_self]
          exact turned
        · simp only [Function.update_self]
          exact received
    · left
      simp only [Function.update_of_ne mine]
      exact ⟨rfl, rfl, rfl, rfl⟩
  | decryptFailed q delivered draw call kept => exact absurd kept id
  | rolledBack => exact Or.inl ⟨rfl, rfl, rfl, rfl⟩

/-- A party that can only derive healed keys: its root key is one already, or it sits one
step above the captured state and its next turn is on another key than the captured. -/
def Recovered {S : Suite} (root : S.Key) (depth : Nat) (captured : Bytes32) (s : RatchetState S) : Prop :=
  HealedRoot root depth captured s.rk ∨
    (RootAt S root depth s.rk ∧ s.dhr = some captured ∧ S.publicKey s.dhs ≠ captured)

section
variable {S : Suite} {root : S.Key} {depth : Nat} {captured : Bytes32}

/-- Both `kdf_rk` calls of a turn of a recovered party give healed keys. -/
theorem Recovered.turnOutputs {s : RatchetState S} (recovered : Recovered root depth captured s) {header : Header}
    (new : s.dhr ≠ some header.dh) (generated : Bytes32) :
    HealedRoot root depth captured (s.turnOutputs header generated).1.1 ∧
      HealedChain root depth captured (s.turnOutputs header generated).1.2 ∧
      HealedRoot root depth captured (s.turnOutputs header generated).2.1 ∧
      HealedChain root depth captured (s.turnOutputs header generated).2.2 := by
  have first : HealedRoot root depth captured (s.turnOutputs header generated).1.1 ∧
      HealedChain root depth captured (s.turnOutputs header generated).1.2 := by
    rcases recovered with healedAlready | ⟨place, remote, own⟩
    · exact ⟨healedAlready.next _, .seed healedAlready _⟩
    · have safe : SafeShare captured (S.diffieHellman s.dhs header.dh) :=
        ⟨s.dhs, header.dh, own, fun same => new (remote.trans (by rw [same])), rfl⟩
      exact ⟨.first place safe, .first place safe⟩
  exact ⟨first.1, first.2, first.1.next _, .seed first.1 _⟩

theorem Recovered.same {s after : RatchetState S} (recovered : Recovered root depth captured s)
    (unturned : Unturned s after) : Recovered root depth captured after := by
  unfold Recovered
  rw [unturned.rk, unturned.dhs, unturned.dhr]
  exact recovered

theorem recovered_step {w w' : World S} (recovered : ∀ q, Recovered root depth captured (w.state q))
    (step : Step (honest S) w w') : ∀ q, Recovered root depth captured (w'.state q) := by
  intro q
  rcases honest_step step q with same | ⟨header, generated, key, turn⟩
  · exact (recovered q).same same
  · obtain ⟨_, _, rk, _⟩ := (recovered q).turnOutputs turn.turned.new generated
    exact Or.inl (turn.turned.rk ▸ rk)

theorem recovered_run {w w' : World S} (recovered : ∀ q, Recovered root depth captured (w.state q))
    (run : Run (honest S) w w') : ∀ q, Recovered root depth captured (w'.state q) := by
  induction run with
  | refl => exact recovered
  | tail _ step ih => exact recovered_step ih step

theorem mem_drawnBy {w : World S} {p : Party} {after : RatchetState S} {generated dh : Bytes32}
    (member : dh ∈ w.drawn) : dh ∈ w.drawnBy p after generated := by
  unfold World.drawnBy
  split_ifs
  · exact member
  · exact List.mem_append_left _ member

theorem drawn_run {env : Surroundings S} {w w' : World S} (run : Run env w w') {dh : Bytes32}
    (member : dh ∈ w.drawn) : dh ∈ w'.drawn := by
  induction run with
  | refl => exact member
  | tail _ step ih =>
    cases step with
    | encrypt p call used => exact ih
    | encryptFailed p call kept => exact ih
    | decrypt p delivered draw call used => exact mem_drawnBy ih
    | decryptFailed p delivered draw call kept => exact mem_drawnBy ih
    | rolledBack => exact ih

/-- A party whose ratchet key is the one it had has not turned: a new key is never one
that was drawn before. -/
theorem unturned_run {w w' : World S} (run : Run (honest S) w w') (p : Party)
    (own : (w'.state p).dhsPub ∈ w.drawn) : (w'.state p).rk = (w.state p).rk := by
  induction run with
  | refl => rfl
  | tail before step ih =>
    rcases honest_step step p with same | ⟨header, generated, key, turn⟩
    · rw [same.rk]
      exact ih (same.dhsPub ▸ own)
    · rw [turn.turned.dhsPub] at own
      exact absurd (drawn_run before own) turn.fresh

end

section
variable {S : Suite} (ideal : Ideal S) {root : S.Key} (session : SessionRoot S root)
include ideal session

/-- The turn that heals. The party's new root key and sending chain rest on a safe
agreement, and the peer, which is one epoch ahead, has only safe agreements to come. -/
theorem turned_heals {w : World S} {secret : Nat → Bytes32} {depth : Party → Nat} {p : Party}
    (aligned : Aligned root w secret depth) {after : RatchetState S} {header : Header} {generated : Bytes32}
    {key : S.Key} {d k : Nat} (place : MessageAt S root d k key) (named : header.dh = S.publicKey (secret d))
    (low : d ≤ depth p.peer) (turned : Turned (w.state p) after header generated key)
    (unused : S.publicKey generated ∉ w.drawn) :
    HealedRoot root (depth p + 1) (w.state p).dhsPub after.rk ∧
      (∃ ck, after.cks = some ck ∧ HealedChain root (depth p + 1) (w.state p).dhsPub ck) ∧
      Recovered root (depth p + 1) (w.state p).dhsPub (w.state p.peer) := by
  obtain ⟨rfl, behind⟩ := aligned.turn_epoch ideal session place low turned
  have here := aligned.party p
  have there := aligned.party p.peer
  have apart : S.publicKey (secret (depth p + 1)) ≠ (w.state p).dhsPub := by
    rw [here.dhsPub]
    intro same
    have := aligned.distinct_all p.peer p low le_rfl same
    omega
  have fresh : S.publicKey generated ≠ (w.state p).dhsPub := by
    intro same
    rw [same, here.dhsPub] at unused
    exact unused (aligned.drawn p _ le_rfl)
  have below : RootAt S root (depth p + 1) ((w.state p).turnOutputs header generated).1.1 := by
    refine RootAt.step ?_ _
    rw [here.rk]
    exact epochRoot_at _
  have safe : SafeShare (w.state p).dhsPub (S.diffieHellman generated header.dh) :=
    ⟨generated, header.dh, fresh, named ▸ apart, rfl⟩
  refine ⟨?_, ⟨_, turned.cks, .first below safe⟩, Or.inr ⟨?_, ?_, ?_⟩⟩
  · rw [turned.rk]
    exact .first below safe
  · rw [there.rk, behind]
    exact epochRoot_at _
  · rw [there.dhr, behind, here.dhsPub]
    rfl
  · rw [there.dhs, behind]
    exact apart

/-- The step in which a party's ratchet key changes is a turn on a message of its peer. -/
theorem step_turns {w w' : World S} {secret : Nat → Bytes32} {depth : Party → Nat} {p : Party}
    (aligned : Aligned root w secret depth) (ledger : Ledger S root w) (recorded : Recorded w)
    (step : Step (honest S) w w') (turns : (w'.state p).dhsPub ≠ (w.state p).dhsPub) :
    HealedRoot root (depth p + 1) (w.state p).dhsPub (w'.state p).rk ∧
      (∃ ck, (w'.state p).cks = some ck ∧ HealedChain root (depth p + 1) (w.state p).dhsPub ck) ∧
      ∀ q, Recovered root (depth p + 1) (w.state p).dhsPub (w'.state q) := by
  rcases honest_step step p with same | ⟨header, generated, key, turn⟩
  · exact absurd same.dhsPub turns
  · obtain ⟨message, ciphertext, plaintext, delivered, parsed, received, opened⟩ := turn.genuine
    obtain ⟨d, k, place, named, low⟩ := aligned.opened_place ideal session (honest_faithful root) ledger recorded
      delivered parsed received opened
    obtain ⟨rk, cks, peer⟩ := turned_heals ideal session aligned place named low turn.turned turn.fresh
    refine ⟨rk, cks, fun q => ?_⟩
    rcases Party.eq_or_peer p q with rfl | rfl
    · exact Or.inl rk
    · rw [turn.peer]
      exact peer

/-- The key cannot be derived from the given facts. -/
def Hidden (knowledge : Set (Fact S)) (key : S.Key) : Prop := ¬Derivable (Rule S) knowledge (.key key)

/-- Nor can any key of the chain that starts at `seed`, or any message key of it. -/
def HiddenChain (knowledge : Set (Fact S)) (seed : S.Key) : Prop :=
  ∀ n, Hidden knowledge (chainIter S seed n) ∧ Hidden knowledge (kdfCk S (chainIter S seed n)).2 ∧
    Hidden knowledge (messageKeys S (kdfCk S (chainIter S seed n)).2).1

omit session in
theorem HealedRoot.hidden {depth : Nat} {captured : Bytes32} {knowledge : Set (Fact S)} {key : S.Key}
    (apart : ∀ fact ∈ knowledge, fact ∉ healed root depth captured) (inside : HealedRoot root depth captured key) :
    Hidden knowledge key :=
  (healed_guarded ideal).not_derivable apart (Or.inr (Or.inr ⟨key, .root, rfl, inside⟩))

omit session in
theorem HealedChain.hidden {depth : Nat} {captured : Bytes32} {knowledge : Set (Fact S)} {seed : S.Key}
    (apart : ∀ fact ∈ knowledge, fact ∉ healed root depth captured)
    (inside : HealedChain root depth captured seed) : HiddenChain knowledge seed := by
  have guarded : Guarded (Rule S) (healed root depth captured) := healed_guarded ideal
  intro n
  have there := inside.iter n
  exact ⟨guarded.not_derivable apart (Or.inr (Or.inr ⟨_, .chain, rfl, there⟩)),
    guarded.not_derivable apart (Or.inr (Or.inr ⟨_, .message, rfl, _, there, rfl⟩)),
    guarded.not_derivable apart (Or.inr (Or.inr ⟨_, .aead, rfl, _, there, rfl⟩))⟩

/-- Post-compromise healing. The state of `p` is captured in `captured`; `p` keeps its
ratchet key up to `before` and turns in the step to `turned`. From then on, in every
`later` world, the captured state and any public keys give neither the new root key and
sending chain nor any output of a `kdf_rk` call that either party makes. -/
theorem healed_after_turn {signedPrekey generated : Bytes32}
    (different : S.publicKey signedPrekey ≠ S.publicKey generated) {captured before turned later : World S}
    {p : Party} (start : Run (honest S) (World.start root signedPrekey generated) captured)
    (between : Run (honest S) captured before)
    (unturned : (before.state p).dhsPub = (captured.state p).dhsPub) (turn : Step (honest S) before turned)
    (turns : (turned.state p).dhsPub ≠ (before.state p).dhsPub) (after : Run (honest S) turned later)
    (publics : Set Bytes32) :
    Hidden (stateFacts (captured.state p) publics) (turned.state p).rk ∧
      (∃ ck, (turned.state p).cks = some ck ∧ HiddenChain (stateFacts (captured.state p) publics) ck) ∧
      ∀ q header drawn, (later.state q).dhr ≠ some header.dh →
        Hidden (stateFacts (captured.state p) publics) ((later.state q).turnOutputs header drawn).1.1 ∧
        HiddenChain (stateFacts (captured.state p) publics) ((later.state q).turnOutputs header drawn).1.2 ∧
        Hidden (stateFacts (captured.state p) publics) ((later.state q).turnOutputs header drawn).2.1 ∧
        HiddenChain (stateFacts (captured.state p) publics) ((later.state q).turnOutputs header drawn).2.2 := by
  have whole := start.trans between
  obtain ⟨secret, depth, aligned⟩ := aligned_run ideal session (honest_faithful root) different whole
  obtain ⟨secret₀, depth₀, aligned₀⟩ := aligned_run ideal session (honest_faithful root) different start
  have ledger := ledger_run ideal session (ledger_start signedPrekey generated) whole
  obtain ⟨d, sendPos, recvPos, accounted⟩ :=
    (ledger_run ideal session (ledger_start signedPrekey generated) start).party p
  have same : depth p = d := by
    have own : (before.state p).dhsPub ∈ captured.drawn := by
      rw [unturned, (aligned₀.party p).dhsPub]
      exact aligned₀.drawn p _ le_rfl
    have rk := unturned_run between p own
    rw [(aligned.party p).rk] at rk
    exact RootAt.unique ideal session (rk ▸ epochRoot_at _) accounted.placed.rk
  have apart : ∀ fact ∈ stateFacts (captured.state p) publics,
      fact ∉ healed root (depth p + 1) (before.state p).dhsPub :=
    captured_apart ideal session accounted.placed (by omega) (storable_run start p) unturned.symm publics
  obtain ⟨rk, ⟨ck, sending, chain⟩, recovered⟩ :=
    step_turns ideal session aligned ledger (recorded_run ideal.toLawful whole) turn turns
  refine ⟨rk.hidden ideal apart, ⟨ck, sending, chain.hidden ideal apart⟩, ?_⟩
  intro q header drawn new
  obtain ⟨root₁, chain₁, root₂, chain₂⟩ := (recovered_run recovered after q).turnOutputs new drawn
  exact ⟨root₁.hidden ideal apart, chain₁.hidden ideal apart, root₂.hidden ideal apart, chain₂.hidden ideal apart⟩

end

theorem healed_after_turn_sample : ∃ captured before turned : World Symbolic.suite,
    Run (honest Symbolic.suite) (World.start sampleRoot samplePrekey sampleGenerated) captured ∧
      Run (honest Symbolic.suite) captured before ∧ Step (honest Symbolic.suite) before turned ∧
      (turned.state .responder).dhsPub ≠ (captured.state .responder).dhsPub ∧
      Hidden (stateFacts (captured.state .responder) Set.univ) (turned.state .responder).rk := by
  obtain ⟨ciphertext, sealed⟩ := sample_sealed
  obtain ⟨w, w', sends, opens, _, _, _, own, moved, _⟩ := exchange_steps Symbolic.suite_lawful (honest Symbolic.suite)
    (List.Vector.replicate 32 3) sealed (fun w member => ⟨_, member, rfl, rfl⟩) (fun w drawn => by
      change _ ∉ w.drawn
      rw [drawn]
      decide)
  have turns : (w'.state .responder).dhsPub ≠ (w.state .responder).dhsPub := by
    rw [own, moved]
    decide
  exact ⟨_, w, w', .refl, .single sends, opens, by rw [moved]; decide,
    (healed_after_turn Symbolic.suite_ideal sampleRoot_session (by decide) .refl (.single sends) own opens turns .refl
      Set.univ).1⟩

end Buh.Ratchet.Healing
