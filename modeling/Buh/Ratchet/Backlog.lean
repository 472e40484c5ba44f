import Buh.Ratchet.Losses

/-! How much may be missing. A state banks one key for each message that it has skipped,
and each of them was sent before the message that made it skip. So what has to fit the
limits of the code is the number of earlier messages that have not been opened. -/

namespace Buh.Ratchet.Backlog
open Buh.Wire.Codec Buh.Crypto Buh.Crypto.Primitives Buh.Ratchet.Message Buh.Ratchet.Chain Buh.Ratchet.State
  Buh.Ratchet.Placement Buh.Ratchet.Persist Buh.Ratchet.Session Buh.Ratchet.Secrecy Buh.Ratchet.Authenticity
  Buh.Ratchet.Skipping Buh.Ratchet.Receiving Buh.Ratchet.Epochs Buh.Ratchet.Alignment Buh.Ratchet.Lockstep
  Buh.Ratchet.Delivery Buh.Ratchet.Healing Buh.Ratchet.Losses

section
variable {S : Suite}

/-- Where a message's key is banked when it is skipped. -/
def slotOf (m : Sent S) : Option (Bytes32 × UInt32) :=
  match parseMessage m.message with
  | .ok (header, _) => some (header.dh, header.n)
  | .error _ => none

theorem slotOf_parsed {m : Sent S} {header : Header} {ciphertext : Bytes}
    (parsed : parseMessage m.message = .ok (header, ciphertext)) : slotOf m = some (header.dh, header.n) := by
  rw [slotOf, parsed]

/-- The slots taken once everything before a message is banked. -/
def takenBefore (s : RatchetState S) (header : Header) : Finset (Bytes32 × UInt32) :=
  if s.dhr = some header.dh then s.skipped.keys ∪ chainSlots header.dh s.nr (header.n.toNat - s.nr.toNat)
  else drainedSlots s header.pn ∪ chainSlots header.dh 0 header.n.toNat

/-- A number of the current chain that is still ahead, or one of the chain which the message starts. -/
inductive Between (s : RatchetState S) (header : Header) : Bytes32 × UInt32 → Prop where
  | current {n : UInt32} (same : s.dhr = some header.dh) (from_ : s.nr.toNat ≤ n.toNat)
      (below : n.toNat < header.n.toNat) : Between s header (header.dh, n)
  | rest {dhr : Bytes32} {ck : S.Key} {n : UInt32} (new : s.dhr ≠ some header.dh) (remote : s.dhr = some dhr)
      (chain : s.ckr = some ck) (from_ : s.nr.toNat ≤ n.toNat) (below : n.toNat < header.pn.toNat) :
      Between s header (dhr, n)
  | next {n : UInt32} (new : s.dhr ≠ some header.dh) (below : n.toNat < header.n.toNat) :
      Between s header (header.dh, n)

theorem mem_drainedSlots {s : RatchetState S} {upto : UInt32} {slot : Bytes32 × UInt32}
    (member : slot ∈ drainedSlots s upto) :
    slot ∈ s.skipped.keys ∨ ∃ dhr ck, s.dhr = some dhr ∧ s.ckr = some ck ∧ slot.1 = dhr ∧
      s.nr.toNat ≤ slot.2.toNat ∧ slot.2.toNat < upto.toNat := by
  have top := upto.toNat_lt
  have below := s.nr.toNat_lt
  rw [drainedSlots] at member
  split at member
  · next dhr ck remote chain =>
    rcases Finset.mem_union.mp member with old | new
    · exact Or.inl old
    · obtain ⟨same, low, high⟩ := (mem_chainSlots (by omega)).mp new
      exact Or.inr ⟨dhr, ck, remote, chain, same, low, by omega⟩
  · exact Or.inl member

theorem mem_takenBefore {s : RatchetState S} {header : Header} {slot : Bytes32 × UInt32}
    (member : slot ∈ takenBefore s header) : slot ∈ s.skipped.keys ∨ Between s header slot := by
  have top := header.n.toNat_lt
  have below := s.nr.toNat_lt
  obtain ⟨dh, n⟩ := slot
  rw [takenBefore] at member
  split_ifs at member with same
  · rcases Finset.mem_union.mp member with old | new
    · exact Or.inl old
    · obtain ⟨rfl, low, high⟩ := (mem_chainSlots (by omega)).mp new
      exact Or.inr (.current same low (by dsimp only at high low; omega))
  · rcases Finset.mem_union.mp member with drained | new
    · rcases mem_drainedSlots drained with old | ⟨dhr, ck, remote, chain, rfl, low, high⟩
      · exact Or.inl old
      · exact Or.inr (.rest same remote chain low high)
    · obtain ⟨rfl, _, high⟩ := (mem_chainSlots (by rw [UInt32.toNat_zero]; omega)).mp new
      exact Or.inr (.next same (by simpa using high))

theorem keys_subset_drained (s : RatchetState S) (upto : UInt32) : s.skipped.keys ⊆ drainedSlots s upto := by
  rw [drainedSlots]
  split
  · exact Finset.subset_union_left
  · exact Finset.Subset.refl _

theorem keys_subset_taken (s : RatchetState S) (header : Header) : s.skipped.keys ⊆ takenBefore s header := by
  rw [takenBefore]
  split_ifs
  · exact Finset.subset_union_left
  · exact (keys_subset_drained s header.pn).trans Finset.subset_union_left

/-- Receiving a message banks nothing else. -/
theorem receiveKey_keys {s after : RatchetState S} {header : Header} {generated : Bytes32} {key : S.Key}
    (call : s.receiveKey header generated = (after, .ok key)) : after.skipped.keys ⊆ takenBefore s header := by
  rcases RatchetState.receiveKey_ok call with ⟨found, rfl⟩ | ⟨_, current, call⟩ | ⟨_, new, middle, skipped, call⟩
  · refine Finset.Subset.trans ?_ (keys_subset_taken s header)
    rw [Finmap.keys_erase]
    exact Finset.erase_subset _ _
  · obtain ⟨middle, ck, skipped, chain, _, rfl⟩ := RatchetState.chainKey_ok call
    have keys := skipMessageKeys_keys skipped
    dsimp only
    rw [keys, takenBefore, if_pos current, drainedSlots, current]
    split
    · next dhr ck' same chain' =>
      cases same
      exact Finset.Subset.refl _
    · exact Finset.subset_union_left
  · obtain ⟨last, ck, walked, chain, _, rfl⟩ := RatchetState.chainKey_ok call
    have keys := skipMessageKeys_keys walked
    have drained := skipMessageKeys_keys skipped
    dsimp only
    rw [keys, takenBefore, if_neg new, ← drained]
    exact Finset.Subset.refl _

end

section
variable {S : Suite} {root : S.Key}

/-- Of two messages of one party the first has the earlier key. -/
def Precedes (root : S.Key) (m m' : Sent S) : Prop :=
  m.sender = m'.sender → ∀ d k d' k', MessageAt S root d k m.key → MessageAt S root d' k' m'.key →
    d < d' ∨ (d = d' ∧ k < k')

variable {w w' : World S} (ideal : Ideal S) (session : SessionRoot S root)
include ideal session

theorem ordered_step {env : Surroundings S} (ledger : Ledger S root w) (ordered : w.sent.Pairwise (Precedes root))
    (step : Step env w w') : w'.sent.Pairwise (Precedes root) := by
  cases step with
  | encrypt p call used =>
    rw [List.pairwise_append]
    refine ⟨ordered, List.pairwise_singleton _ _, ?_⟩
    intro m member last same mine d k d' k' place place'
    obtain rfl := List.mem_singleton.mp same
    obtain ⟨depth, sendPos, recvPos, accounted⟩ := ledger.party p
    obtain ⟨ck, _, chain, _⟩ := RatchetState.encrypt_ok call
    simp only [RatchetState.sendKey, chain, Option.map_some, Option.some.injEq] at used
    obtain ⟨rfl, rfl⟩ := MessageAt.unique ideal session place' ⟨ck, accounted.placed.cks ck chain, used.symm⟩
    obtain ⟨e, j, old, turns, total, inside⟩ := accounted.sent m member mine
    obtain ⟨rfl, rfl⟩ := MessageAt.unique ideal session place old
    omega
  | encryptFailed p call kept => exact ordered
  | decrypt p delivered draw call used => exact ordered
  | decryptFailed p delivered draw call kept => exact ordered
  | rolledBack => exact ordered

/-- The log of the messages of a party is in the order of the key schedule. -/
theorem sent_in_order {env : Surroundings S} {signedPrekey generated : Bytes32}
    (run : Run env (World.start root signedPrekey generated) w) : w.sent.Pairwise (Precedes root) := by
  induction run with
  | refl => exact .nil
  | tail before step ih =>
    exact ordered_step ideal session (ledger_run ideal session (ledger_start signedPrekey generated) before) ih step

end

section
variable {S : Suite} {root : S.Key} {w : World S} {secret : Nat → Bytes32} {depth : Party → Nat} {p : Party}

theorem Party.parity_inj {p q : Party} (same : p.parity = q.parity) : p = q := by
  cases p <;> cases q <;> simp [Party.parity] at same ⊢

/-- The number in a message's header. -/
def numberOf (m : Sent S) : Nat :=
  match parseMessage m.message with
  | .ok (header, _) => header.n.toNat
  | .error _ => 0

/-- Every number of an epoch up to the count of its messages is that of a message. -/
theorem number_sent (inStep : InStep root w secret depth) (keys : (w.sent.map Sent.key).Nodup) {q : Party} {e n : Nat}
    (low : e ≤ depth q) (parity : e % 2 = q.parity) (below : n < sentIn w secret e) :
    ∃ m ∈ w.sent, ∃ header, m.sender = q ∧ SentAt root w secret m header e ∧
      slotOf m = some (header.dh, header.n) ∧ header.n.toNat = n := by
  let chain := w.sent.filter (fun m => ratchetKeyOf m = some (S.publicKey (secret e)))
  have size : chain.length = sentIn w secret e := List.countP_eq_length_filter.symm
  have placed : ∀ m ∈ chain, ∃ header ciphertext, parseMessage m.message = .ok (header, ciphertext) ∧
      SentAt root w secret m header e := by
    intro m member
    obtain ⟨sent, named⟩ := List.mem_filter.mp member
    obtain ⟨header, ciphertext, d, parsed, under, at_⟩ := inStep.sentAt m sent
    simp only [ratchetKeyOf, parsed, decide_eq_true_eq, Option.some.injEq] at named
    obtain rfl := inStep.distinct_all _ _ under low (at_.named.symm.trans named)
    exact ⟨header, ciphertext, parsed, at_⟩
  have numbers : (chain.map numberOf).Nodup := by
    have spelled : chain.map Sent.key = (chain.map numberOf).map (epochKey S root secret e) := by
      rw [List.map_map]
      refine List.map_congr_left fun m member => ?_
      obtain ⟨header, ciphertext, parsed, at_⟩ := placed m member
      rw [at_.key, Function.comp_apply, numberOf, parsed]
    have distinct : (chain.map Sent.key).Nodup := keys.sublist (List.filter_sublist.map _)
    rw [spelled] at distinct
    exact distinct.of_map _
  have inside : (chain.map numberOf).toFinset ⊆ Finset.range (sentIn w secret e) := by
    intro number member
    obtain ⟨m, listed, rfl⟩ := List.mem_map.mp (List.mem_toFinset.mp member)
    obtain ⟨header, ciphertext, parsed, at_⟩ := placed m listed
    rw [Finset.mem_range, numberOf, parsed]
    exact at_.number
  have all : (chain.map numberOf).toFinset = Finset.range (sentIn w secret e) := by
    refine Finset.eq_of_subset_of_card_le inside ?_
    rw [List.toFinset_card_of_nodup numbers, List.length_map, size, Finset.card_range]
  have found := Finset.mem_range.mpr below
  rw [← all, List.mem_toFinset, List.mem_map] at found
  obtain ⟨m, listed, rfl⟩ := found
  obtain ⟨header, ciphertext, parsed, at_⟩ := placed m listed
  refine ⟨m, List.mem_of_mem_filter listed, header, ?_, at_, slotOf_parsed parsed, by rw [numberOf, parsed]⟩
  exact Party.parity_inj (at_.parity.symm.trans parity)

/-- A place of the peer's that a party has not walked to. -/
def Ahead (w : World S) (depth : Party → Nat) (p : Party) (e n : Nat) : Prop :=
  (e + 1 = depth p ∧ (w.state p).nr.toNat ≤ n) ∨ e = depth p + 1

/-- What lies between the state and a message ahead of it are messages that were sent before. -/
theorem between_sent (inStep : InStep root w secret depth) (keys : (w.sent.map Sent.key).Nodup) {m : Sent S}
    {header : Header} {d : Nat} (at_ : SentAt root w secret m header d) (sender : m.sender = p.peer)
    (low : d ≤ depth p.peer) (ahead : Ahead w depth p d header.n.toNat) {slot : Bytes32 × UInt32}
    (between : Between (w.state p) header slot) :
    ∃ m' ∈ w.sent, m'.sender = p.peer ∧ slotOf m' = some slot ∧ ∃ e k, MessageAt S root e k m'.key ∧
      Ahead w depth p e k ∧ (e < d ∨ (e = d ∧ k < header.n.toNat)) := by
  have mine := inStep.parity p
  have theirs := at_.parity
  rw [sender] at theirs
  have here := inStep.counted p
  have found {e : Nat} {dh : Bytes32} {n : UInt32} (named : dh = S.publicKey (secret e)) (under : e ≤ depth p.peer)
      (parity : e % 2 = p.peer.parity) (below : n.toNat < sentIn w secret e) :
      ∃ m' ∈ w.sent, m'.sender = p.peer ∧ slotOf m' = some (dh, n) ∧ MessageAt S root e n.toNat m'.key := by
    obtain ⟨m', member, header', sender', at', slot', number⟩ := number_sent inStep keys under parity below
    refine ⟨m', member, sender', ?_, number ▸ at'.place⟩
    rw [slot', at'.named, named, UInt32.toNat_inj.mp number]
  cases between with
  | @current n same from_ below =>
    obtain ⟨m', member, sender', slot', place⟩ := found at_.named low theirs (below.trans at_.number)
    have epoch := inStep.current_epoch low (at_.named ▸ same)
    exact ⟨m', member, sender', slot', d, n.toNat, place, Or.inl ⟨epoch, from_⟩, Or.inr ⟨rfl, below⟩⟩
  | @rest dhr ck n new remote chain from_ below =>
    have next : d = depth p + 1 := by
      refine ahead.resolve_left fun current => new ?_
      rw [here.dhr, ← current.1, at_.named]
      rfl
    -- the receiving chain is that of the epoch before the party's own
    rw [here.ckr] at chain
    rw [here.dhr] at remote
    rw [at_.previous, next] at below
    obtain ⟨e, reached⟩ : ∃ e, depth p = e + 2 := by
      match depth p, chain with
      | e + 2, _ => exact ⟨e, rfl⟩
    rw [reached] at below remote chain
    obtain ⟨m', member, sender', slot', place⟩ :=
      found (e := e + 1) (Option.some.inj remote).symm (by omega) (by omega) below
    exact ⟨m', member, sender', slot', e + 1, n.toNat, place, Or.inl ⟨by omega, from_⟩, Or.inl (by omega)⟩
  | @next n new below =>
    have next : d = depth p + 1 := by
      refine ahead.resolve_left fun current => new ?_
      rw [here.dhr, ← current.1, at_.named]
      rfl
    obtain ⟨m', member, sender', slot', place⟩ := found at_.named low theirs (below.trans at_.number)
    exact ⟨m', member, sender', slot', d, n.toNat, place, Or.inr next, Or.inr ⟨rfl, below⟩⟩

/-- No chain key comes before the first root step. -/
theorem ChainAt.positive {d k : Nat} {ck : S.Key} (place : ChainAt S root d k ck) : 0 < d := by
  induction place with
  | seed below dhOut => exact Nat.succ_pos _
  | next before ih => exact ih

/-- Every banked slot is that of a message the peer has sent. -/
def Traced (w : World S) : Prop :=
  ∀ p, ∀ slot ∈ (w.state p).skipped.keys, ∃ m ∈ w.sent, m.sender = p.peer ∧ slotOf m = some slot

variable (ideal : Ideal S) (session : SessionRoot S root)

/-- The header decides the key. -/
theorem InStep.same_key (inStep : InStep root w secret depth) {m m' : Sent S} (member : m ∈ w.sent)
    (member' : m' ∈ w.sent) {slot : Bytes32 × UInt32} (first : slotOf m = some slot)
    (second : slotOf m' = some slot) : m.key = m'.key := by
  obtain ⟨header, ciphertext, d, parsed, low, at_⟩ := inStep.sentAt m member
  obtain ⟨header', ciphertext', d', parsed', low', at'⟩ := inStep.sentAt m' member'
  rw [slotOf_parsed parsed] at first
  rw [slotOf_parsed parsed', ← first, Option.some.injEq, Prod.mk.injEq] at second
  obtain ⟨named, number⟩ := second
  obtain rfl := inStep.distinct_all _ _ low low' (at_.named.symm.trans (named.symm.trans at'.named))
  rw [at_.key, at'.key, number]

include ideal session

/-- A party has opened nothing that lies ahead of it. -/
theorem ahead_unopened (inStep : InStep root w secret depth) (ledger : Ledger S root w) {e k : Nat} {key : S.Key}
    (ahead : Ahead w depth p e k) (place : MessageAt S root e k key) :
    ∀ o ∈ w.opened, o.receiver = p → o.key ≠ key := by
  rintro o opened mine rfl
  obtain ⟨depth', sendPos, recvPos, accounted⟩ := ledger.party p
  obtain rfl := inStep.toAligned.depth_eq ideal session accounted.placed
  obtain ⟨⟨d, j, old, turns, total, inside⟩, _⟩ := accounted.opened o opened mine
  obtain ⟨rfl, rfl⟩ := MessageAt.unique ideal session place old
  rcases ahead with ⟨current, from_⟩ | next
  · have walked := inside (by omega)
    have chain := (inStep.counted p).ckr
    match reached : depth p, chain with
    | 0, chain => omega
    | 1, chain =>
      obtain ⟨ck, chained, _⟩ := place
      have positive := ChainAt.positive chained
      omega
    | f + 2, chain =>
      obtain ⟨under, same, behind⟩ := accounted.placed.ckr _ chain
      obtain ⟨_, positions⟩ := ChainAt.unique ideal session behind (epochChain_at f _)
      omega
  · omega

theorem traced_step {env : Surroundings S} (faithful : Faithful root env) (ledger : Ledger S root w)
    (recorded : Recorded w) (inStep : InStep root w secret depth) (traced : Traced w) {w' : World S}
    (step : Step env w w') : Traced w' := by
  have after := ledger_step ideal session ledger step
  have grown := sent_subset step
  cases step with
  | encrypt p call used =>
    intro q slot member
    obtain ⟨ck, ciphertext, chain, rfl, _⟩ := RatchetState.encrypt_ok call
    have old : slot ∈ (w.state q).skipped.keys := by
      by_cases mine : q = p
      · subst mine
        simpa using member
      · simpa [Function.update_of_ne mine] using member
    obtain ⟨m, sent, sender, named⟩ := traced q slot old
    exact ⟨m, grown sent, sender, named⟩
  | encryptFailed p call kept => exact absurd kept faithful.rollsBack
  | decrypt p delivered draw call used =>
    rename_i message plaintext generated state key
    intro q slot member
    by_cases mine : q = p
    swap
    · exact traced q slot (by simpa [Function.update_of_ne mine] using member)
    subst mine
    dsimp only at member
    rw [Function.update_self] at member
    obtain ⟨header, ciphertext, parsed, received, opened⟩ := RatchetState.decrypt_used call used
    obtain ⟨m, sent, sender, _, rfl, same⟩ := decrypt_attributed ideal session ledger recorded
      (faithful.unforged w q _ delivered) parsed received opened
    obtain ⟨header', ciphertext', d, parsed', low, at_⟩ := inStep.sentAt m sent
    rw [same] at parsed'
    cases parsed'
    rw [sender] at low
    cases found : (w.state q).skipped.lookup (header.dh, header.n) with
    | some mk =>
      rcases RatchetState.receiveKey_ok received with ⟨_, rfl⟩ | ⟨absent, _⟩ | ⟨absent, _⟩
      · rw [Finmap.keys_erase] at member
        exact traced q slot (Finset.mem_of_mem_erase member)
      · rw [found] at absent
        cases absent
      · rw [found] at absent
        cases absent
    | none =>
      have unopened : m.key ∉ openedKeys w := by
        rintro ⟨o, done, keys⟩
        have nodup := after.openedKeys
        rw [List.map_append, List.map_singleton, List.nodup_append] at nodup
        exact nodup.2.2 _ (List.mem_map_of_mem done) _ (List.mem_singleton_self _) keys
      have ahead := unopened_place inStep at_ sender low unopened found
      rcases mem_takenBefore (receiveKey_keys received member) with old | between
      · exact traced q slot old
      · obtain ⟨m', sent', sender', named, _⟩ := between_sent inStep ledger.sentKeys at_ sender low ahead between
        exact ⟨m', sent', sender', named⟩
  | decryptFailed p delivered draw call kept => exact absurd kept faithful.rollsBack
  | rolledBack => exact traced

theorem traced_run {env : Surroundings S} (faithful : Faithful root env) {signedPrekey generated : Bytes32}
    (different : S.publicKey signedPrekey ≠ S.publicKey generated)
    (run : Run env (World.start root signedPrekey generated) w) (short : ∀ dh, chainLength w dh < 2 ^ 32) :
    Traced w := by
  induction run with
  | refl =>
    intro p slot member
    cases p <;> simp [World.start, RatchetState.initiator, RatchetState.responder] at member
  | tail before step ih =>
    have shorter : ∀ dh, chainLength _ dh < 2 ^ 32 := fun dh => (chainLength_step step dh).trans_lt (short dh)
    obtain ⟨secret, depth, inStep⟩ := inStep_run ideal session faithful different before shorter
    exact traced_step ideal session faithful (ledger_run ideal session (ledger_start signedPrekey generated) before)
      (recorded_run ideal.toLawful before) inStep (ih shorter) step

/-- Everything that would be taken before a message ahead of the state belongs to messages
that were sent before it and have not been opened. -/
theorem taken_earlier (inStep : InStep root w secret depth) (ledger : Ledger S root w) (traced : Traced w) {m : Sent S}
    {header : Header} {d : Nat} (at_ : SentAt root w secret m header d) (sender : m.sender = p.peer)
    (low : d ≤ depth p.peer) (ahead : Ahead w depth p d header.n.toNat) {slot : Bytes32 × UInt32}
    (member : slot ∈ takenBefore (w.state p) header) :
    ∃ m' ∈ w.sent, m'.sender = p.peer ∧ slotOf m' = some slot ∧
      (∀ o ∈ w.opened, o.receiver = p → o.key ≠ m'.key) ∧
      ∃ e k, MessageAt S root e k m'.key ∧ (e < d ∨ (e = d ∧ k < header.n.toNat)) := by
  rcases mem_takenBefore member with banked | between
  · obtain ⟨m', sent, sender', named⟩ := traced p slot banked
    obtain ⟨header', ciphertext', e, parsed, low', at'⟩ := inStep.sentAt m' sent
    rw [slotOf_parsed parsed, Option.some.injEq] at named
    subst named
    obtain ⟨mk, found⟩ := Option.isSome_iff_exists.mp (Finmap.lookup_isSome.mpr (Finmap.mem_keys.mp banked))
    have here := inStep.counted p
    obtain ⟨f, below, dh, rfl⟩ := here.bank _ _ _ found
    obtain rfl := inStep.distinct_all p m'.sender below.le low' (dh.symm.trans at'.named)
    refine ⟨m', sent, sender', slotOf_parsed parsed, ?_, f, header'.n.toNat, at'.place, ?_⟩
    · intro o opened mine same
      obtain ⟨depth', sendPos, recvPos, accounted⟩ := ledger.party p
      refine (accounted.opened o opened mine).2 (header'.dh, header'.n) ?_
      rw [found, same, at'.key]
    · rcases ahead with ⟨current, from_⟩ | next
      · rcases Nat.lt_or_ge f d with earlier | later
        · exact Or.inl earlier
        · obtain rfl : f = d := by omega
          refine Or.inr ⟨rfl, ?_⟩
          by_contra beyond
          have remote : (w.state p).dhr = some header'.dh := by
            rw [here.dhr, ← current, at'.named]
            rfl
          have open_ : (w.state p).ckr ≠ none := by
            obtain ⟨g, reached⟩ := Nat.exists_eq_add_of_lt at_.positive
            rw [here.ckr, ← current, reached]
            simp [receivingAt]
          exact counter_free ideal session inStep ledger remote open_ header'.n (by omega) banked
      · exact Or.inl (by omega)
  · obtain ⟨m', sent, sender', named, e, k, place, ahead', earlier⟩ :=
      between_sent inStep ledger.sentKeys at_ sender low ahead between
    exact ⟨m', sent, sender', named, ahead_unopened ideal session inStep ledger ahead' place, e, k, place, earlier⟩

/-- A message ahead of the state fits the limits when what would be taken before it does. -/
theorem gapFits_of_taken (inStep : InStep root w secret depth) (ledger : Ledger S root w) {m : Sent S}
    {header : Header} {d : Nat} (at_ : SentAt root w secret m header d) (low : d ≤ depth p.peer)
    (ahead : Ahead w depth p d header.n.toNat) (few : (takenBefore (w.state p) header).card ≤ maxSkip.toNat) :
    GapFits (w.state p) header := by
  have top := header.n.toNat_lt
  have bottom := (w.state p).nr.toNat_lt
  have here := inStep.counted p
  have limit : maxSkip.toNat ≤ maxStoredSkipped := by decide
  rw [takenBefore] at few
  split_ifs at few with current
  · have epoch := inStep.current_epoch low (at_.named ▸ current)
    have open_ : (w.state p).ckr ≠ none := by
      obtain ⟨g, reached⟩ := Nat.exists_eq_add_of_lt at_.positive
      rw [here.ckr, ← epoch, reached]
      simp [receivingAt]
    have free := counter_free ideal session inStep ledger current open_
    rw [card_walked (by omega) free] at few
    exact Or.inr (Or.inl ⟨current, by omega, by omega⟩)
  · have next : d = depth p + 1 := by
      refine ahead.resolve_left fun open_ => current ?_
      rw [here.dhr, ← open_.1, at_.named]
      rfl
    subst next
    have unused (n : UInt32) (_ : (0 : UInt32).toNat ≤ n.toNat) := next_epoch_free inStep low at_.named current header.pn n
    rw [card_walked (by rw [UInt32.toNat_zero]; omega) unused, drained_card ideal session inStep ledger] at few
    refine Or.inr (Or.inr ⟨current, by omega, fun open_ => ?_, by omega⟩)
    rw [if_pos (Option.isSome_iff_ne_none.mpr open_)] at few
    omega

/-- No loss wedges a session while few messages are missing. The first arrival of a message
opens, in whatever order the network delivers, when all but `MAX_SKIP` of the messages that
its sender sent before it have been opened. -/
theorem few_missing_opens {env : Surroundings S} (faithful : Faithful root env) {signedPrekey generated : Bytes32}
    (different : S.publicKey signedPrekey ≠ S.publicKey generated)
    (run : Run env (World.start root signedPrekey generated) w) (short : ∀ dh, chainLength w dh < 2 ^ 32)
    {before rest missing : List (Sent S)} {m : Sent S} (log : w.sent = before ++ m :: rest)
    (first : ∀ o ∈ w.opened, o.receiver = m.sender.peer → parseMessage o.message ≠ parseMessage m.message)
    (few : missing.length ≤ maxSkip.toNat)
    (others : ∀ m' ∈ before, m'.sender = m.sender → m' ∉ missing →
      ∃ o ∈ w.opened, o.receiver = m.sender.peer ∧ parseMessage o.message = parseMessage m'.message)
    (drawn : Bytes32) :
    ∃ after, (w.state m.sender.peer).decrypt drawn m.message = (after, .ok m.plaintext) := by
  have ledger := ledger_run ideal session (ledger_start signedPrekey generated) run
  have traced := traced_run ideal session faithful different run short
  have ordered := sent_in_order ideal session run
  have attributed := attributed_run ideal session faithful.unforged run
  obtain ⟨secret, depth, inStep⟩ := inStep_run ideal session faithful different run short
  have member : m ∈ w.sent := log ▸ List.mem_append_right _ List.mem_cons_self
  obtain ⟨header, ciphertext, d, parsed, low, at_⟩ := inStep.sentAt m member
  refine unopened_message_opens ideal session faithful different run short member parsed first ?_ drawn
  cases found : (w.state m.sender.peer).skipped.lookup (header.dh, header.n) with
  | some mk => exact Or.inl (by rw [found]; nofun)
  | none =>
    have unopened := unopened_of_first ideal session faithful run member first
    have sender : m.sender = m.sender.peer.peer := m.sender.peer_peer.symm
    rw [sender] at low
    have ahead := unopened_place inStep at_ sender low unopened found
    refine gapFits_of_taken ideal session inStep ledger at_ low ahead ?_
    have inside : takenBefore (w.state m.sender.peer) header ⊆ (missing.filterMap slotOf).toFinset := by
      intro slot taken
      obtain ⟨m', sent, sender', named, fresh, e, k, place, earlier⟩ :=
        taken_earlier ideal session inStep ledger traced at_ sender low ahead taken
      rw [Party.peer_peer] at sender'
      refine List.mem_toFinset.mpr (List.mem_filterMap.mpr ⟨m', ?_, named⟩)
      -- the log is in order, so what is earlier in the schedule comes before the message
      have before_ : m' ∈ before := by
        rw [log] at sent ordered
        rcases List.mem_append.mp sent with early | late
        · exact early
        have following := (List.pairwise_cons.mp (List.pairwise_append.mp ordered).2.1).1
        rcases List.mem_cons.mp late with rfl | late
        · obtain ⟨rfl, rfl⟩ := MessageAt.unique ideal session place at_.place
          omega
        · have later := following m' late sender'.symm _ _ _ _ at_.place place
          omega
      by_contra kept
      obtain ⟨o, opened, mine, same⟩ := others m' before_ sender' kept
      obtain ⟨m'', sent'', _, _, keys, parses⟩ := attributed o opened
      have slots : slotOf m'' = some slot := by
        rw [slotOf, parses, same]
        exact named
      exact fresh o opened mine (keys.symm.trans (InStep.same_key inStep sent'' sent slots named))
    calc
      _ ≤ (missing.filterMap slotOf).toFinset.card := Finset.card_le_card inside
      _ ≤ (missing.filterMap slotOf).length := List.toFinset_card_le _
      _ ≤ missing.length := List.length_filterMap_le _ _
      _ ≤ _ := few

end

section

/-- The initiator sends two messages, and the first is lost. -/
theorem few_missing_opens_sample : ∃ (w : World Symbolic.suite) (m : Sent Symbolic.suite),
    Run (lossy Symbolic.suite) (World.start sampleRoot samplePrekey sampleGenerated) w ∧
      w.sent.map Sent.plaintext = [[7], [8]] ∧ w.opened = [] ∧ m ∈ w.sent ∧ m.plaintext = [8] ∧
      ∃ after, (w.state m.sender.peer).decrypt sampleGenerated m.message = (after, .ok m.plaintext) := by
  obtain ⟨middle, after, message, message', -, sent, later, -, -⟩ :=
    two_encrypted (show List.length (α := UInt8) sampleRoot < 2 ^ 32 by decide) samplePrekey sampleGenerated
  obtain ⟨ck, _, chain, -⟩ := RatchetState.encrypt_ok sent
  obtain ⟨ck', _, chain', -⟩ := RatchetState.encrypt_ok later
  let lost : Sent Symbolic.suite := ⟨.initiator, [7], message, (kdfCk Symbolic.suite ck).2⟩
  let start := World.start (S := Symbolic.suite) sampleRoot samplePrekey sampleGenerated
  let one : World Symbolic.suite := { start with
    state := Function.update start.state .initiator middle
    sent := start.sent ++ [lost] }
  let two : World Symbolic.suite := { one with
    state := Function.update one.state .initiator after
    sent := one.sent ++ [⟨.initiator, [8], message', (kdfCk Symbolic.suite ck').2⟩] }
  have holds : one.state .initiator = middle := Function.update_self Party.initiator middle start.state
  have sends : Step (lossy Symbolic.suite) start one :=
    .encrypt .initiator sent (by rw [RatchetState.sendKey, show (start.state .initiator).cks = some ck from chain]; rfl)
  have sendsLater : Step (lossy Symbolic.suite) one two :=
    .encrypt .initiator (holds.symm ▸ later) (by rw [holds, RatchetState.sendKey, chain']; rfl)
  have run := (Relation.ReflTransGen.single sends).tail sendsLater
  have short (dh : Bytes32) : chainLength two dh < 2 ^ 32 :=
    List.countP_le_length.trans_lt (show 2 < 2 ^ 32 by decide)
  refine ⟨two, ⟨.initiator, [8], message', (kdfCk Symbolic.suite ck').2⟩, run, rfl, rfl,
    List.mem_cons_of_mem _ (List.mem_singleton_self _), rfl, ?_⟩
  exact few_missing_opens Symbolic.suite_ideal sampleRoot_session (lossy_faithful sampleRoot) (by decide) run short
    (show two.sent = [lost] ++ _ :: [] from rfl) (fun o absent => absurd absent List.not_mem_nil)
    (show [lost].length ≤ maxSkip.toNat from show 1 ≤ maxSkip.toNat by decide)
    (fun m earlier _ found => absurd earlier found) _

end

end Buh.Ratchet.Backlog
