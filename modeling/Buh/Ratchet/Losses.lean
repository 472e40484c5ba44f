import Buh.Ratchet.Receiving
import Buh.Ratchet.Delivery
import Buh.Ratchet.Healing

/-! What losses cost. The key of every message that was skipped stays banked until that
message arrives, so the key of a lost one stays forever. The bank is shared by all chains
and refuses when it is full, so that losses which are each within the tolerance add up. -/

namespace Buh.Ratchet.Losses
open Buh.Wire.Codec Buh.Crypto Buh.Crypto.Primitives Buh.Ratchet.Message Buh.Ratchet.Chain Buh.Ratchet.State
  Buh.Ratchet.Placement Buh.Ratchet.Persist Buh.Ratchet.Session Buh.Ratchet.Secrecy Buh.Ratchet.Authenticity
  Buh.Ratchet.Skipping Buh.Ratchet.Receiving Buh.Ratchet.Epochs Buh.Ratchet.Alignment Buh.Ratchet.Lockstep
  Buh.Ratchet.Delivery Buh.Ratchet.Healing

section
variable {S : Suite}

/-- The documented tolerance: a late message has its key banked; within the current chain
at most `MAX_SKIP` messages are missing; across a DH step at most `MAX_SKIP` in either chain. -/
def Tolerated (s : RatchetState S) (header : Header) : Prop :=
  s.skipped.lookup (header.dh, header.n) ≠ none ∨
    (s.dhr = some header.dh ∧ header.n.toNat - s.nr.toNat ≤ maxSkip.toNat) ∨
    (s.dhr ≠ some header.dh ∧ header.pn.toNat - s.nr.toNat ≤ maxSkip.toNat ∧ header.n.toNat ≤ maxSkip.toNat)

/-- How many keys have to be banked before the message's own. -/
def gap (s : RatchetState S) (header : Header) : Nat :=
  if (s.skipped.lookup (header.dh, header.n)).isSome then 0
  else if s.dhr = some header.dh then header.n.toNat - s.nr.toNat
  else (if s.ckr.isSome then header.pn.toNat - s.nr.toNat else 0) + header.n.toNat

theorem gap_banked {s : RatchetState S} {header : Header}
    (banked : s.skipped.lookup (header.dh, header.n) ≠ none) : gap s header = 0 :=
  if_pos (Option.isSome_iff_ne_none.mpr banked)

theorem gap_current {s : RatchetState S} {header : Header} (absent : s.skipped.lookup (header.dh, header.n) = none)
    (current : s.dhr = some header.dh) : gap s header = header.n.toNat - s.nr.toNat := by
  rw [gap, absent, if_neg (by simp), if_pos current]

theorem gap_next {s : RatchetState S} {header : Header} (absent : s.skipped.lookup (header.dh, header.n) = none)
    (new : s.dhr ≠ some header.dh) :
    gap s header = (if s.ckr.isSome then header.pn.toNat - s.nr.toNat else 0) + header.n.toNat := by
  rw [gap, absent, if_neg (by simp), if_neg new]

theorem gapFits_of_room {s : RatchetState S} {header : Header} (tolerated : Tolerated s header)
    (room : s.skipped.keys.card + gap s header ≤ maxStoredSkipped) : GapFits s header := by
  by_cases banked : s.skipped.lookup (header.dh, header.n) = none
  · rcases tolerated with held | ⟨current, near⟩ | ⟨new, before, near⟩
    · exact absurd banked held
    · rw [gap_current banked current] at room
      exact .inr (.inl ⟨current, near, room⟩)
    · rw [gap_next banked new, ← Nat.add_assoc] at room
      exact .inr (.inr ⟨new, near, fun _ => before, room⟩)
  · exact .inl banked

end

section
variable {S : Suite} {root : S.Key} {w : World S} {secret : Nat → Bytes32} {depth : Party → Nat} {p : Party}

/-- Every banked slot belongs to an epoch before the party's own. -/
theorem banked_epoch (inStep : InStep root w secret depth) {dh : Bytes32} {n : UInt32}
    (member : (dh, n) ∈ (w.state p).skipped.keys) : ∃ d < depth p, dh = S.publicKey (secret d) := by
  obtain ⟨mk, found⟩ := Option.isSome_iff_exists.mp (Finmap.lookup_isSome.mpr (Finmap.mem_keys.mp member))
  obtain ⟨d, below, dh, _⟩ := (inStep.counted p).bank _ _ _ found
  exact ⟨d, below, dh⟩

/-- A party without a remote ratchet key has no receiving chain. -/
theorem receiving_needs_remote (inStep : InStep root w secret depth) (none_ : (w.state p).dhr = none) :
    (w.state p).ckr = none := by
  have here := inStep.counted p
  rw [here.dhr] at none_
  rw [here.ckr]
  cases reached : depth p with
  | zero => rfl
  | succ d =>
    rw [reached] at none_
    cases none_

/-- The next epoch has no slot in the bank yet, also after the current chain is banked. -/
theorem next_epoch_free (inStep : InStep root w secret depth) (ahead : depth p + 1 ≤ depth p.peer) {dh : Bytes32}
    (named : dh = S.publicKey (secret (depth p + 1))) (new : (w.state p).dhr ≠ some dh) (upto n : UInt32) :
    (dh, n) ∉ drainedSlots (w.state p) upto := by
  have bound := upto.toNat_lt
  have below := (w.state p).nr.toNat_lt
  have unbanked : (dh, n) ∉ (w.state p).skipped.keys := by
    intro member
    obtain ⟨d, old, named'⟩ := banked_epoch inStep member
    have same := inStep.distinct_all p p.peer old.le ahead (named'.symm.trans named)
    omega
  rw [drainedSlots]
  split
  · next dhr ck remote chain =>
    rw [Finset.mem_union, mem_chainSlots (by omega)]
    rintro (member | ⟨same, _⟩)
    · exact unbanked member
    · exact new (remote.trans (congrArg some same.symm))
  · exact unbanked

variable (ideal : Ideal S) (session : SessionRoot S root)
include ideal session

/-- Of the current receiving chain only numbers behind the counter are banked. -/
theorem counter_free (inStep : InStep root w secret depth) (ledger : Ledger S root w) {dhr : Bytes32}
    (remote : (w.state p).dhr = some dhr) (open_ : (w.state p).ckr ≠ none) (n : UInt32)
    (ahead : (w.state p).nr.toNat ≤ n.toNat) : (dhr, n) ∉ (w.state p).skipped.keys := by
  intro member
  obtain ⟨mk, found⟩ := Option.isSome_iff_exists.mp (Finmap.lookup_isSome.mpr (Finmap.mem_keys.mp member))
  have here := inStep.counted p
  obtain ⟨d, below, named, rfl⟩ := here.bank _ _ _ found
  obtain ⟨depth', sendPos, recvPos, accounted⟩ := ledger.party p
  have chain := here.ckr
  rw [here.dhr] at remote
  cases reached : depth p with
  | zero =>
    rw [reached] at remote
    cases remote
  | succ d' =>
    rw [reached] at remote chain
    cases d' with
    | zero => exact absurd chain open_
    | succ e =>
      obtain rfl : d = e + 1 :=
        inStep.distinct p d below.le (e + 1) (by omega) (named.symm.trans (Option.some.inj remote).symm)
      -- the place of the chain key is the counter, and the bank lies behind the place
      obtain ⟨under, rfl, walked⟩ := accounted.placed.ckr _ chain
      obtain ⟨rfl, rfl⟩ := ChainAt.unique ideal session walked (epochChain_at e _)
      obtain ⟨d', k, banked, turns, total, inside⟩ := accounted.placed.bank _ _ found
      obtain ⟨rfl, rfl⟩ := MessageAt.unique ideal session banked (epochKey_at e n.toNat)
      have behind := inside (by omega)
      omega

/-- Banking the rest of the current chain takes one slot for each missing message. -/
theorem drained_card (inStep : InStep root w secret depth) (ledger : Ledger S root w) (upto : UInt32) :
    (drainedSlots (w.state p) upto).card = (w.state p).skipped.keys.card +
      if (w.state p).ckr.isSome then upto.toNat - (w.state p).nr.toNat else 0 := by
  cases chain : (w.state p).ckr with
  | none =>
    have idle : drainedSlots (w.state p) upto = (w.state p).skipped.keys := by
      rw [drainedSlots, chain]
      cases (w.state p).dhr <;> rfl
    rw [idle]
    rfl
  | some ck =>
    cases remote : (w.state p).dhr with
    | none =>
      rw [receiving_needs_remote inStep remote] at chain
      cases chain
    | some dhr =>
      have bound := upto.toNat_lt
      have below := (w.state p).nr.toNat_lt
      have free := counter_free ideal session inStep ledger remote (by simp [chain])
      rw [drainedSlots, remote, chain]
      dsimp only
      rw [card_walked (by omega) free]
      rfl

theorem drained_fits (inStep : InStep root w secret depth) (ledger : Ledger S root w) {upto : UInt32}
    (bound : (w.state p).skipped.keys.card ≤ maxStoredSkipped)
    (drains : ∀ dhr, (w.state p).dhr = some dhr → (w.state p).ckr ≠ none →
      SkipFits (w.state p).skipped.keys dhr (w.state p).nr upto) :
    (drainedSlots (w.state p) upto).card ≤ maxStoredSkipped := by
  rw [drained_card ideal session inStep ledger]
  cases chain : (w.state p).ckr with
  | none => exact bound
  | some ck =>
    have present : (w.state p).ckr ≠ none := by simp [chain]
    cases remote : (w.state p).dhr with
    | none => exact absurd (receiving_needs_remote inStep remote) present
    | some dhr =>
      have free := counter_free ideal session inStep ledger remote present
      exact ((skipFits_iff bound free).mp (drains dhr remote present)).2

/-- A state that yields the key of an unopened message has room for the gap before it. -/
theorem room_of_yields (inStep : InStep root w secret depth) (ledger : Ledger S root w)
    (storable : Storable (w.state p)) {m : Sent S} {header : Header} {d : Nat} {key : S.Key}
    (at_ : SentAt root w secret m header d) (sender : m.sender = p.peer) (low : d ≤ depth p.peer)
    (unopened : m.key ∉ openedKeys w) (yields : Yields (w.state p) header key) :
    (w.state p).skipped.keys.card + gap (w.state p) header ≤ maxStoredSkipped := by
  have bound := storable.bank
  rcases yields with found | ⟨absent, ⟨current, fits, ck, chain, _⟩ | ⟨new, drains, fits, _⟩⟩
  · rw [gap_banked (by simp [found])]
    exact bound
  · have free := counter_free ideal session inStep ledger current (by simp [chain])
    rw [gap_current absent current]
    exact ((skipFits_iff bound free).mp fits).2
  · have next : d = depth p + 1 := by
      refine (unopened_place inStep at_ sender low unopened absent).resolve_left (fun here => new ?_)
      rw [(inStep.counted p).dhr, ← here.1, at_.named]
      rfl
    subst next
    have card := drained_card (p := p) ideal session inStep ledger header.pn
    have drained := drained_fits ideal session inStep ledger bound drains
    have room := ((skipFits_iff drained fun n _ => next_epoch_free inStep low at_.named new header.pn n).mp fits).2
    rw [gap_next absent new, ← Nat.add_assoc, ← card]
    exact room

/-- In an honest run, the first arrival of a genuine message whose gap is within the
tolerance opens exactly when the bank has room for the gap. What fills the bank are the
messages lost before, in any chain. -/
theorem arrival_opens_iff {env : Surroundings S} (faithful : Faithful root env)
    {signedPrekey generated : Bytes32} (different : S.publicKey signedPrekey ≠ S.publicKey generated)
    (run : Run env (World.start root signedPrekey generated) w) (short : ∀ dh, chainLength w dh < 2 ^ 32)
    {m : Sent S} {header : Header} {ciphertext : Bytes} (member : m ∈ w.sent)
    (parsed : parseMessage m.message = .ok (header, ciphertext))
    (first : ∀ o ∈ w.opened, o.receiver = m.sender.peer → parseMessage o.message ≠ parseMessage m.message)
    (tolerated : Tolerated (w.state m.sender.peer) header) (drawn : Bytes32) :
    ((w.state m.sender.peer).decrypt drawn m.message).2 = .ok m.plaintext ↔
      (w.state m.sender.peer).skipped.keys.card + gap (w.state m.sender.peer) header ≤ maxStoredSkipped := by
  constructor
  · intro opens
    obtain ⟨secret, depth, inStep⟩ := inStep_run ideal session faithful different run short
    obtain ⟨header', ciphertext', d, parsed', low, at_⟩ := inStep.sentAt m member
    rw [parsed] at parsed'
    cases parsed'
    have ledger := ledger_run ideal session (ledger_start signedPrekey generated) run
    have unopened := unopened_of_first ideal session faithful run member first
    obtain ⟨key, yields, _⟩ := (decrypt_ok_iff parsed).mp opens
    exact room_of_yields ideal session inStep ledger (storable_run run _) at_ m.sender.peer_peer.symm
      (by rwa [Party.peer_peer]) unopened yields
  · intro room
    have fits := gapFits_of_room tolerated room
    obtain ⟨after, call⟩ :=
      unopened_message_opens ideal session faithful different run short member parsed first fits drawn
    rw [call]

end

section
variable {S : Suite}

/-- An honest network that loses messages: what arrives is the first copy of a message of
the peer, with a gap before it that is within the tolerance. -/
def lossy (S : Suite) : Surroundings S where
  delivers w p message := (∃ m ∈ w.sent, m.sender = p.peer ∧ m.message = message) ∧
    (∀ o ∈ w.opened, o.receiver = p → parseMessage o.message ≠ parseMessage message) ∧
    ∃ header ciphertext, parseMessage message = .ok (header, ciphertext) ∧ Tolerated (w.state p) header
  draws w generated := S.publicKey generated ∉ w.drawn
  keepsErrors := False

theorem lossy_faithful (root : S.Key) : Faithful root (lossy S) where
  unforged w p message delivered := (honest_faithful root).unforged w p message delivered.1
  fresh _ _ new := new
  rollsBack := id

/-- The initiator has sent that many messages, all in its first chain. -/
structure Sending (w : World S) (seed : S.Key) (dh : Bytes32) (sent : Nat) : Prop where
  cks : (w.state .initiator).cks = some (chainIter S seed sent)
  dhsPub : (w.state .initiator).dhsPub = dh
  pn : (w.state .initiator).pn = 0
  ns : (w.state .initiator).ns.toNat = sent
  count : w.sent.length = sent

/-- The responder has come that far in the chain, with so many keys left in its bank. -/
structure Reached (w : World S) (seed : S.Key) (dh : Bytes32) (received stored : Nat) : Prop where
  dhr : (w.state .responder).dhr = some dh
  ckr : (w.state .responder).ckr = some (chainIter S seed received)
  nr : (w.state .responder).nr.toNat = received
  behind : ∀ n : UInt32, received ≤ n.toNat → (dh, n) ∉ (w.state .responder).skipped.keys
  card : (w.state .responder).skipped.keys.card = stored
  opened : ∀ o ∈ w.opened, ∃ header ciphertext, parseMessage o.message = .ok (header, ciphertext) ∧
    header.n.toNat < received

/-- The message with the number `n` of the chain. -/
structure Numbered (w : World S) (seed : S.Key) (dh : Bytes32) (n : Nat) (m : Sent S) (header : Header)
    (ciphertext : Bytes) : Prop where
  member : m ∈ w.sent
  sender : m.sender = .initiator
  key : m.key = (kdfCk S (chainIter S seed n)).2
  parsed : parseMessage m.message = .ok (header, ciphertext)
  dh : header.dh = dh
  pn : header.pn = 0
  n : header.n.toNat = n
  sealed : sealMessage S m.key (toAad header) m.plaintext = .ok ciphertext

theorem Reached.carry {w w' : World S} {seed : S.Key} {dh : Bytes32} {received stored : Nat}
    (reached : Reached w seed dh received stored) (state : w'.state .responder = w.state .responder)
    (opened : w'.opened = w.opened) : Reached w' seed dh received stored :=
  ⟨state ▸ reached.dhr, state ▸ reached.ckr, state ▸ reached.nr, state ▸ reached.behind, state ▸ reached.card,
    opened ▸ reached.opened⟩

/-- One more message is sent and does not arrive yet. -/
theorem Sending.send (lawful : Lawful S) (env : Surroundings S) {w : World S} {seed : S.Key} {dh : Bytes32}
    {sent : Nat} (sending : Sending w seed dh sent) (below : sent + 1 < 2 ^ 32) {plaintext : Bytes}
    (seals : ∀ header, ∃ ciphertext,
      sealMessage S (kdfCk S (chainIter S seed sent)).2 (toAad header) plaintext = .ok ciphertext) :
    ∃ w' m header ciphertext, Step env w w' ∧ Sending w' seed dh (sent + 1) ∧
      Numbered w' seed dh sent m header ciphertext ∧ w'.state .responder = w.state .responder ∧
      w'.opened = w.opened ∧ w'.drawn = w.drawn := by
  let header := (w.state .initiator).nextHeader
  obtain ⟨ciphertext, sealed⟩ := seals header
  let m : Sent S := ⟨.initiator, plaintext, (messageFrame header ciphertext).encode, (kdfCk S (chainIter S seed sent)).2⟩
  let after : RatchetState S := { w.state .initiator with
    cks := some (kdfCk S (chainIter S seed sent)).1, ns := (w.state .initiator).ns + 1 }
  let next : World S := { w with state := Function.update w.state .initiator after, sent := w.sent ++ [m] }
  have call : (w.state .initiator).encrypt plaintext = (after, .ok m.message) := by
    simp only [RatchetState.encrypt, sending.cks, sealed, header, after, m]
  have used : (w.state .initiator).sendKey = some m.key := by
    rw [RatchetState.sendKey, sending.cks]
    rfl
  have mine : next.state .initiator = after := Function.update_self Party.initiator after w.state
  have counted : after.ns.toNat = sent + 1 := by
    have counter := sending.ns
    exact (toNat_succ _ (by omega)).trans (congrArg Nat.succ counter)
  have parsed := parseMessage_encode header (sealMessage_fits lawful sealed)
  refine ⟨next, m, header, ciphertext, .encrypt .initiator call used, ?_, ?_, ?_, rfl, rfl⟩
  · exact ⟨mine ▸ rfl, mine ▸ sending.dhsPub, mine ▸ sending.pn, mine ▸ counted, by simp [next, sending.count]⟩
  · exact ⟨List.mem_append_right _ (List.mem_singleton_self _), rfl, rfl, parsed, sending.dhsPub, sending.pn,
      sending.ns, sealed⟩
  · exact Function.update_of_ne (Party.peer_ne .initiator) after w.state

theorem Sending.sends (lawful : Lawful S) (env : Surroundings S) {w : World S} {seed : S.Key} {dh : Bytes32}
    {sent : Nat} (sending : Sending w seed dh sent) {plaintext : Bytes} (count : Nat)
    (below : sent + count + 1 < 2 ^ 32)
    (seals : ∀ k ≤ sent + count, ∀ header, ∃ ciphertext,
      sealMessage S (kdfCk S (chainIter S seed k)).2 (toAad header) plaintext = .ok ciphertext) :
    ∃ w' m header ciphertext, Run env w w' ∧ Sending w' seed dh (sent + count + 1) ∧
      Numbered w' seed dh (sent + count) m header ciphertext ∧ w'.state .responder = w.state .responder ∧
      w'.opened = w.opened := by
  induction count with
  | zero =>
    obtain ⟨w', m, header, ciphertext, step, further, numbered, state, opened, _⟩ :=
      sending.send lawful env (by omega) (seals sent (by omega))
    exact ⟨w', m, header, ciphertext, .single step, further, numbered, state, opened⟩
  | succ count ih =>
    obtain ⟨w₁, _, _, _, run, sending₁, _, state₁, opened₁⟩ := ih (by omega) (fun k low => seals k (by omega))
    obtain ⟨w', m, header, ciphertext, step, further, numbered, state, opened, _⟩ :=
      sending₁.send lawful env (by omega) (seals (sent + count + 1) (by omega))
    exact ⟨w', m, header, ciphertext, run.tail step, further, numbered, state.trans state₁, opened.trans opened₁⟩

/-- What a delivery to the responder leaves, once its key is found. -/
theorem Numbered.arrives (lawful : Lawful S) {w : World S} {seed : S.Key} {dh : Bytes32} {n : Nat} {m : Sent S}
    {header : Header} {ciphertext : Bytes} (numbered : Numbered w seed dh n m header ciphertext)
    (first : ∀ o ∈ w.opened, parseMessage o.message ≠ parseMessage m.message)
    (tolerated : Tolerated (w.state .responder) header) {drawn : Bytes32} {after : RatchetState S}
    (fresh : (w.state .responder).dhr ≠ after.dhr → S.publicKey drawn ∉ w.drawn)
    (received : (w.state .responder).receiveKey header drawn = (after, .ok m.key)) :
    Step (lossy S) w (afterDecrypt w .responder m.message m.plaintext m.key drawn after) := by
  have call := RatchetState.decrypt_received numbered.parsed received
  rw [openMessage_sealMessage lawful numbered.sealed] at call
  have used : (w.state .responder).openKey drawn m.message = some m.key := by
    simp only [RatchetState.openKey, numbered.parsed, received, Except.toOption]
  refine .decrypt .responder ⟨⟨m, numbered.member, numbered.sender, rfl⟩, ?_, header, ciphertext, numbered.parsed,
    tolerated⟩ fresh call used
  exact fun o member _ => first o member

theorem Sending.keep {w : World S} {seed : S.Key} {dh : Bytes32} {sent : Nat} (sending : Sending w seed dh sent)
    {message plaintext : Bytes} {key : S.Key} {drawn : Bytes32} {after : RatchetState S} :
    Sending (afterDecrypt w .responder message plaintext key drawn after) seed dh sent := by
  have state : (afterDecrypt w .responder message plaintext key drawn after).state .initiator = w.state .initiator :=
    afterDecrypt_other (Party.peer_ne .responder)
  exact ⟨state ▸ sending.cks, state ▸ sending.dhsPub, state ▸ sending.pn, state ▸ sending.ns, sending.count⟩

/-- A message past those received has not been opened. -/
theorem Reached.unopened {w : World S} {seed : S.Key} {dh : Bytes32} {n received stored : Nat} {m : Sent S}
    {header : Header} {ciphertext : Bytes} (reached : Reached w seed dh received stored)
    (numbered : Numbered w seed dh n m header ciphertext) (ahead : received ≤ n) :
    ∀ o ∈ w.opened, parseMessage o.message ≠ parseMessage m.message := by
  intro o member
  have number := numbered.n
  obtain ⟨header', ciphertext', parsed, old⟩ := reached.opened o member
  rw [parsed, numbered.parsed]
  intro same
  cases same
  omega

/-- A message arrives and the ones before it are given up for now: their keys are banked. -/
theorem Reached.deliver (lawful : Lawful S) {w : World S} {seed : S.Key} {dh : Bytes32} {n received stored : Nat}
    {m : Sent S} {header : Header} {ciphertext : Bytes} (reached : Reached w seed dh received stored)
    (numbered : Numbered w seed dh n m header ciphertext) (ahead : received ≤ n) (below : n + 1 < 2 ^ 32)
    (near : n - received ≤ maxSkip.toNat) (room : stored + (n - received) ≤ maxStoredSkipped) (drawn : Bytes32) :
    ∃ after, Step (lossy S) w (afterDecrypt w .responder m.message m.plaintext m.key drawn after) ∧
      Reached (afterDecrypt w .responder m.message m.plaintext m.key drawn after) seed dh (n + 1)
        (stored + (n - received)) := by
  have first := reached.unopened numbered ahead
  obtain rfl := numbered.dh
  obtain rfl := numbered.n
  have counter := reached.nr
  have free (n : UInt32) (high : (w.state .responder).nr.toNat ≤ n.toNat) :
      (header.dh, n) ∉ (w.state .responder).skipped.keys := reached.behind n (by omega)
  have absent : (w.state .responder).skipped.lookup (header.dh, header.n) = none := by
    rw [Finmap.lookup_eq_none, ← Finmap.mem_keys]
    exact reached.behind _ ahead
  have fits : SkipFits (w.state .responder).skipped.keys header.dh (w.state .responder).nr header.n := by
    have card := reached.card
    exact skipFits_of_room (by omega) (by omega)
  obtain ⟨after, taken, remote, chain, number, keys⟩ :=
    chainKey_walks reached.dhr reached.ckr fits (by omega) below
  rw [counter, chainIter_add, Nat.add_sub_cancel' ahead, ← numbered.key] at taken
  rw [counter, chainIter_add, ← Nat.add_assoc, Nat.add_sub_cancel' ahead] at chain
  have key : (w.state .responder).receiveKey header drawn = (after, .ok m.key) := by
    have stays : (w.state .responder).turnIfNew header drawn = (w.state .responder, .ok ()) := if_pos reached.dhr
    simp only [RatchetState.receiveKey, absent, stays, taken]
  refine ⟨after, numbered.arrives lawful first (.inr (.inl ⟨reached.dhr, by omega⟩)) ?_ key, ?_⟩
  · exact fun turned => absurd (reached.dhr.trans remote.symm) turned
  · have top := header.n.toNat_lt
    have size : (w.state .responder).nr.toNat + (header.n.toNat - (w.state .responder).nr.toNat) < 2 ^ 32 := by omega
    have grown := card_walked size free
    refine ⟨by simpa using remote, by simpa using chain, by simpa using number, ?_, ?_, ?_⟩
    · intro n high
      rw [afterDecrypt_self, keys, Finset.mem_union, mem_chainSlots size]
      rintro (old | ⟨_, _, small⟩)
      · exact reached.behind n (by omega) old
      · dsimp only at small
        omega
    · rw [afterDecrypt_self, keys, grown, reached.card, counter]
    · intro o member
      rcases logged_cases member with old | rfl
      · obtain ⟨header', ciphertext', parsed, small⟩ := reached.opened o old
        exact ⟨header', ciphertext', parsed, by omega⟩
      · exact ⟨header, ciphertext, numbered.parsed, by omega⟩

theorem Numbered.first_tolerated {root : S.Key} {signedPrekey : Bytes32} {w : World S} {seed : S.Key} {dh : Bytes32}
    {m : Sent S} {header : Header} {ciphertext : Bytes} (numbered : Numbered w seed dh 0 m header ciphertext)
    (state : w.state .responder = .responder root signedPrekey) : Tolerated (w.state .responder) header := by
  have zero := numbered.n
  refine .inr (.inr ⟨by simp [state, RatchetState.responder], ?_, by omega⟩)
  rw [numbered.pn]
  simp

/-- The first message of all turns the ratchet of the responder and costs nothing. -/
theorem Numbered.deliver_first (lawful : Lawful S) {root : S.Key} {signedPrekey drawn : Bytes32} {w : World S}
    {seed : S.Key} {dh : Bytes32} {m : Sent S} {header : Header} {ciphertext : Bytes}
    (numbered : Numbered w seed dh 0 m header ciphertext) (state : w.state .responder = .responder root signedPrekey)
    (opened : w.opened = []) (derived : seed = (kdfRk S root (S.diffieHellman signedPrekey dh)).2)
    (fresh : S.publicKey drawn ∉ w.drawn) :
    ∃ after, Step (lossy S) w (afterDecrypt w .responder m.message m.plaintext m.key drawn after) ∧
      Reached (afterDecrypt w .responder m.message m.plaintext m.key drawn after) seed dh 1 0 := by
  obtain rfl := numbered.dh
  have zero := numbered.n
  have first : ∀ o ∈ w.opened, parseMessage o.message ≠ parseMessage m.message := by simp [opened]
  obtain ⟨after, looked, remote, further, number, keys, _⟩ :=
    responder_reaches root signedPrekey header.dh drawn header.pn (n := header.n) (by omega)
  rw [zero, ← derived, ← numbered.key] at looked
  rw [zero, ← derived] at further
  rw [zero] at keys
  have key : (w.state .responder).receiveKey header drawn = (after, .ok m.key) := by
    rw [state]
    exact looked
  refine ⟨after, numbered.arrives lawful first (numbered.first_tolerated state) (fun _ => fresh) key, ?_⟩
  have empty : after.skipped.keys = ∅ := keys
  refine ⟨by simpa using remote, by simpa using further, by simpa [zero] using number, ?_, ?_, ?_⟩
  · simp [empty]
  · simp [empty]
  · intro o member
    rw [afterDecrypt, opened, List.nil_append, List.mem_singleton] at member
    subst member
    exact ⟨header, ciphertext, numbered.parsed, by omega⟩

/-- With the bank full, a message behind a gap of the current chain cannot be opened. -/
theorem Reached.refuses {w : World S} {seed : S.Key} {dh : Bytes32} {n received : Nat} {m : Sent S}
    {header : Header} {ciphertext : Bytes} (reached : Reached w seed dh received maxStoredSkipped)
    (numbered : Numbered w seed dh n m header ciphertext) (ahead : received < n) (drawn : Bytes32) (plaintext : Bytes) :
    ((w.state .responder).decrypt drawn m.message).2 ≠ .ok plaintext := by
  obtain rfl := numbered.dh
  have number := numbered.n
  have counter := reached.nr
  intro opens
  obtain ⟨key, yields, _⟩ := (decrypt_ok_iff numbered.parsed).mp opens
  rcases yields with found | ⟨_, ⟨_, fits, _⟩ | ⟨new, _⟩⟩
  · exact reached.behind header.n (by omega) (Finmap.mem_keys.mpr (Finmap.mem_of_lookup_eq_some found))
  · have first := fits.room 0 (by omega)
    rw [chainSlots, Finset.union_empty, reached.card] at first
    omega
  · exact new reached.dhr

/-- The seed of the initiator's first chain. -/
def firstSeed (S : Suite) (root : S.Key) (signedPrekey generated : Bytes32) : S.Key :=
  (kdfRk S root (S.diffieHellman generated (S.publicKey signedPrekey))).2

/-- Of 2005 messages the initiator sends, those with the numbers 0, 1001 and 2002 arrive and
all others before 2004 are lost. Every gap is within the tolerance, but 2004 does not open. -/
theorem losses_add_up (lawful : Lawful S) {root : S.Key} {signedPrekey generated drawn : Bytes32}
    (fresh : S.publicKey drawn ∉ [S.publicKey signedPrekey, S.publicKey generated]) {plaintext : Bytes}
    (seals : ∀ k ≤ 2004, ∀ header, ∃ ciphertext,
      sealMessage S (kdfCk S (chainIter S (firstSeed S root signedPrekey generated) k)).2 (toAad header) plaintext =
        .ok ciphertext) :
    ∃ w m header ciphertext, Run (lossy S) (World.start root signedPrekey generated) w ∧ w.sent.length = 2005 ∧
      m ∈ w.sent ∧ m.sender = .initiator ∧ parseMessage m.message = .ok (header, ciphertext) ∧
      (∀ o ∈ w.opened, parseMessage o.message ≠ parseMessage m.message) ∧
      Tolerated (w.state .responder) header ∧
      ∀ drawn plaintext, ((w.state .responder).decrypt drawn m.message).2 ≠ .ok plaintext := by
  have start : Sending (World.start root signedPrekey generated) (firstSeed S root signedPrekey generated)
      (S.publicKey generated) 0 := ⟨rfl, rfl, rfl, rfl, rfl⟩
  have derived : firstSeed S root signedPrekey generated =
      (kdfRk S root (S.diffieHellman signedPrekey (S.publicKey generated))).2 := by
    rw [firstSeed, lawful.dh_comm]
  obtain ⟨w₁, m₁, _, _, sent₁, sending, numbered, state, opened, drawn₁⟩ :=
    start.send lawful (lossy S) (by decide) (seals 0 (by decide))
  obtain ⟨_, got₁, reached₁⟩ := numbered.deliver_first lawful state opened derived (by rw [drawn₁]; exact fresh)
  obtain ⟨w₂, m₂, _, _, sent₂, sending₂, numbered₂, state₂, opened₂⟩ :=
    sending.keep.sends lawful (lossy S) 1000 (by decide) (fun k low => seals k (by omega))
  obtain ⟨_, got₂, reached₂⟩ := (reached₁.carry state₂ opened₂).deliver lawful numbered₂ (by decide) (by decide)
    (by decide) (by decide) drawn
  obtain ⟨w₃, m₃, _, _, sent₃, sending₃, numbered₃, state₃, opened₃⟩ :=
    sending₂.keep.sends lawful (lossy S) 1000 (by decide) (fun k low => seals k (by omega))
  obtain ⟨_, got₃, reached₃⟩ := (reached₂.carry state₃ opened₃).deliver lawful numbered₃ (by decide) (by decide)
    (by decide) (by decide) drawn
  obtain ⟨w, m, header, ciphertext, sent₄, sending₄, numbered₄, state₄, opened₄⟩ :=
    sending₃.keep.sends lawful (lossy S) 1 (by decide) (fun k low => seals k (by omega))
  have full : Reached w (firstSeed S root signedPrekey generated) (S.publicKey generated) 2003 maxStoredSkipped :=
    reached₃.carry state₄ opened₄
  have number : header.n.toNat = 2004 := numbered₄.n
  have run : Run (lossy S) (World.start root signedPrekey generated) w :=
    ((((((Relation.ReflTransGen.single sent₁).tail got₁).trans sent₂).tail got₂).trans sent₃).tail got₃).trans sent₄
  refine ⟨w, m, header, ciphertext, run, sending₄.count, numbered₄.member, numbered₄.sender, numbered₄.parsed,
    full.unopened numbered₄ (by decide), ?_, full.refuses numbered₄ (by decide)⟩
  refine .inr (.inl ⟨full.dhr.trans (congrArg some numbered₄.dh.symm), ?_⟩)
  rw [number, full.nr]
  decide

end

section

def compactRoot : Symbolic.compact.Key := Symbolic.compact.hkdfExpand [] (ascii "root") 0

theorem compact_chain_length (ck : Bytes) (count : Nat) :
    List.length (α := UInt8) (chainIter Symbolic.compact ck count) = ck.length + 38 * count := by
  have next : ckNextInfo.length = 17 := by decide
  induction count with
  | zero => rfl
  | succ count ih =>
    simp only [chainIter, kdfCk, Symbolic.compact, Symbolic.suite, List.length_cons, List.length_append,
      Symbolic.delimit_length, List.length_replicate, next] at ih ⊢
    omega

theorem compact_seed_length (signedPrekey generated : Bytes32) :
    List.length (α := UInt8) (firstSeed Symbolic.compact compactRoot signedPrekey generated) < 1000 := by
  have label : rkInfo.length = 17 := by decide
  have name : (ascii "root").length = 4 := by decide
  simp only [firstSeed, kdfRk, compactRoot, Symbolic.compact, Symbolic.suite, List.length_cons, List.length_append,
    Symbolic.delimit_length, List.length_replicate, List.length_nil, Symbolic.shared_length, label, name]
  omega

theorem compact_key_seals {ck : Bytes} (short : ck.length < 2 ^ 40) (header : Header) :
    ∃ ciphertext, sealMessage Symbolic.compact (kdfCk Symbolic.compact ck).2 (toAad header) [7] = .ok ciphertext := by
  have label : msgKeysInfo.length = 23 := by decide
  have name : mkInfo.length = 17 := by decide
  have aad := toAad_length_le header
  have fits : (Symbolic.sealed (messageKeys Symbolic.compact (kdfCk Symbolic.compact ck).2).1
      (messageKeys Symbolic.compact (kdfCk Symbolic.compact ck).2).2 (toAad header) [7]).length < 2 ^ 64 := by
    simp only [Symbolic.sealed, messageKeys, kdfCk, Symbolic.compact, Symbolic.suite, List.length_append,
      Symbolic.delimit_length, List.length_cons, List.length_nil, List.length_replicate, List.length_take, nonceLen,
      label, name]
    omega
  obtain ⟨ciphertext, found⟩ := Symbolic.suite_seals fits
  exact ⟨ciphertext, aeadSeal_eq_ok.mpr found⟩

theorem compact_seals (signedPrekey generated : Bytes32) {k : Nat} (low : k ≤ 2004) (header : Header) :
    ∃ ciphertext, sealMessage Symbolic.compact
      (kdfCk Symbolic.compact (chainIter Symbolic.compact
        (firstSeed Symbolic.compact compactRoot signedPrekey generated) k)).2 (toAad header) [7] = .ok ciphertext := by
  have seed := compact_seed_length signedPrekey generated
  have chain := compact_chain_length (firstSeed Symbolic.compact compactRoot signedPrekey generated) k
  exact compact_key_seals (by omega) header

/-- A session over the compact suite that dies of its losses. -/
theorem losses_wedge_session : ∃ (w : World Symbolic.compact) (m : Sent Symbolic.compact) (header : Header)
    (ciphertext : Bytes),
    Run (lossy Symbolic.compact) (World.start compactRoot samplePrekey sampleGenerated) w ∧ w.sent.length = 2005 ∧
      m ∈ w.sent ∧ m.sender = .initiator ∧ parseMessage m.message = .ok (header, ciphertext) ∧
      (∀ o ∈ w.opened, parseMessage o.message ≠ parseMessage m.message) ∧
      Tolerated (w.state .responder) header ∧
      ∀ drawn plaintext, ((w.state .responder).decrypt drawn m.message).2 ≠ .ok plaintext := by
  have fresh : Symbolic.compact.publicKey (List.Vector.replicate 32 3) ∉
      [Symbolic.compact.publicKey samplePrekey, Symbolic.compact.publicKey sampleGenerated] := by decide
  exact losses_add_up Symbolic.compact_lawful fresh (fun k low => compact_seals samplePrekey sampleGenerated low)

theorem compactRoot_session : SessionRoot Symbolic.compact compactRoot :=
  ⟨_, _, _, rfl, by decide, by decide, by decide, by decide⟩

/-- The first message arrives, the next four are lost, and the one behind them is asked about. -/
theorem arrival_opens_iff_gap : ∃ (w : World Symbolic.compact) (m : Sent Symbolic.compact),
    Run (lossy Symbolic.compact) (World.start compactRoot samplePrekey sampleGenerated) w ∧ w.sent.length = 6 ∧
      w.opened.length = 1 ∧ m ∈ w.sent ∧
      ((w.state m.sender.peer).decrypt sampleGenerated m.message).2 = .ok m.plaintext := by
  have start : Sending (World.start compactRoot samplePrekey sampleGenerated)
      (firstSeed Symbolic.compact compactRoot samplePrekey sampleGenerated)
      (Symbolic.compact.publicKey sampleGenerated) 0 := ⟨rfl, rfl, rfl, rfl, rfl⟩
  obtain ⟨w₁, m₁, _, _, sent₁, sending, numbered, state, opened, drawn₁⟩ :=
    start.send Symbolic.compact_lawful (lossy Symbolic.compact) (by decide)
      (compact_seals samplePrekey sampleGenerated (by decide))
  have derived : firstSeed Symbolic.compact compactRoot samplePrekey sampleGenerated =
      (kdfRk Symbolic.compact compactRoot
        (Symbolic.compact.diffieHellman samplePrekey (Symbolic.compact.publicKey sampleGenerated))).2 := by
    rw [firstSeed, Symbolic.compact_lawful.dh_comm]
  have fresh : Symbolic.compact.publicKey (List.Vector.replicate 32 3) ∉ w₁.drawn := by
    rw [drawn₁]
    decide
  obtain ⟨_, got, reached₁⟩ :=
    numbered.deliver_first Symbolic.compact_lawful state opened derived fresh
  obtain ⟨w, m, header, ciphertext, sent, sending₂, numbered₂, state₂, opened₂⟩ :=
    sending.keep.sends Symbolic.compact_lawful (lossy Symbolic.compact) 4 (by decide)
      (fun k low => compact_seals samplePrekey sampleGenerated (by omega))
  have reached := reached₁.carry state₂ opened₂
  have run := ((Relation.ReflTransGen.single sent₁).tail got).trans sent
  have short (dh : Bytes32) : chainLength w dh < 2 ^ 32 := by
    have count := List.countP_le_length (p := fun m => decide (ratchetKeyOf m = some dh)) (l := w.sent)
    rw [sending₂.count] at count
    exact lt_of_le_of_lt count (by decide)
  have receiver : m.sender.peer = .responder := by rw [numbered₂.sender]; rfl
  have number : header.n.toNat = 5 := numbered₂.n
  have counter : (w.state .responder).nr.toNat = 1 := reached.nr
  have current : (w.state .responder).dhr = some header.dh := reached.dhr.trans (congrArg some numbered₂.dh.symm)
  have tolerated : Tolerated (w.state .responder) header := by
    refine .inr (.inl ⟨current, ?_⟩)
    rw [number, counter]
    decide
  have opens := arrival_opens_iff Symbolic.compact_ideal compactRoot_session (lossy_faithful compactRoot) (by decide) run
    short numbered₂.member numbered₂.parsed (fun o member _ => reached.unopened numbered₂ (by decide) o member)
    (receiver ▸ tolerated) sampleGenerated
  have absent : (w.state .responder).skipped.lookup (header.dh, header.n) = none := by
    rw [Finmap.lookup_eq_none, ← Finmap.mem_keys, numbered₂.dh]
    exact reached.behind _ (by omega)
  refine ⟨w, m, run, sending₂.count, ?_, numbered₂.member, opens.mpr ?_⟩
  · rw [opened₂, afterDecrypt, opened]
    rfl
  · rw [receiver, gap_current absent current, number, counter, reached.card]
    decide

end

end Buh.Ratchet.Losses
