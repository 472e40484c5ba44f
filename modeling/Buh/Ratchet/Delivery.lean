import Buh.Ratchet.Receiving
import Buh.Ratchet.Lockstep

/-! What a session in step can open: the first delivery of every message of the peer
whose gap fits the limits of the code. -/

namespace Buh.Ratchet.Delivery
open Buh.Wire.Codec Buh.Crypto.Primitives Buh.Ratchet.Message Buh.Ratchet.Chain Buh.Ratchet.State
  Buh.Ratchet.Placement Buh.Ratchet.Session Buh.Ratchet.Authenticity Buh.Ratchet.Receiving Buh.Ratchet.Epochs
  Buh.Ratchet.Alignment Buh.Ratchet.Lockstep

/-- The gap before a message fits the limits: its key is banked; or it is of the current
chain and the skip fits; or its ratchet key is new and both skips fit. -/
def GapFits {S : Suite} (s : RatchetState S) (header : Header) : Prop :=
  s.skipped.lookup (header.dh, header.n) ≠ none ∨
    (s.dhr = some header.dh ∧ header.n.toNat - s.nr.toNat ≤ maxSkip.toNat ∧
      s.skipped.keys.card + (header.n.toNat - s.nr.toNat) ≤ maxStoredSkipped) ∨
    (s.dhr ≠ some header.dh ∧ header.n.toNat ≤ maxSkip.toNat ∧
      (s.ckr ≠ none → header.pn.toNat - s.nr.toNat ≤ maxSkip.toNat) ∧
      s.skipped.keys.card + (if s.ckr.isSome then header.pn.toNat - s.nr.toNat else 0) + header.n.toNat ≤
        maxStoredSkipped)

section
variable {S : Suite} {root : S.Key} {w : World S} {secret : Nat → Bytes32} {depth : Party → Nat} {p : Party}
  {m : Sent S} {header : Header} {d : Nat}

/-- An unopened message lies in the current chain at or past the counter, or in the next
epoch, unless it is banked. -/
theorem unopened_place (inStep : InStep root w secret depth) (at_ : SentAt root w secret m header d)
    (sender : m.sender = p.peer) (low : d ≤ depth p.peer) (unopened : m.key ∉ openedKeys w)
    (absent : (w.state p).skipped.lookup (header.dh, header.n) = none) :
    (d + 1 = depth p ∧ (w.state p).nr.toNat ≤ header.n.toNat) ∨ d = depth p + 1 := by
  have here := inStep.counted p
  have parity := at_.parity
  have mine := inStep.parity p
  have close := inStep.close p.peer
  rw [Party.peer_peer] at close
  rw [sender] at parity
  by_contra neither
  have past : Past (depth p) (w.state p).nr.toNat d header.n.toNat := by
    have odd : (depth p + d) % 2 = 1 := by
      cases p <;> simp only [Party.parity, Party.peer] at * <;> omega
    exact ⟨(depth p - d - 1) / 2, by omega, by omega⟩
  rcases here.covered d header.n past at_.number with banked | spent
  · rw [← at_.named, absent] at banked
    cases banked
  · exact unopened (at_.key ▸ spent)

/-- A message of the current chain: its key is the chain's, from the counter on. -/
theorem current_yields (inStep : InStep root w secret depth) (at_ : SentAt root w secret m header d)
    (low : d ≤ depth p.peer) (above : d + 1 = depth p → (w.state p).nr.toNat ≤ header.n.toNat)
    (current : (w.state p).dhr = some header.dh) (near : header.n.toNat - (w.state p).nr.toNat ≤ maxSkip.toNat)
    (room : (w.state p).skipped.keys.card + (header.n.toNat - (w.state p).nr.toNat) ≤ maxStoredSkipped) :
    ChainYields (w.state p) header m.key := by
  have same : d + 1 = depth p := inStep.current_epoch low (at_.named ▸ current)
  have chain := (inStep.counted p).ckr
  have key := at_.key
  obtain ⟨e, rfl⟩ := Nat.exists_eq_add_of_lt at_.positive
  rw [← same, receivingAt] at chain
  refine ⟨current, skipFits_of_room near room, _, chain, ?_⟩
  rw [chainIter_add, Nat.add_sub_cancel' (above same), key, epochKey]

/-- A message of the next epoch: its key is that of the chain which the turn starts, and
the rest of the old chain is banked first. -/
theorem next_yields (lawful : Lawful S) (inStep : InStep root w secret depth)
    (at_ : SentAt root w secret m header (depth p + 1)) (new : (w.state p).dhr ≠ some header.dh)
    (near : header.n.toNat ≤ maxSkip.toNat)
    (before : (w.state p).ckr ≠ none → header.pn.toNat - (w.state p).nr.toNat ≤ maxSkip.toNat)
    (room : (w.state p).skipped.keys.card +
        (if (w.state p).ckr.isSome then header.pn.toNat - (w.state p).nr.toNat else 0) + header.n.toNat ≤
      maxStoredSkipped) : TurnYields (w.state p) header m.key := by
  have drained := card_drainedSlots_le (w.state p) header.pn
  refine ⟨new, ?_, skipFits_of_room near (by rw [UInt32.toNat_zero]; omega), ?_⟩
  · intro dhr remote present
    rw [if_pos (Option.isSome_iff_ne_none.mpr present)] at room
    exact skipFits_of_room (before present) (by omega)
  · rw [at_.named, (inStep.counted p).toRooted.receiving lawful, at_.key, epochKey]

/-- The state yields the key of an unopened message whose gap fits. -/
theorem unopened_yields (lawful : Lawful S) (inStep : InStep root w secret depth)
    (at_ : SentAt root w secret m header d) (sender : m.sender = p.peer) (low : d ≤ depth p.peer)
    (unopened : m.key ∉ openedKeys w) (fits : GapFits (w.state p) header) : Yields (w.state p) header m.key := by
  have here := inStep.counted p
  cases found : (w.state p).skipped.lookup (header.dh, header.n) with
  | some mk =>
    obtain ⟨e, below, dh, rfl⟩ := here.bank _ _ _ found
    obtain rfl := inStep.distinct_all p p.peer below.le low (dh.symm.trans at_.named)
    rw [at_.key]
    exact .inl found
  | none =>
    refine .inr ⟨found, ?_⟩
    have place := unopened_place inStep at_ sender low unopened found
    rcases fits with banked | ⟨current, near, room⟩ | ⟨other, near, before, room⟩
    · exact absurd found banked
    · have above (same : d + 1 = depth p) := (place.resolve_right (by omega)).2
      exact .inl (current_yields inStep at_ low above current near room)
    · have next : d = depth p + 1 := by
        refine place.resolve_left (fun open_ => other ?_)
        rw [here.dhr, ← open_.1, at_.named]
        rfl
      subst next
      exact .inr (next_yields lawful inStep at_ other near before room)

variable (ideal : Ideal S) (session : SessionRoot S root)
include ideal session

/-- The key of a message that has not been opened is not spent. -/
theorem unopened_of_first {env : Surroundings S} (faithful : Faithful root env) {signedPrekey generated : Bytes32}
    (run : Run env (World.start root signedPrekey generated) w) (member : m ∈ w.sent)
    (first : ∀ o ∈ w.opened, o.receiver = m.sender.peer → parseMessage o.message ≠ parseMessage m.message) :
    m.key ∉ openedKeys w := by
  have ledger := ledger_run ideal session (ledger_start signedPrekey generated) run
  rintro ⟨o, opened, same⟩
  obtain ⟨m', sent, sender, _, keys, parses⟩ := attributed_run ideal session faithful.unforged run o opened
  obtain rfl := List.inj_on_of_nodup_map ledger.sentKeys sent member (keys.trans same)
  exact first o opened (by rw [sender, Party.peer_peer]) parses.symm

/-- In a run that keeps only what returns `Ok`, whatever the network does short of
forging, a message of the peer that has not been opened yet opens when its gap fits. -/
theorem unopened_message_opens {env : Surroundings S} (faithful : Faithful root env)
    {signedPrekey generated : Bytes32} (different : S.publicKey signedPrekey ≠ S.publicKey generated)
    (run : Run env (World.start root signedPrekey generated) w) (short : ∀ dh, chainLength w dh < 2 ^ 32)
    {ciphertext : Bytes} (member : m ∈ w.sent) (parsed : parseMessage m.message = .ok (header, ciphertext))
    (first : ∀ o ∈ w.opened, o.receiver = m.sender.peer → parseMessage o.message ≠ parseMessage m.message)
    (fits : GapFits (w.state m.sender.peer) header) (drawn : Bytes32) :
    ∃ after, (w.state m.sender.peer).decrypt drawn m.message = (after, .ok m.plaintext) := by
  obtain ⟨secret, depth, inStep⟩ := inStep_run ideal session faithful different run short
  have unopened := unopened_of_first ideal session faithful run member first
  obtain ⟨header', ciphertext', d, parsed', low, at_⟩ := inStep.sentAt m member
  rw [parsed] at parsed'
  cases parsed'
  have yields := unopened_yields (p := m.sender.peer) ideal.toLawful inStep at_ m.sender.peer_peer.symm
    (by rwa [Party.peer_peer]) unopened fits
  obtain ⟨header₁, ciphertext₁, parsed₁, sealed⟩ := (recorded_run ideal.toLawful run).sent m member
  rw [parsed] at parsed₁
  cases parsed₁
  have opens : ((w.state m.sender.peer).decrypt drawn m.message).2 = .ok m.plaintext :=
    (decrypt_ok_iff parsed).mpr ⟨m.key, yields, openMessage_sealMessage ideal.toLawful sealed⟩
  exact ⟨_, Prod.ext rfl opens⟩

end

end Buh.Ratchet.Delivery
