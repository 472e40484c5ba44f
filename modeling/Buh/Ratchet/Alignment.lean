import Buh.Ratchet.Epochs

/-! The joint invariant of a session in which only `Ok` results are kept and every
ratchet key is fresh: both parties follow one sequence of epochs, one of them exactly
one epoch ahead of the other, and every message sent belongs to the epoch its header
names. Message numbers play no part in it. -/

namespace Buh.Ratchet.Alignment
open Buh.Wire.Codec Buh.Crypto.Primitives Buh.Ratchet.Message Buh.Ratchet.Chain Buh.Ratchet.State
  Buh.Ratchet.Placement Buh.Ratchet.Session Buh.Ratchet.Authenticity Buh.Ratchet.Skipping Buh.Ratchet.Epochs

section
variable {S : Suite}

structure Aligned (root : S.Key) (w : World S) (secret : Nat → Bytes32) (depth : Party → Nat) : Prop where
  party : ∀ p, Rooted S root secret (w.state p) (depth p)
  parity : ∀ p, depth p % 2 = p.parity
  close : ∀ p, depth p ≤ depth p.peer + 1
  distinct : ∀ p, Distinct S secret (depth p)
  drawn : ∀ p, ∀ d ≤ depth p, S.publicKey (secret d) ∈ w.drawn
  sent : ∀ m ∈ w.sent, ∃ header ciphertext d k, parseMessage m.message = .ok (header, ciphertext) ∧
    d ≤ depth m.sender ∧ header.dh = S.publicKey (secret d) ∧ MessageAt S root d k m.key

/-- Nothing is forged, drawn keys are new, and a state that an error left is dropped. -/
structure Faithful (root : S.Key) (env : Surroundings S) : Prop where
  unforged : ∀ w p message, env.delivers w p message → Unforged root w message
  fresh : ∀ w generated, env.draws w generated → S.publicKey generated ∉ w.drawn
  rollsBack : ¬env.keepsErrors

def startSecret (signedPrekey generated : Bytes32) : Nat → Bytes32
  | 0 => signedPrekey
  | _ => generated

def startDepth : Party → Nat
  | .initiator => 1
  | .responder => 0

theorem aligned_start {root : S.Key} {signedPrekey generated : Bytes32}
    (different : S.publicKey signedPrekey ≠ S.publicKey generated) :
    Aligned root (World.start root signedPrekey generated) (startSecret signedPrekey generated) startDepth where
  party p := by cases p <;> exact ⟨rfl, rfl, rfl, rfl⟩
  parity p := by cases p <;> rfl
  close p := by cases p <;> simp [startDepth, Party.peer]
  distinct := by
    have apart : Distinct S (startSecret signedPrekey generated) 1 := by
      intro i low j low' same
      rcases Nat.le_one_iff_eq_zero_or_eq_one.mp low with rfl | rfl
      · rcases Nat.le_one_iff_eq_zero_or_eq_one.mp low' with rfl | rfl
        · rfl
        · exact absurd same different
      · rcases Nat.le_one_iff_eq_zero_or_eq_one.mp low' with rfl | rfl
        · exact absurd same.symm different
        · rfl
    intro p i low j low'
    have top : startDepth p ≤ 1 := by cases p <;> decide
    exact apart i (low.trans top) j (low'.trans top)
  drawn := by
    intro p d low
    have top : startDepth p ≤ 1 := by cases p <;> decide
    rcases Nat.le_one_iff_eq_zero_or_eq_one.mp (low.trans top) with rfl | rfl
    · simp [World.start, startSecret]
    · simp [World.start, startSecret]
  sent m absent := absurd absent List.not_mem_nil

variable {root : S.Key} {w : World S} {secret : Nat → Bytes32} {depth : Party → Nat} {p : Party}
  {generated : Bytes32} {after : RatchetState S}

theorem Aligned.ahead (aligned : Aligned root w secret depth) (p : Party) :
    depth p = depth p.peer + 1 ∨ depth p.peer = depth p + 1 := by
  have parity := aligned.parity p
  have parity' := aligned.parity p.peer
  have close := aligned.close p
  have close' := aligned.close p.peer
  rw [Party.peer_peer] at close'
  cases p <;> simp only [Party.parity, Party.peer] at * <;> omega

/-- The keys of all epochs in use are distinct, whichever party is ahead. -/
theorem Aligned.distinct_all (aligned : Aligned root w secret depth) (p q : Party) {i j : Nat} (low : i ≤ depth p)
    (low' : j ≤ depth q) (same : S.publicKey (secret i) = S.publicKey (secret j)) : i = j := by
  rcases Party.eq_or_peer p q with rfl | rfl
  · exact aligned.distinct _ i low j low' same
  · rcases aligned.ahead p with ahead | ahead
    · exact aligned.distinct p i low j (by omega) same
    · exact aligned.distinct p.peer i (by omega) j low' same

/-- Every ratchet key on the wire has been drawn. -/
theorem Aligned.on_wire (aligned : Aligned root w secret depth) {m : Sent S} (member : m ∈ w.sent) :
    ∃ header ciphertext, parseMessage m.message = .ok (header, ciphertext) ∧ header.dh ∈ w.drawn := by
  obtain ⟨header, ciphertext, d, _, parsed, low, named, _⟩ := aligned.sent m member
  exact ⟨header, ciphertext, parsed, named ▸ aligned.drawn m.sender d low⟩

/-- A header that names the current remote key is of the epoch before the party's own. -/
theorem Aligned.current_epoch (aligned : Aligned root w secret depth) {d : Nat} (low : d ≤ depth p.peer)
    (current : (w.state p).dhr = some (S.publicKey (secret d))) : d + 1 = depth p := by
  rw [(aligned.party p).dhr] at current
  cases reached : depth p with
  | zero =>
    rw [reached] at current
    cases current
  | succ e =>
    rw [reached] at current
    rw [aligned.distinct_all p p.peer (by omega) low (Option.some.inj current)]

/-- What a successful `decrypt` call makes of a world. -/
def afterDecrypt (w : World S) (p : Party) (message plaintext : Bytes) (key : S.Key) (generated : Bytes32)
    (after : RatchetState S) : World S where
  state := Function.update w.state p after
  sent := w.sent
  opened := w.opened ++ [⟨p, message, plaintext, key⟩]
  drawn := w.drawnBy p after generated

variable {message plaintext : Bytes} {key : S.Key}

@[simp] theorem afterDecrypt_self : (afterDecrypt w p message plaintext key generated after).state p = after :=
  Function.update_self ..

theorem afterDecrypt_other {q : Party} (other : q ≠ p) :
    (afterDecrypt w p message plaintext key generated after).state q = w.state q :=
  Function.update_of_ne other ..

/-- The caller has its new state and its new epoch, the peer what it had before. -/
theorem afterDecrypt_forall {holds : RatchetState S → Nat → Prop} {epoch : Nat} (own : holds after epoch)
    (rest : holds (w.state p.peer) (depth p.peer)) (q : Party) :
    holds ((afterDecrypt w p message plaintext key generated after).state q) (Function.update depth p epoch q) := by
  by_cases mine : q = p
  · subst mine
    rw [Function.update_self, afterDecrypt_self]
    exact own
  · obtain rfl := (Party.eq_or_peer p q).resolve_left mine
    rw [Function.update_of_ne mine, afterDecrypt_other mine]
    exact rest

/-- A call that stays in its epoch. -/
theorem Aligned.stay (aligned : Aligned root w secret depth) (moved : Rooted S root secret after (depth p)) :
    Aligned root (afterDecrypt w p message plaintext key generated after) secret depth where
  party := (Function.forall_update_iff w.state (fun q s => Rooted S root secret s (depth q))).mpr
    ⟨moved, fun q _ => aligned.party q⟩
  parity := aligned.parity
  close := aligned.close
  distinct := aligned.distinct
  drawn := by
    have kept : (w.state p).dhr = after.dhr := (aligned.party p).dhr.trans moved.dhr.symm
    rw [afterDecrypt, World.drawnBy, if_pos kept]
    exact aligned.drawn
  sent := aligned.sent

/-- The secrets of the epochs once `p` has drawn the next one. -/
def extend (secret : Nat → Bytes32) (depth : Party → Nat) (p : Party) (generated : Bytes32) : Nat → Bytes32 :=
  Function.update secret (depth p + 2) generated

theorem extend_old {i : Nat} (low : i ≤ depth p + 1) : extend secret depth p generated i = secret i :=
  Function.update_of_ne (by omega) ..

@[simp] theorem extend_new : extend secret depth p generated (depth p + 2) = generated := Function.update_self ..

/-- Nobody is past the epoch that comes after that of a party which is behind. -/
theorem depth_le_next (behind : depth p.peer = depth p + 1) (q : Party) : depth q ≤ depth p + 1 := by
  rcases Party.eq_or_peer p q with rfl | rfl <;> omega

theorem depth_le_update (q : Party) : depth q ≤ Function.update depth p (depth p + 2) q := by
  by_cases mine : q = p
  · rw [mine, Function.update_self]
    omega
  · rw [Function.update_of_ne mine]

theorem Aligned.distinct_extend (aligned : Aligned root w secret depth) (behind : depth p.peer = depth p + 1)
    (fresh : S.publicKey generated ∉ w.drawn) : Distinct S (extend secret depth p generated) (depth p + 2) := by
  have drawn : ∀ d ≤ depth p + 1, S.publicKey (secret d) ∈ w.drawn :=
    fun d low => aligned.drawn p.peer d (by omega)
  intro i low j low' same
  by_cases last : i = depth p + 2 <;> by_cases last' : j = depth p + 2
  · rw [last, last']
  · rw [last, extend_new, extend_old (by omega)] at same
    exact absurd (same ▸ drawn j (by omega)) fresh
  · rw [last', extend_new, extend_old (by omega)] at same
    exact absurd (same ▸ drawn i (by omega)) fresh
  · rw [extend_old (by omega), extend_old (by omega)] at same
    exact aligned.distinct p.peer i (by omega) j (by omega) same

/-- A call that opens the next epoch with the secret it draws. -/
theorem Aligned.open_epoch (aligned : Aligned root w secret depth) (behind : depth p.peer = depth p + 1)
    (fresh : S.publicKey generated ∉ w.drawn) (turned : (w.state p).dhr ≠ after.dhr)
    (moved : Rooted S root (extend secret depth p generated) after (depth p + 2)) :
    Aligned root (afterDecrypt w p message plaintext key generated after)
      (extend secret depth p generated) (Function.update depth p (depth p + 2)) := by
  have apart := aligned.distinct_extend behind fresh
  have within : ∀ q, q ≠ p → Function.update depth p (depth p + 2) q = depth p + 1 := by
    intro q other
    obtain rfl := (Party.eq_or_peer p q).resolve_left other
    rw [Function.update_of_ne other, behind]
  have low : ∀ q, Function.update depth p (depth p + 2) q ≤ depth p + 2 := by
    intro q
    by_cases mine : q = p
    · rw [mine, Function.update_self]
    · rw [within q mine]
      omega
  refine ⟨?_, ?_, ?_, fun q i small j small' => apart i (small.trans (low q)) j (small'.trans (low q)), ?_, ?_⟩
  · apply afterDecrypt_forall moved
    exact (aligned.party p.peer).adapt (fun i small => (extend_old (by omega)).symm)
  · intro q
    have parity := aligned.parity q
    by_cases mine : q = p
    · subst mine
      rw [Function.update_self]
      omega
    · rw [Function.update_of_ne mine]
      exact parity
  · intro q
    by_cases mine : q = p
    · subst mine
      rw [Function.update_self, within _ q.peer_ne]
    · obtain rfl := (Party.eq_or_peer p q).resolve_left mine
      rw [within _ mine, Party.peer_peer, Function.update_self]
      omega
  · intro q d small
    rw [afterDecrypt, World.drawnBy, if_neg turned]
    by_cases last : d = depth p + 2
    · rw [last, extend_new]
      exact List.mem_append_right _ (List.mem_singleton_self _)
    · have := low q
      rw [extend_old (by omega)]
      exact List.mem_append_left _ (aligned.drawn p.peer d (by omega))
  · intro m member
    obtain ⟨header, ciphertext, d, k, parsed, small, named, place⟩ := aligned.sent m member
    have bound : d ≤ depth p + 1 := small.trans (depth_le_next behind m.sender)
    exact ⟨header, ciphertext, d, k, parsed, small.trans (depth_le_update m.sender),
      by rw [extend_old bound]; exact named, place⟩

end

section
variable {S : Suite} (ideal : Ideal S) {root : S.Key} (session : SessionRoot S root)
include ideal session
variable {w w' : World S} {secret : Nat → Bytes32} {depth : Party → Nat} {p : Party} {header : Header}
  {generated : Bytes32} {after : RatchetState S}

/-- The place of a party in the ledger is its epoch. -/
theorem Aligned.depth_eq (aligned : Aligned root w secret depth) {d sendPos recvPos : Nat}
    (placed : Placed S root (w.state p) d sendPos recvPos) : d = depth p := by
  have there := placed.rk
  rw [(aligned.party p).rk] at there
  exact RootAt.unique ideal session there (epochRoot_at _)

theorem Aligned.encrypt (aligned : Aligned root w secret depth) (ledger : Ledger S root w) (p : Party)
    {plaintext message : Bytes} {key : S.Key}
    (call : (w.state p).encrypt plaintext = (after, .ok message)) (used : (w.state p).sendKey = some key) :
    Aligned root { w with
      state := Function.update w.state p after, sent := w.sent ++ [⟨p, plaintext, message, key⟩] } secret depth := by
  obtain ⟨ck, ciphertext, chain, rfl, sealed, rfl⟩ := RatchetState.encrypt_ok call
  refine ⟨?_, aligned.parity, aligned.close, aligned.distinct, aligned.drawn, ?_⟩
  · have here := aligned.party p
    exact (Function.forall_update_iff w.state (fun q s => Rooted S root secret s (depth q))).mpr
      ⟨⟨here.dhs, here.dhsPub, here.rk, here.dhr⟩, fun q _ => aligned.party q⟩
  · intro m member
    rcases logged_cases member with old | rfl
    · exact aligned.sent m old
    · obtain ⟨d, sendPos, recvPos, accounted⟩ := ledger.party p
      have sending := accounted.placed.cks ck chain
      rw [aligned.depth_eq ideal session accounted.placed] at sending
      simp only [RatchetState.sendKey, chain, Option.map_some, Option.some.injEq] at used
      exact ⟨_, ciphertext, depth p, sendPos, parseMessage_encode _ (sealMessage_fits ideal.toLawful sealed), le_rfl,
        (aligned.party p).dhsPub, ck, sending, used.symm⟩

/-- A message of the peer that turns the ratchet comes from the epoch after the party's
own, so the peer is the one ahead. -/
theorem Aligned.turn_epoch (aligned : Aligned root w secret depth) {key : S.Key} {d k : Nat}
    (place : MessageAt S root d k key) (low : d ≤ depth p.peer)
    (turned : Turned (w.state p) after header generated key) :
    d = depth p + 1 ∧ depth p.peer = depth p + 1 := by
  obtain ⟨_, above⟩ := (aligned.party p).turned_key turned
  have same := (MessageAt.unique ideal session place above).1
  have close := aligned.close p.peer
  rw [Party.peer_peer] at close
  exact ⟨same, by omega⟩

/-- The ratchet after a turn on a message of the peer. -/
theorem Aligned.turned (aligned : Aligned root w secret depth) {key : S.Key} {d k : Nat}
    (place : MessageAt S root d k key) (named : header.dh = S.publicKey (secret d)) (low : d ≤ depth p.peer)
    (turned : Turned (w.state p) after header generated key) :
    Rooted S root (extend secret depth p generated) after (depth p + 2) := by
  obtain ⟨rfl, _⟩ := aligned.turn_epoch ideal session place low turned
  have here : Rooted S root (extend secret depth p generated) (w.state p) (depth p) :=
    (aligned.party p).adapt (fun i small => (extend_old (by omega)).symm)
  have next : header.dh = S.publicKey (extend secret depth p generated (depth p + 1)) := by
    rw [named, extend_old le_rfl]
  have outputs := here.turnOutputs ideal.toLawful next extend_new
  refine ⟨by rw [turned.dhs, extend_new], by rw [turned.dhsPub, extend_new], ?_, ?_⟩
  · rw [turned.rk, outputs]
  · rw [turned.dhr, next]
    rfl

/-- Opening a message of the peer keeps the parties aligned. -/
theorem Aligned.decrypt (aligned : Aligned root w secret depth) {key : S.Key} {d k : Nat}
    (place : MessageAt S root d k key) (named : header.dh = S.publicKey (secret d)) (low : d ≤ depth p.peer)
    (received : (w.state p).receiveKey header generated = (after, .ok key))
    (fresh : (w.state p).dhr ≠ after.dhr → S.publicKey generated ∉ w.drawn) (message plaintext : Bytes) :
    ∃ secret' depth', Aligned root (afterDecrypt w p message plaintext key generated after) secret' depth' := by
  rcases receiveKey_turned received with same | turned
  · exact ⟨secret, depth, aligned.stay ((aligned.party p).same same)⟩
  · exact ⟨_, _, aligned.open_epoch (aligned.turn_epoch ideal session place low turned).2 (fresh turned.moved)
      turned.moved (aligned.turned ideal session place named low turned)⟩

/-- What a delivered message that opens has to do with the epochs. -/
theorem Aligned.opened_place {env : Surroundings S} (faithful : Faithful root env) (ledger : Ledger S root w)
    (recorded : Recorded w) (aligned : Aligned root w secret depth) {message plaintext ciphertext : Bytes}
    {key : S.Key} (delivered : env.delivers w p message) (parsed : parseMessage message = .ok (header, ciphertext))
    (received : (w.state p).receiveKey header generated = (after, .ok key))
    (opened : openMessage S key (toAad header) ciphertext = .ok plaintext) :
    ∃ d k, MessageAt S root d k key ∧ header.dh = S.publicKey (secret d) ∧ d ≤ depth p.peer := by
  obtain ⟨m, member, sender, _, rfl, same⟩ := decrypt_attributed ideal session ledger recorded
    (faithful.unforged w p _ delivered) parsed received opened
  obtain ⟨header', ciphertext', d, k, parsed', low, named, place⟩ := aligned.sent m member
  rw [same] at parsed'
  cases parsed'
  exact ⟨d, k, place, named, sender ▸ low⟩

theorem aligned_step {env : Surroundings S} (faithful : Faithful root env) (ledger : Ledger S root w)
    (recorded : Recorded w) (aligned : Aligned root w secret depth) (step : Step env w w') :
    ∃ secret' depth', Aligned root w' secret' depth' := by
  cases step with
  | encrypt p call used => exact ⟨secret, depth, aligned.encrypt ideal session ledger p call used⟩
  | encryptFailed p call kept => exact absurd kept faithful.rollsBack
  | decrypt p delivered draw call used =>
    obtain ⟨header, ciphertext, parsed, received, opened⟩ := RatchetState.decrypt_used call used
    obtain ⟨d, k, place, named, low⟩ :=
      aligned.opened_place ideal session faithful ledger recorded delivered parsed received opened
    exact aligned.decrypt ideal session place named low received (fun turned => faithful.fresh w _ (draw turned)) _ _
  | decryptFailed p delivered draw call kept => exact absurd kept faithful.rollsBack
  | rolledBack => exact ⟨secret, depth, aligned⟩

theorem aligned_run {env : Surroundings S} (faithful : Faithful root env) {signedPrekey generated : Bytes32}
    (different : S.publicKey signedPrekey ≠ S.publicKey generated)
    (run : Run env (World.start root signedPrekey generated) w) :
    ∃ secret depth, Aligned root w secret depth := by
  induction run with
  | refl => exact ⟨_, _, aligned_start different⟩
  | tail before step ih =>
    have ledger := ledger_run ideal session (ledger_start signedPrekey generated) before
    obtain ⟨secret, depth, aligned⟩ := ih
    exact aligned_step ideal session faithful ledger (recorded_run ideal.toLawful before) aligned step

end

end Buh.Ratchet.Alignment
