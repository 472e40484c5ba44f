import Buh.Ratchet.Alignment

/-! The aligned session with its counters. As long as no chain carries 2^32 messages, the
numbers in the states and headers count the messages of the epochs, and every number a
party has walked past is banked or opened. -/

namespace Buh.Ratchet.Lockstep
open Buh.Wire.Codec Buh.Crypto.Primitives Buh.Ratchet.Message Buh.Ratchet.Chain Buh.Ratchet.State
  Buh.Ratchet.Placement Buh.Ratchet.Session Buh.Ratchet.Authenticity Buh.Ratchet.Skipping Buh.Ratchet.Epochs
  Buh.Ratchet.Alignment

section
variable {S : Suite}

/-- The ratchet key in a message's header. -/
def ratchetKeyOf (m : Sent S) : Option Bytes32 :=
  match parseMessage m.message with
  | .ok (header, _) => some header.dh
  | .error _ => none

/-- How many messages the chain of a ratchet key carries. -/
def chainLength (w : World S) (dh : Bytes32) : Nat := w.sent.countP (fun m => ratchetKeyOf m = some dh)

def sentIn (w : World S) (secret : Nat → Bytes32) (d : Nat) : Nat := chainLength w (S.publicKey (secret d))

def openedKeys (w : World S) : Set S.Key := { key | ∃ o ∈ w.opened, o.key = key }

/-- Where a message was sent: the epoch its header names, under the key of its number. -/
structure SentAt (root : S.Key) (w : World S) (secret : Nat → Bytes32) (m : Sent S) (header : Header) (d : Nat) :
    Prop where
  parity : d % 2 = m.sender.parity
  positive : 0 < d
  named : header.dh = S.publicKey (secret d)
  previous : header.pn.toNat = previousIn (sentIn w secret) d
  number : header.n.toNat < sentIn w secret d
  key : m.key = epochKey S root secret d header.n.toNat

structure InStep (root : S.Key) (w : World S) (secret : Nat → Bytes32) (depth : Party → Nat) : Prop
    extends Aligned root w secret depth where
  counted : ∀ p, AtEpoch S root secret (sentIn w secret) (openedKeys w) (w.state p) (depth p)
  silent : sentIn w secret 0 = 0
  sentAt : ∀ m ∈ w.sent, ∃ header ciphertext d, parseMessage m.message = .ok (header, ciphertext) ∧
    d ≤ depth m.sender ∧ SentAt root w secret m header d

theorem inStep_start {root : S.Key} {signedPrekey generated : Bytes32}
    (different : S.publicKey signedPrekey ≠ S.publicKey generated) :
    InStep root (World.start root signedPrekey generated) (startSecret signedPrekey generated) startDepth where
  toAligned := aligned_start different
  counted := by
    intro p
    refine ⟨(aligned_start different).party p, ?_, ?_, ?_, ?_, ?_, ?_, fun d n _ sent => absurd sent (Nat.not_lt_zero _)⟩
    · cases p <;> rfl
    · cases p <;> rfl
    · cases p <;> rfl
    · cases p <;> rfl
    · cases p <;> exact Nat.zero_le _
    · intro dh n mk found
      cases p <;> simp [World.start, RatchetState.initiator, RatchetState.responder] at found
  silent := rfl
  sentAt m absent := absurd absent List.not_mem_nil

variable {root : S.Key} {w w' : World S} {secret : Nat → Bytes32} {depth : Party → Nat} {p : Party}
  {generated : Bytes32} {after : RatchetState S} {message plaintext : Bytes} {key : S.Key}

theorem SentAt.adapt {m : Sent S} {header : Header} {d : Nat} {other : Nat → Bytes32}
    (at_ : SentAt root w secret m header d) (same : ∀ i ≤ d, secret i = other i)
    (grown : sentIn w secret d ≤ sentIn w' other d)
    (before : ∀ i, i + 2 = d → sentIn w' other i = sentIn w secret i) : SentAt root w' other m header d where
  parity := at_.parity
  positive := at_.positive
  named := by rw [at_.named, same d le_rfl]
  previous := by rw [at_.previous, previousIn_congr before]
  number := lt_of_lt_of_le at_.number grown
  key := by rw [at_.key, epochKey_congr same]

theorem SentAt.place {m : Sent S} {header : Header} {d : Nat} (at_ : SentAt root w secret m header d) :
    MessageAt S root d header.n.toNat m.key := by
  obtain ⟨e, rfl⟩ := Nat.exists_eq_add_of_lt at_.positive
  rw [at_.key]
  exact epochKey_at _ _

/-- A key that has not been drawn is on no message. -/
theorem chainLength_fresh (aligned : Aligned root w secret depth) {dh : Bytes32} (unused : dh ∉ w.drawn) :
    chainLength w dh = 0 := by
  rw [chainLength, List.countP_eq_zero]
  intro m member
  obtain ⟨header, ciphertext, parsed, drawn⟩ := aligned.on_wire member
  simp only [ratchetKeyOf, parsed, decide_eq_true_eq, Option.some.injEq]
  rintro rfl
  exact unused drawn

/-- Messages are only ever added. -/
theorem chainLength_step {env : Surroundings S} (step : Step env w w') (dh : Bytes32) :
    chainLength w dh ≤ chainLength w' dh := by
  cases step with
  | encrypt p call used =>
    rw [chainLength, chainLength, List.countP_append]
    exact Nat.le_add_right _ _
  | encryptFailed p call kept => exact le_rfl
  | decrypt p delivered draw call used => exact le_rfl
  | decryptFailed p delivered draw call kept => exact le_rfl
  | rolledBack => exact le_rfl

/-- A message counts in the chain its header names. -/
theorem chainLength_sent {m : Sent S} {header : Header} {ciphertext : Bytes} (logged : w'.sent = w.sent ++ [m])
    (parsed : parseMessage m.message = .ok (header, ciphertext)) (dh : Bytes32) :
    chainLength w' dh = chainLength w dh + if header.dh = dh then 1 else 0 := by
  have named : ratchetKeyOf m = some header.dh := by
    rw [ratchetKeyOf, parsed]
  rw [chainLength, chainLength, logged, List.countP_append, List.countP_singleton, named]
  simp

theorem sentIn_own {m : Sent S} {header : Header} {ciphertext : Bytes} (logged : w'.sent = w.sent ++ [m])
    (parsed : parseMessage m.message = .ok (header, ciphertext)) (own : header.dh = S.publicKey (secret (depth p))) :
    sentIn w' secret (depth p) = sentIn w secret (depth p) + 1 := by
  rw [sentIn, chainLength_sent logged parsed, if_pos own]
  rfl

/-- In every other epoch in use the count stays. -/
theorem sentIn_other {m : Sent S} {header : Header} {ciphertext : Bytes} (aligned : Aligned root w secret depth)
    (logged : w'.sent = w.sent ++ [m]) (parsed : parseMessage m.message = .ok (header, ciphertext))
    (own : header.dh = S.publicKey (secret (depth p))) (q : Party) {i : Nat} (low : i ≤ depth q)
    (different : i ≠ depth p) : sentIn w' secret i = sentIn w secret i := by
  have apart : ¬header.dh = S.publicKey (secret i) := by
    rw [own]
    exact fun same => different (aligned.distinct_all p q le_rfl low same).symm
  rw [sentIn, chainLength_sent logged parsed, if_neg apart]
  rfl

theorem openedKeys_afterDecrypt :
    openedKeys (afterDecrypt w p message plaintext key generated after) = insert key (openedKeys w) := by
  ext other
  simp only [openedKeys, afterDecrypt, List.mem_append, List.mem_singleton, Set.mem_ofPred_eq, Set.mem_insert_iff]
  constructor
  · rintro ⟨o, old | rfl, rfl⟩
    · exact Or.inr ⟨o, old, rfl⟩
    · exact Or.inl rfl
  · rintro (rfl | ⟨o, old, rfl⟩)
    · exact ⟨_, Or.inr rfl, rfl⟩
    · exact ⟨o, Or.inl old, rfl⟩

theorem sentIn_extend {i : Nat} (low : i ≤ depth p + 1) :
    sentIn w (extend secret depth p generated) i = sentIn w secret i := by
  rw [sentIn, sentIn, extend_old low]

/-- A call that stays in its epoch. -/
theorem InStep.stay (inStep : InStep root w secret depth)
    (moved : AtEpoch S root secret (sentIn w secret) (insert key (openedKeys w)) after (depth p)) :
    InStep root (afterDecrypt w p message plaintext key generated after) secret depth where
  toAligned := inStep.toAligned.stay moved.toRooted
  counted := by
    intro q
    rw [openedKeys_afterDecrypt]
    by_cases mine : q = p
    · subst mine
      rw [afterDecrypt_self]
      exact moved
    · rw [afterDecrypt_other mine]
      exact (inStep.counted q).adapt (fun _ _ => rfl) (fun _ _ => le_rfl) (fun _ _ _ => rfl)
        (fun _ => Set.mem_insert_of_mem _)
  silent := inStep.silent
  sentAt := by
    intro m member
    obtain ⟨header, ciphertext, d, parsed, low, at_⟩ := inStep.sentAt m member
    exact ⟨header, ciphertext, d, parsed, low, at_.adapt (fun _ _ => rfl) le_rfl (fun _ _ => rfl)⟩

/-- A call that opens the next epoch with the secret it draws. -/
theorem InStep.open_epoch (inStep : InStep root w secret depth) (behind : depth p.peer = depth p + 1)
    (fresh : S.publicKey generated ∉ w.drawn) (turned : (w.state p).dhr ≠ after.dhr)
    (moved : AtEpoch S root (extend secret depth p generated) (sentIn w (extend secret depth p generated))
      (insert key (openedKeys w)) after (depth p + 2)) :
    InStep root (afterDecrypt w p message plaintext key generated after)
      (extend secret depth p generated) (Function.update depth p (depth p + 2)) where
  toAligned := inStep.toAligned.open_epoch behind fresh turned moved.toRooted
  counted := by
    intro q
    rw [openedKeys_afterDecrypt]
    apply afterDecrypt_forall moved
    exact (inStep.counted p.peer).adapt (fun i small => (extend_old (by omega)).symm)
      (fun i small => (sentIn_extend (by omega)).ge) (fun i small _ => sentIn_extend (by omega))
      (fun _ => Set.mem_insert_of_mem _)
  silent := (sentIn_extend (Nat.zero_le _)).trans inStep.silent
  sentAt := by
    intro m member
    obtain ⟨header, ciphertext, d, parsed, small, at_⟩ := inStep.sentAt m member
    have bound : d ≤ depth p + 1 := small.trans (depth_le_next behind m.sender)
    exact ⟨header, ciphertext, d, parsed, small.trans (depth_le_update m.sender),
      at_.adapt (fun i below => (extend_old (by omega)).symm) (sentIn_extend bound).ge
        (fun i below => sentIn_extend (by omega))⟩

end

section
variable {S : Suite} (ideal : Ideal S) {root : S.Key} (session : SessionRoot S root)
include ideal session
variable {w w' : World S} {secret : Nat → Bytes32} {depth : Party → Nat} {p : Party} {m : Sent S} {header : Header}
  {d : Nat} {generated : Bytes32} {after middle : RatchetState S}

theorem InStep.encrypt (inStep : InStep root w secret depth) (ledger : Ledger S root w) (p : Party)
    {plaintext message : Bytes} {key : S.Key}
    (call : (w.state p).encrypt plaintext = (after, .ok message)) (used : (w.state p).sendKey = some key)
    (next : w' = { w with
      state := Function.update w.state p after, sent := w.sent ++ [⟨p, plaintext, message, key⟩] })
    (short : ∀ dh, chainLength w' dh < 2 ^ 32) : InStep root w' secret depth := by
  have aligned : Aligned root w' secret depth := by
    rw [next]
    exact inStep.toAligned.encrypt ideal session ledger p call used
  obtain ⟨ck, ciphertext, chain, advanced, sealed, rfl⟩ := RatchetState.encrypt_ok call
  have here := inStep.counted p
  obtain ⟨positive, sealing⟩ := here.send_key chain
  have parsed := parseMessage_encode (w.state p).nextHeader (sealMessage_fits ideal.toLawful sealed)
  have keyEq : key = (kdfCk S ck).2 := by
    simp only [RatchetState.sendKey, chain, Option.map_some, Option.some.injEq] at used
    exact used.symm
  have logged : w'.sent = w.sent ++ [⟨p, plaintext, (messageFrame (w.state p).nextHeader ciphertext).encode, key⟩] := by
    rw [next]
  have own := sentIn_own logged parsed here.dhsPub
  have others (q : Party) (i : Nat) (low : i ≤ depth q) (different : i ≠ depth p) :
      sentIn w' secret i = sentIn w secret i :=
    sentIn_other inStep.toAligned logged parsed here.dhsPub q low different
  have grows (d : Nat) : sentIn w secret d ≤ sentIn w' secret d := by
    rw [sentIn, sentIn, chainLength_sent logged parsed]
    exact Nat.le_add_right _ _
  have opened : openedKeys w' = openedKeys w := by rw [next]; rfl
  refine ⟨aligned, fun q => ?_, ?_, ?_⟩
  · by_cases mine : q = p
    · have state : w'.state q = after := by rw [next, mine]; exact Function.update_self ..
      rw [opened, state, advanced, mine]
      exact here.send chain own (fun i low => others p i (by omega) (by omega)) (short _)
    · have state : w'.state q = w.state q := by rw [next]; exact Function.update_of_ne mine ..
      rw [opened, state]
      refine (inStep.counted q).adapt (fun i _ => rfl) (fun i _ => grows i) ?_ (fun key old => old)
      intro i low receiving
      apply others q i low
      rintro rfl
      obtain rfl := (Party.eq_or_peer p q).resolve_left mine
      rcases inStep.ahead p with ahead | ahead <;> omega
  · rw [others p 0 (Nat.zero_le _) (by omega), inStep.silent]
  · intro m member
    rw [next] at member
    rcases List.mem_append.mp member with old | new
    · obtain ⟨header, ciphertext', d, parsed', low, at_⟩ := inStep.sentAt m old
      refine ⟨header, ciphertext', d, parsed', low, at_.adapt (fun i _ => rfl) (grows d) ?_⟩
      intro i below
      apply others m.sender i (by omega)
      have close := inStep.close p.peer
      rw [Party.peer_peer] at close
      rcases Party.eq_or_peer p m.sender with same | same <;> rw [same] at low <;> omega
    · rw [List.mem_singleton] at new
      subst new
      have counter := here.ns
      refine ⟨_, ciphertext, depth p, parsed, le_rfl, inStep.parity p, positive, here.dhsPub, ?_, ?_, ?_⟩
      · rw [previousIn_congr (fun i below => others p i (by omega) (by omega))]
        exact here.pn
      · change (w.state p).ns.toNat < _
        omega
      · change key = epochKey S root secret (depth p) (w.state p).ns.toNat
        rw [keyEq, sealing, counter]

/-- The state that a message of the next epoch leaves across a turn: the old chain is
banked to its end and the new one from its seed to the message. -/
theorem InStep.turned (inStep : InStep root w secret depth) (at_ : SentAt root w secret m header (depth p + 1))
    (behind : depth p.peer = depth p + 1) (skipped : (w.state p).skipMessageKeys header.pn = (middle, .ok ()))
    (call : (middle.dhRatchet header generated).chainKey header.n = (after, .ok m.key))
    (fresh : S.publicKey generated ∉ w.drawn) (short : ∀ dh, chainLength w dh < 2 ^ 32) :
    AtEpoch S root (extend secret depth p generated) (sentIn w (extend secret depth p generated))
      (insert m.key (openedKeys w)) after (depth p + 2) := by
  have here := inStep.counted p
  have silent := inStep.silent
  have previous : header.pn.toNat = sentIn w secret (depth p - 1) := by
    rw [at_.previous]
    cases depth p with
    | zero => exact silent.symm
    | succ d => rfl
  obtain ⟨there, walked⟩ := here.skip (inStep.distinct p) skipped previous.le
  have drained : middle.nr.toNat = sentIn w secret (depth p - 1) := by
    have bound := here.nr
    have bound' := there.nr
    rcases Nat.lt_or_ge (depth p) 2 with small | large
    · rw [show depth p - 1 = 0 by omega] at *
      omega
    · have := walked large
      omega
  have moved : AtEpoch S root (extend secret depth p generated) (sentIn w (extend secret depth p generated))
      (openedKeys w) middle (depth p) :=
    there.adapt (fun i small => (extend_old (Nat.le_succ_of_le small)).symm)
      (fun i small => (sentIn_extend (Nat.le_succ_of_le small)).ge)
      (fun i small _ => sentIn_extend (Nat.le_succ_of_le small)) (fun _ old => old)
  have next : header.dh = S.publicKey (extend secret depth p generated (depth p + 1)) := by
    rw [at_.named, extend_old le_rfl]
  have turned := moved.turn ideal.toLawful next (by rw [drained, sentIn_extend (by omega)]) extend_new
    (by rw [sentIn, extend_new]; exact chainLength_fresh inStep.toAligned fresh)
  refine turned.chainKey ideal session (inStep.distinct_extend behind fresh) call ?_ ?_ (short _)
  · rw [at_.key]
    exact epochKey_congr (fun i small => (extend_old small).symm) _
  · exact at_.number.trans_eq (sentIn_extend le_rfl).symm

/-- Opening a message of the peer keeps the parties in step. -/
theorem InStep.decrypt (inStep : InStep root w secret depth) (at_ : SentAt root w secret m header d)
    (low : d ≤ depth p.peer) (received : (w.state p).receiveKey header generated = (after, .ok m.key))
    (fresh : (w.state p).dhr ≠ after.dhr → S.publicKey generated ∉ w.drawn)
    (short : ∀ dh, chainLength w dh < 2 ^ 32) (message plaintext : Bytes) :
    ∃ secret' depth', InStep root (afterDecrypt w p message plaintext m.key generated after) secret' depth' := by
  have here := inStep.counted p
  rcases RatchetState.receiveKey_ok received with ⟨found, rfl⟩ | ⟨_, current, call⟩ | ⟨_, other, middle, skipped, call⟩
  · exact ⟨secret, depth, inStep.stay (here.erase found)⟩
  · refine ⟨secret, depth, inStep.stay ?_⟩
    have epoch := inStep.current_epoch low (at_.named ▸ current)
    obtain rfl : d = depth p - 1 := by omega
    exact here.chainKey ideal session (inStep.distinct p) call at_.key at_.number (short _)
  · have turned : Turned (w.state p) after header generated m.key := by
      rcases receiveKey_turned received with same | turned
      · have adopted := (chainKey_same call).dhr
        exact absurd (same.dhr.symm.trans adopted) other
      · exact turned
    obtain ⟨rfl, behind⟩ := inStep.turn_epoch ideal session at_.place low turned
    exact ⟨_, _, inStep.open_epoch behind (fresh turned.moved) turned.moved
      (inStep.turned ideal session at_ behind skipped call (fresh turned.moved) short)⟩

theorem inStep_step {env : Surroundings S} (faithful : Faithful root env) (ledger : Ledger S root w)
    (recorded : Recorded w) (inStep : InStep root w secret depth) (step : Step env w w')
    (short : ∀ dh, chainLength w' dh < 2 ^ 32) : ∃ secret' depth', InStep root w' secret' depth' := by
  have before : ∀ dh, chainLength w dh < 2 ^ 32 := fun dh => (chainLength_step step dh).trans_lt (short dh)
  cases step with
  | encrypt p call used => exact ⟨secret, depth, inStep.encrypt ideal session ledger p call used rfl short⟩
  | encryptFailed p call kept => exact absurd kept faithful.rollsBack
  | decrypt p delivered draw call used =>
    obtain ⟨header, ciphertext, parsed, received, opened⟩ := RatchetState.decrypt_used call used
    obtain ⟨m, member, sender, _, rfl, same⟩ := decrypt_attributed ideal session ledger recorded
      (faithful.unforged w p _ delivered) parsed received opened
    obtain ⟨header', ciphertext', d, parsed', low, at_⟩ := inStep.sentAt m member
    rw [same] at parsed'
    cases parsed'
    rw [sender] at low
    exact inStep.decrypt ideal session at_ low received (fun turned => faithful.fresh w _ (draw turned)) before _ _
  | decryptFailed p delivered draw call kept => exact absurd kept faithful.rollsBack
  | rolledBack => exact ⟨secret, depth, inStep⟩

theorem inStep_run {env : Surroundings S} (faithful : Faithful root env) {signedPrekey generated : Bytes32}
    (different : S.publicKey signedPrekey ≠ S.publicKey generated)
    (run : Run env (World.start root signedPrekey generated) w) (short : ∀ dh, chainLength w dh < 2 ^ 32) :
    ∃ secret depth, InStep root w secret depth := by
  induction run with
  | refl => exact ⟨_, _, inStep_start different⟩
  | tail before step ih =>
    have ledger := ledger_run ideal session (ledger_start signedPrekey generated) before
    obtain ⟨secret, depth, inStep⟩ := ih (fun dh => (chainLength_step step dh).trans_lt (short dh))
    exact inStep_step ideal session faithful ledger (recorded_run ideal.toLawful before) inStep step short

end

end Buh.Ratchet.Lockstep
