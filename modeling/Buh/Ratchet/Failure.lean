import Buh.Ratchet.Authenticity

/-! What a failed `decrypt` leaves behind. The call works on the state in place and
checks the ciphertext last, so most errors come too late to leave the state alone. -/

namespace Buh.Ratchet.Failure
open Buh.Wire.Codec Buh.Crypto Buh.Crypto.Primitives Buh.Ratchet.Message Buh.Ratchet.Chain
  Buh.Ratchet.State Buh.Ratchet.Placement Buh.Ratchet.Session Buh.Ratchet.Secrecy

/-- The header is turned away before anything is derived for it: its key is not banked,
and either it names the current chain and there is none or the number is too far ahead,
or it names a new ratchet key and the previous count is too far ahead. -/
def Refused {S : Suite} (s : RatchetState S) (header : Header) : Prop :=
  s.skipped.lookup (header.dh, header.n) = none ∧
    ((s.dhr = some header.dh ∧ (s.ckr = none ∨ saturatingAdd s.nr maxSkip < header.n)) ∨
      (s.dhr ≠ some header.dh ∧ s.dhr ≠ none ∧ s.ckr ≠ none ∧ saturatingAdd s.nr maxSkip < header.pn))

/-- The bytes are no ratchet message, or one whose header is refused. -/
def Untouched {S : Suite} (s : RatchetState S) (message : Bytes) : Prop :=
  ∀ header ciphertext, parseMessage message = .ok (header, ciphertext) → Refused s header

section
variable {S : Suite}

/-- The loop walks the receiving chain on, by at least one step if it starts at all. -/
theorem skipLoop_walks (dhr : Bytes32) (count : Nat) {ck : S.Key} {s : RatchetState S} (chain : s.ckr = some ck) :
    (RatchetState.skipLoop dhr count ck s).1.dhr = s.dhr ∧
      ∃ steps, (RatchetState.skipLoop dhr count ck s).1.ckr = some (chainIter S ck steps) ∧
        (0 < count → 0 < steps) := by
  induction count generalizing s ck with
  | zero => exact ⟨rfl, 0, chain, id⟩
  | succ count ih =>
    rw [RatchetState.skipLoop]
    dsimp only
    split_ifs with full
    · exact ⟨rfl, 1, rfl, fun _ => Nat.one_pos⟩
    · obtain ⟨same, steps, walked, _⟩ := ih (s := { s with
        ckr := some (kdfCk S ck).1, skipped := s.skipped.insert (dhr, s.nr) (kdfCk S ck).2, nr := s.nr + 1 }) rfl
      refine ⟨same, steps + 1, ?_, fun _ => Nat.succ_pos _⟩
      rw [walked, chainIter_succ_left]

/-- Skipping keeps the remote ratchet key, and an error it reports either came before
the loop or after a step of it. -/
theorem skipMessageKeys_walks (s : RatchetState S) (upto : UInt32) :
    (s.skipMessageKeys upto).1.dhr = s.dhr ∧
      ((s.skipMessageKeys upto).1 = s ∧
          ((s.skipMessageKeys upto).2 = .ok () ∨ (s.dhr ≠ none ∧ s.ckr ≠ none ∧ saturatingAdd s.nr maxSkip < upto)) ∨
        ∃ ck steps, s.ckr = some ck ∧ 0 < steps ∧
          (s.skipMessageKeys upto).1.ckr = some (chainIter S ck steps)) := by
  unfold RatchetState.skipMessageKeys
  split
  · exact ⟨rfl, Or.inl ⟨rfl, Or.inl rfl⟩⟩
  · next dhr remote =>
    split
    · exact ⟨rfl, Or.inl ⟨rfl, Or.inl rfl⟩⟩
    · next ck chain =>
      split_ifs with far
      · exact ⟨rfl, Or.inl ⟨rfl, Or.inr ⟨by simp [remote], by simp [chain], far⟩⟩⟩
      · obtain ⟨same, steps, walked, moved⟩ := skipLoop_walks dhr (upto.toNat - s.nr.toNat) chain
        refine ⟨same, ?_⟩
        rcases Nat.eq_zero_or_pos (upto.toNat - s.nr.toNat) with none | some
        · rw [none]
          exact Or.inl ⟨rfl, Or.inl rfl⟩
        · exact Or.inr ⟨ck, steps, chain, moved some, walked⟩

theorem chainKey_dhr (s : RatchetState S) (n : UInt32) : (s.chainKey n).1.dhr = s.dhr := by
  have kept := (skipMessageKeys_walks s n).1
  unfold RatchetState.chainKey
  split
  · next failed =>
    rw [failed] at kept
    exact kept
  · next done =>
    rw [done] at kept
    split
    · exact kept
    · exact kept

theorem refused_receiveKey {s : RatchetState S} {header : Header} (refused : Refused s header)
    (generated : Bytes32) : ∃ e, s.receiveKey header generated = (s, .error e) := by
  obtain ⟨absent, ⟨current, ended⟩ | ⟨other, remote, chain, far⟩⟩ := refused
  · have stays : s.turnIfNew header generated = (s, .ok ()) := if_pos current
    simp only [RatchetState.receiveKey, absent, stays, RatchetState.chainKey, RatchetState.skipMessageKeys, current]
    cases chain : s.ckr with
    | none => exact ⟨.ratchet "no receiving chain", by simp only [chain]⟩
    | some ck =>
      have far : saturatingAdd s.nr maxSkip < header.n := ended.resolve_left (by simp [chain])
      exact ⟨.ratchet "too many skipped messages", by simp only [if_pos far]⟩
  · obtain ⟨dhr, dhrEq⟩ := Option.ne_none_iff_exists'.mp remote
    obtain ⟨ck, ckEq⟩ := Option.ne_none_iff_exists'.mp chain
    refine ⟨.ratchet "too many skipped messages", ?_⟩
    rw [RatchetState.receiveKey, absent]
    have skip : s.skipMessageKeys header.pn = (s, .error (.ratchet "too many skipped messages")) := by
      simp only [RatchetState.skipMessageKeys, dhrEq, ckEq, if_pos far]
    simp only [RatchetState.turnIfNew, if_neg other, skip]

end

section
variable {S : Suite} (ideal : Ideal S) {root : S.Key} (session : SessionRoot S root)
include ideal session
variable {s : RatchetState S} {depth sendPos recvPos : Nat}

theorem chainIter_ne (placed : Placed S root s depth sendPos recvPos) {ck : S.Key} (chain : s.ckr = some ck)
    {steps : Nat} (moved : 0 < steps) : some (chainIter S ck steps) ≠ s.ckr := by
  rw [chain]
  intro same
  obtain ⟨below, _, place⟩ := placed.ckr ck chain
  have stayed : steps = 0 := place.iter_inj ideal session (Option.some.inj same)
  omega

/-- With a receiving chain and a number in range, the chain always moves. -/
theorem chainKey_changes (placed : Placed S root s depth sendPos recvPos) {n : UInt32}
    (present : s.ckr ≠ none) (near : ¬saturatingAdd s.nr maxSkip < n) : (s.chainKey n).1.ckr ≠ s.ckr := by
  obtain ⟨ck, chain⟩ := Option.ne_none_iff_exists'.mp present
  obtain ⟨_, ⟨same, settled⟩ | ⟨ck', steps, chain', moved, walked⟩⟩ := skipMessageKeys_walks s n
  · rcases settled with done | ⟨_, _, far⟩
    · have call : s.skipMessageKeys n = (s, .ok ()) := Prod.ext same done
      simp only [RatchetState.chainKey, call, chain]
      exact chain ▸ chainIter_ne ideal session placed chain Nat.one_pos
    · exact absurd far near
  · unfold RatchetState.chainKey
    split
    · next failed =>
      rw [failed] at walked
      rw [walked]
      exact chainIter_ne ideal session placed chain' moved
    · next after done =>
      rw [done] at walked
      dsimp only at walked
      rw [walked]
      exact chainIter_ne ideal session placed chain' (Nat.succ_pos steps)

/-- Past the refusals, looking for a message key always leaves another state behind. -/
theorem receiveKey_changes (placed : Placed S root s depth sendPos recvPos) {header : Header}
    (accepted : ¬Refused s header) (generated : Bytes32) : (s.receiveKey header generated).1 ≠ s := by
  intro unchanged
  unfold RatchetState.receiveKey at unchanged
  split at unchanged
  · next key found =>
    have erased := congrArg (fun after => after.skipped.lookup (header.dh, header.n)) unchanged
    simp only [Finmap.lookup_erase, found] at erased
    cases erased
  · next absent =>
    by_cases current : s.dhr = some header.dh
    · -- no turn: the receiving chain itself has moved
      have stays : s.turnIfNew header generated = (s, .ok ()) := if_pos current
      rw [stays] at unchanged
      refine chainKey_changes ideal session placed ?_ ?_ (congrArg RatchetState.ckr unchanged)
      · exact fun ended => accepted ⟨absent, Or.inl ⟨current, Or.inl ended⟩⟩
      · exact fun far => accepted ⟨absent, Or.inl ⟨current, Or.inr far⟩⟩
    · -- a turn adopts the new remote key; short of it, the old chain has moved
      rw [RatchetState.turnIfNew, if_neg current] at unchanged
      obtain ⟨kept, walks⟩ := skipMessageKeys_walks s header.pn
      generalize s.skipMessageKeys header.pn = result at unchanged walks
      obtain ⟨after, answer⟩ := result
      cases answer with
      | error e =>
        rcases walks with ⟨_, done | ⟨remote, chain, far⟩⟩ | ⟨ck, steps, chain, moved, walked⟩
        · cases done
        · exact accepted ⟨absent, Or.inr ⟨current, remote, chain, far⟩⟩
        · exact chainIter_ne ideal session placed chain moved (walked ▸ congrArg RatchetState.ckr unchanged)
      | ok done =>
        have adopted := congrArg RatchetState.dhr unchanged
        rw [chainKey_dhr] at adopted
        exact current adopted.symm

/-- Exactly when a failed `decrypt` leaves the state as it was, for every state that any
calls on any bytes can lead to. -/
theorem failed_decrypt_unchanged_iff {env : Surroundings S} {signedPrekey generated : Bytes32} {w : World S}
    (run : Run env (World.start root signedPrekey generated) w) (p : Party) {drawn : Bytes32} {message : Bytes}
    {after : RatchetState S} {e : CryptoError}
    (failed : (w.state p).decrypt drawn message = (after, .error e)) :
    (after = w.state p ∧ ∀ drawn' later plaintext, ((w.state p).decrypt drawn' later).2 = .ok plaintext →
      (after.decrypt drawn' later).2 = .ok plaintext) ↔ Untouched (w.state p) message := by
  have ledger := ledger_run ideal session (ledger_start signedPrekey generated) run
  obtain ⟨depth, sendPos, recvPos, accounted⟩ := ledger.party p
  have state : ((w.state p).decrypt drawn message).1 = after := by rw [failed]
  constructor
  · rintro ⟨unchanged, _⟩ header ciphertext parsed
    by_contra accepted
    have moved := receiveKey_changes ideal session accounted.placed accepted drawn
    rw [← RatchetState.decrypt_parsed parsed, state] at moved
    exact moved unchanged
  · intro untouched
    have unchanged : after = w.state p := by
      rw [← state]
      cases parsed : parseMessage message with
      | error e => rw [RatchetState.decrypt, parsed]
      | ok content =>
        obtain ⟨e', refused⟩ := refused_receiveKey (untouched content.1 content.2 parsed) drawn
        rw [RatchetState.decrypt_parsed parsed, refused]
    exact ⟨unchanged, fun drawn' later plaintext opens => unchanged ▸ opens⟩

end

/-- A header with a chosen ratchet key and an empty ciphertext. -/
def forgedHeader : Header := ⟨List.Vector.replicate 32 9, 0, 0⟩

def forgedMessage : Bytes := (messageFrame forgedHeader []).encode

/-- What such a header does to a fresh responder: the ratchet turns on the chosen key
before the ciphertext is found to be bad. -/
theorem responder_turns {S : Suite} (root : S.Key) (ratchetKey drawn chosen : Bytes32) :
    ∃ after key, (RatchetState.responder root ratchetKey).receiveKey ⟨chosen, 0, 0⟩ drawn = (after, .ok key) ∧
      after.dhr = some chosen ∧ after.skipped = ∅ ∧ after.nr = 1 ∧ Placed S root after 2 0 1 := by
  have turned := (placed_responder root ratchetKey).turn ⟨chosen, 0, 0⟩ drawn
  let receiving := ((RatchetState.responder root ratchetKey).turnOutputs ⟨chosen, 0, 0⟩ drawn).1.2
  refine ⟨_, (kdfCk S receiving).2, ?_, rfl, rfl, rfl, turned.advance rfl 1⟩
  simp [RatchetState.receiveKey, RatchetState.turnIfNew, RatchetState.chainKey, RatchetState.skipMessageKeys,
    RatchetState.responder, RatchetState.dhRatchet, RatchetState.skipLoop, receiving]

/-- A header too far ahead in the chain that a forged message has started. -/
theorem failed_decrypt_unchanged_sample : ∃ (w : World Symbolic.suite) (message : Bytes) (e : CryptoError),
    Run (anything Symbolic.suite) (World.start sampleRoot samplePrekey sampleGenerated) w ∧
      w.state .responder ≠ (World.start sampleRoot samplePrekey sampleGenerated).state .responder ∧
      parseMessage message = .ok (⟨forgedHeader.dh, 0, 5000⟩, []) ∧
      (w.state .responder).decrypt samplePrekey message = (w.state .responder, .error e) ∧
      Untouched (w.state .responder) message := by
  obtain ⟨after, key, received, remote, empty, number, _⟩ :=
    responder_turns (S := Symbolic.suite) sampleRoot samplePrekey samplePrekey forgedHeader.dh
  have forged : parseMessage forgedMessage = .ok (forgedHeader, []) := parseMessage_encode _ (by decide)
  have step : Step (anything Symbolic.suite) (World.start sampleRoot samplePrekey sampleGenerated) _ :=
    .decryptFailed .responder trivial (fun _ => trivial) (RatchetState.decrypt_received forged received) trivial
  have run := Relation.ReflTransGen.single step
  have parsed := parseMessage_encode ⟨forgedHeader.dh, 0, 5000⟩ (show ([] : Bytes).length < 2 ^ 64 by decide)
  have refused : Refused after ⟨forgedHeader.dh, 0, 5000⟩ := by
    refine ⟨by rw [empty, Finmap.lookup_empty], Or.inl ⟨remote, Or.inr ?_⟩⟩
    rw [number]
    decide
  obtain ⟨e, stays⟩ := refused_receiveKey refused samplePrekey
  have failed : after.decrypt samplePrekey (messageFrame ⟨forgedHeader.dh, 0, 5000⟩ []).encode = (after, .error e) := by
    simp only [RatchetState.decrypt, parsed, stays]
  have unchanged := (failed_decrypt_unchanged_iff Symbolic.suite_ideal sampleRoot_session run .responder failed).mp
    ⟨rfl, fun _ _ _ opens => opens⟩
  refine ⟨_, _, e, run, ?_, parsed, failed, unchanged⟩
  intro (same : after = RatchetState.responder sampleRoot samplePrekey)
  rw [same] at remote
  cases remote

/-- One forged message makes a fresh responder fail, changes its state and locks out
the genuine message that it would have opened. -/
theorem forged_header_locks_out : ∃ after genuine,
    ((World.start sampleRoot samplePrekey sampleGenerated).state .responder).decrypt samplePrekey forgedMessage =
        (after, .error .aead) ∧
      after ≠ (World.start sampleRoot samplePrekey sampleGenerated).state .responder ∧
      (((World.start sampleRoot samplePrekey sampleGenerated).state .initiator).encrypt [7]).2 = .ok genuine ∧
      (((World.start sampleRoot samplePrekey sampleGenerated).state .responder).decrypt samplePrekey genuine).2 =
        .ok [7] ∧
      ∀ drawn answer, (after.decrypt drawn genuine).2 ≠ .ok answer := by
  obtain ⟨ciphertext, sealed⟩ := sample_sealed
  obtain ⟨_, encrypted⟩ := initiator_encrypts sealed
  obtain ⟨_, decrypted, _⟩ := responder_decrypts Symbolic.suite_lawful samplePrekey sealed
  obtain ⟨after, key, received, adopted, empty, _, placed⟩ :=
    responder_turns sampleRoot samplePrekey samplePrekey forgedHeader.dh
  have parsed : parseMessage forgedMessage = .ok (forgedHeader, []) := parseMessage_encode _ (by decide)
  refine ⟨after, (messageFrame (firstHeader Symbolic.suite sampleGenerated) ciphertext).encode, ?_, ?_,
    congrArg Prod.snd encrypted, congrArg Prod.snd decrypted, ?_⟩
  · exact RatchetState.decrypt_received parsed received
  · intro same
    rw [same] at adopted
    cases adopted
  · intro drawn answer opens
    obtain ⟨header, _, key', parsed', received', opened, _⟩ := RatchetState.decrypt_ok (Prod.ext rfl opens)
    rw [parseMessage_encode _ (sealMessage_fits Symbolic.suite_lawful sealed)] at parsed'
    cases parsed'
    -- the key sits at depth one, which the forged turn has left behind
    obtain rfl := openMessage_key_unique Symbolic.suite_ideal
      (openMessage_sealMessage Symbolic.suite_lawful sealed) opened
    obtain ⟨_, _, _, _, returned⟩ :=
      receiveKey_evolves Symbolic.suite_ideal sampleRoot_session _ drawn placed
    obtain ⟨_, source, _⟩ := returned _ (congrArg Prod.snd received')
    have place : MessageAt Symbolic.suite sampleRoot 1 0
        (firstKey Symbolic.suite sampleRoot samplePrekey sampleGenerated) := ⟨_, .seed .start _, rfl⟩
    rcases source with ⟨slot, found⟩ | ⟨d, k, turns, other, total, beyond⟩
    · rw [empty, Finmap.lookup_empty] at found
      cases found
    · obtain ⟨rfl, rfl⟩ := MessageAt.unique Symbolic.suite_ideal sampleRoot_session place other
      have := beyond (by omega)
      omega

end Buh.Ratchet.Failure
