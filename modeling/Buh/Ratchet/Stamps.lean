import Buh.Ratchet.Session

/-! What the headers of one sending chain share: its ratchet key, and the length of the
chain before it. -/

namespace Buh.Ratchet.Stamps
open Buh.Wire.Codec Buh.Crypto.Primitives Buh.Ratchet.Message Buh.Ratchet.Chain Buh.Ratchet.State
  Buh.Ratchet.Placement Buh.Ratchet.Session

/-- The two states have the same secret and put the same ratchet key and previous count on
what they send. -/
structure SameSender {S : Suite} (s after : RatchetState S) : Prop where
  dhs : after.dhs = s.dhs
  rk : after.rk = s.rk
  dhsPub : after.dhsPub = s.dhsPub
  pn : after.pn = s.pn

/-- The stamp of each root depth the party has been at. -/
structure Stamped {S : Suite} (root : S.Key) (w : World S) (q : Party) (stamp : Nat → Bytes32 × UInt32) : Prop where
  now : ∀ depth, RootAt S root depth (w.state q).rk → stamp depth = ((w.state q).dhsPub, (w.state q).pn)
  sent : ∀ m ∈ w.sent, m.sender = q → ∀ header ciphertext d k, parseMessage m.message = .ok (header, ciphertext) →
    MessageAt S root d k m.key → stamp d = (header.dh, header.pn)

section
variable {S : Suite}

theorem skipLoop_sender (dhr : Bytes32) (count : Nat) (ck : S.Key) (s : RatchetState S) :
    SameSender s (RatchetState.skipLoop dhr count ck s).1 := by
  induction count generalizing ck s with
  | zero => exact ⟨rfl, rfl, rfl, rfl⟩
  | succ count ih =>
    rw [RatchetState.skipLoop]
    dsimp only
    split_ifs with full
    · exact ⟨rfl, rfl, rfl, rfl⟩
    · have rest := ih (kdfCk S ck).1 { s with
        ckr := some (kdfCk S ck).1, skipped := s.skipped.insert (dhr, s.nr) (kdfCk S ck).2, nr := s.nr + 1 }
      exact ⟨rest.dhs, rest.rk, rest.dhsPub, rest.pn⟩

theorem skipMessageKeys_sender (s : RatchetState S) (upto : UInt32) : SameSender s (s.skipMessageKeys upto).1 := by
  unfold RatchetState.skipMessageKeys
  split
  · exact ⟨rfl, rfl, rfl, rfl⟩
  · split
    · exact ⟨rfl, rfl, rfl, rfl⟩
    · split_ifs with far
      · exact ⟨rfl, rfl, rfl, rfl⟩
      · exact skipLoop_sender ..

theorem chainKey_sender (s : RatchetState S) (n : UInt32) : SameSender s (s.chainKey n).1 := by
  have skipped := skipMessageKeys_sender s n
  unfold RatchetState.chainKey
  split
  · next failed =>
    rw [failed] at skipped
    exact skipped
  · next done =>
    rw [done] at skipped
    split
    · exact skipped
    · exact ⟨skipped.dhs, skipped.rk, skipped.dhsPub, skipped.pn⟩

/-- Looking for a message key, found or not, leaves the sending side alone unless it turns
the ratchet. -/
theorem receiveKey_sender (s : RatchetState S) (header : Header) (generated : Bytes32) :
    SameSender s (s.receiveKey header generated).1 ∨
      (s.receiveKey header generated).1.rk = (s.turnOutputs header generated).2.1 := by
  unfold RatchetState.receiveKey
  split
  · exact .inl ⟨rfl, rfl, rfl, rfl⟩
  · unfold RatchetState.turnIfNew
    split_ifs with current
    · exact .inl (chainKey_sender ..)
    · have drained := skipMessageKeys_sender s header.pn
      cases call : s.skipMessageKeys header.pn with
      | mk middle answer =>
        rw [call] at drained
        cases answer with
        | error e => exact .inl drained
        | ok done =>
          right
          have kept := (chainKey_sender (middle.dhRatchet header generated) header.n).rk
          have outputs : middle.turnOutputs header generated = s.turnOutputs header generated := by
            rw [RatchetState.turnOutputs, RatchetState.turnOutputs, drained.rk, drained.dhs]
          rw [← outputs]
          exact kept

variable {root : S.Key} {w w' : World S} {q : Party} {stamp : Nat → Bytes32 × UInt32}

theorem Stamped.keep (stamped : Stamped root w q stamp) (same : SameSender (w.state q) (w'.state q))
    (logged : ∀ m ∈ w'.sent, m.sender = q → m ∈ w.sent) : Stamped root w' q stamp where
  now := by
    intro depth place
    rw [same.rk] at place
    rw [same.dhsPub, same.pn]
    exact stamped.now depth place
  sent := fun m member own => stamped.sent m (logged m member own) own

theorem stamped_start (signedPrekey generated : Bytes32) (q : Party) :
    ∃ stamp, Stamped root (World.start root signedPrekey generated) q stamp :=
  ⟨fun _ => (((World.start root signedPrekey generated).state q).dhsPub, ((World.start root signedPrekey generated).state q).pn),
    fun _ _ => rfl, fun _ absent => absurd absent List.not_mem_nil⟩

variable (ideal : Ideal S) (session : SessionRoot S root)
include ideal session

/-- A turn takes the party to a depth that it has not sent from. -/
theorem Stamped.turn (stamped : Stamped root w q stamp) (ledger : Ledger S root w) {header : Header}
    {generated : Bytes32} (turned : (w'.state q).rk = ((w.state q).turnOutputs header generated).2.1)
    (logged : ∀ m ∈ w'.sent, m.sender = q → m ∈ w.sent) : ∃ stamp', Stamped root w' q stamp' := by
  obtain ⟨depth, sendPos, recvPos, accounted⟩ := ledger.party q
  have there : RootAt S root (depth + 2) (w'.state q).rk := by
    rw [turned]
    exact .step (.step accounted.placed.rk _) _
  refine ⟨Function.update stamp (depth + 2) ((w'.state q).dhsPub, (w'.state q).pn), ?_, ?_⟩
  · intro other place
    obtain rfl := RootAt.unique ideal session place there
    exact Function.update_self ..
  · intro m member own header' ciphertext d k parsed place
    obtain ⟨d', k', place', turns, total, _⟩ := accounted.sent m (logged m member own) own
    obtain ⟨rfl, _⟩ := MessageAt.unique ideal session place place'
    rw [Function.update_of_ne (by omega)]
    exact stamped.sent m (logged m member own) own header' ciphertext d k parsed place

theorem Stamped.decrypt (stamped : Stamped root w q stamp) (ledger : Ledger S root w) {p : Party}
    {generated : Bytes32} {message : Bytes} {after : RatchetState S} {answer : Except CryptoError Bytes}
    (call : (w.state p).decrypt generated message = (after, answer))
    (state : w'.state = Function.update w.state p after) (sent : w'.sent = w.sent) :
    ∃ stamp', Stamped root w' q stamp' := by
  have logged : ∀ m ∈ w'.sent, m.sender = q → m ∈ w.sent := fun m member _ => sent ▸ member
  by_cases own : q = p
  · subst own
    have there : w'.state q = ((w.state q).decrypt generated message).1 := by rw [state, Function.update_self, call]
    rcases RatchetState.decrypt_state (w.state q) generated message with same | ⟨header, looked⟩
    · rw [same] at there
      exact ⟨stamp, stamped.keep (there ▸ ⟨rfl, rfl, rfl, rfl⟩) logged⟩
    · rw [looked] at there
      rcases receiveKey_sender (w.state q) header generated with kept | turned
      · exact ⟨stamp, stamped.keep (there ▸ kept) logged⟩
      · exact stamped.turn ideal session ledger (there ▸ turned) logged
  · have same : w'.state q = w.state q := by rw [state, Function.update_of_ne own]
    exact ⟨stamp, stamped.keep (same ▸ ⟨rfl, rfl, rfl, rfl⟩) logged⟩

theorem Stamped.encrypt (stamped : Stamped root w q stamp) (ledger : Ledger S root w) {p : Party}
    {plaintext message : Bytes} {after : RatchetState S} {key : S.Key}
    (call : (w.state p).encrypt plaintext = (after, .ok message)) (used : (w.state p).sendKey = some key) :
    Stamped root { w with
      state := Function.update w.state p after
      sent := w.sent ++ [⟨p, plaintext, message, key⟩] } q stamp := by
  obtain ⟨ck, ciphertext, chain, rfl, sealed, rfl⟩ := RatchetState.encrypt_ok call
  simp only [RatchetState.sendKey, chain, Option.map_some, Option.some.injEq] at used
  subst used
  have same : SameSender (w.state q) (Function.update w.state p
      { w.state p with cks := some (kdfCk S ck).1, ns := (w.state p).ns + 1 } q) := by
    by_cases own : q = p
    · subst own
      rw [Function.update_self]
      exact ⟨rfl, rfl, rfl, rfl⟩
    · rw [Function.update_of_ne own]
      exact ⟨rfl, rfl, rfl, rfl⟩
  refine ⟨?_, ?_⟩
  · intro depth place
    dsimp only at place ⊢
    rw [same.rk] at place
    rw [same.dhsPub, same.pn]
    exact stamped.now depth place
  · intro m member own header ciphertext' d k parsed place
    rcases logged_cases member with old | rfl
    · exact stamped.sent m old own header ciphertext' d k parsed place
    · dsimp only at own parsed place
      subst own
      rw [parseMessage_encode _ (sealMessage_fits ideal.toLawful sealed)] at parsed
      cases parsed
      obtain ⟨depth, sendPos, recvPos, accounted⟩ := ledger.party p
      have sending : MessageAt S root depth sendPos (kdfCk S ck).2 := ⟨ck, accounted.placed.cks ck chain, rfl⟩
      obtain ⟨rfl, _⟩ := MessageAt.unique ideal session place sending
      exact stamped.now d accounted.placed.rk

theorem stamped_step {env : Surroundings S} (ledger : Ledger S root w) (stamped : ∃ stamp, Stamped root w q stamp)
    (step : Step env w w') : ∃ stamp, Stamped root w' q stamp := by
  obtain ⟨stamp, stamped⟩ := stamped
  cases step with
  | encrypt p call used => exact ⟨stamp, stamped.encrypt ideal session ledger call used⟩
  | encryptFailed p call kept =>
    refine ⟨stamp, stamped.keep ?_ (fun m member _ => member)⟩
    dsimp only
    by_cases own : q = p
    · subst own
      rw [Function.update_self]
      rcases RatchetState.encrypt_error call with rfl | ⟨ck, _, rfl⟩
      · exact ⟨rfl, rfl, rfl, rfl⟩
      · exact ⟨rfl, rfl, rfl, rfl⟩
    · rw [Function.update_of_ne own]
      exact ⟨rfl, rfl, rfl, rfl⟩
  | decrypt p delivered draw call used => exact stamped.decrypt ideal session ledger call rfl rfl
  | decryptFailed p delivered draw call kept => exact stamped.decrypt ideal session ledger call rfl rfl
  | rolledBack => exact ⟨stamp, stamped⟩

/-- In every run, messages of one sending chain carry one stamp. -/
theorem stamped_run {env : Surroundings S} {signedPrekey generated : Bytes32}
    (run : Run env (World.start root signedPrekey generated) w) (q : Party) : ∃ stamp, Stamped root w q stamp := by
  induction run with
  | refl => exact stamped_start signedPrekey generated q
  | tail before step ih =>
    exact stamped_step ideal session (ledger_run ideal session (ledger_start signedPrekey generated) before) ih step

end

end Buh.Ratchet.Stamps
