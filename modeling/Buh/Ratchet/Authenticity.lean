import Buh.Ratchet.Secrecy

/-! A hostile network around one session. It may deliver any bytes at all; what it
cannot do is seal a ciphertext under a key it does not know. -/

namespace Buh.Ratchet.Authenticity
open Buh.Library.Deduction Buh.Wire.Codec Buh.Crypto Buh.Crypto.Primitives Buh.Ratchet.Message
  Buh.Ratchet.Chain Buh.Ratchet.State Buh.Ratchet.Placement Buh.Ratchet.Session Buh.Ratchet.Secrecy

/-- None of the session's keys is among the given facts. -/
def SessionUnknown {S : Suite} (root : S.Key) (knowledge : Set (Fact S)) : Prop :=
  ∀ fact ∈ knowledge, fact ∉ everywhere.blocked root ∅

/-- The message carries no ciphertext but one that a party sent, or one sealed under a
key that can be derived from the network's knowledge. -/
def Deliverable {S : Suite} (knowledge : Set (Fact S)) (w : World S) (message : Bytes) : Prop :=
  ∀ header ciphertext, parseMessage message = .ok (header, ciphertext) →
    ∀ key nonce aad plaintext, S.aeadEncrypt key nonce aad plaintext = some ciphertext →
      Derivable (Rule S) knowledge (.key key) ∨
        ∃ m ∈ w.sent, ∃ header', parseMessage m.message = .ok (header', ciphertext)

/-- A network with the given knowledge, drawing and rollback left open. -/
def network {S : Suite} (knowledge : Set (Fact S)) (draws : World S → Bytes32 → Prop) (keepsErrors : Prop) :
    Surroundings S where
  delivers w _ message := Deliverable knowledge w message
  draws := draws
  keepsErrors := keepsErrors

/-- The message carries no ciphertext sealed under a key of the session but one that a
party sent. -/
def Unforged {S : Suite} (root : S.Key) (w : World S) (message : Bytes) : Prop :=
  ∀ header ciphertext, parseMessage message = .ok (header, ciphertext) →
    ∀ d k mk nonce aad plaintext, MessageAt S root d k mk →
      S.aeadEncrypt (messageKeys S mk).1 nonce aad plaintext = some ciphertext →
      ∃ m ∈ w.sent, ∃ header', parseMessage m.message = .ok (header', ciphertext)

/-- The peer of the receiver sent this plaintext in a message with the same header and
ciphertext. -/
def Attributed {S : Suite} (w : World S) (o : Opened S) : Prop :=
  ∃ m ∈ w.sent, m.sender = o.receiver.peer ∧ m.plaintext = o.plaintext ∧ m.key = o.key ∧
    parseMessage m.message = parseMessage o.message

theorem deliverable_sent {S : Suite} {knowledge : Set (Fact S)} {w : World S} {m : Sent S}
    (member : m ∈ w.sent) : Deliverable knowledge w m.message :=
  fun header _ parsed _ _ _ _ _ => Or.inr ⟨m, member, header, parsed⟩

section
variable {S : Suite} (ideal : Ideal S) {root : S.Key} (session : SessionRoot S root)
include ideal session

/-- Knowledge without the session's keys cannot forge. -/
theorem Deliverable.unforged {knowledge : Set (Fact S)} (unknown : SessionUnknown root knowledge) {w : World S}
    {message : Bytes} (deliverable : Deliverable knowledge w message) : Unforged root w message := by
  intro header ciphertext parsed d k mk nonce aad plaintext place sealed
  rcases deliverable header ciphertext parsed _ _ _ _ sealed with derivable | sent
  · have secret := Region.not_derivable ideal session unknown .aead
      ⟨mk, ⟨d, k, trivial, place, Set.notMem_empty mk⟩, rfl⟩
    exact absurd derivable secret
  · exact sent

omit session in
/-- What a decrypt call opens was sent by somebody under the key it was opened with. -/
theorem opened_was_sent {w : World S} (recorded : Recorded w) {message plaintext : Bytes} {header : Header}
    {ciphertext : Bytes} {mk : S.Key} {d k : Nat} (unforged : Unforged root w message)
    (parsed : parseMessage message = .ok (header, ciphertext)) (place : MessageAt S root d k mk)
    (opened : openMessage S mk (toAad header) ciphertext = .ok plaintext) :
    ∃ m ∈ w.sent, m.key = mk ∧ m.plaintext = plaintext ∧
      parseMessage m.message = .ok (header, ciphertext) := by
  have sealed := ideal.encrypt_decrypt (aeadOpen_eq_ok.mp opened)
  obtain ⟨m, member, header', same⟩ := unforged header ciphertext parsed d k mk _ _ _ place sealed
  obtain ⟨header₁, ciphertext₁, parsed₁, sealed₁⟩ := recorded.sent m member
  rw [same] at parsed₁
  cases parsed₁
  obtain ⟨keys, _, aads, plaintexts⟩ := ideal.encrypt_inj (aeadSeal_eq_ok.mp sealed₁) sealed
  obtain rfl := toAad_injective aads
  exact ⟨m, member, messageKeys_key_inj ideal keys, plaintexts, same⟩

/-- The sender of a message opened by `p` is not `p` itself: a party never receives at
a depth it sends at. -/
theorem sender_is_peer {w : World S} (ledger : Ledger S root w) {m : Sent S} (member : m ∈ w.sent)
    {p : Party} {depth recvPos : Nat} (parity : depth % 2 = p.parity)
    (placed : ∃ d k, MessageAt S root d k m.key ∧ Past depth recvPos d k) : m.sender = p.peer := by
  rcases Party.eq_or_peer p m.sender with mine | theirs
  · obtain ⟨depth', sendPos', recvPos', accounted⟩ := ledger.party p
    obtain ⟨d, k, place, turns, total, _⟩ := accounted.sent m member mine
    obtain ⟨d', k', place', turns', total', _⟩ := placed
    have same := (MessageAt.unique ideal session place place').1
    have parity' := accounted.parity
    omega
  · exact theirs

/-- A message that `decrypt` opens comes from the peer, with this header, ciphertext and
plaintext and under the key it is opened with. -/
theorem decrypt_attributed {w : World S} (ledger : Ledger S root w) (recorded : Recorded w) {p : Party}
    {message plaintext ciphertext : Bytes} {header : Header} {generated : Bytes32} {after : RatchetState S}
    {mk : S.Key} (unforged : Unforged root w message) (parsed : parseMessage message = .ok (header, ciphertext))
    (received : (w.state p).receiveKey header generated = (after, .ok mk))
    (opened : openMessage S mk (toAad header) ciphertext = .ok plaintext) :
    ∃ m ∈ w.sent, m.sender = p.peer ∧ m.plaintext = plaintext ∧ m.key = mk ∧
      parseMessage m.message = .ok (header, ciphertext) := by
  obtain ⟨depth, sendPos, recvPos, accounted⟩ := ledger.party p
  obtain ⟨depth', sendPos', recvPos', evolves, returned⟩ :=
    receiveKey_evolves ideal session header generated accounted.placed
  obtain ⟨_, _, d, k, place, past⟩ := returned mk (by rw [received])
  obtain ⟨m, sent, rfl, plaintexts, same⟩ := opened_was_sent ideal recorded unforged parsed place opened
  have moved : depth' % 2 = p.parity := by
    have parity := accounted.parity
    rcases evolves.moves with ⟨rfl, _⟩ | ⟨rfl, _⟩ <;> omega
  have sender := sender_is_peer ideal session ledger sent moved ⟨d, k, place, past⟩
  exact ⟨m, sent, sender, plaintexts, rfl, same⟩

theorem attributed_step {env : Surroundings S} (unforged : ∀ w p message, env.delivers w p message →
      Unforged root w message) {w w' : World S} (ledger : Ledger S root w)
    (recorded : Recorded w) (attributed : ∀ o ∈ w.opened, Attributed w o)
    (step : Step env w w') : ∀ o ∈ w'.opened, Attributed w' o := by
  cases step with
  | encrypt p call used =>
    intro o member
    obtain ⟨m, sent, rest⟩ := attributed o member
    exact ⟨m, List.mem_append_left _ sent, rest⟩
  | encryptFailed p call kept => exact attributed
  | decrypt p delivered draw call used =>
    obtain ⟨header, ciphertext, parsed, received, opened⟩ := RatchetState.decrypt_used call used
    intro o member
    rcases logged_cases member with old | rfl
    · exact attributed o old
    · obtain ⟨m, sent, sender, plaintexts, keys, same⟩ :=
        decrypt_attributed ideal session ledger recorded (unforged w p _ delivered) parsed received opened
      exact ⟨m, sent, sender, plaintexts, keys, same.trans parsed.symm⟩
  | decryptFailed p delivered draw call kept => exact attributed
  | rolledBack => exact attributed

theorem attributed_run {env : Surroundings S} (unforged : ∀ w p message, env.delivers w p message →
      Unforged root w message) {signedPrekey generated : Bytes32} {w : World S}
    (run : Run env (World.start root signedPrekey generated) w) :
    ∀ o ∈ w.opened, Attributed w o := by
  induction run with
  | refl => exact fun o absent => absurd absent List.not_mem_nil
  | tail before step ih =>
    have ledger := ledger_run ideal session (ledger_start signedPrekey generated) before
    exact attributed_step ideal session unforged ledger (recorded_run ideal.toLawful before) ih step

omit session in
/-- Messages opened under different keys are different messages. -/
theorem opened_parse_ne {o o' : Opened S} (genuine : o.Genuine) (genuine' : o'.Genuine)
    (different : o.key ≠ o'.key) : parseMessage o.message ≠ parseMessage o'.message := by
  intro same
  obtain ⟨header, ciphertext, parsed, opened⟩ := genuine
  obtain ⟨header', ciphertext', parsed', opened'⟩ := genuine'
  rw [parsed, parsed'] at same
  cases same
  exact different (openMessage_key_unique ideal opened opened')

/-- Authenticity and at-most-once acceptance. Whatever a network without the session's
keys delivers, and whether the state an error leaves is kept or not, each successful
`decrypt` returns what the peer encrypted into a message with the same header and
ciphertext, and no header and ciphertext are accepted twice. -/
theorem opened_authentic_once {knowledge : Set (Fact S)} (unknown : SessionUnknown root knowledge)
    {draws : World S → Bytes32 → Prop} {keepsErrors : Prop} {signedPrekey generated : Bytes32} {w : World S}
    (run : Run (network knowledge draws keepsErrors) (World.start root signedPrekey generated) w) :
    (∀ o ∈ w.opened, ∃ header ciphertext, parseMessage o.message = .ok (header, ciphertext) ∧
      ∃ m ∈ w.sent, m.sender = o.receiver.peer ∧ m.plaintext = o.plaintext ∧
        parseMessage m.message = .ok (header, ciphertext)) ∧
      w.opened.Pairwise (fun o o' => parseMessage o.message ≠ parseMessage o'.message) := by
  have ledger := ledger_run ideal session (ledger_start signedPrekey generated) run
  have recorded := recorded_run ideal.toLawful run
  constructor
  · intro o member
    obtain ⟨header, ciphertext, parsed, _⟩ := recorded.opened o member
    have unforged : ∀ w p message, (network knowledge draws keepsErrors).delivers w p message →
        Unforged root w message := fun _ _ _ => Deliverable.unforged ideal session unknown
    obtain ⟨m, sent, sender, plaintexts, _, same⟩ := attributed_run ideal session unforged run o member
    exact ⟨header, ciphertext, parsed, m, sent, sender, plaintexts, same.trans parsed⟩
  · have distinct : w.opened.Pairwise (fun o o' => o.key ≠ o'.key) := List.pairwise_map.mp ledger.openedKeys
    exact distinct.imp_of_mem fun first second different =>
      opened_parse_ne ideal (recorded.opened _ first) (recorded.opened _ second) different

end

theorem opened_authentic_once_sample : ∃ w : World Symbolic.suite,
    Run (network ∅ (fun _ _ => True) True) (World.start sampleRoot samplePrekey sampleGenerated) w ∧
      w.opened.length = 1 ∧ ∀ o ∈ w.opened, ∃ m ∈ w.sent, m.sender = o.receiver.peer ∧ m.plaintext = o.plaintext := by
  obtain ⟨ciphertext, sealed⟩ := sample_sealed
  obtain ⟨w, run, _, opened⟩ := exchange_run Symbolic.suite_lawful (network ∅ (fun _ _ => True) True)
    (List.Vector.replicate 32 3) sealed (fun w member => deliverable_sent member) (fun _ _ => trivial)
  refine ⟨w, run, by rw [opened]; rfl, fun o member => ?_⟩
  have authentic := opened_authentic_once Symbolic.suite_ideal sampleRoot_session
    (fun fact absent => absurd absent (Set.notMem_empty fact)) run
  obtain ⟨_, _, _, m, sent, sender, plaintexts, _⟩ := authentic.1 o member
  exact ⟨m, sent, sender, plaintexts⟩

end Buh.Ratchet.Authenticity
