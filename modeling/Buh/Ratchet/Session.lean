import Buh.Ratchet.Placement
import Buh.Crypto.Symbolic

/-! Runs of one session. Two in-memory ratchet states, one on each side, are driven by
`encrypt` and `decrypt` calls in any order on any byte strings; the world records what
each successful call was given, what it returned and which message key it used. -/

namespace Buh.Ratchet.Session
open Buh.Wire.Codec Buh.Crypto Buh.Crypto.Primitives Buh.Ratchet.Message Buh.Ratchet.Chain
  Buh.Ratchet.State Buh.Ratchet.Placement

inductive Party where
  | initiator
  | responder
  deriving DecidableEq

def Party.peer : Party → Party
  | .initiator => .responder
  | .responder => .initiator

@[simp] theorem Party.peer_peer (p : Party) : p.peer.peer = p := by cases p <;> rfl

theorem Party.peer_ne (p : Party) : p.peer ≠ p := by cases p <;> decide

theorem Party.eq_or_peer (p q : Party) : q = p ∨ q = p.peer := by cases p <;> cases q <;> decide

/-- A successful `encrypt` call. -/
structure Sent (S : Suite) where
  sender : Party
  plaintext : Bytes
  message : Bytes
  key : S.Key

/-- A successful `decrypt` call. -/
structure Opened (S : Suite) where
  receiver : Party
  message : Bytes
  plaintext : Bytes
  key : S.Key

structure World (S : Suite) where
  state : Party → RatchetState S
  sent : List (Sent S)
  opened : List (Opened S)
  /-- The public halves of the ratchet keys drawn so far. -/
  drawn : List Bytes32

/-- A log that has grown by one entry holds the old ones and the new one. -/
theorem logged_cases {α : Type*} {log : List α} {entry other : α} (member : other ∈ log ++ [entry]) :
    other ∈ log ∨ other = entry := by
  rwa [List.mem_append, List.mem_singleton] at member

theorem logged_nodup {α β : Type*} {log : List α} {entry : α} {key : α → β} (nodup : (log.map key).Nodup)
    (fresh : key entry ∉ log.map key) : ((log ++ [entry]).map key).Nodup := by
  rw [List.map_append, List.map_singleton, List.nodup_append_comm]
  exact List.nodup_cons.mpr ⟨fresh, nodup⟩

def World.start {S : Suite} (root : S.Key) (signedPrekey generated : Bytes32) : World S where
  state
    | .initiator => .initiator root (S.publicKey signedPrekey) generated
    | .responder => .responder root signedPrekey
  sent := []
  opened := []
  drawn := [S.publicKey signedPrekey, S.publicKey generated]

/-- What surrounds the two parties: which byte strings reach a party, which secrets
its generator returns, and whether the state an error leaves behind may be kept. -/
structure Surroundings (S : Suite) where
  delivers : World S → Party → Bytes → Prop
  draws : World S → Bytes32 → Prop
  keepsErrors : Prop

/-- The generator is asked for a secret exactly when the ratchet turns, which is when the
remote ratchet key changes. -/
def World.drawnBy {S : Suite} (w : World S) (p : Party) (after : RatchetState S) (generated : Bytes32) :
    List Bytes32 :=
  if (w.state p).dhr = after.dhr then w.drawn else w.drawn ++ [S.publicKey generated]

inductive Step {S : Suite} (env : Surroundings S) (w : World S) : World S → Prop where
  | encrypt (p : Party) {plaintext message : Bytes} {after : RatchetState S} {key : S.Key}
      (call : (w.state p).encrypt plaintext = (after, .ok message))
      (used : (w.state p).sendKey = some key) :
      Step env w { w with
        state := Function.update w.state p after
        sent := w.sent ++ [⟨p, plaintext, message, key⟩] }
  | encryptFailed (p : Party) {plaintext : Bytes} {after : RatchetState S} {e : CryptoError}
      (call : (w.state p).encrypt plaintext = (after, .error e)) (kept : env.keepsErrors) :
      Step env w { w with state := Function.update w.state p after }
  | decrypt (p : Party) {message plaintext : Bytes} {generated : Bytes32} {after : RatchetState S}
      {key : S.Key} (delivered : env.delivers w p message)
      (draw : (w.state p).dhr ≠ after.dhr → env.draws w generated)
      (call : (w.state p).decrypt generated message = (after, .ok plaintext))
      (used : (w.state p).openKey generated message = some key) :
      Step env w
        { state := Function.update w.state p after
          sent := w.sent
          opened := w.opened ++ [⟨p, message, plaintext, key⟩]
          drawn := w.drawnBy p after generated }
  | decryptFailed (p : Party) {message : Bytes} {generated : Bytes32} {after : RatchetState S}
      {e : CryptoError} (delivered : env.delivers w p message)
      (draw : (w.state p).dhr ≠ after.dhr → env.draws w generated)
      (call : (w.state p).decrypt generated message = (after, .error e)) (kept : env.keepsErrors) :
      Step env w { w with
        state := Function.update w.state p after
        drawn := w.drawnBy p after generated }
  /-- A failed call whose state is thrown away. -/
  | rolledBack : Step env w w

abbrev Run {S : Suite} (env : Surroundings S) (w w' : World S) : Prop := Relation.ReflTransGen (Step env) w w'

theorem sent_subset {S : Suite} {env : Surroundings S} {w w' : World S} (step : Step env w w') : w.sent ⊆ w'.sent := by
  cases step with
  | encrypt p call used => exact List.subset_append_left _ _
  | encryptFailed p call kept => exact List.Subset.refl _
  | decrypt p delivered draw call used => exact List.Subset.refl _
  | decryptFailed p delivered draw call kept => exact List.Subset.refl _
  | rolledBack => exact List.Subset.refl _

/-- The initiator sits at odd depths of the root chain, the responder at even ones. -/
def Party.parity : Party → Nat
  | .initiator => 1
  | .responder => 0

/-- The sending places a state at `depth` has already used. -/
def SentPast (depth sendPos d k : Nat) : Prop := ∃ turns, d + 2 * turns = depth ∧ (turns = 0 → k < sendPos)

/-- Every key a party used so far lies behind its place, and none of those it received
with is still banked. -/
structure Accounted (S : Suite) (root : S.Key) (w : World S) (p : Party) (depth sendPos recvPos : Nat) :
    Prop where
  placed : Placed S root (w.state p) depth sendPos recvPos
  parity : depth % 2 = p.parity
  sent : ∀ m ∈ w.sent, m.sender = p → ∃ d k, MessageAt S root d k m.key ∧ SentPast depth sendPos d k
  opened : ∀ o ∈ w.opened, o.receiver = p →
    (∃ d k, MessageAt S root d k o.key ∧ Past depth recvPos d k) ∧
      ∀ slot, (w.state p).skipped.lookup slot ≠ some o.key

structure Ledger (S : Suite) (root : S.Key) (w : World S) : Prop where
  party : ∀ p, ∃ depth sendPos recvPos, Accounted S root w p depth sendPos recvPos
  sentKeys : (w.sent.map Sent.key).Nodup
  openedKeys : (w.opened.map Opened.key).Nodup

theorem SentPast.mono {depth sendPos sendPos' d k : Nat} (past : SentPast depth sendPos d k)
    (further : sendPos ≤ sendPos') : SentPast depth sendPos' d k := by
  obtain ⟨turns, total, inside⟩ := past
  exact ⟨turns, total, fun none => lt_of_lt_of_le (inside none) further⟩

theorem SentPast.moves {depth sendPos recvPos depth' sendPos' recvPos' d k : Nat}
    (moves : Moves depth sendPos recvPos depth' sendPos' recvPos') (past : SentPast depth sendPos d k) :
    SentPast depth' sendPos' d k := by
  obtain ⟨turns, total, inside⟩ := past
  rcases moves with ⟨rfl, rfl, _⟩ | ⟨rfl, _⟩
  · exact ⟨turns, total, inside⟩
  · exact ⟨turns + 1, by omega, by omega⟩

theorem Past.moves {depth sendPos recvPos depth' sendPos' recvPos' d k : Nat}
    (moves : Moves depth sendPos recvPos depth' sendPos' recvPos') (past : Past depth recvPos d k) :
    Past depth' recvPos' d k := by
  rcases moves with ⟨rfl, rfl, further⟩ | ⟨rfl, _⟩
  · exact past.mono further
  · exact past.turn recvPos'

section
variable {S : Suite} {root : S.Key}

theorem ledger_start (signedPrekey generated : Bytes32) :
    Ledger S root (World.start root signedPrekey generated) where
  party := by
    intro p
    cases p with
    | initiator =>
      exact ⟨1, 0, 0, placed_initiator root _ generated, rfl, fun m absent => absurd absent (by simp [World.start]),
        fun o absent => absurd absent (by simp [World.start])⟩
    | responder =>
      exact ⟨0, 0, 0, placed_responder root signedPrekey, rfl, fun m absent => absurd absent (by simp [World.start]),
        fun o absent => absurd absent (by simp [World.start])⟩
  sentKeys := List.nodup_nil
  openedKeys := List.nodup_nil

/-- Keys used for sending and keys used for receiving never share a depth. -/
theorem Accounted.sent_parity {w : World S} {p : Party} {depth sendPos recvPos d k : Nat}
    (accounted : Accounted S root w p depth sendPos recvPos) (past : SentPast depth sendPos d k) :
    d % 2 = p.parity := by
  obtain ⟨turns, total, _⟩ := past
  have := accounted.parity
  omega

theorem Accounted.opened_parity {w : World S} {p : Party} {depth sendPos recvPos d k : Nat}
    (accounted : Accounted S root w p depth sendPos recvPos) (past : Past depth recvPos d k) :
    (d + 1) % 2 = p.parity := by
  obtain ⟨turns, total, _⟩ := past
  have := accounted.parity
  omega

/-- A party that makes no call keeps its account when the other one logs a call. -/
theorem Accounted.other {w w' : World S} {p q : Party} {depth sendPos recvPos : Nat}
    (accounted : Accounted S root w q depth sendPos recvPos) (same : w'.state q = w.state q)
    (sent : ∀ m ∈ w'.sent, m ∈ w.sent ∨ m.sender = p) (opened : ∀ o ∈ w'.opened, o ∈ w.opened ∨ o.receiver = p)
    (different : q ≠ p) : Accounted S root w' q depth sendPos recvPos where
  placed := same ▸ accounted.placed
  parity := accounted.parity
  sent := by
    intro m member mine
    rcases sent m member with old | theirs
    · exact accounted.sent m old mine
    · exact absurd (mine.symm.trans theirs) different
  opened := by
    intro o member mine
    rcases opened o member with old | theirs
    · rw [same]
      exact accounted.opened o old mine
    · exact absurd (mine.symm.trans theirs) different

/-- When `p` makes a call, its own account is the only one to be settled. -/
theorem Ledger.settle {w w' : World S} (ledger : Ledger S root w) {p : Party}
    (mine : ∃ depth sendPos recvPos, Accounted S root w' p depth sendPos recvPos)
    (state : ∀ q, q ≠ p → w'.state q = w.state q) (sent : ∀ m ∈ w'.sent, m ∈ w.sent ∨ m.sender = p)
    (opened : ∀ o ∈ w'.opened, o ∈ w.opened ∨ o.receiver = p) (q : Party) :
    ∃ depth sendPos recvPos, Accounted S root w' q depth sendPos recvPos := by
  by_cases same : q = p
  · rw [same]
    exact mine
  · obtain ⟨depth, sendPos, recvPos, accounted⟩ := ledger.party q
    exact ⟨depth, sendPos, recvPos, accounted.other (state q same) sent opened same⟩

/-- The bookkeeping of an `encrypt` call that takes a key from the sending chain and whose
state is kept, whether it returned a message or not. -/
theorem Accounted.send {w : World S} {p : Party} {depth sendPos recvPos : Nat}
    (accounted : Accounted S root w p depth sendPos recvPos) {ck : S.Key} (chain : (w.state p).cks = some ck)
    (ns : UInt32) :
    Accounted S root { w with
        state := Function.update w.state p { w.state p with cks := some (kdfCk S ck).1, ns := ns } } p
      depth (sendPos + 1) recvPos where
  placed := by
    simp only [Function.update_self]
    exact accounted.placed.send chain ns
  parity := accounted.parity
  sent := by
    intro m member mine
    obtain ⟨d, k, place, past⟩ := accounted.sent m member mine
    exact ⟨d, k, place, past.mono (Nat.le_succ _)⟩
  opened := by
    simp only [Function.update_self]
    exact accounted.opened

variable (ideal : Ideal S) (session : SessionRoot S root)
include ideal session

/-- The bookkeeping of a `decrypt` call whose state is kept, whether it opened a
message or not. -/
theorem Accounted.receive {w : World S} {p : Party} {depth sendPos recvPos : Nat}
    (accounted : Accounted S root w p depth sendPos recvPos) {after : RatchetState S}
    {depth' sendPos' recvPos' : Nat}
    (evolves : Evolves S root (w.state p) depth sendPos recvPos after depth' sendPos' recvPos')
    (drawn : List Bytes32) :
    Accounted S root { w with state := Function.update w.state p after, drawn := drawn } p
      depth' sendPos' recvPos' where
  placed := by
    simp only [Function.update_self]
    exact evolves.placed
  parity := by
    have := accounted.parity
    rcases evolves.moves with ⟨rfl, _⟩ | ⟨rfl, _⟩ <;> omega
  sent := by
    intro m member mine
    obtain ⟨d, k, place, past⟩ := accounted.sent m member mine
    exact ⟨d, k, place, past.moves evolves.moves⟩
  opened := by
    intro o member mine
    obtain ⟨⟨d, k, place, past⟩, gone⟩ := accounted.opened o member mine
    refine ⟨⟨d, k, place, Past.moves evolves.moves past⟩, ?_⟩
    intro slot held
    simp only [Function.update_self] at held
    rcases evolves.bank slot _ held with ⟨before, old⟩ | ⟨d', k', turns, ahead, total, beyond⟩
    · exact gone before old
    · obtain ⟨turns', total', inside⟩ := past
      obtain ⟨rfl, rfl⟩ := MessageAt.unique ideal session place ahead
      have := inside (by omega)
      have := beyond (by omega)
      omega

/-- A key `decrypt` opens with has not been used for opening before. -/
theorem Accounted.opens_fresh {w : World S} {p : Party} {depth sendPos recvPos : Nat}
    (accounted : Accounted S root w p depth sendPos recvPos) {mk : S.Key}
    (source : (∃ slot, (w.state p).skipped.lookup slot = some mk) ∨ Later S root depth recvPos mk) :
    ∀ o ∈ w.opened, o.receiver = p → o.key ≠ mk := by
  intro o member mine same
  obtain ⟨⟨d, k, place, turns, total, inside⟩, gone⟩ := accounted.opened o member mine
  rcases source with ⟨slot, held⟩ | ⟨d', k', turns', ahead, total', beyond⟩
  · exact gone slot (same ▸ held)
  · obtain ⟨rfl, rfl⟩ := MessageAt.unique ideal session place (same ▸ ahead)
    have := inside (by omega)
    have := beyond (by omega)
    omega

theorem ledger_encrypt {w : World S} (ledger : Ledger S root w) (p : Party)
    {plaintext message : Bytes} {after : RatchetState S} {key : S.Key}
    (call : (w.state p).encrypt plaintext = (after, .ok message))
    (used : (w.state p).sendKey = some key) :
    Ledger S root { w with
      state := Function.update w.state p after
      sent := w.sent ++ [⟨p, plaintext, message, key⟩] } := by
  obtain ⟨ck, ciphertext, chain, rfl, sealed, _⟩ := RatchetState.encrypt_ok call
  have keyEq : key = (kdfCk S ck).2 := by
    simp only [RatchetState.sendKey, chain, Option.map_some, Option.some.injEq] at used
    exact used.symm
  obtain ⟨depth, sendPos, recvPos, accounted⟩ := ledger.party p
  have place : MessageAt S root depth sendPos key := ⟨ck, accounted.placed.cks ck chain, keyEq⟩
  have fresh : key ∉ w.sent.map Sent.key := by
    rw [List.mem_map]
    rintro ⟨m, member, same⟩
    obtain ⟨depth', sendPos', recvPos', other⟩ := ledger.party m.sender
    obtain ⟨d, k, place', past⟩ := other.sent m member rfl
    obtain ⟨rfl, rfl⟩ := MessageAt.unique ideal session place (same ▸ place')
    rcases Party.eq_or_peer p m.sender with mine | theirs
    · obtain ⟨d, k, place'', turns, total, inside⟩ := accounted.sent m member mine
      obtain ⟨rfl, rfl⟩ := MessageAt.unique ideal session place (same ▸ place'')
      have := inside (by omega)
      omega
    · have odd := other.sent_parity past
      have even := accounted.parity
      rw [theirs] at odd
      cases p <;> simp [Party.parity, Party.peer] at odd even <;> omega
  have moved := accounted.send chain ((w.state p).ns + 1)
  refine ⟨ledger.settle (p := p) ?_ (fun q other => Function.update_of_ne other _ _) ?_ (fun o member => Or.inl member),
    ?_, ledger.openedKeys⟩
  · refine ⟨depth, sendPos + 1, recvPos, moved.placed, moved.parity, ?_, moved.opened⟩
    intro m member own
    rcases logged_cases member with old | rfl
    · exact moved.sent m old own
    · exact ⟨depth, sendPos, place, 0, rfl, by omega⟩
  · intro m member
    rcases logged_cases member with old | rfl
    · exact Or.inl old
    · exact Or.inr rfl
  · exact logged_nodup ledger.sentKeys fresh

omit ideal session in
theorem ledger_encryptFailed {w : World S} (ledger : Ledger S root w) (p : Party)
    {plaintext : Bytes} {after : RatchetState S} {e : CryptoError}
    (call : (w.state p).encrypt plaintext = (after, .error e)) :
    Ledger S root { w with state := Function.update w.state p after } := by
  refine ⟨ledger.settle (p := p) ?_ (fun q other => Function.update_of_ne other _ _) (fun m member => Or.inl member)
    (fun o member => Or.inl member), ledger.sentKeys, ledger.openedKeys⟩
  obtain ⟨depth, sendPos, recvPos, accounted⟩ := ledger.party p
  rcases RatchetState.encrypt_error call with rfl | ⟨ck, chain, rfl⟩
  · exact ⟨depth, sendPos, recvPos, by simpa using accounted⟩
  · exact ⟨depth, sendPos + 1, recvPos, accounted.send chain _⟩

theorem ledger_decryptFailed {w : World S} (ledger : Ledger S root w) (p : Party) {message : Bytes}
    {generated : Bytes32} {after : RatchetState S} {e : CryptoError} (drawn : List Bytes32)
    (call : (w.state p).decrypt generated message = (after, .error e)) :
    Ledger S root { w with state := Function.update w.state p after, drawn := drawn } := by
  refine ⟨ledger.settle (p := p) ?_ (fun q other => Function.update_of_ne other _ _) (fun m member => Or.inl member)
    (fun o member => Or.inl member), ledger.sentKeys, ledger.openedKeys⟩
  obtain ⟨depth, sendPos, recvPos, accounted⟩ := ledger.party p
  have state : ((w.state p).decrypt generated message).1 = after := by rw [call]
  rcases RatchetState.decrypt_state (w.state p) generated message with same | ⟨header, same⟩
  · rw [state] at same
    subst same
    exact ⟨_, _, _, accounted.receive ideal session (Evolves.refl accounted.placed) drawn⟩
  · rw [state] at same
    obtain ⟨depth', sendPos', recvPos', evolves, _⟩ :=
      receiveKey_evolves ideal session header generated accounted.placed
    exact ⟨_, _, _, accounted.receive ideal session (same ▸ evolves) drawn⟩

theorem ledger_decrypt {w : World S} (ledger : Ledger S root w) (p : Party)
    {message plaintext : Bytes} {generated : Bytes32} {after : RatchetState S} {key : S.Key}
    (drawn : List Bytes32) (call : (w.state p).decrypt generated message = (after, .ok plaintext))
    (used : (w.state p).openKey generated message = some key) :
    Ledger S root
      { state := Function.update w.state p after
        sent := w.sent
        opened := w.opened ++ [⟨p, message, plaintext, key⟩]
        drawn := drawn } := by
  obtain ⟨header, ciphertext, _, received, _⟩ := RatchetState.decrypt_used call used
  obtain ⟨depth, sendPos, recvPos, accounted⟩ := ledger.party p
  obtain ⟨depth', sendPos', recvPos', evolves, returned⟩ :=
    receiveKey_evolves ideal session header generated accounted.placed
  rw [received] at evolves returned
  obtain ⟨gone, source, d, k, place, past⟩ := returned key rfl
  have moved := accounted.receive ideal session evolves drawn
  have fresh : key ∉ w.opened.map Opened.key := by
    rw [List.mem_map]
    rintro ⟨o, member, same⟩
    rcases Party.eq_or_peer p o.receiver with mine | theirs
    · exact accounted.opens_fresh ideal session source o member mine same
    · obtain ⟨depth₁, sendPos₁, recvPos₁, other⟩ := ledger.party o.receiver
      obtain ⟨⟨d', k', place', past'⟩, _⟩ := other.opened o member rfl
      obtain ⟨rfl, rfl⟩ := MessageAt.unique ideal session place (same ▸ place')
      have odd := other.opened_parity past'
      have even := moved.opened_parity past
      rw [theirs] at odd
      cases p <;> simp [Party.parity, Party.peer] at odd even <;> omega
  refine ⟨ledger.settle (p := p) ?_ (fun q other => Function.update_of_ne other _ _) (fun m member => Or.inl member) ?_,
    ledger.sentKeys, ?_⟩
  · refine ⟨depth', sendPos', recvPos', moved.placed, moved.parity, moved.sent, ?_⟩
    intro o member own
    rcases logged_cases member with old | rfl
    · exact moved.opened o old own
    · refine ⟨⟨d, k, place, past⟩, ?_⟩
      simpa only [Function.update_self] using gone
  · intro o member
    rcases logged_cases member with old | rfl
    · exact Or.inl old
    · exact Or.inr rfl
  · exact logged_nodup ledger.openedKeys fresh

theorem ledger_step {env : Surroundings S} {w w' : World S} (ledger : Ledger S root w)
    (step : Step env w w') : Ledger S root w' := by
  cases step with
  | encrypt p call used => exact ledger_encrypt ideal session ledger p call used
  | encryptFailed p call kept => exact ledger_encryptFailed ledger p call
  | decrypt p delivered draw call used => exact ledger_decrypt ideal session ledger p _ call used
  | decryptFailed p delivered draw call kept => exact ledger_decryptFailed ideal session ledger p _ call
  | rolledBack => exact ledger

theorem ledger_run {env : Surroundings S} {w w' : World S} (ledger : Ledger S root w)
    (run : Run env w w') : Ledger S root w' := by
  induction run with
  | refl => exact ledger
  | tail _ step ih => exact ledger_step ideal session ih step

end

section
variable {S : Suite} {root : S.Key}

/-- The message is a header and a ciphertext, sealed under the logged key. -/
def Sent.Genuine (m : Sent S) : Prop :=
  ∃ header ciphertext, parseMessage m.message = .ok (header, ciphertext) ∧
    sealMessage S m.key (toAad header) m.plaintext = .ok ciphertext

def Opened.Genuine (o : Opened S) : Prop :=
  ∃ header ciphertext, parseMessage o.message = .ok (header, ciphertext) ∧
    openMessage S o.key (toAad header) ciphertext = .ok o.plaintext

/-- Both logs hold what the calls really computed. -/
structure Recorded (w : World S) : Prop where
  sent : ∀ m ∈ w.sent, m.Genuine
  opened : ∀ o ∈ w.opened, o.Genuine

theorem sealMessage_fits (lawful : Lawful S) {mk : S.Key} {aad plaintext ciphertext : Bytes}
    (sealed : sealMessage S mk aad plaintext = .ok ciphertext) : ciphertext.length < 2 ^ 64 :=
  lawful.ciphertext_fits (aeadSeal_eq_ok.mp sealed)

theorem openMessage_sealMessage (lawful : Lawful S) {mk : S.Key} {aad plaintext ciphertext : Bytes}
    (sealed : sealMessage S mk aad plaintext = .ok ciphertext) :
    openMessage S mk aad ciphertext = .ok plaintext :=
  aeadOpen_eq_ok.mpr (lawful.decrypt_encrypt (aeadSeal_eq_ok.mp sealed))

theorem recorded_step (lawful : Lawful S) {env : Surroundings S} {w w' : World S} (recorded : Recorded w)
    (step : Step env w w') : Recorded w' := by
  cases step with
  | encrypt p call used =>
    obtain ⟨ck, ciphertext, chain, _, sealed, rfl⟩ := RatchetState.encrypt_ok call
    simp only [RatchetState.sendKey, chain, Option.map_some, Option.some.injEq] at used
    subst used
    refine ⟨?_, recorded.opened⟩
    intro m member
    rcases logged_cases member with old | rfl
    · exact recorded.sent m old
    · exact ⟨_, ciphertext, parseMessage_encode _ (sealMessage_fits lawful sealed), sealed⟩
  | encryptFailed p call kept => exact ⟨recorded.sent, recorded.opened⟩
  | decrypt p delivered draw call used =>
    obtain ⟨header, ciphertext, parsed, _, opened⟩ := RatchetState.decrypt_used call used
    refine ⟨recorded.sent, ?_⟩
    intro o member
    rcases logged_cases member with old | rfl
    · exact recorded.opened o old
    · exact ⟨header, ciphertext, parsed, opened⟩
  | decryptFailed p delivered draw call kept => exact ⟨recorded.sent, recorded.opened⟩
  | rolledBack => exact recorded

theorem recorded_run (lawful : Lawful S) {env : Surroundings S} {signedPrekey generated : Bytes32}
    {w : World S} (run : Run env (World.start root signedPrekey generated) w) : Recorded w := by
  induction run with
  | refl =>
    exact ⟨fun m absent => absurd absent List.not_mem_nil, fun o absent => absurd absent List.not_mem_nil⟩
  | tail _ step ih => exact recorded_step lawful ih step

/-- The key of the first message of a session. -/
def firstKey (S : Suite) (root : S.Key) (signedPrekey generated : Bytes32) : S.Key :=
  (kdfCk S (kdfRk S root (S.diffieHellman generated (S.publicKey signedPrekey))).2).2

def firstHeader (S : Suite) (generated : Bytes32) : Header := ⟨S.publicKey generated, 0, 0⟩

theorem initiator_encrypts {signedPrekey generated : Bytes32} {plaintext ciphertext : Bytes}
    (sealed : sealMessage S (firstKey S root signedPrekey generated)
      (toAad (firstHeader S generated)) plaintext = .ok ciphertext) :
    ∃ after, (RatchetState.initiator root (S.publicKey signedPrekey) generated).encrypt plaintext =
      (after, .ok (messageFrame (firstHeader S generated) ciphertext).encode) := by
  unfold firstKey firstHeader at sealed
  unfold RatchetState.encrypt
  simp only [RatchetState.initiator, RatchetState.nextHeader, sealed]
  exact ⟨_, rfl⟩

theorem initiator_encrypt_ok {signedPrekey generated : Bytes32} {plaintext message : Bytes}
    {after : RatchetState S}
    (call : (RatchetState.initiator root (S.publicKey signedPrekey) generated).encrypt plaintext =
      (after, .ok message)) :
    ∃ ciphertext, sealMessage S (firstKey S root signedPrekey generated) (toAad (firstHeader S generated))
        plaintext = .ok ciphertext ∧ message = (messageFrame (firstHeader S generated) ciphertext).encode := by
  obtain ⟨ck, ciphertext, chain, _, sealed, rfl⟩ := RatchetState.encrypt_ok call
  obtain rfl := Option.some.inj chain
  exact ⟨ciphertext, sealed, rfl⟩

/-- The chain of the responder's first reply. -/
def replySeed (S : Suite) (root : S.Key) (signedPrekey generated drawn : Bytes32) : S.Key :=
  (kdfRk S (kdfRk S root (S.diffieHellman generated (S.publicKey signedPrekey))).1
    (S.diffieHellman drawn (S.publicKey generated))).2

theorem responder_receives (lawful : Lawful S) (root : S.Key) (signedPrekey generated drawn : Bytes32) :
    ∃ after, (RatchetState.responder root signedPrekey).receiveKey (firstHeader S generated) drawn =
      (after, .ok (firstKey S root signedPrekey generated)) ∧ after.dhsPub = S.publicKey drawn ∧
        after.cks = some (replySeed S root signedPrekey generated drawn) := by
  have same := lawful.dh_comm signedPrekey generated
  let turned := (RatchetState.responder root signedPrekey).dhRatchet (firstHeader S generated) drawn
  refine ⟨{ turned with
    ckr := some (kdfCk S (kdfRk S root (S.diffieHellman generated (S.publicKey signedPrekey))).2).1, nr := 1 }, ?_, rfl,
    ?_⟩
  · simp [RatchetState.receiveKey, RatchetState.turnIfNew, RatchetState.chainKey, RatchetState.skipMessageKeys,
      RatchetState.responder, RatchetState.dhRatchet, RatchetState.turnOutputs, firstHeader, firstKey,
      RatchetState.skipLoop, same, turned]
  · simp [RatchetState.responder, RatchetState.dhRatchet, RatchetState.turnOutputs, firstHeader, replySeed, same, turned]

/-- The responder opens the first message of the initiator, whatever it draws. -/
theorem responder_decrypts (lawful : Lawful S) {signedPrekey generated : Bytes32} (drawn : Bytes32)
    {plaintext ciphertext : Bytes}
    (sealed : sealMessage S (firstKey S root signedPrekey generated)
      (toAad (firstHeader S generated)) plaintext = .ok ciphertext) :
    ∃ after, (RatchetState.responder root signedPrekey).decrypt drawn
        (messageFrame (firstHeader S generated) ciphertext).encode = (after, .ok plaintext) ∧
      (RatchetState.responder root signedPrekey).openKey drawn
        (messageFrame (firstHeader S generated) ciphertext).encode =
          some (firstKey S root signedPrekey generated) ∧
      after.dhsPub = S.publicKey drawn ∧ after.cks = some (replySeed S root signedPrekey generated drawn) := by
  have parsed := parseMessage_encode (firstHeader S generated) (sealMessage_fits lawful sealed)
  obtain ⟨after, received, turned⟩ := responder_receives lawful root signedPrekey generated drawn
  have decrypted := RatchetState.decrypt_received parsed received
  rw [openMessage_sealMessage lawful sealed] at decrypted
  refine ⟨after, decrypted, ?_, turned⟩
  simp only [RatchetState.openKey, parsed, received, Except.toOption]

/-- The log entry of the first message. -/
def firstSent (S : Suite) (root : S.Key) (signedPrekey generated : Bytes32) (plaintext ciphertext : Bytes) :
    Sent S :=
  ⟨.initiator, plaintext, (messageFrame (firstHeader S generated) ciphertext).encode,
    firstKey S root signedPrekey generated⟩

/-- Wherever a genuine message gets through, a session can exchange its first one. -/
theorem exchange_steps (lawful : Lawful S) (env : Surroundings S) {signedPrekey generated : Bytes32}
    (drawn : Bytes32) {plaintext ciphertext : Bytes}
    (sealed : sealMessage S (firstKey S root signedPrekey generated)
      (toAad (firstHeader S generated)) plaintext = .ok ciphertext)
    (delivered : ∀ w, firstSent S root signedPrekey generated plaintext ciphertext ∈ w.sent →
      env.delivers w .responder (messageFrame (firstHeader S generated) ciphertext).encode)
    (draw : ∀ w, w.drawn = [S.publicKey signedPrekey, S.publicKey generated] → env.draws w drawn) :
    ∃ w w', Step env (World.start root signedPrekey generated) w ∧ Step env w w' ∧
      w.sent = [firstSent S root signedPrekey generated plaintext ciphertext] ∧ w'.sent = w.sent ∧
      w'.opened = [⟨.responder, (messageFrame (firstHeader S generated) ciphertext).encode, plaintext,
        firstKey S root signedPrekey generated⟩] ∧
      (w.state .responder).dhsPub = S.publicKey signedPrekey ∧
      (w'.state .responder).dhsPub = S.publicKey drawn ∧
      (w'.state .responder).cks = some (replySeed S root signedPrekey generated drawn) := by
  obtain ⟨after, encrypted⟩ := initiator_encrypts sealed
  obtain ⟨after', decrypted, used, turned⟩ := responder_decrypts lawful drawn sealed
  let middle : World S := { World.start root signedPrekey generated with
    state := Function.update (World.start root signedPrekey generated).state .initiator after
    sent := [] ++ [firstSent S root signedPrekey generated plaintext ciphertext] }
  have sends : Step env (World.start root signedPrekey generated) middle := .encrypt .initiator encrypted rfl
  have opens : Step env middle _ := .decrypt .responder (delivered _ (List.mem_singleton_self _))
    (fun _ => draw _ rfl) decrypted used
  exact ⟨middle, _, sends, opens, rfl, rfl, rfl, rfl, turned⟩

theorem exchange_run (lawful : Lawful S) (env : Surroundings S) {signedPrekey generated : Bytes32}
    (drawn : Bytes32) {plaintext ciphertext : Bytes}
    (sealed : sealMessage S (firstKey S root signedPrekey generated)
      (toAad (firstHeader S generated)) plaintext = .ok ciphertext)
    (delivered : ∀ w, firstSent S root signedPrekey generated plaintext ciphertext ∈ w.sent →
      env.delivers w .responder (messageFrame (firstHeader S generated) ciphertext).encode)
    (draw : ∀ w, w.drawn = [S.publicKey signedPrekey, S.publicKey generated] → env.draws w drawn) :
    ∃ w, Run env (World.start root signedPrekey generated) w ∧
      w.sent = [firstSent S root signedPrekey generated plaintext ciphertext] ∧
      w.opened = [⟨.responder, (messageFrame (firstHeader S generated) ciphertext).encode, plaintext,
        firstKey S root signedPrekey generated⟩] := by
  obtain ⟨w, w', sends, opens, sent, kept, opened, _⟩ := exchange_steps lawful env drawn sealed delivered draw
  exact ⟨w', (Relation.ReflTransGen.single sends).tail opens, kept.trans sent, opened⟩

end

section
variable {S : Suite} {root : S.Key}

/-- No message key is used by two successful `encrypt` calls of a session, on whichever
side and whatever was received in between, so no AEAD key and nonce are used twice. -/
theorem sent_keys_nodup (ideal : Ideal S) (session : SessionRoot S root) {env : Surroundings S}
    {signedPrekey generated : Bytes32} {w : World S}
    (run : Run env (World.start root signedPrekey generated) w) :
    (∀ m ∈ w.sent, m.Genuine) ∧ (w.sent.map Sent.key).Nodup ∧
      (w.sent.map (fun m => messageKeys S m.key)).Nodup := by
  have ledger := ledger_run ideal session (ledger_start signedPrekey generated) run
  have recorded := recorded_run ideal.toLawful run
  refine ⟨recorded.sent, ledger.sentKeys, ?_⟩
  have pairs := ledger.sentKeys.map (f := messageKeys S)
    (fun _ _ same => messageKeys_key_inj ideal (congrArg Prod.fst same))
  rwa [List.map_map] at pairs

/-- A session over the symbolic suite, from fixed secrets. -/
def sampleRoot : Symbolic.suite.Key := Symbolic.suite.hkdfExpand [] (ascii "root") 0

def samplePrekey : Bytes32 := List.Vector.replicate 32 1

def sampleGenerated : Bytes32 := List.Vector.replicate 32 2

theorem sampleRoot_session : SessionRoot Symbolic.suite sampleRoot :=
  ⟨_, _, _, rfl, by decide, by decide, by decide, by decide⟩

/-- Over the symbolic suite every message of a realistic size can be sealed. -/
theorem suite_sealMessage {mk plaintext : Bytes} (header : Header) (short : mk.length < 2 ^ 40)
    (small : plaintext.length < 2 ^ 40) :
    ∃ ciphertext, sealMessage Symbolic.suite mk (toAad header) plaintext = .ok ciphertext := by
  have label : msgKeysInfo.length = 23 := by decide
  have aad := toAad_length_le header
  have fits : (Symbolic.sealed (messageKeys Symbolic.suite mk).1 (messageKeys Symbolic.suite mk).2
      (toAad header) plaintext).length < 2 ^ 64 := by
    simp only [Symbolic.sealed, messageKeys, Symbolic.suite, List.length_append, Symbolic.delimit_length,
      List.length_cons, List.length_replicate, List.length_take, nonceLen, label]
    omega
  obtain ⟨ciphertext, found⟩ := Symbolic.suite_seals fits
  exact ⟨ciphertext, aeadSeal_eq_ok.mpr found⟩

theorem firstKey_length (root : Bytes) (signedPrekey generated : Bytes32) :
    List.length (α := UInt8) (firstKey Symbolic.suite root signedPrekey generated) = 16 * root.length + 1183 := by
  have rk : rkInfo.length = 17 := by decide
  have mk : mkInfo.length = 17 := by decide
  simp only [firstKey, kdfCk, kdfRk, Symbolic.suite, List.length_cons, List.length_append,
    Symbolic.delimit_length, List.length_replicate, Symbolic.shared_length, rk, mk]
  omega

theorem first_sealed {root : Bytes} (short : root.length < 2 ^ 32) (signedPrekey generated : Bytes32) :
    ∃ ciphertext, sealMessage Symbolic.suite (firstKey Symbolic.suite root signedPrekey generated)
      (toAad (firstHeader Symbolic.suite generated)) [7] = .ok ciphertext := by
  have size := firstKey_length root signedPrekey generated
  exact suite_sealMessage _ (by omega) (by decide)

theorem sample_sealed : ∃ ciphertext,
    sealMessage Symbolic.suite (firstKey Symbolic.suite sampleRoot samplePrekey sampleGenerated)
      (toAad (firstHeader Symbolic.suite sampleGenerated)) [7] = .ok ciphertext :=
  first_sealed (by decide) samplePrekey sampleGenerated

/-- Surroundings that restrict nothing. -/
def anything (S : Suite) : Surroundings S := ⟨fun _ _ _ => True, fun _ _ => True, True⟩

theorem replySeed_short {root : Bytes} (short : root.length < 1000) (signedPrekey generated drawn : Bytes32) :
    List.length (α := UInt8) (replySeed Symbolic.suite root signedPrekey generated drawn) < 2 ^ 38 := by
  have rk : rkInfo.length = 17 := by decide
  simp only [replySeed, kdfRk, Symbolic.suite, List.length_cons, List.length_append, Symbolic.delimit_length,
    List.length_replicate, Symbolic.shared_length, rk]
  omega

/-- The initiator's first chain behind its first message. -/
theorem firstChain_short {root : Bytes} (short : root.length < 2 ^ 32) (signedPrekey generated : Bytes32) :
    List.length (α := UInt8) (kdfCk Symbolic.suite (kdfRk Symbolic.suite root
      (Symbolic.suite.diffieHellman generated (Symbolic.suite.publicKey signedPrekey))).2).1 < 2 ^ 38 := by
  have rk : rkInfo.length = 17 := by decide
  have next : ckNextInfo.length = 17 := by decide
  simp only [kdfCk, kdfRk, Symbolic.suite, List.length_cons, List.length_append, Symbolic.delimit_length,
    List.length_replicate, Symbolic.shared_length, rk, next]
  omega

/-- A chain of a realistic size encrypts. -/
theorem suite_encrypts {s : RatchetState Symbolic.suite} {ck plaintext : Bytes} (chain : s.cks = some ck)
    (short : ck.length < 2 ^ 38) (small : plaintext.length < 2 ^ 40) :
    ∃ after message, s.encrypt plaintext = (after, .ok message) := by
  have mk : mkInfo.length = 17 := by decide
  have size : List.length (α := UInt8) (kdfCk Symbolic.suite ck).2 < 2 ^ 40 := by
    simp only [kdfCk, Symbolic.suite, List.length_cons, List.length_append, Symbolic.delimit_length,
      List.length_replicate, mk]
    omega
  obtain ⟨ciphertext, sealed⟩ := suite_sealMessage s.nextHeader size small
  unfold RatchetState.encrypt
  simp only [chain, sealed]
  exact ⟨_, _, rfl⟩

/-- The initiator's first two messages. -/
theorem two_encrypted {root : Bytes} (short : root.length < 2 ^ 32) (signedPrekey generated : Bytes32) :
    ∃ (middle after : RatchetState Symbolic.suite) (message message' ciphertext : Bytes),
      (RatchetState.initiator (S := Symbolic.suite) root (Symbolic.suite.publicKey signedPrekey) generated).encrypt [7] =
          (middle, .ok message) ∧
        middle.encrypt [8] = (after, .ok message') ∧ middle.nextHeader.n = 1 ∧
        parseMessage message' = .ok (middle.nextHeader, ciphertext) := by
  obtain ⟨_, sealed⟩ := first_sealed short signedPrekey generated
  obtain ⟨middle, sent⟩ := initiator_encrypts sealed
  obtain ⟨ck, _, chain, moved, _⟩ := RatchetState.encrypt_ok sent
  have further : middle.cks = some (kdfCk Symbolic.suite ck).1 := by rw [moved]
  have small : List.length (α := UInt8) (kdfCk Symbolic.suite ck).1 < 2 ^ 38 := by
    obtain rfl := Option.some.inj chain
    exact firstChain_short short signedPrekey generated
  obtain ⟨after, message', later⟩ := suite_encrypts further small (show ([8] : Bytes).length < 2 ^ 40 by decide)
  obtain ⟨_, ciphertext, _, _, sealed', written⟩ := RatchetState.encrypt_ok later
  refine ⟨middle, after, _, message', ciphertext, sent, later, ?_, ?_⟩
  · rw [moved]
    rfl
  · rw [written]
    exact parseMessage_encode middle.nextHeader (sealMessage_fits Symbolic.suite_lawful sealed')

/-- A message and the reply to it. -/
theorem reply_run {plaintext reply ciphertext : Bytes}
    (sealed : sealMessage Symbolic.suite (firstKey Symbolic.suite sampleRoot samplePrekey sampleGenerated)
      (toAad (firstHeader Symbolic.suite sampleGenerated)) plaintext = .ok ciphertext)
    (small : reply.length < 2 ^ 40) :
    ∃ w m, Run (anything Symbolic.suite) (World.start sampleRoot samplePrekey sampleGenerated) w ∧
      w.sent = [firstSent Symbolic.suite sampleRoot samplePrekey sampleGenerated plaintext ciphertext, m] ∧
      m.sender = .responder ∧ m.plaintext = reply ∧
      w.opened = [⟨.responder, (messageFrame (firstHeader Symbolic.suite sampleGenerated) ciphertext).encode,
        plaintext, firstKey Symbolic.suite sampleRoot samplePrekey sampleGenerated⟩] := by
  obtain ⟨w, w', sends, opens, sent, kept, opened, -, -, chain⟩ := exchange_steps Symbolic.suite_lawful
    (anything Symbolic.suite) (List.Vector.replicate 32 3) sealed (fun _ _ => trivial) (fun _ _ => trivial)
  have short : List.length (α := UInt8) sampleRoot < 1000 := by decide
  obtain ⟨after, message, call⟩ := suite_encrypts chain (replySeed_short short _ _ _) small
  let key := (kdfCk Symbolic.suite
    (replySeed Symbolic.suite sampleRoot samplePrekey sampleGenerated (List.Vector.replicate 32 3))).2
  have used : (w'.state .responder).sendKey = some key := by
    rw [RatchetState.sendKey, chain]
    rfl
  have replies : Step (anything Symbolic.suite) w' _ := .encrypt .responder call used
  refine ⟨_, ⟨.responder, reply, message, key⟩, ((Relation.ReflTransGen.single sends).tail opens).tail replies, ?_,
    rfl, rfl, opened⟩
  rw [kept, sent]
  rfl

theorem sent_keys_nodup_sample : ∃ w, Run (anything Symbolic.suite)
      (World.start sampleRoot samplePrekey sampleGenerated) w ∧
    w.sent.map Sent.sender = [.initiator, .responder] ∧ w.opened.length = 1 ∧
      (w.sent.map (fun m => messageKeys Symbolic.suite m.key)).Nodup := by
  obtain ⟨ciphertext, sealed⟩ := sample_sealed
  obtain ⟨w, m, run, sent, replied, -, opened⟩ := reply_run sealed (show ([7] : Bytes).length < 2 ^ 40 by decide)
  refine ⟨w, run, ?_, ?_, (sent_keys_nodup Symbolic.suite_ideal sampleRoot_session run).2.2⟩
  · rw [sent, List.map_cons, List.map_singleton, replied]
    rfl
  · rw [opened]
    rfl

end

end Buh.Ratchet.Session
