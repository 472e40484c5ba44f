import Buh.Library.Simulation
import Buh.Client.Ffi
import Buh.Ratchet.Delivery

/-! Two clients behind a hostile relay. Each holds one session blob, made by one
handshake, and replaces it by what `encrypt_message` or `decrypt_message` returned when
the call succeeded. Runs of blobs are runs of the ratchet states they store. -/

namespace Buh.Client.Exchange
open Buh.Library.Simulation Buh.Wire.Codec Buh.Crypto Buh.Crypto.Primitives Buh.Crypto.PostQuantum
  Buh.Ratchet.Message Buh.Ratchet.Chain Buh.Ratchet.State Buh.Ratchet.Persist Buh.Ratchet.Placement
  Buh.Ratchet.Session Buh.Ratchet.Authenticity Buh.Ratchet.Alignment Buh.Ratchet.Lockstep Buh.Ratchet.Delivery
  Buh.Handshake.Prekey Buh.Handshake.Pqxdh Buh.Client.Ffi

structure SentMessage where
  sender : Party
  plaintext : Bytes
  message : Bytes

structure OpenedMessage where
  receiver : Party
  message : Bytes
  plaintext : Bytes

structure Conversation where
  blob : Party → Bytes
  sent : List SentMessage
  opened : List OpenedMessage
  /-- The public halves of the ratchet keys drawn so far. -/
  drawn : List Bytes32

def Conversation.start (initiator responder : Bytes) (drawn : List Bytes32) : Conversation where
  blob
    | .initiator => initiator
    | .responder => responder
  sent := []
  opened := []
  drawn := drawn

section
variable {S : Suite}

/-- What the network may hand to a party: any bytes, as long as a ciphertext in them that
is sealed under a key of the session is that of a message a party sent. -/
def Injectable (root : S.Key) (c : Conversation) (message : Bytes) : Prop :=
  ∀ header ciphertext, parseMessage message = .ok (header, ciphertext) →
    ∀ d k mk nonce aad plaintext, MessageAt S root d k mk →
      S.aeadEncrypt (messageKeys S mk).1 nonce aad plaintext = some ciphertext →
      ∃ m ∈ c.sent, ∃ header', parseMessage m.message = .ok (header', ciphertext)

/-- The remote ratchet key in a stored session. A call draws a key when it replaces it. -/
def remoteKey (S : Suite) (blob : Bytes) : Option Bytes32 :=
  match fromBytes S blob with
  | .ok s => s.dhr
  | .error _ => none

def Conversation.drawnBy (S : Suite) (c : Conversation) (p : Party) (session : Bytes) (generated : Bytes32) :
    List Bytes32 :=
  if remoteKey S (c.blob p) = remoteKey S session then c.drawn else c.drawn ++ [S.publicKey generated]

inductive Call (root : S.Key) (c : Conversation) : Conversation → Prop where
  | encrypt (p : Party) {plaintext : Bytes} {out : EncryptedMessage}
      (call : encryptMessage S (c.blob p) plaintext = .ok out) :
      Call root c { c with
        blob := Function.update c.blob p out.session
        sent := c.sent ++ [⟨p, plaintext, out.message⟩] }
  | decrypt (p : Party) {message : Bytes} {generated : Bytes32} {out : DecryptedMessage}
      (injected : Injectable root c message)
      (fresh : remoteKey S (c.blob p) ≠ remoteKey S out.session → S.publicKey generated ∉ c.drawn)
      (call : decryptMessage S (c.blob p) generated message = .ok out) :
      Call root c
        { blob := Function.update c.blob p out.session
          sent := c.sent
          opened := c.opened ++ [⟨p, message, out.plaintext⟩]
          drawn := c.drawnBy S p out.session generated }
  /-- A call that throws leaves the stored blobs alone. -/
  | encryptFailed (p : Party) {plaintext : Bytes} {e : JsError}
      (call : encryptMessage S (c.blob p) plaintext = .error e) : Call root c c
  | decryptFailed (p : Party) {message : Bytes} {generated : Bytes32} {e : JsError}
      (call : decryptMessage S (c.blob p) generated message = .error e) : Call root c c

abbrev Calls (root : S.Key) (c c' : Conversation) : Prop := Relation.ReflTransGen (Call root) c c'

/-- The ratchet key in a message's header. -/
def chainOf (m : SentMessage) : Option Bytes32 :=
  match parseMessage m.message with
  | .ok (header, _) => some header.dh
  | .error _ => none

/-- How many messages the chain of a ratchet key carries. -/
def messagesIn (c : Conversation) (dh : Bytes32) : Nat := c.sent.countP (fun m => chainOf m = some dh)

/-- The same log entry without the key it was made with. -/
def stripSent (m : Sent S) : SentMessage := ⟨m.sender, m.plaintext, m.message⟩

def stripOpened (o : Opened S) : OpenedMessage := ⟨o.receiver, o.message, o.plaintext⟩

/-- The blobs store the states of a world, and the logs are its logs. -/
structure Stores (c : Conversation) (w : World S) : Prop where
  blob : ∀ p, c.blob p = toBytes (w.state p)
  storable : ∀ p, Storable (w.state p)
  sent : c.sent = w.sent.map stripSent
  opened : c.opened = w.opened.map stripOpened
  drawn : c.drawn = w.drawn

/-- The surroundings of the states when the relay is hostile. -/
def hostile (root : S.Key) : Surroundings S where
  delivers w _ message := Unforged root w message
  draws w generated := S.publicKey generated ∉ w.drawn
  keepsErrors := False

theorem hostile_faithful (root : S.Key) : Faithful root (hostile root) :=
  ⟨fun _ _ _ delivered => delivered, fun _ _ drawn => drawn, id⟩

theorem remoteKey_toBytes (lawful : Lawful S) {s : RatchetState S} (storable : Storable s) :
    remoteKey S (toBytes s) = s.dhr := by
  rw [remoteKey, fromBytes_toBytes lawful storable]

theorem stores_start (root : S.Key) (signedPrekey generated : Bytes32) :
    Stores (Conversation.start (toBytes (RatchetState.initiator root (S.publicKey signedPrekey) generated))
        (toBytes (RatchetState.responder root signedPrekey)) [S.publicKey signedPrekey, S.publicKey generated])
      (World.start root signedPrekey generated) where
  blob p := by cases p <;> rfl
  storable p := by
    cases p with
    | initiator => exact storable_initiator root _ generated
    | responder => exact storable_responder root signedPrekey
  sent := rfl
  opened := rfl
  drawn := rfl

theorem Stores.unforged {root : S.Key} {c : Conversation} {w : World S} (stores : Stores c w) {message : Bytes}
    (injected : Injectable root c message) : Unforged root w message := by
  intro header ciphertext parsed d k mk nonce aad plaintext place sealed
  obtain ⟨m, member, header', carries⟩ := injected header ciphertext parsed d k mk nonce aad plaintext place sealed
  rw [stores.sent, List.mem_map] at member
  obtain ⟨original, member, rfl⟩ := member
  exact ⟨original, member, header', carries⟩

/-- The blobs of the two parties after one of them stored a new state. -/
theorem Stores.update {c : Conversation} {w : World S} (stores : Stores c w) (p : Party)
    {after : RatchetState S} (storable : Storable after) :
    (∀ q, Function.update c.blob p (toBytes after) q = toBytes (Function.update w.state p after q)) ∧
      ∀ q, Storable (Function.update w.state p after q) := by
  constructor
  · intro q
    by_cases mine : q = p
    · rw [mine, Function.update_self, Function.update_self]
    · rw [Function.update_of_ne mine, Function.update_of_ne mine, stores.blob]
  · exact (Function.forall_update_iff w.state (fun _ s => Storable s)).mpr ⟨storable, fun q _ => stores.storable q⟩

theorem call_simulated (lawful : Lawful S) {root : S.Key} {c c' : Conversation} {w : World S}
    (stores : Stores c w) (call : Call root c c') : ∃ w', Step (hostile root) w w' ∧ Stores c' w' := by
  cases call with
  | encrypt p call =>
    rename_i plaintext out
    rw [stores.blob] at call
    obtain ⟨after, called, session⟩ := (encryptMessage_stored lawful (stores.storable p)).mp call
    obtain ⟨ck, _, chain, _⟩ := RatchetState.encrypt_ok called
    have updated := stores.update p ((stores.storable p).encrypt called)
    refine ⟨_, .encrypt p called (by rw [RatchetState.sendKey, chain]; rfl), ?_⟩
    rw [session]
    exact ⟨updated.1, updated.2, by simp only [stores.sent, List.map_append]; rfl, stores.opened, stores.drawn⟩
  | decrypt p injected fresh call =>
    rename_i message generated out
    rw [stores.blob] at call
    obtain ⟨after, called, session⟩ := (decryptMessage_stored lawful (stores.storable p)).mp call
    obtain ⟨_, _, key, _, _, _, used⟩ := RatchetState.decrypt_ok called
    have storable := (stores.storable p).decrypt called
    have updated := stores.update p storable
    rw [stores.blob, session, remoteKey_toBytes lawful (stores.storable p), remoteKey_toBytes lawful storable,
      stores.drawn] at fresh
    refine ⟨_, .decrypt p (stores.unforged injected) fresh called used, ?_⟩
    rw [session]
    refine ⟨updated.1, updated.2, stores.sent, by simp only [stores.opened, List.map_append]; rfl, ?_⟩
    simp only [Conversation.drawnBy, World.drawnBy, stores.blob, stores.drawn,
      remoteKey_toBytes lawful (stores.storable p), remoteKey_toBytes lawful storable]
  | encryptFailed p call => exact ⟨w, .rolledBack, stores⟩
  | decryptFailed p call => exact ⟨w, .rolledBack, stores⟩

theorem calls_simulated (lawful : Lawful S) {root : S.Key} {c c' : Conversation} {w : World S}
    (stores : Stores c w) (run : Calls root c c') : ∃ w', Run (hostile root) w w' ∧ Stores c' w' :=
  simulates_run (fun _ _ _ => call_simulated lawful) stores run

theorem Stores.messagesIn {c : Conversation} {w : World S} (stores : Stores c w) (dh : Bytes32) :
    messagesIn c dh = chainLength w dh := by
  rw [Exchange.messagesIn, stores.sent, List.countP_map]
  rfl

/-- Whatever the relay does short of forging, the first delivery of a message that a party
sent opens to its plaintext, as long as the gap before it fits the limits. A copy in another
frame counts as a delivery: what identifies a message is its header and its ciphertext. -/
theorem first_delivery_opens (ideal : Ideal S) {P : Schemes S} (pq : P.Lawful) (responder : P.SigningKey)
    (withOneTime : Bool) (draws : PrekeyDraws) (seed : Bytes32) (drawn : InitiateDraws) (generated : Bytes32)
    (different : S.publicKey draws.signedPrekey ≠ S.publicKey generated)
    {initiated : InitiatedSession} {accepted : Bytes}
    (initiates : initiateSession P seed.toList (PrekeyBundle.generate P responder withOneTime draws).2.encode
      drawn generated = .ok initiated)
    (accepts : acceptSession P (PrekeyBundle.generate P responder withOneTime draws).1.toBytes
      (PrekeyBundle.generate P responder withOneTime draws).2.encode initiated.initialMessage = .ok accepted)
    {c : Conversation}
    (run : Calls (initiate (P.fromSeed seed) (PrekeyBundle.generate P responder withOneTime draws).2 drawn).2
      (Conversation.start initiated.session accepted [S.publicKey draws.signedPrekey, S.publicKey generated]) c)
    (short : ∀ dh, messagesIn c dh < 2 ^ 32)
    {m : SentMessage} (member : m ∈ c.sent) {header : Header} {ciphertext : Bytes}
    (parsed : parseMessage m.message = .ok (header, ciphertext))
    (first : ∀ o ∈ c.opened, o.receiver = m.sender.peer → parseMessage o.message ≠ parseMessage m.message)
    {state : RatchetState S} (stored : fromBytes S (c.blob m.sender.peer) = .ok state)
    (fits : GapFits state header) (fresh : Bytes32) :
    ∃ session, decryptMessage S (c.blob m.sender.peer) fresh m.message = .ok ⟨session, m.plaintext⟩ := by
  have lawful := ideal.toLawful
  rw [initiateSession_generated pq, Except.ok.injEq] at initiates
  subst initiates
  rw [acceptSession_generated lawful pq, Except.ok.injEq] at accepts
  subst accepts
  obtain ⟨w, states, stores⟩ := calls_simulated lawful (stores_start _ draws.signedPrekey generated) run
  have lengths (dh : Bytes32) : chainLength w dh < 2 ^ 32 := by
    rw [← stores.messagesIn]
    exact short dh
  rw [stores.sent, List.mem_map] at member
  obtain ⟨original, member, rfl⟩ := member
  rw [stores.blob] at stored ⊢
  rw [fromBytes_toBytes lawful (stores.storable _), Except.ok.injEq] at stored
  subst stored
  obtain ⟨after, opened⟩ := unopened_message_opens ideal (deriveRoot_session _ _ _ _ _) (hostile_faithful _)
    different states lengths member parsed
    (fun o done mine => first (stripOpened o) (stores.opened ▸ List.mem_map_of_mem done) mine) fits fresh
  exact ⟨toBytes after, (decryptMessage_stored lawful (stores.storable _)).mpr ⟨after, opened, rfl⟩⟩

/-- A fresh responder has room for the messages it is within reach of. -/
theorem gapFits_fresh (root : S.Key) (signedPrekey : Bytes32) {header : Header} (near : header.n.toNat ≤ maxSkip.toNat) :
    GapFits (RatchetState.responder root signedPrekey) header := by
  have limit : maxSkip.toNat = 1000 := rfl
  refine Or.inr (Or.inr ⟨by simp [RatchetState.responder], near, fun chain => absurd rfl chain, ?_⟩)
  change 0 + 0 + header.n.toNat ≤ 2000
  omega

end

section

/-- The initiator sends two messages. Some bytes that are no message arrive, and then the
second message, before the first. -/
theorem first_delivery_opens_sample : ∃ (initiated : InitiatedSession) (accepted : Bytes) (c : Conversation)
    (m : SentMessage) (session : Bytes),
    initiateSession (symbolic []) (List.Vector.replicate 32 12).toList
        (PrekeyBundle.generate (symbolic []) (sampleResponder []) true sampleDraws).2.encode sampleDrawn
        sampleGenerated = .ok initiated ∧
      acceptSession (symbolic [])
        (PrekeyBundle.generate (symbolic []) (sampleResponder []) true sampleDraws).1.toBytes
        (PrekeyBundle.generate (symbolic []) (sampleResponder []) true sampleDraws).2.encode
        initiated.initialMessage = .ok accepted ∧
      c.sent.map SentMessage.plaintext = [[7], [8]] ∧ c.opened = [] ∧ c.blob .responder = accepted ∧ m ∈ c.sent ∧
      m.sender = .initiator ∧
      decryptMessage Symbolic.suite (c.blob .responder) sampleGenerated m.message = .ok ⟨session, [8]⟩ := by
  let bundle := (PrekeyBundle.generate (symbolic []) (sampleResponder []) true sampleDraws).2
  let root := (initiate (sampleInitiator []) bundle sampleDrawn).2
  let fresh := RatchetState.initiator (S := Symbolic.suite) root (Symbolic.suite.publicKey samplePrekey) sampleGenerated
  let waiting := RatchetState.responder (S := Symbolic.suite) root samplePrekey
  have initiates := initiateSession_generated (symbolic_lawful []) (sampleResponder []) true sampleDraws
    (List.Vector.replicate 32 12) sampleDrawn sampleGenerated
  have accepts := acceptSession_generated Symbolic.suite_lawful (symbolic_lawful []) (sampleResponder [])
    (sampleInitiator []) true sampleDraws sampleDrawn
  have storable : Storable fresh := storable_initiator root _ _
  obtain ⟨middle, after, message, message', ciphertext, sent, sentLater, number, parsed⟩ :=
    two_encrypted (initiate_root_length (sampleInitiator []) bundle sampleDrawn) samplePrekey sampleGenerated
  let start := Conversation.start (toBytes fresh) (toBytes waiting)
    [Symbolic.suite.publicKey samplePrekey, Symbolic.suite.publicKey sampleGenerated]
  let one : Conversation := { start with
    blob := Function.update start.blob .initiator (toBytes middle)
    sent := start.sent ++ [⟨.initiator, [7], message⟩] }
  let two : Conversation := { one with
    blob := Function.update one.blob .initiator (toBytes after)
    sent := one.sent ++ [⟨.initiator, [8], message'⟩] }
  have sends : Call root start one := @Call.encrypt _ root start .initiator _ ⟨toBytes middle, message⟩
    ((encryptMessage_stored Symbolic.suite_lawful storable).mpr ⟨middle, sent, rfl⟩)
  have sendsLater : Call root one two := by
    refine @Call.encrypt _ root one .initiator _ ⟨toBytes after, message'⟩ ?_
    rw [show one.blob .initiator = toBytes middle from Function.update_self Party.initiator _ start.blob]
    exact (encryptMessage_stored Symbolic.suite_lawful (storable.encrypt sent)).mpr ⟨after, sentLater, rfl⟩
  have throws : ∃ e, decryptMessage Symbolic.suite (two.blob .responder) sampleGenerated [] = .error e := by
    cases call : decryptMessage Symbolic.suite (two.blob .responder) sampleGenerated [] with
    | error e => exact ⟨e, rfl⟩
    | ok out =>
      obtain ⟨_, called, _⟩ :=
        (decryptMessage_stored Symbolic.suite_lawful (storable_responder root samplePrekey)).mp call
      obtain ⟨_, _, _, nothing, _⟩ := RatchetState.decrypt_ok called
      have none_ : parseMessage [] = .error (.wire .unexpectedEof) := rfl
      rw [none_] at nothing
      cases nothing
  obtain ⟨_, throws⟩ := throws
  have run : Calls root start two :=
    ((Relation.ReflTransGen.single sends).tail sendsLater).tail (.decryptFailed .responder throws)
  have few (dh : Bytes32) : messagesIn two dh < 2 ^ 32 :=
    List.countP_le_length.trans_lt (show 2 < 2 ^ 32 by decide)
  obtain ⟨session, opened⟩ := first_delivery_opens Symbolic.suite_ideal (symbolic_lawful []) (sampleResponder [])
    true sampleDraws (List.Vector.replicate 32 12) sampleDrawn sampleGenerated (by decide) initiates accepts
    run few (m := ⟨.initiator, [8], message'⟩) (List.mem_cons_of_mem _ (List.mem_singleton_self _)) parsed
    (fun o absent => absurd absent List.not_mem_nil)
    (fromBytes_toBytes Symbolic.suite_lawful (storable_responder root samplePrekey))
    (gapFits_fresh root samplePrekey (by rw [number]; decide)) sampleGenerated
  exact ⟨_, _, two, _, session, initiates, accepts, rfl, rfl, rfl, List.mem_cons_of_mem _ (List.mem_singleton_self _),
    rfl, opened⟩

end

end Buh.Client.Exchange
