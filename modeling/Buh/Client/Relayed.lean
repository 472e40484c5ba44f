import Buh.Client.Exchange
import Buh.Ratchet.Backlog
import Buh.Relay.Refinement

/-! A conversation over the relay, in the order of `demo.ts`. A message is encrypted, the new
session stored, and the ciphertext pushed to the peer's queue. A pull is answered with any
number of envelopes: the first of them is decrypted, the new session stored, and all of them
are acknowledged, so that the others are lost. The responder's first pull starts with the
handshake. The relay is the store with its SQL statements, and serves everybody else too. -/

namespace Buh.Client.Relayed
open Buh.Wire.Codec Buh.Crypto Buh.Crypto.Primitives Buh.Crypto.PostQuantum Buh.Ratchet.Message Buh.Ratchet.Chain
  Buh.Ratchet.State Buh.Ratchet.Persist Buh.Ratchet.Session Buh.Ratchet.Authenticity Buh.Ratchet.Alignment
  Buh.Ratchet.Lockstep Buh.Ratchet.Delivery Buh.Ratchet.Backlog Buh.Handshake.Prekey Buh.Handshake.Pqxdh
  Buh.Client.Ffi Buh.Client.Exchange Buh.Relay.Mailbox Buh.Relay.Refinement

/-- What passes one test, and then what passes another, when nothing of the first comes
after anything of the second. -/
theorem filter_append_sublist {α : Type*} {first second : α → Bool} {items : List α}
    (apart : ∀ item ∈ items, first item = true → second item = false)
    (ordered : items.Pairwise (fun x y => first y = true → second x = false)) :
    (items.filter first ++ items.filter second).Sublist items := by
  induction items with
  | nil => exact .slnil
  | cons item items ih =>
    obtain ⟨here, rest⟩ := List.pairwise_cons.mp ordered
    have tail := ih (fun other member => apart other (List.mem_cons_of_mem _ member)) rest
    cases isFirst : first item with
    | true =>
      have isSecond := apart item List.mem_cons_self isFirst
      rw [List.filter_cons_of_pos isFirst, List.filter_cons_of_neg (by simp [isSecond])]
      exact tail.cons_cons item
    | false =>
      rw [List.filter_cons_of_neg (by simp [isFirst])]
      cases isSecond : second item with
      | true =>
        have none_ : items.filter first = [] := by
          rw [List.filter_eq_nil_iff]
          intro other member passes
          rw [here other member passes] at isSecond
          cases isSecond
        rw [none_, List.nil_append, List.filter_cons_of_pos isSecond]
        exact List.filter_sublist.cons_cons item
      | false =>
        rw [List.filter_cons_of_neg (by simp [isSecond])]
        exact tail.cons item

section
variable {P : Platform}

/-- Where the two parties collect their mail, and how the relay is configured. -/
structure Line where
  config : CoreConfig
  queue : Party → Bytes32
  apart : queue .initiator ≠ queue .responder

theorem Line.queue_ne (line : Line) {p q : Party} (different : p ≠ q) : line.queue p ≠ line.queue q := by
  cases p <;> cases q
  · exact absurd rfl different
  · exact line.apart
  · exact line.apart.symm
  · exact absurd rfl different

structure Exchanged (P : Platform) where
  talk : Conversation
  /-- The requests the relay has served. -/
  events : List (Event P)
  /-- The responder has accepted the handshake. -/
  greeted : Bool

/-- The conversation begins: the first session is stored, and the handshake pushed. -/
def Exchanged.start (line : Line) (initiated : InitiatedSession) (drawn : List Bytes32) (events : List (Event P))
    (at_ ttlSeconds : Int) (id : P.EnvelopeId) : Exchanged P :=
  ⟨Conversation.start initiated.session [] drawn,
    events ++ [⟨at_, .push (line.queue .responder) initiated.initialMessage ttlSeconds id⟩], false⟩

/-- A party has a session: the initiator from the start. -/
def Exchanged.Ready (s : Exchanged P) (p : Party) : Prop := p = .initiator ∨ s.greeted = true

/-- What one call puts into the conversation. -/
def afterEncrypt (c : Conversation) (p : Party) (plaintext : Bytes) (out : EncryptedMessage) :
    Conversation :=
  { c with blob := Function.update c.blob p out.session, sent := c.sent ++ [⟨p, plaintext, out.message⟩] }

def afterOpen (S : Suite) (c : Conversation) (p : Party) (message : Bytes) (generated : Bytes32)
    (out : DecryptedMessage) : Conversation :=
  { blob := Function.update c.blob p out.session
    sent := c.sent
    opened := c.opened ++ [⟨p, message, out.plaintext⟩]
    drawn := c.drawnBy S p out.session generated }

/-- The responder's session. -/
def afterAccept (c : Conversation) (session : Bytes) : Conversation :=
  { c with blob := Function.update c.blob .responder session }

/-- A pull, a sweep, or a request on somebody else's queue. -/
def Harmless (line : Line) (event : Event P) : Prop :=
  (∃ queueId limit, event.request = .pull queueId limit) ∨ ∀ p, concerns (line.queue p) event = false

/-- Acknowledgements of the envelopes, one after the other. -/
def Acks (q : Bytes32) (envelopes : List (StoredEnvelope P)) (acks : List (Event P)) : Prop :=
  acks.map Event.request = envelopes.map (fun envelope => .ack q envelope.envelopeId)

section
variable {S : Suite} (Q : Schemes S) (material : PrekeyMaterial) (line : Line)

inductive Turn (s : Exchanged P) : Exchanged P → Prop where
  | push (p : Party) (ready : s.Ready p) {plaintext : Bytes} {out : EncryptedMessage}
      (call : encryptMessage S (s.talk.blob p) plaintext = .ok out) (ttlSeconds : Int) (id : P.EnvelopeId)
      (at_ : Int) :
      Turn s ⟨afterEncrypt s.talk p plaintext out,
        s.events ++ [⟨at_, .push (line.queue p.peer) out.message ttlSeconds id⟩], s.greeted⟩
  /-- The session is stored, but the request never reaches the relay. -/
  | pushLost (p : Party) (ready : s.Ready p) {plaintext : Bytes} {out : EncryptedMessage}
      (call : encryptMessage S (s.talk.blob p) plaintext = .ok out) :
      Turn s ⟨afterEncrypt s.talk p plaintext out, s.events, s.greeted⟩
  /-- The responder's first pull. -/
  | accept {limit pulledAt : Int} {greeting envelope : StoredEnvelope P} {rest : List (StoredEnvelope P)}
      {acks : List (Event P)} {session : Bytes} {generated : Bytes32} {out : DecryptedMessage}
      (first : s.greeted = false)
      (pulled : Relay.Mailbox.pull P line.config (history line.config s.events).1 (line.queue .responder) limit
        pulledAt = .ok (greeting :: envelope :: rest))
      (accepts : acceptSession Q material.secrets material.bundle greeting.payload = .ok session)
      (fresh : remoteKey S session ≠ remoteKey S out.session → S.publicKey generated ∉ s.talk.drawn)
      (call : decryptMessage S session generated envelope.payload = .ok out)
      (acked : Acks (line.queue .responder) (greeting :: envelope :: rest) acks) :
      Turn s ⟨afterOpen S (afterAccept s.talk session) .responder envelope.payload generated out,
        s.events ++ [⟨pulledAt, .pull (line.queue .responder) limit⟩] ++ acks, true⟩
  | receive (p : Party) (ready : s.Ready p) {limit pulledAt : Int} {envelope : StoredEnvelope P}
      {rest : List (StoredEnvelope P)} {acks : List (Event P)} {generated : Bytes32} {out : DecryptedMessage}
      (pulled : Relay.Mailbox.pull P line.config (history line.config s.events).1 (line.queue p) limit pulledAt =
        .ok (envelope :: rest))
      (fresh : remoteKey S (s.talk.blob p) ≠ remoteKey S out.session → S.publicKey generated ∉ s.talk.drawn)
      (call : decryptMessage S (s.talk.blob p) generated envelope.payload = .ok out)
      (acked : Acks (line.queue p) (envelope :: rest) acks) :
      Turn s ⟨afterOpen S s.talk p envelope.payload generated out,
        s.events ++ [⟨pulledAt, .pull (line.queue p) limit⟩] ++ acks, s.greeted⟩
  | others {event : Event P} (harmless : Harmless line event) : Turn s { s with events := s.events ++ [event] }
  /-- A call that throws leaves the stored sessions alone. -/
  | thrown : Turn s s

abbrev Turns (s s' : Exchanged P) : Prop := Relation.ReflTransGen (Turn Q material line) s s'

end

/-- The conversation with the session that the responder has or will get. -/
def Exchanged.seen (s : Exchanged P) (accepted : Bytes) : Conversation :=
  if s.greeted then s.talk else afterAccept s.talk accepted

/-- The messages sent to a party, in order. -/
def sentTo (c : Conversation) (p : Party) : List SentMessage := c.sent.filter (fun m => m.sender = p.peer)

def openedBy (c : Conversation) (p : Party) : List OpenedMessage := c.opened.filter (fun o => o.receiver = p)

/-- Waiting for a pull at `now`. -/
def waiting (now : Int) (entry : Entry P) : Bool := !entry.acked && decide (now < entry.envelope.expiresAt)

/-- An entry of a mailbox with the message it carries, and whether that was read. -/
structure Letter (P : Platform) where
  sent : SentMessage
  entry : Entry P
  read : Bool

/-- The entries of a party's mailbox side by side with the messages they carry, behind those
of earlier times and the handshake. What was read was acknowledged, and what waits is not
in front of anything acknowledged. -/
structure Paired (sent : List SentMessage) (opened : List OpenedMessage) (mailbox : Mailbox P) (now : Int)
    (old greeting : Mailbox P) (letters : List (Letter P)) : Prop where
  entries : mailbox = old ++ greeting ++ letters.map Letter.entry
  settled : ∀ entry ∈ old, entry.acked = true
  sources : (letters.map Letter.sent).Sublist sent
  carries : ∀ letter ∈ letters, letter.sent.message = letter.entry.envelope.payload
  opened : opened.map (fun o => (o.message, o.plaintext)) =
    (letters.filter Letter.read).map (fun letter => (letter.sent.message, letter.sent.plaintext))
  taken : ∀ letter ∈ letters, letter.read = true → letter.entry.acked = true
  ordered : letters.Pairwise (fun x y => y.entry.acked = true → waiting now x.entry = false)

variable {sent : List SentMessage} {opened : List OpenedMessage} {mail old greeting : Mailbox P} {now : Int}
  {letters : List (Letter P)}

theorem waiting_later {later : Int} (le : now ≤ later) {entry : Entry P} (done : waiting now entry = false) :
    waiting later entry = false := by
  simp only [waiting, Bool.and_eq_false_iff, Bool.not_eq_false', decide_eq_false_iff_not, not_lt] at done ⊢
  exact done.imp_right fun expired => expired.trans le

theorem waiting_acked {entry : Entry P} (acked : entry.acked = true) : waiting now entry = false := by
  simp [waiting, acked]

theorem Paired.later (paired : Paired sent opened mail now old greeting letters) {later : Int} (le : now ≤ later) :
    Paired sent opened mail later old greeting letters :=
  { paired with ordered := paired.ordered.imp fun done acked => waiting_later le (done acked) }

/-- A message that never reaches the queue. -/
theorem Paired.lost (paired : Paired sent opened mail now old greeting letters) (m : SentMessage) :
    Paired (sent ++ [m]) opened mail now old greeting letters :=
  { paired with sources := paired.sources.trans (List.sublist_append_left _ _) }

theorem Paired.push (paired : Paired sent opened mail now old greeting letters) {m : SentMessage}
    {envelope : StoredEnvelope P} (same : m.message = envelope.payload) :
    Paired (sent ++ [m]) opened (mail ++ [⟨envelope, false⟩]) now old greeting
      (letters ++ [⟨m, ⟨envelope, false⟩, false⟩]) where
  entries := by rw [paired.entries, List.append_assoc, List.map_append]; rfl
  settled := paired.settled
  sources := by
    rw [List.map_append]
    exact paired.sources.append (List.Sublist.refl _)
  carries := by
    intro letter member
    rcases List.mem_append.mp member with before | new
    · exact paired.carries letter before
    · obtain rfl := List.mem_singleton.mp new
      exact same
  opened := by
    rw [paired.opened, List.filter_append]
    simp
  taken := by
    intro letter member read
    rcases List.mem_append.mp member with before | new
    · exact paired.taken letter before read
    · obtain rfl := List.mem_singleton.mp new
      cases read
  ordered := by
    rw [List.pairwise_append]
    refine ⟨paired.ordered, List.pairwise_singleton _ _, ?_⟩
    intro x _ y new acked
    obtain rfl := List.mem_singleton.mp new
    cases acked

/-- What waits is what a pull may return: the handshake, if it does, and then the letters. -/
theorem Paired.live (paired : Paired sent opened mail now old greeting letters) :
    live now mail = (greeting.filter (waiting now)).map Entry.envelope ++
      (letters.filter (fun letter => waiting now letter.entry)).map (fun letter => letter.entry.envelope) := by
  have settled : old.filter (waiting now) = [] :=
    List.filter_eq_nil_iff.mpr fun entry member => by simp [waiting_acked (paired.settled entry member)]
  have same : Relay.Refinement.live now mail = (mail.filter (waiting now)).map Entry.envelope := rfl
  rw [same, paired.entries, List.filter_append, List.filter_append, settled, List.nil_append, List.map_append,
    List.filter_map, List.map_map]
  rfl

/-- The messages read so far and those that wait are in the order they were sent. -/
theorem Paired.sublist (paired : Paired sent opened mail now old greeting letters) :
    ((letters.filter Letter.read).map Letter.sent ++
      (letters.filter (fun letter => waiting now letter.entry)).map Letter.sent).Sublist sent := by
  rw [← List.map_append]
  refine List.Sublist.trans (List.Sublist.map _ (filter_append_sublist ?_ ?_)) paired.sources
  · exact fun letter member read => waiting_acked (paired.taken letter member read)
  · exact List.Pairwise.imp_of_mem (fun _ member done read => done (paired.taken _ member read)) paired.ordered

/-- Nothing behind a letter that waits was read. -/
theorem Paired.unread (before : List (Letter P)) {after : List (Letter P)} {head : Letter P}
    (paired : Paired sent opened mail now old greeting (before ++ head :: after)) (waits : waiting now head.entry = true)
    {letter : Letter P} (member : letter ∈ head :: after) : letter.read = false := by
  cases read : letter.read with
  | false => rfl
  | true =>
    have acked := paired.taken letter (List.mem_append_right before member) read
    rcases List.mem_cons.mp member with rfl | behind
    · rw [waiting_acked acked] at waits
      cases waits
    · have order := (List.pairwise_cons.mp (List.pairwise_append.mp paired.ordered).2.1).1 letter behind acked
      rw [order] at waits
      cases waits

/-- An entry after acknowledgements of these envelopes. -/
def acknowledged (ids : List P.EnvelopeId) (entry : Entry P) : Entry P :=
  ids.foldl (fun entry id => entry.ack id) entry

theorem acknowledged_envelope (ids : List P.EnvelopeId) (entry : Entry P) :
    (acknowledged ids entry).envelope = entry.envelope := by
  induction ids generalizing entry with
  | nil => rfl
  | cons id ids ih =>
    refine (ih (entry.ack id)).trans ?_
    unfold Entry.ack
    split_ifs <;> rfl

theorem acknowledged_acked {ids : List P.EnvelopeId} {entry : Entry P} :
    (acknowledged ids entry).acked = true ↔ entry.envelope.envelopeId ∈ ids ∨ entry.acked = true := by
  induction ids generalizing entry with
  | nil => simp [acknowledged]
  | cons id ids ih =>
    refine ih.trans ?_
    dsimp only [Entry.ack]
    split_ifs with named
    · simp [named]
    · simp [named]

theorem waiting_acknowledged {ids : List P.EnvelopeId} {entry : Entry P} (done : waiting now entry = false) :
    waiting now (acknowledged ids entry) = false := by
  induction ids generalizing entry with
  | nil => exact done
  | cons id ids ih =>
    refine ih ?_
    dsimp only [Entry.ack]
    split_ifs
    · rfl
    · exact done

/-- The mailbox after acknowledgements. -/
theorem mailbox_acks (config : CoreConfig) {q : Bytes32} {envelopes : List (StoredEnvelope P)} {acks : List (Event P)}
    (acked : Acks q envelopes acks) (events : List (Event P)) :
    mailbox config q (events ++ acks) =
      (mailbox config q events).map (acknowledged (envelopes.map StoredEnvelope.envelopeId)) := by
  induction envelopes generalizing events acks with
  | nil =>
    obtain rfl : acks = [] := List.map_eq_nil_iff.mp acked
    rw [List.append_nil]
    exact (List.map_id _).symm
  | cons envelope envelopes ih =>
    obtain ⟨ack, rest, rfl, request, others⟩ := List.map_eq_cons_iff.mp acked
    have here : mailbox config q (events ++ [ack]) = (mailbox config q events).map (Entry.ack envelope.envelopeId) := by
      rw [mailbox_append, apply, request]
      exact if_pos rfl
    rw [List.append_cons, ih others, here, List.map_map]
    rfl

/-- Acknowledgements leave the other queues alone. -/
theorem mailbox_acks_elsewhere (config : CoreConfig) {q other : Bytes32} (apart : q ≠ other)
    {envelopes : List (StoredEnvelope P)} {acks : List (Event P)} (acked : Acks q envelopes acks)
    (events : List (Event P)) : mailbox config other (events ++ acks) = mailbox config other events := by
  induction acks using List.reverseRecOn generalizing envelopes with
  | nil => rw [List.append_nil]
  | append_singleton acks ack ih =>
    rw [Acks, List.map_append, List.map_singleton, eq_comm, List.map_eq_append_iff] at acked
    obtain ⟨front, back, rfl, fronts, last⟩ := acked
    obtain ⟨envelope, _, request⟩ := List.map_eq_singleton_iff.mp last
    rw [← List.append_assoc, mailbox_append, ih fronts.symm]
    exact apply_elsewhere config _ (by simp [concerns, ← request, apart])

/-- A letter after acknowledgements. -/
def Letter.settle (ids : List P.EnvelopeId) (letter : Letter P) : Letter P :=
  { letter with entry := acknowledged ids letter.entry }

/-- A pull hands out the handshake, if it waits, and the waiting letters of a part of the
mailbox. The first letter is read, and all of it acknowledged. -/
theorem Paired.collect {before more back : List (Letter P)} {head : Letter P} {ids : List P.EnvelopeId}
    (paired : Paired sent opened mail now old greeting (before ++ head :: more ++ back))
    (distinct : (mail.map (fun entry => entry.envelope.envelopeId)).Nodup)
    (waits : waiting now head.entry = true)
    (named : ids = greeting.map (fun entry => entry.envelope.envelopeId) ++
      ((before ++ head :: more).filter (fun letter => waiting now letter.entry)).map
        (fun letter => letter.entry.envelope.envelopeId)) (p : Party) :
    Paired sent (opened ++ [⟨p, head.entry.envelope.payload, head.sent.plaintext⟩]) (mail.map (acknowledged ids)) now
      ((old ++ greeting).map (acknowledged ids)) []
      ((before ++ { head with read := true } :: more ++ back).map (Letter.settle ids)) := by
  have unread {letter : Letter P} (member : letter ∈ head :: (more ++ back)) : letter.read = false :=
    Paired.unread before (by simpa only [List.append_assoc, List.cons_append] using paired) waits member
  -- what waits in front was handed out, and nothing at the back
  have front : ∀ letter ∈ before ++ head :: more, waiting now (acknowledged ids letter.entry) = false := by
    intro letter member
    cases waits_ : waiting now letter.entry with
    | false => exact waiting_acknowledged waits_
    | true =>
      apply waiting_acked
      rw [acknowledged_acked, named]
      exact Or.inl (List.mem_append_right _ (List.mem_map_of_mem (List.mem_filter.mpr ⟨member, waits_⟩)))
  have rear : ∀ letter ∈ back, letter.entry.envelope.envelopeId ∉ ids := by
    intro letter member
    rw [paired.entries, List.map_append, List.map_append, List.map_map, List.append_assoc] at distinct
    have tail := (List.nodup_append.mp distinct).2.1
    obtain ⟨-, lettersNodup, fromGreeting⟩ := List.nodup_append.mp tail
    rw [List.map_append] at lettersNodup
    obtain ⟨-, -, fromFront⟩ := List.nodup_append.mp lettersNodup
    rw [named, List.mem_append, not_or]
    constructor
    · intro greets
      exact fromGreeting _ greets _ (List.mem_map_of_mem (List.mem_append_right _ member)) rfl
    · intro fronts
      obtain ⟨other, inside, same⟩ := List.mem_map.mp fronts
      exact fromFront _ (List.mem_map_of_mem (List.mem_of_mem_filter inside)) _ (List.mem_map_of_mem member) same
  have order := paired.ordered
  rw [List.pairwise_append] at order
  refine ⟨?_, ?_, ?_, ?_, ?_, ?_, ?_⟩
  · rw [paired.entries]
    simp [List.map_append, List.map_map, Function.comp_def, Letter.settle]
  · intro entry member
    obtain ⟨earlier, inside, rfl⟩ := List.mem_map.mp member
    rw [acknowledged_acked]
    rcases List.mem_append.mp inside with was | greets
    · exact Or.inr (paired.settled earlier was)
    · rw [named]
      exact Or.inl (List.mem_append_left _ (List.mem_map_of_mem greets))
  · have sources := paired.sources
    simp only [List.map_append, List.map_cons, List.map_map] at sources ⊢
    exact sources
  · intro letter member
    obtain ⟨earlier, inside, rfl⟩ := List.mem_map.mp member
    change earlier.sent.message = (acknowledged ids earlier.entry).envelope.payload
    rw [acknowledged_envelope]
    have carries := paired.carries
    simp only [List.append_assoc, List.cons_append, List.forall_mem_append, List.forall_mem_cons] at carries inside
    simp only [List.mem_append, List.mem_cons] at inside
    rcases inside with early | rfl | late | behind
    · exact carries.1 earlier early
    · exact carries.2.1
    · exact carries.2.2.1 earlier late
    · exact carries.2.2.2 earlier behind
  · have known := paired.opened
    have none_ {part : List (Letter P)} (sub : ∀ letter ∈ part, letter ∈ more ++ back) : part.filter Letter.read = [] :=
      List.filter_eq_nil_iff.mpr fun letter member => by simp [unread (List.mem_cons_of_mem _ (sub letter member))]
    have noMore := none_ fun letter member => List.mem_append_left back member
    have noBack := none_ fun letter member => List.mem_append_right more member
    have carried := paired.carries head (by simp)
    have still : (Letter.read ∘ Letter.settle ids : Letter P → Bool) = Letter.read := rfl
    rw [List.filter_append, List.filter_append, List.filter_cons_of_neg (by simp [unread List.mem_cons_self]), noMore, noBack,
      List.append_nil, List.append_nil] at known
    rw [List.map_append, known, List.filter_map, still, List.filter_append, List.filter_append,
      List.filter_cons_of_pos rfl, noMore, noBack, ← carried]
    simp [Function.comp_def, Letter.settle]
  · intro letter member read
    obtain ⟨earlier, inside, rfl⟩ := List.mem_map.mp member
    change (acknowledged ids earlier.entry).acked = true
    rw [acknowledged_acked]
    simp only [List.append_assoc, List.cons_append, List.mem_append, List.mem_cons] at inside
    rcases inside with early | rfl | late | behind
    · exact Or.inr (paired.taken earlier (by simp [early]) read)
    · have here : head ∈ (before ++ head :: more).filter (fun letter => waiting now letter.entry) :=
        List.mem_filter.mpr ⟨by simp, waits⟩
      have listed := List.mem_map_of_mem (f := fun letter : Letter P => letter.entry.envelope.envelopeId) here
      rw [named]
      exact Or.inl (List.mem_append_right _ listed)
    · exact Or.inr (paired.taken earlier (by simp [late]) read)
    · exact Or.inr (paired.taken earlier (by simp [behind]) read)
  · rw [List.pairwise_map, List.pairwise_append]
    refine ⟨?_, ?_, ?_⟩
    · refine List.Pairwise.imp_of_mem (R := fun _ _ => True) ?_ (List.pairwise_of_forall fun _ _ => trivial)
      intro x y xIn _ _ _
      rcases List.mem_append.mp xIn with early | here
      · exact front x (List.mem_append_left _ early)
      rcases List.mem_cons.mp here with rfl | late
      · exact front head (by simp)
      · exact front x (by simp [late])
    · refine List.Pairwise.imp_of_mem ?_ order.2.1
      intro x y _ yIn settled acked
      change (acknowledged ids y.entry).acked = true at acked
      exact waiting_acknowledged (settled ((acknowledged_acked.mp acked).resolve_left (rear y yIn)))
    · intro x xIn y _ _
      rcases List.mem_append.mp xIn with early | here
      · exact front x (List.mem_append_left _ early)
      rcases List.mem_cons.mp here with rfl | late
      · exact front head (by simp)
      · exact front x (by simp [late])

/-- The first items of a list that pass a test are those of a front part of it. -/
theorem take_filter_split {α : Type*} (test : α → Bool) (items : List α) (count : Nat) :
    ∃ front back, items = front ++ back ∧ (items.filter test).take count = front.filter test := by
  induction items generalizing count with
  | nil => exact ⟨[], [], rfl, List.take_nil⟩
  | cons item items ih =>
    cases passes : test item with
    | false =>
      obtain ⟨front, back, rfl, same⟩ := ih count
      refine ⟨item :: front, back, rfl, ?_⟩
      rw [List.filter_cons_of_neg (by simp [passes]), List.filter_cons_of_neg (by simp [passes]), same]
    | true =>
      cases count with
      | zero => exact ⟨[], item :: items, rfl, rfl⟩
      | succ count =>
        obtain ⟨front, back, rfl, same⟩ := ih count
        refine ⟨item :: front, back, rfl, ?_⟩
        rw [List.filter_cons_of_pos passes, List.filter_cons_of_pos passes, List.take_succ_cons, same]

/-- The waiting letters that a pull hands out. -/
theorem Paired.handed (paired : Paired sent opened mail now old greeting letters) {count : Nat}
    {envelope : StoredEnvelope P} {rest : List (StoredEnvelope P)}
    (handed : envelope :: rest = ((letters.filter (fun letter => waiting now letter.entry)).map
      (fun letter => letter.entry.envelope)).take count) :
    ∃ before head more back, letters = before ++ head :: more ++ back ∧ head.entry.envelope = envelope ∧
      waiting now head.entry = true ∧
      (envelope :: rest).map StoredEnvelope.envelopeId =
        ((before ++ head :: more).filter (fun letter => waiting now letter.entry)).map
          (fun letter => letter.entry.envelope.envelopeId) := by
  obtain ⟨front, back, rfl, part⟩ := take_filter_split (fun letter : Letter P => waiting now letter.entry) letters count
  rw [← List.map_take, part] at handed
  obtain ⟨head, others, passing, rfl, -⟩ := List.map_eq_cons_iff.mp handed.symm
  obtain ⟨before, more, rfl, -, waits, -⟩ := List.filter_eq_cons_iff.mp passing
  refine ⟨before, head, more, back, rfl, rfl, waits, ?_⟩
  rw [handed, List.map_map]
  rfl

/-- The identifiers in a mailbox are those its pushes drew. -/
theorem mailbox_ids (config : CoreConfig) (q : Bytes32) (events : List (Event P)) :
    ((mailbox config q events).map (fun entry => entry.envelope.envelopeId)).Sublist (drawnIds events) := by
  induction events using List.reverseRecOn with
  | nil => exact .slnil
  | append_singleton events event ih =>
    rw [mailbox_append, drawnIds_append]
    obtain ⟨at_, request⟩ := event
    cases request with
    | push queueId payload ttlSeconds id =>
      simp only [apply]
      split_ifs
      · rw [List.map_append]
        exact ih.append (List.Sublist.refl _)
      · exact ih.trans (List.sublist_append_left _ _)
    | pull queueId limit => exact ih.trans (List.sublist_append_left _ _)
    | ack queueId id =>
      have kept : ((mailbox config q events).map (Entry.ack id)).map (fun entry => entry.envelope.envelopeId) =
          (mailbox config q events).map (fun entry => entry.envelope.envelopeId) := by
        rw [List.map_map]
        refine List.map_congr_left fun entry _ => ?_
        simp only [Function.comp_apply, Entry.ack]
        split_ifs <;> rfl
      simp only [apply]
      split_ifs
      · rw [kept]
        exact ih.trans (List.sublist_append_left _ _)
      · exact ih.trans (List.sublist_append_left _ _)
    | sweep => exact ih.trans (List.sublist_append_left _ _)

end

section
variable {S : Suite} {P : Platform} {Q : Schemes S} {material : PrekeyMaterial} {line : Line} {flight accepted : Bytes}
  {s s' : Exchanged P} {w : World S} {root : S.Key}

theorem sentTo_afterEncrypt (c : Conversation) (p q : Party) (plaintext : Bytes) (out : EncryptedMessage) :
    sentTo (afterEncrypt c p plaintext out) q =
      if q = p.peer then sentTo c q ++ [⟨p, plaintext, out.message⟩] else sentTo c q := by
  have mine : p = q.peer ↔ q = p.peer := by
    cases p <;> cases q <;> decide
  rw [sentTo, afterEncrypt, List.filter_append, List.filter_singleton]
  by_cases here : q = p.peer
  · simp [here, sentTo]
  · simp [here, mine, sentTo]

theorem openedBy_afterOpen (c : Conversation) (p q : Party) (message : Bytes) (generated : Bytes32)
    (out : DecryptedMessage) :
    openedBy (afterOpen S c p message generated out) q =
      if q = p then openedBy c q ++ [⟨p, message, out.plaintext⟩] else openedBy c q := by
  rw [openedBy, afterOpen, List.filter_append, List.filter_singleton]
  by_cases here : q = p
  · simp [here, openedBy]
  · simp [here, Ne.symm here, openedBy]

/-! A party with a session acts on it whether or not the other has one yet. -/

theorem seen_blob {p : Party} (ready : s.Ready p) (accepted : Bytes) : (s.seen accepted).blob p = s.talk.blob p := by
  unfold Exchanged.seen
  split_ifs with greeted
  · rfl
  · obtain rfl : p = .initiator := ready.resolve_right greeted
    have apart : Party.initiator ≠ Party.responder := by decide
    exact Function.update_of_ne apart accepted s.talk.blob

theorem seen_drawn (s : Exchanged P) (accepted : Bytes) : (s.seen accepted).drawn = s.talk.drawn := by
  unfold Exchanged.seen
  split_ifs <;> rfl

theorem seen_sent (s : Exchanged P) (accepted : Bytes) : (s.seen accepted).sent = s.talk.sent := by
  unfold Exchanged.seen
  split_ifs <;> rfl

theorem seen_opened (s : Exchanged P) (accepted : Bytes) : (s.seen accepted).opened = s.talk.opened := by
  unfold Exchanged.seen
  split_ifs <;> rfl

theorem seen_afterEncrypt {p : Party} (ready : s.Ready p) (accepted plaintext : Bytes) (out : EncryptedMessage)
    (events : List (Event P)) :
    Exchanged.seen ⟨afterEncrypt s.talk p plaintext out, events, s.greeted⟩ accepted =
      afterEncrypt (s.seen accepted) p plaintext out := by
  unfold Exchanged.seen
  dsimp only
  split_ifs with greeted
  · rfl
  · obtain rfl : p = .initiator := ready.resolve_right greeted
    have apart : Party.initiator ≠ Party.responder := by decide
    simp only [afterAccept, afterEncrypt, Function.update_comm apart]

theorem seen_afterOpen {p : Party} (ready : s.Ready p) (accepted message : Bytes) (generated : Bytes32)
    (out : DecryptedMessage) (events : List (Event P)) :
    Exchanged.seen ⟨afterOpen S s.talk p message generated out, events, s.greeted⟩ accepted =
      afterOpen S (s.seen accepted) p message generated out := by
  unfold Exchanged.seen
  dsimp only
  split_ifs with greeted
  · rfl
  · obtain rfl : p = .initiator := ready.resolve_right greeted
    have apart : Party.initiator ≠ Party.responder := by decide
    simp only [afterAccept, afterOpen, Conversation.drawnBy, Function.update_of_ne apart, Function.update_comm apart]

/-- The handshake waits for the responder's first pull. -/
def Greets (s : Exchanged P) (flight : Bytes) (p : Party) (greeting : Mailbox P) : Prop :=
  greeting = [] ∨ (p = .responder ∧ s.greeted = false ∧ ∃ entry, greeting = [entry] ∧ entry.envelope.payload = flight)

theorem Greets.none (p : Party) : Greets s flight p [] := Or.inl rfl

theorem Greets.ready {p : Party} {greeting : Mailbox P} (greets : Greets s flight p greeting) (ready : s.Ready p) :
    greeting = [] := by
  rcases greets with nothing | ⟨rfl, first, -⟩
  · exact nothing
  · rcases ready with other | greeted
    · cases other
    · rw [first] at greeted
      cases greeted

/-- A mailbox side by side with what its owner was sent and has opened. -/
def Kept (line : Line) (flight : Bytes) (s : Exchanged P) (now : Int) (p : Party) : Prop :=
  ∃ old greeting letters, Greets s flight p greeting ∧
    Paired (sentTo s.talk p) (openedBy s.talk p) (mailbox line.config (line.queue p) s.events) now old greeting letters

/-- The blobs store the states of a world, no message passes for a handshake, and each mailbox
holds what was sent to its owner. -/
structure Flowing (Q : Schemes S) (material : PrekeyMaterial) (line : Line) (flight accepted : Bytes) (s : Exchanged P)
    (w : World S) : Prop where
  stores : Stores (s.seen accepted) w
  plain : ∀ m ∈ s.talk.sent, ∀ session, acceptSession Q material.secrets material.bundle m.message ≠ .ok session
  kept : ∀ now, Valid line.config s.events now → ∀ p, Kept line flight s now p

theorem harmless_apply (line : Line) {event : Event P} (harmless : Harmless line event) (p : Party)
    (mail : Mailbox P) : apply line.config (line.queue p) mail event = mail := by
  rcases harmless with ⟨queueId, limit, pull⟩ | elsewhere
  · obtain ⟨at_, request⟩ := event
    cases pull
    rfl
  · exact apply_elsewhere line.config mail (elsewhere p)

variable (flowing : Flowing Q material line flight accepted s w)
include flowing

/-- A mailbox is as it was when nothing was asked of it. -/
theorem Flowing.quiet {event : Event P} {now : Int} (valid : Valid line.config (s.events ++ [event]) now) {p : Party}
    (still : ∀ mail, apply line.config (line.queue p) mail event = mail) :
    Kept line flight { s with events := s.events ++ [event] } now p := by
  obtain ⟨old, greeting, letters, greets, paired⟩ := flowing.kept event.at_ valid.init p
  refine ⟨old, greeting, letters, greets, ?_⟩
  rw [mailbox_append, still]
  exact paired.later (valid.past event (List.mem_append_right _ (List.mem_singleton_self _)))

omit flowing in
theorem apply_push_elsewhere (config : CoreConfig) {q queueId : Bytes32} (other : queueId ≠ q) (mail : Mailbox P)
    (at_ : Int) (payload : Bytes) (ttlSeconds : Int) (id : P.EnvelopeId) :
    apply config q mail ⟨at_, .push queueId payload ttlSeconds id⟩ = mail :=
  apply_elsewhere config mail (by simp [concerns, other])

theorem Flowing.push (p : Party) {plaintext : Bytes} {out : EncryptedMessage} {ttlSeconds at_ now : Int}
    {id : P.EnvelopeId}
    (valid : Valid line.config (s.events ++ [⟨at_, .push (line.queue p.peer) out.message ttlSeconds id⟩]) now)
    (q : Party) :
    Kept line flight ⟨afterEncrypt s.talk p plaintext out,
      s.events ++ [⟨at_, .push (line.queue p.peer) out.message ttlSeconds id⟩], s.greeted⟩ now q := by
  by_cases here : q = p.peer
  · subst here
    obtain ⟨old, greeting, letters, greets, paired⟩ := flowing.kept at_ valid.init p.peer
    have paired := paired.later (valid.past _ (List.mem_append_right _ (List.mem_singleton_self _)))
    unfold Kept
    rw [sentTo_afterEncrypt, if_pos rfl, mailbox_append]
    simp only [apply, true_and]
    split_ifs with accepts
    · exact ⟨old, greeting, _, greets, paired.push rfl⟩
    · exact ⟨old, greeting, _, greets, paired.lost _⟩
  · obtain ⟨old, greeting, letters, greets, paired⟩ := flowing.quiet valid fun mail =>
      apply_push_elsewhere line.config (line.queue_ne (Ne.symm here)) mail at_ out.message ttlSeconds id
    refine ⟨old, greeting, letters, greets, ?_⟩
    rw [sentTo_afterEncrypt, if_neg here]
    exact paired

theorem Flowing.pushLost (p : Party) (plaintext : Bytes) (out : EncryptedMessage) {now : Int}
    (valid : Valid line.config s.events now) (q : Party) :
    Kept line flight ⟨afterEncrypt s.talk p plaintext out, s.events, s.greeted⟩ now q := by
  obtain ⟨old, greeting, letters, greets, paired⟩ := flowing.kept now valid q
  refine ⟨old, greeting, letters, greets, ?_⟩
  rw [sentTo_afterEncrypt]
  split_ifs with here
  · exact paired.lost _
  · exact paired

/-- What a pull hands out. -/
theorem Flowing.pulled (positive : 1 ≤ line.config.maxPullLimit) {now limit : Int}
    (valid : Valid line.config s.events now) {p : Party} {envelopes : List (StoredEnvelope P)}
    (pulled : Relay.Mailbox.pull P line.config (history line.config s.events).1 (line.queue p) limit now =
      .ok envelopes) :
    ∃ old greeting letters, Greets s flight p greeting ∧
      Paired (sentTo s.talk p) (openedBy s.talk p) (mailbox line.config (line.queue p) s.events) now old greeting
        letters ∧
      envelopes = ((greeting.filter (waiting now)).map Entry.envelope ++
        (letters.filter (fun letter => waiting now letter.entry)).map (fun letter => letter.entry.envelope)).take
          (pullLimit line.config limit) := by
  obtain ⟨old, greeting, letters, greets, paired⟩ := flowing.kept now valid p
  have served := (tracks_history line.config s.events valid).pull_live positive (line.queue p) limit
  rw [pulled, Except.ok.injEq, paired.live] at served
  exact ⟨old, greeting, letters, greets, paired, served⟩

omit flowing

/-- The mailbox of a party after it read the first letter and acknowledged all that it was
handed, and the mailbox of the other. -/
theorem kept_collected {p : Party} {old greeting : Mailbox P} {before more back : List (Letter P)} {head : Letter P}
    {pulledAt limit now : Int} {envelopes : List (StoredEnvelope P)} {acks : List (Event P)} {c : Conversation}
    {generated : Bytes32} {out : DecryptedMessage} {greeted : Bool}
    (others : ∀ q, q ≠ p → ∀ now, Valid line.config s.events now → Kept line flight ⟨s.talk, s.events, greeted⟩ now q)
    (paired : Paired (sentTo s.talk p) (openedBy s.talk p) (mailbox line.config (line.queue p) s.events) pulledAt old
      greeting (before ++ head :: more ++ back))
    (waits : waiting pulledAt head.entry = true) (plaintext : out.plaintext = head.sent.plaintext)
    (named : envelopes.map StoredEnvelope.envelopeId = greeting.map (fun entry => entry.envelope.envelopeId) ++
      ((before ++ head :: more).filter (fun letter => waiting pulledAt letter.entry)).map
        (fun letter => letter.entry.envelope.envelopeId))
    (acked : Acks (line.queue p) envelopes acks) (sent : c.sent = s.talk.sent) (opened : c.opened = s.talk.opened)
    (valid : Valid line.config (s.events ++ [⟨pulledAt, .pull (line.queue p) limit⟩] ++ acks) now) (q : Party) :
    Kept line flight ⟨afterOpen S c p head.entry.envelope.payload generated out,
      s.events ++ [⟨pulledAt, .pull (line.queue p) limit⟩] ++ acks, greeted⟩ now q := by
  have asked := valid.sublist (List.sublist_append_left _ _)
  have early := asked.init
  have elapsed : pulledAt ≤ now := asked.past _ (List.mem_append_right _ (List.mem_singleton_self _))
  have skipped (q : Party) : mailbox line.config (line.queue q) (s.events ++ [⟨pulledAt, .pull (line.queue p) limit⟩]) =
      mailbox line.config (line.queue q) s.events := mailbox_append _ _ _ _
  have sentSame : sentTo (afterOpen S c p head.entry.envelope.payload generated out) q = sentTo s.talk q := by
    rw [sentTo, sentTo, ← sent]
    rfl
  have openedSame : openedBy c q = openedBy s.talk q := by rw [openedBy, openedBy, opened]
  unfold Kept
  rw [sentSame, openedBy_afterOpen, openedSame]
  by_cases here : q = p
  · subst here
    have ids := (mailbox_ids line.config (line.queue q) s.events).nodup early.ids
    refine ⟨(old ++ greeting).map (acknowledged (envelopes.map StoredEnvelope.envelopeId)), [],
      (before ++ { head with read := true } :: more ++ back).map
        (Letter.settle (envelopes.map StoredEnvelope.envelopeId)), Greets.none q, ?_⟩
    rw [if_pos rfl, mailbox_acks line.config acked, skipped, plaintext]
    exact (paired.collect ids waits named q).later elapsed
  · obtain ⟨old', greeting', letters', greets, other⟩ := others q here pulledAt early
    refine ⟨old', greeting', letters', greets, ?_⟩
    rw [if_neg here, mailbox_acks_elsewhere line.config (line.queue_ne (Ne.symm here)) acked, skipped]
    exact other.later elapsed

variable (ideal : Ideal S)
include ideal

/-- A message that opens gives back what was put into it. -/
theorem opens_as_sent (recorded : Recorded w) {m : Sent S} (member : m ∈ w.sent) {state after : RatchetState S}
    {generated : Bytes32} {plaintext : Bytes} (call : state.decrypt generated m.message = (after, .ok plaintext)) :
    plaintext = m.plaintext := by
  obtain ⟨header, ciphertext, parsed, sealed⟩ := recorded.sent m member
  obtain ⟨header', ciphertext', key, parsed', _, opened, _⟩ := RatchetState.decrypt_ok call
  rw [parsed] at parsed'
  cases parsed'
  have again := openMessage_sealMessage ideal.toLawful sealed
  obtain rfl := Ratchet.Secrecy.openMessage_key_unique ideal opened again
  rw [opened] at again
  exact Except.ok.inj again

/-- The first letter that is handed out is a message of the peer, and opens to its text. -/
theorem read_as_sent {c : Conversation} (stores : Stores c w) (recorded : Recorded w) {p : Party}
    {opened : List OpenedMessage} {mail old greeting : Mailbox P} {now : Int} {letters : List (Letter P)}
    {head : Letter P} (paired : Paired (sentTo c p) opened mail now old greeting letters) (member : head ∈ letters)
    {generated : Bytes32} {out : DecryptedMessage}
    (call : decryptMessage S (c.blob p) generated head.entry.envelope.payload = .ok out) :
    Injectable root c head.entry.envelope.payload ∧ out.plaintext = head.sent.plaintext := by
  have carried := paired.carries head member
  have listed := List.mem_of_mem_filter (paired.sources.subset (List.mem_map_of_mem member))
  constructor
  · intro header ciphertext parsed _ _ _ _ _ _ _ _
    exact ⟨head.sent, listed, header, carried ▸ parsed⟩
  · rw [stores.sent, List.mem_map] at listed
    obtain ⟨original, logged, same⟩ := listed
    rw [stores.blob] at call
    obtain ⟨state, called, _⟩ := (decryptMessage_stored ideal.toLawful (stores.storable p)).mp call
    rw [← carried, ← same] at called
    rw [opens_as_sent ideal recorded logged called, ← same]
    rfl

variable (root) in
include flowing in
theorem Flowing.receive (recorded : Recorded w) (positive : 1 ≤ line.config.maxPullLimit) {p : Party}
    (ready : s.Ready p) {limit pulledAt now : Int} {envelope : StoredEnvelope P} {rest : List (StoredEnvelope P)}
    {acks : List (Event P)} {generated : Bytes32} {out : DecryptedMessage}
    (pulled : Relay.Mailbox.pull P line.config (history line.config s.events).1 (line.queue p) limit pulledAt =
      .ok (envelope :: rest))
    (call : decryptMessage S (s.talk.blob p) generated envelope.payload = .ok out)
    (acked : Acks (line.queue p) (envelope :: rest) acks)
    (valid : Valid line.config (s.events ++ [⟨pulledAt, .pull (line.queue p) limit⟩] ++ acks) now) :
    Injectable root (s.seen accepted) envelope.payload ∧ ∀ q,
      Kept line flight ⟨afterOpen S s.talk p envelope.payload generated out,
        s.events ++ [⟨pulledAt, .pull (line.queue p) limit⟩] ++ acks, s.greeted⟩ now q := by
  have early := (valid.sublist (List.sublist_append_left _ _)).init
  obtain ⟨old, greeting, letters, greets, paired, handed⟩ := flowing.pulled positive early pulled
  obtain rfl := greets.ready ready
  obtain ⟨before, head, more, back, rfl, rfl, waits, named⟩ := paired.handed handed
  have member : head ∈ before ++ head :: more ++ back := by simp
  have sentSame : sentTo (s.seen accepted) p = sentTo s.talk p := by rw [sentTo, sentTo, seen_sent]
  rw [← seen_blob ready accepted] at call
  obtain ⟨injectable, plaintext⟩ := read_as_sent ideal flowing.stores recorded (sentSame.symm ▸ paired) member call
  refine ⟨injectable, fun q => ?_⟩
  exact kept_collected (fun q _ now valid => flowing.kept now valid q) paired waits plaintext named acked rfl rfl valid q

variable (root) in
include flowing in
/-- The responder's first pull starts with the handshake: nothing else passes for one. -/
theorem Flowing.accept (accepts : acceptSession Q material.secrets material.bundle flight = .ok accepted)
    (recorded : Recorded w) (positive : 1 ≤ line.config.maxPullLimit) (first : s.greeted = false)
    {limit pulledAt now : Int} {envelope next : StoredEnvelope P} {rest : List (StoredEnvelope P)}
    {acks : List (Event P)} {session : Bytes} {generated : Bytes32} {out : DecryptedMessage}
    (pulled : Relay.Mailbox.pull P line.config (history line.config s.events).1 (line.queue .responder) limit pulledAt =
      .ok (envelope :: next :: rest))
    (opens : acceptSession Q material.secrets material.bundle envelope.payload = .ok session)
    (call : decryptMessage S session generated next.payload = .ok out)
    (acked : Acks (line.queue .responder) (envelope :: next :: rest) acks)
    (valid : Valid line.config (s.events ++ [⟨pulledAt, .pull (line.queue .responder) limit⟩] ++ acks) now) :
    session = accepted ∧ Injectable root (s.seen accepted) next.payload ∧ ∀ q,
      Kept line flight ⟨afterOpen S (afterAccept s.talk session) .responder next.payload generated out,
        s.events ++ [⟨pulledAt, .pull (line.queue .responder) limit⟩] ++ acks, true⟩ now q := by
  have early := (valid.sublist (List.sublist_append_left _ _)).init
  obtain ⟨old, greeting, letters, greets, paired, handed⟩ := flowing.pulled positive early pulled
  -- a letter in front would be a message that passes for a handshake
  have letter_first {count : Nat} (others : envelope :: next :: rest =
      ((letters.filter (fun letter => waiting pulledAt letter.entry)).map
        (fun letter => letter.entry.envelope)).take count) : False := by
    obtain ⟨before, head, more, back, rfl, rfl, -⟩ := paired.handed others
    have member : head ∈ before ++ head :: more ++ back := by simp
    have listed := List.mem_of_mem_filter (paired.sources.subset (List.mem_map_of_mem member))
    rw [← paired.carries head member] at opens
    exact flowing.plain _ listed session opens
  rcases greets with rfl | ⟨-, -, entry, rfl, payload⟩
  · exact absurd handed fun here => letter_first here
  cases here : waiting pulledAt entry with
  | false =>
    rw [List.filter_cons_of_neg (by simp [here]), List.filter_nil, List.map_nil, List.nil_append] at handed
    exact absurd handed fun here => letter_first here
  | true =>
    rw [List.filter_cons_of_pos here, List.filter_nil, List.map_singleton, List.singleton_append] at handed
    obtain ⟨count, some_⟩ : ∃ count, pullLimit line.config limit = count + 1 := by
      refine Nat.exists_eq_succ_of_ne_zero fun zero => ?_
      rw [zero] at handed
      cases handed
    rw [some_, List.take_succ_cons] at handed
    obtain ⟨rfl, others⟩ := List.cons.inj handed
    obtain ⟨before, head, more, back, rfl, rfl, waits, named⟩ := paired.handed others
    rw [payload, accepts, Except.ok.injEq] at opens
    subst opens
    have member : head ∈ before ++ head :: more ++ back := by simp
    have sentSame : sentTo (s.seen accepted) .responder = sentTo s.talk .responder := by rw [sentTo, sentTo, seen_sent]
    have blob : (s.seen accepted).blob .responder = accepted := by
      rw [Exchanged.seen, if_neg (by simp [first])]
      exact Function.update_self Party.responder accepted s.talk.blob
    rw [← blob] at call
    obtain ⟨injectable, plaintext⟩ := read_as_sent ideal flowing.stores recorded (sentSame.symm ▸ paired) member call
    refine ⟨rfl, injectable, fun q => ?_⟩
    refine kept_collected (S := S) (c := afterAccept s.talk accepted) (fun q other now valid => ?_) paired waits
      plaintext ?_ acked rfl rfl valid q
    · obtain ⟨old, greeting, letters, greets, paired⟩ := flowing.kept now valid q
      rcases greets with nothing | ⟨same, -⟩
      · exact ⟨old, greeting, letters, Or.inl nothing, paired⟩
      · exact absurd same other
    · rw [List.map_cons, named]
      rfl

omit ideal in
/-- The requests of a turn come after those before it. -/
theorem Turn.earlier {now : Int} (turn : Turn Q material line s s') (valid : Valid line.config s'.events now) :
    ∃ earlier, Valid line.config s.events earlier := by
  cases turn with
  | push p ready call ttlSeconds id at_ => exact ⟨_, valid.init⟩
  | pushLost p ready call => exact ⟨now, valid⟩
  | accept first pulled accepts fresh call acked => exact ⟨_, (valid.sublist (List.sublist_append_left _ _)).init⟩
  | receive p ready pulled fresh call acked => exact ⟨_, (valid.sublist (List.sublist_append_left _ _)).init⟩
  | others harmless => exact ⟨_, valid.init⟩
  | thrown => exact ⟨now, valid⟩

omit ideal in
include flowing in
/-- A message more in the log is one more that passes for no handshake. -/
theorem Flowing.plain_push (lawful : Lawful S) {p : Party} {plaintext : Bytes} {out : EncryptedMessage}
    (call : encryptMessage S (s.talk.blob p) plaintext = .ok out) :
    ∀ m ∈ (afterEncrypt s.talk p plaintext out).sent, ∀ session,
      acceptSession Q material.secrets material.bundle m.message ≠ .ok session := by
  intro m member session
  rcases List.mem_append.mp member with before | new
  · exact flowing.plain m before session
  · obtain rfl := List.mem_singleton.mp new
    exact acceptSession_message lawful call _ _ _

/-- A turn of the clients is a step of the states their blobs store. -/
theorem turn_simulated (accepts : acceptSession Q material.secrets material.bundle flight = .ok accepted)
    (flowing : Flowing Q material line flight accepted s w) (recorded : Recorded w)
    (positive : 1 ≤ line.config.maxPullLimit) (turn : Turn Q material line s s') {now : Int}
    (valid : Valid line.config s'.events now) :
    ∃ w', Step (hostile root) w w' ∧ Flowing Q material line flight accepted s' w' := by
  cases turn with
  | @push p ready plaintext out call ttlSeconds id at_ =>
    obtain ⟨w', step, stores⟩ := call_simulated ideal.toLawful flowing.stores
      (@Call.encrypt _ root _ p plaintext out (by rw [seen_blob ready]; exact call))
    refine ⟨w', step, ?_, flowing.plain_push ideal.toLawful call, fun now valid => flowing.push p valid⟩
    rw [seen_afterEncrypt ready]
    exact stores
  | @pushLost p ready plaintext out call =>
    obtain ⟨w', step, stores⟩ := call_simulated ideal.toLawful flowing.stores
      (@Call.encrypt _ root _ p plaintext out (by rw [seen_blob ready]; exact call))
    refine ⟨w', step, ?_, flowing.plain_push ideal.toLawful call, fun now valid => flowing.pushLost p _ _ valid⟩
    rw [seen_afterEncrypt ready]
    exact stores
  | @accept limit pulledAt greeting envelope rest acks session generated out first pulled opens fresh call acked =>
    have received {later : Int} (valid : Valid line.config
        (s.events ++ [⟨pulledAt, .pull (line.queue .responder) limit⟩] ++ acks) later) :=
      Flowing.accept root flowing ideal accepts recorded positive first pulled opens call acked valid
    obtain ⟨rfl, injectable, -⟩ := received valid
    have armed : s.seen session = afterAccept s.talk session := if_neg (by simp [first])
    have blob : (s.seen session).blob .responder = session := by
      rw [armed]
      exact Function.update_self Party.responder session s.talk.blob
    obtain ⟨w', step, stores⟩ := call_simulated ideal.toLawful flowing.stores (Call.decrypt .responder injectable
      (by rw [blob, seen_drawn]; exact fresh) (by rw [blob]; exact call))
    refine ⟨w', step, ?_, flowing.plain, fun now valid => (received valid).2.2⟩
    rw [armed] at stores
    exact stores
  | @receive p ready limit pulledAt envelope rest acks generated out pulled fresh call acked =>
    have received {later : Int} (valid : Valid line.config
        (s.events ++ [⟨pulledAt, .pull (line.queue p) limit⟩] ++ acks) later) :=
      Flowing.receive root flowing ideal recorded positive ready pulled call acked valid
    obtain ⟨w', step, stores⟩ := call_simulated ideal.toLawful flowing.stores (Call.decrypt p (received valid).1
      (by rw [seen_blob ready, seen_drawn]; exact fresh) (by rw [seen_blob ready]; exact call))
    refine ⟨w', step, ?_, flowing.plain, fun now valid => (received valid).2⟩
    rw [seen_afterOpen ready]
    exact stores
  | others harmless =>
    exact ⟨w, .rolledBack, flowing.stores, flowing.plain, fun now valid p =>
      flowing.quiet valid (harmless_apply line harmless p)⟩
  | thrown => exact ⟨w, .rolledBack, flowing⟩

theorem turns_simulated (accepts : acceptSession Q material.secrets material.bundle flight = .ok accepted)
    (positive : 1 ≤ line.config.maxPullLimit) {signedPrekey generated : Bytes32}
    (flowing : Flowing Q material line flight accepted s (World.start root signedPrekey generated))
    (turns : Turns Q material line s s') {now : Int} (valid : Valid line.config s'.events now) :
    ∃ w, Run (hostile root) (World.start root signedPrekey generated) w ∧
      Flowing Q material line flight accepted s' w := by
  induction turns generalizing now with
  | refl => exact ⟨_, .refl, flowing⟩
  | tail _ turn ih =>
    obtain ⟨earlier, before⟩ := turn.earlier valid
    obtain ⟨w, run, reached⟩ := ih before
    obtain ⟨w', step, there⟩ :=
      turn_simulated ideal accepts reached (recorded_run ideal.toLawful run) positive turn valid
    exact ⟨w', run.tail step, there⟩

omit ideal

/-- A place in a sublist is a place in the list. -/
theorem sublist_split {α : Type*} {first second all : List α} {item : α} (sub : (first ++ item :: second).Sublist all) :
    ∃ before after, all = before ++ item :: after ∧ first.Sublist before ∧ second.Sublist after := by
  obtain ⟨left, right, rfl, early, late⟩ := List.append_sublist_iff.mp sub
  obtain ⟨middle, rest, rfl, here, late'⟩ := List.cons_sublist_iff.mp late
  obtain ⟨start, stop, rfl⟩ := List.append_of_mem here
  exact ⟨left ++ start, stop ++ rest, by simp, early.trans (List.sublist_append_left _ _),
    List.Sublist.trans late' (List.sublist_append_right _ _)⟩

/-- The messages sent to a party, as the world has them. -/
theorem sentTo_stored {c : Conversation} (stores : Stores c w) (p : Party) :
    sentTo c p = (w.sent.filter (fun m => m.sender = p.peer)).map stripSent := by
  rw [sentTo, stores.sent, List.filter_map]
  rfl

/-- A letter splits the log of the world at its message. -/
theorem Paired.logged {c : Conversation} (stores : Stores c w) {opened : List OpenedMessage}
    {mail old greeting : Mailbox P} {now : Int} {p : Party} {before after : List (Letter P)} {head : Letter P}
    (paired : Paired (sentTo c p) opened mail now old greeting (before ++ head :: after)) :
    ∃ (early late : List (Sent S)) (original : Sent S) (ahead behind : List (Sent S)),
      w.sent = early ++ original :: late ∧ stripSent original = head.sent ∧
      original.sender = p.peer ∧ ahead.Sublist (early.filter (fun m => m.sender = p.peer)) ∧
      ahead.map stripSent = before.map Letter.sent ∧ behind.Sublist (late.filter (fun m => m.sender = p.peer)) ∧
      behind.map stripSent = after.map Letter.sent := by
  have sources := paired.sources
  rw [sentTo_stored stores, List.sublist_map_iff] at sources
  obtain ⟨images, sub, spelled⟩ := sources
  rw [List.map_append, List.map_cons, eq_comm, List.map_eq_append_iff] at spelled
  obtain ⟨ahead, rest, rfl, aheadIs, restIs⟩ := spelled
  obtain ⟨original, behind, rfl, originalIs, behindIs⟩ := List.map_eq_cons_iff.mp restIs
  obtain ⟨left, right, log, earlySub, lateSub⟩ := sublist_split sub
  obtain ⟨early, rest, whole, rfl, passes⟩ := List.filter_eq_append_iff.mp log
  obtain ⟨gap, late, rfl, silent, mine, rfl⟩ := List.filter_eq_cons_iff.mp passes
  have none_ : gap.filter (fun m => decide (m.sender = p.peer)) = [] := List.filter_eq_nil_iff.mpr silent
  refine ⟨early ++ gap, late, original, ahead, behind, ?_, originalIs, by simpa using mine, ?_, aheadIs, lateSub, behindIs⟩
  · rw [whole, List.append_assoc]
  · rw [List.filter_append, none_, List.append_nil]
    exact earlySub

include ideal

/-- The first letter that waits opens, as long as no more than `MAX_SKIP` of the messages sent
to the party were lost. -/
theorem Flowing.next_opens (session : SessionRoot S root) (flowing : Flowing Q material line flight accepted s w)
    {signedPrekey generated : Bytes32} (different : S.publicKey signedPrekey ≠ S.publicKey generated)
    (run : Run (hostile root) (World.start root signedPrekey generated) w) (short : ∀ dh, chainLength w dh < 2 ^ 32)
    {p : Party} {mail old greeting : Mailbox P} {now : Int} {before after : List (Letter P)} {head : Letter P}
    (paired : Paired (sentTo s.talk p) (openedBy s.talk p) mail now old greeting (before ++ head :: after))
    (waits : waiting now head.entry = true)
    (few : (sentTo s.talk p).length ≤ (openedBy s.talk p).length +
      ((before ++ head :: after).filter (fun letter => waiting now letter.entry)).length + maxSkip.toNat)
    (done : ∀ letter ∈ before, waiting now letter.entry = false) (fresh : Bytes32) :
    ∃ session, decryptMessage S ((s.seen accepted).blob p) fresh head.sent.message =
      .ok ⟨session, head.sent.plaintext⟩ := by
  have faithful := hostile_faithful root
  have stores := flowing.stores
  have keys := (ledger_run ideal session (ledger_start signedPrekey generated) run).sentKeys
  have sentSame : sentTo (s.seen accepted) p = sentTo s.talk p := by rw [sentTo, sentTo, seen_sent]
  have openedSame : (s.seen accepted).opened = s.talk.opened := seen_opened s accepted
  obtain ⟨early, late, original, ahead, behind, log, originalIs, sender, aheadSub, aheadIs, behindSub, behindIs⟩ :=
    Paired.logged stores (sentSame.symm ▸ paired)
  have receiver : original.sender.peer = p := by rw [sender, Party.peer_peer]
  have readIs : (before ++ head :: after).filter Letter.read = before.filter Letter.read := by
    have none_ : (head :: after).filter Letter.read = [] :=
      List.filter_eq_nil_iff.mpr fun letter member => by simp [paired.unread _ waits member]
    rw [List.filter_append, none_, List.append_nil]
  have openedIs := paired.opened
  rw [readIs] at openedIs
  -- the messages opened so far, and those in front that were not
  have openedSub : ((before.filter Letter.read).map Letter.sent).Sublist (ahead.map stripSent) :=
    aheadIs ▸ List.filter_sublist.map _
  obtain ⟨taken, takenSub, takenIs⟩ := List.sublist_map_iff.mp openedSub
  obtain ⟨missing, perm⟩ := (takenSub.trans aheadSub).exists_perm_append
  have sizes : missing.length ≤ maxSkip.toNat := by
    have openedLength := congrArg List.length openedIs
    have takenLength := congrArg List.length takenIs
    have permLength := perm.length_eq
    have behindLength := behindSub.length_le
    have behindSame := congrArg List.length behindIs
    have none_ : before.filter (fun letter => waiting now letter.entry) = [] :=
      List.filter_eq_nil_iff.mpr fun letter member => Bool.eq_false_iff.mp (done letter member)
    have tail := List.length_filter_le (fun letter : Letter P => waiting now letter.entry) after
    rw [← sentSame, sentTo_stored stores, log, List.filter_append, List.filter_cons_of_pos (by simp [sender]),
      List.filter_append, List.filter_cons_of_pos (p := fun letter : Letter P => waiting now letter.entry) waits,
      none_] at few
    simp only [List.length_map, List.length_append, List.length_cons, List.nil_append] at *
    omega
  have known (letter : Letter P) (member : letter ∈ before.filter Letter.read) :
      ∃ o ∈ w.opened, o.receiver = p ∧ o.message = letter.sent.message := by
    have listed := List.mem_map_of_mem (f := fun letter : Letter P => (letter.sent.message, letter.sent.plaintext)) member
    rw [← openedIs] at listed
    obtain ⟨o, mine, same⟩ := List.mem_map.mp listed
    obtain ⟨member', receives⟩ := List.mem_filter.mp mine
    rw [← openedSame, stores.opened] at member'
    obtain ⟨o', logged, rfl⟩ := List.mem_map.mp member'
    exact ⟨o', logged, of_decide_eq_true receives, (Prod.mk.inj same).1⟩
  have others : ∀ m' ∈ early, m'.sender = original.sender → m' ∉ missing →
      ∃ o ∈ w.opened, o.receiver = original.sender.peer ∧ parseMessage o.message = parseMessage m'.message := by
    intro m' member same kept
    have mine : m' ∈ early.filter (fun m => decide (m.sender = p.peer)) :=
      List.mem_filter.mpr ⟨member, by simp [same, sender]⟩
    have opened := (List.mem_append.mp (perm.mem_iff.mp mine)).resolve_right kept
    have listed : stripSent m' ∈ (before.filter Letter.read).map Letter.sent := takenIs ▸ List.mem_map_of_mem opened
    obtain ⟨letter, inside, named⟩ := List.mem_map.mp listed
    obtain ⟨o, logged, receives, message⟩ := known letter inside
    refine ⟨o, logged, receives.trans receiver.symm, ?_⟩
    rw [message, named]
    rfl
  have first : ∀ o ∈ w.opened, o.receiver = original.sender.peer →
      parseMessage o.message ≠ parseMessage original.message := by
    intro o logged receives same
    have mine : stripOpened o ∈ openedBy s.talk p := by
      refine List.mem_filter.mpr ⟨?_, by simp [stripOpened, receives, receiver]⟩
      rw [← openedSame, stores.opened]
      exact List.mem_map_of_mem logged
    have listed := List.mem_map_of_mem (f := fun o : OpenedMessage => (o.message, o.plaintext)) mine
    rw [openedIs] at listed
    obtain ⟨letter, inside, message⟩ := List.mem_map.mp listed
    have place : letter.sent ∈ (before.filter Letter.read).map Letter.sent := List.mem_map_of_mem inside
    rw [takenIs] at place
    obtain ⟨m', taken', named⟩ := List.mem_map.mp place
    have early' : m' ∈ early := List.mem_of_mem_filter ((takenSub.trans aheadSub).subset taken')
    have parses : parseMessage m'.message = parseMessage original.message := by
      have text : m'.message = o.message := (congrArg SentMessage.message named).trans (Prod.mk.inj message).1
      rw [text, same]
    -- a message and its copy would share a key
    obtain ⟨secret, depth, inStep⟩ := inStep_run ideal session faithful different run short
    have here : original ∈ w.sent := log ▸ List.mem_append_right _ List.mem_cons_self
    have there : m' ∈ w.sent := log ▸ List.mem_append_left _ early'
    obtain ⟨header, ciphertext, _, parsed, _⟩ := inStep.sentAt original here
    have slot := slotOf_parsed parsed
    rw [← parses] at parsed
    have keyed := InStep.same_key inStep there here (slotOf_parsed parsed) slot
    rw [log, List.map_append, List.map_cons, List.nodup_append] at keys
    exact keys.2.2 _ (List.mem_map_of_mem early') _ List.mem_cons_self keyed
  obtain ⟨after, call⟩ := few_missing_opens ideal session faithful different run short log first sizes others fresh
  rw [receiver] at call
  rw [stores.blob, ← originalIs]
  exact ⟨toBytes after, (decryptMessage_stored ideal.toLawful (stores.storable p)).mpr ⟨after, call, rfl⟩⟩

omit ideal in
theorem flowing_start {root : S.Key} {signedPrekey generated : Bytes32} {events : List (Event P)}
    (settled : ∀ p, ∀ entry ∈ mailbox line.config (line.queue p) events, entry.acked = true)
    (at_ ttlSeconds : Int) (id : P.EnvelopeId) :
    Flowing Q material line flight (toBytes (RatchetState.responder root signedPrekey))
      (Exchanged.start line ⟨toBytes (RatchetState.initiator root (S.publicKey signedPrekey) generated), flight⟩
        [S.publicKey signedPrekey, S.publicKey generated] events at_ ttlSeconds id)
      (World.start root signedPrekey generated) where
  stores := by
    have both : Exchanged.seen (Exchanged.start line
          ⟨toBytes (RatchetState.initiator root (S.publicKey signedPrekey) generated), flight⟩
          [S.publicKey signedPrekey, S.publicKey generated] events at_ ttlSeconds id)
        (toBytes (RatchetState.responder root signedPrekey)) =
        Conversation.start (toBytes (RatchetState.initiator root (S.publicKey signedPrekey) generated))
          (toBytes (RatchetState.responder root signedPrekey)) [S.publicKey signedPrekey, S.publicKey generated] := by
      rw [Exchanged.seen, Exchanged.start, if_neg Bool.false_ne_true, afterAccept, Conversation.start,
        Conversation.start]
      congr 1
      funext p
      cases p <;> rfl
    rw [both]
    exact stores_start root signedPrekey generated
  plain _ absent := absurd absent List.not_mem_nil
  kept now _ p := by
    have quiet (greeting : Mailbox P) (entries : mailbox line.config (line.queue p) (events ++
          [⟨at_, .push (line.queue .responder) flight ttlSeconds id⟩]) =
        mailbox line.config (line.queue p) events ++ greeting) :
        Paired [] [] (mailbox line.config (line.queue p) (events ++
          [⟨at_, .push (line.queue .responder) flight ttlSeconds id⟩])) now
          (mailbox line.config (line.queue p) events) greeting [] :=
      ⟨by rw [entries, List.map_nil, List.append_nil], settled p, List.nil_sublist _,
        fun _ absent => absurd absent List.not_mem_nil, rfl, fun _ absent => absurd absent List.not_mem_nil, .nil⟩
    cases p with
    | initiator =>
      refine ⟨_, [], [], Greets.none _, quiet [] ?_⟩
      rw [mailbox_append, apply_push_elsewhere line.config line.apart.symm, List.append_nil]
    | responder =>
      by_cases takes : Relay.Refinement.accepted line.config flight = true
      · refine ⟨_, [⟨newEnvelope line.config at_ flight ttlSeconds id, false⟩], [], Or.inr ⟨rfl, rfl, _, rfl, rfl⟩,
          quiet _ ?_⟩
        rw [mailbox_append]
        exact if_pos ⟨rfl, takes⟩
      · refine ⟨_, [], [], Greets.none _, quiet [] ?_⟩
        rw [mailbox_append, List.append_nil]
        exact if_neg fun both => takes both.2

end

section

def samplePush (q : Bytes32) (payload : Bytes) (id : String) : Event samplePlatform := ⟨0, .push q payload 60 id⟩

theorem samplePush_valid {config : CoreConfig} (ttl : clampTtl config 60 = 60) (q : Bytes32) (flight message : Bytes) :
    Valid config [samplePush q flight "first", samplePush q message "second"] 0 where
  clock := by simp [samplePush]
  past := by simp [samplePush]
  readings := by
    simp only [List.forall_mem_cons, List.not_mem_nil, false_implies, implies_true, and_true]
    have zero := decide_eq_true (show (-2 ^ 62 : Int) ≤ 0 ∧ (0 : Int) < 2 ^ 62 by decide)
    exact ⟨zero, zero⟩
  expiries := by
    have minute := decide_eq_true (show (-2 ^ 62 : Int) ≤ 60000 ∧ (60000 : Int) < 2 ^ 62 by decide)
    intro event member queueId bytes ttlSeconds id request
    rcases List.mem_pair.mp member with rfl | rfl
    · cases request
      rw [ttl]
      exact minute
    · cases request
      rw [ttl]
      exact minute
  ids := show ["first", "second"].Nodup by decide

theorem samplePush_pulled {config : CoreConfig} (ttl : clampTtl config 60 = 60) (limit : pullLimit config 10 = 10)
    (positive : 1 ≤ config.maxPullLimit) {q : Bytes32} {flight message : Bytes}
    (fits : Relay.Refinement.accepted config flight = true) (fits' : Relay.Refinement.accepted config message = true) :
    Relay.Mailbox.pull samplePlatform config
        (history config [samplePush q flight "first", samplePush q message "second"]).1 q 10 0 =
      .ok [⟨("first" : String), flight, 0, 60000⟩, ⟨("second" : String), message, 0, 60000⟩] := by
  rw [(tracks_history config _ (samplePush_valid ttl q flight message)).pull_live positive q 10, limit]
  have entries : mailbox config q [samplePush q flight "first", samplePush q message "second"] =
      [⟨⟨("first" : String), flight, 0, 60000⟩, false⟩, ⟨⟨("second" : String), message, 0, 60000⟩, false⟩] := by
    simp [mailbox, apply, samplePush, fits, fits', newEnvelope, ttl]
  rw [entries]
  rfl

end

end Buh.Client.Relayed
