import Buh.Relay.Mailbox

/-! What the relay is for: a mailbox for each queue, which knows nothing of tables, rowids
and sweeps. The store refines it, because a swept row is one that no later pull could have
returned. -/

namespace Buh.Relay.Refinement
open Buh.Library.RowTable Buh.Wire.Codec Buh.Crypto.Primitives Buh.Relay.Mailbox

structure Entry (P : Platform) where
  envelope : StoredEnvelope P
  acked : Bool

/-- The envelopes ever accepted by one queue, in the order of their arrival. -/
abbrev Mailbox (P : Platform) := List (Entry P)

section
variable {P : Platform}

def accepted (config : CoreConfig) (payload : Bytes) : Bool :=
  payload ≠ [] ∧ payload.length ≤ config.maxPayloadBytes

def newEnvelope (config : CoreConfig) (at_ : Int) (payload : Bytes) (ttlSeconds : Int) (id : P.EnvelopeId) :
    StoredEnvelope P :=
  ⟨id, payload, at_, at_ + 1000 * clampTtl config ttlSeconds⟩

def Entry.ack (id : P.EnvelopeId) (entry : Entry P) : Entry P :=
  if entry.envelope.envelopeId = id then { entry with acked := true } else entry

/-- What one request does to the mailbox of `q`. -/
def apply (config : CoreConfig) (q : Bytes32) (mailbox : Mailbox P) (event : Event P) : Mailbox P :=
  match event.request with
  | .push queueId payload ttlSeconds id =>
    if queueId = q ∧ accepted config payload then
      mailbox ++ [⟨newEnvelope config event.at_ payload ttlSeconds id, false⟩]
    else mailbox
  | .ack queueId id => if queueId = q then mailbox.map (Entry.ack id) else mailbox
  | .pull _ _ => mailbox
  | .sweep => mailbox

def mailbox (config : CoreConfig) (q : Bytes32) (events : List (Event P)) : Mailbox P :=
  events.foldl (apply config q) []

/-- What a pull at `now` may return. -/
def live (now : Int) (mailbox : Mailbox P) : List (StoredEnvelope P) :=
  (mailbox.filter (fun entry => !entry.acked && decide (now < entry.envelope.expiresAt))).map Entry.envelope

/-- The requests made to `q`. -/
def concerns (q : Bytes32) (event : Event P) : Bool :=
  match event.request with
  | .push queueId _ _ _ => queueId = q
  | .pull queueId _ => queueId = q
  | .ack queueId _ => queueId = q
  | .sweep => false

theorem apply_elsewhere (config : CoreConfig) {q : Bytes32} (mailbox : Mailbox P) {event : Event P}
    (elsewhere : concerns q event = false) : apply config q mailbox event = mailbox := by
  obtain ⟨at_, request⟩ := event
  cases request with
  | push queueId payload ttlSeconds id =>
    have other : ¬queueId = q := by simpa [concerns] using elsewhere
    simp [apply, other]
  | pull queueId limit => rfl
  | ack queueId id =>
    have other : ¬queueId = q := by simpa [concerns] using elsewhere
    simp [apply, other]
  | sweep => rfl

/-- The mailbox of a queue is determined by the requests made to it. -/
theorem mailbox_filter (config : CoreConfig) (q : Bytes32) (events : List (Event P)) :
    mailbox config q (events.filter (concerns q)) = mailbox config q events := by
  induction events using List.reverseRecOn with
  | nil => rfl
  | append_singleton events event ih =>
    rw [List.filter_append, mailbox, mailbox, List.foldl_append, List.foldl_append]
    change List.foldl _ (mailbox config q (events.filter (concerns q))) _ = apply config q (mailbox config q events) event
    rw [ih]
    cases here : concerns q event with
    | true => simp [here]
    | false => simp [here, apply_elsewhere config _ here]

end

section
variable {P : Platform}

/-- The identifiers drawn by the pushes of a history. -/
def drawnIds (events : List (Event P)) : List P.EnvelopeId :=
  events.filterMap (fun event =>
    match event.request with
    | .push _ _ _ id => some id
    | _ => none)

/-- The envelopes that the log shows as pushed to `q`. -/
def pushedTo (config : CoreConfig) (q : Bytes32) (log : List (Served P)) : List (StoredEnvelope P) :=
  log.filterMap (fun served =>
    match served.event.request, served.response with
    | .push queueId payload ttlSeconds _, .pushed (.ok id) =>
      if queueId = q then some (newEnvelope config served.event.at_ payload ttlSeconds id) else none
    | _, _ => none)

/-- The log shows an `ack` of the envelope that returned true. -/
def ackedIn (log : List (Served P)) (q : Bytes32) (id : P.EnvelopeId) : Bool :=
  log.any (fun served =>
    match served.event.request, served.response with
    | .ack queueId acked, .acked (.ok true) => queueId = q ∧ acked = id
    | _, _ => false)

/-- A history as the relay meets it, up to the instant `now`. -/
structure Valid (config : CoreConfig) (events : List (Event P)) (now : Int) : Prop where
  clock : events.Pairwise (fun first second => first.at_ ≤ second.at_)
  past : ∀ event ∈ events, event.at_ ≤ now
  readings : ∀ event ∈ events, P.representable event.at_ = true
  expiries : ∀ event ∈ events, ∀ queueId payload ttlSeconds id,
    event.request = .push queueId payload ttlSeconds id →
      P.representable (event.at_ + 1000 * clampTtl config ttlSeconds) = true
  ids : (drawnIds events).Nodup

/-- What a row and an entry of the same envelope have in common. -/
structure View where
  envelopeId : String
  payload : Bytes
  receivedAt : Int
  expiresAt : Int
  acked : Bool

def rowView (row : EnvelopeRow) : View :=
  ⟨row.envelopeId, row.payload, row.receivedAt, row.expiresAt, row.deliveredAt.isSome⟩

def entryView (entry : Entry P) : View :=
  ⟨P.idText entry.envelope.envelopeId, entry.envelope.payload, entry.envelope.receivedAt,
    entry.envelope.expiresAt, entry.acked⟩

def unexpired (now : Int) (view : View) : Bool := decide (now < view.expiresAt)

/-- The rows of one queue. -/
def queueRows (q : Bytes32) (rows : List EnvelopeRow) : List EnvelopeRow :=
  rows.filter (fun row => row.queueId = q.toList)

/-- As far as a pull at `now` or later can see, the rows of each queue are its mailbox. -/
def Agrees (config : CoreConfig) (rows : List EnvelopeRow) (events : List (Event P)) (now : Int) : Prop :=
  ∀ q, ((queueRows q rows).map rowView).filter (unexpired now) =
    ((mailbox config q events).map entryView).filter (unexpired now)

/-- The rows come from pushes, in the order of the clock. -/
structure Sound (rows : List EnvelopeRow) (events : List (Event P)) (now : Int) : Prop where
  sorted : rows.Pairwise (fun first second => first.receivedAt ≤ second.receivedAt)
  past : ∀ row ∈ rows, row.receivedAt ≤ now
  drawn : ∀ row ∈ rows, ∃ id ∈ drawnIds events, row.envelopeId = P.idText id
  instants : ∀ row ∈ rows, P.representable row.receivedAt = true ∧ P.representable row.expiresAt = true

theorem idText_injective : Function.Injective P.idText := by
  intro first second same
  have parsed := P.parse_text first
  rw [same, P.parse_text] at parsed
  exact (Except.ok.inj parsed).symm

theorem filter_unexpired_later {now later : Int} (le : now ≤ later) (views : List View) :
    (views.filter (unexpired now)).filter (unexpired later) = views.filter (unexpired later) := by
  rw [List.filter_filter]
  congr 1
  funext view
  simp only [unexpired, Bool.and_eq_left_iff_imp, decide_eq_true_eq]
  omega

theorem Agrees.later {config : CoreConfig} {rows : List EnvelopeRow} {events : List (Event P)} {now later : Int}
    (agrees : Agrees config rows events now) (le : now ≤ later) : Agrees config rows events later := by
  intro q
  calc
    _ = (((queueRows q rows).map rowView).filter (unexpired now)).filter (unexpired later) :=
      (filter_unexpired_later le _).symm
    _ = (((mailbox config q events).map entryView).filter (unexpired now)).filter (unexpired later) := by
      rw [agrees q]
    _ = _ := filter_unexpired_later le _

theorem Sound.later {rows : List EnvelopeRow} {events : List (Event P)} {now later : Int}
    (sound : Sound rows events now) (le : now ≤ later) : Sound rows events later :=
  ⟨sound.sorted, fun row member => (sound.past row member).trans le, sound.drawn, sound.instants⟩

theorem queueRows_append (q : Bytes32) (rows : List EnvelopeRow) (row : EnvelopeRow) :
    queueRows q (rows ++ [row]) = queueRows q rows ++ if row.queueId = q.toList then [row] else [] := by
  simp only [queueRows, List.filter_append, List.filter_cons, List.filter_nil, decide_eq_true_eq]

/-- Within the calendar, the sum of `push` does not saturate. -/
theorem expires_exact {now ttlSeconds : Int} (reading : P.representable now = true)
    (expiry : P.representable (now + 1000 * ttlSeconds) = true) :
    saturate (now + saturate (ttlSeconds * 1000)) = now + 1000 * ttlSeconds := by
  have start := P.bounded reading
  have stop := P.bounded expiry
  have inner : saturate (ttlSeconds * 1000) = ttlSeconds * 1000 := by
    rw [saturate, if_neg (by rw [i64Min]; omega), if_neg (by rw [i64Max]; omega)]
  rw [inner, saturate, if_neg (by rw [i64Min]; omega), if_neg (by rw [i64Max]; omega)]
  omega

/-- A row that `ack` marks keeps everything else. -/
def markRow (q : Bytes32) (id : P.EnvelopeId) (now : Int) (row : EnvelopeRow) : EnvelopeRow :=
  if Repo.isUnacked P q id row then { row with deliveredAt := some now } else row

theorem markRow_eq (q : Bytes32) (id : P.EnvelopeId) (now : Int) (row : EnvelopeRow) :
    ∃ deliveredAt, markRow q id now row = { row with deliveredAt } ∧ (deliveredAt = none → row.deliveredAt = none) := by
  unfold markRow
  split_ifs
  · exact ⟨some now, rfl, by rintro ⟨⟩⟩
  · exact ⟨row.deliveredAt, rfl, fun same => same⟩

section
variable (q : Bytes32) (id : P.EnvelopeId) (now : Int) (row : EnvelopeRow)

@[simp] theorem markRow_queueId : (markRow q id now row).queueId = row.queueId := by
  obtain ⟨deliveredAt, same, _⟩ := markRow_eq q id now row
  rw [same]

@[simp] theorem markRow_envelopeId : (markRow q id now row).envelopeId = row.envelopeId := by
  obtain ⟨deliveredAt, same, _⟩ := markRow_eq q id now row
  rw [same]

@[simp] theorem markRow_receivedAt : (markRow q id now row).receivedAt = row.receivedAt := by
  obtain ⟨deliveredAt, same, _⟩ := markRow_eq q id now row
  rw [same]

@[simp] theorem markRow_expiresAt : (markRow q id now row).expiresAt = row.expiresAt := by
  obtain ⟨deliveredAt, same, _⟩ := markRow_eq q id now row
  rw [same]

end

theorem isUnacked_iff {q : Bytes32} {id : P.EnvelopeId} {row : EnvelopeRow} :
    Repo.isUnacked P q id row = true ↔
      row.queueId = q.toList ∧ row.envelopeId = P.idText id ∧ row.deliveredAt = none := by
  rw [Repo.isUnacked, decide_eq_true_eq]

/-- A row is of one envelope of one queue. -/
theorem isUnacked_unique {q queueId : Bytes32} {id other : P.EnvelopeId} {row : EnvelopeRow}
    (first : Repo.isUnacked P q id row = true) (second : Repo.isUnacked P queueId other row = true) :
    queueId = q ∧ other = id := by
  rw [isUnacked_iff] at first second
  exact ⟨List.Vector.toList_injective (second.1.symm.trans first.1),
    idText_injective (second.2.1.symm.trans first.2.1)⟩

theorem isUnacked_mark {q queueId : Bytes32} {id other : P.EnvelopeId} {now : Int} {row : EnvelopeRow} :
    Repo.isUnacked P q id (markRow queueId other now row) = true ↔
      Repo.isUnacked P q id row = true ∧ ¬(queueId = q ∧ other = id) := by
  cases marked : Repo.isUnacked P queueId other row with
  | true =>
    have same : markRow queueId other now row = { row with deliveredAt := some now } := if_pos marked
    rw [same, isUnacked_iff]
    constructor
    · rintro ⟨_, _, delivered⟩
      cases delivered
    · rintro ⟨unacked, different⟩
      exact absurd (isUnacked_unique unacked marked) different
  | false =>
    have same : markRow queueId other now row = row := if_neg (by rw [marked]; decide)
    rw [same]
    refine ⟨fun unacked => ⟨unacked, ?_⟩, fun unacked => unacked.1⟩
    rintro ⟨rfl, rfl⟩
    rw [marked] at unacked
    cases unacked

def markView (id : P.EnvelopeId) (view : View) : View :=
  if view.envelopeId = P.idText id then { view with acked := true } else view

theorem queueRows_mark (q queueId : Bytes32) (id : P.EnvelopeId) (now : Int) (rows : List EnvelopeRow) :
    queueRows q (rows.map (markRow queueId id now)) = (queueRows q rows).map (markRow queueId id now) := by
  rw [queueRows, List.filter_map, queueRows]
  congr 2
  funext row
  simp only [Function.comp_apply, markRow_queueId]

theorem rowView_mark {q : Bytes32} {id : P.EnvelopeId} {now : Int} {row : EnvelopeRow}
    (here : row.queueId = q.toList) : rowView (markRow q id now row) = markView id (rowView row) := by
  obtain ⟨queueId, envelopeId, payload, receivedAt, expiresAt, deliveredAt⟩ := row
  simp only at here
  by_cases named : envelopeId = P.idText id <;> cases deliveredAt <;>
    simp [markRow, markView, rowView, Repo.isUnacked, here, named]

theorem rowView_mark_elsewhere {q queueId : Bytes32} {id : P.EnvelopeId} {now : Int} {row : EnvelopeRow}
    (here : row.queueId = q.toList) (other : queueId ≠ q) :
    rowView (markRow queueId id now row) = rowView row := by
  have apart : ¬q.toList = queueId.toList := fun same => other (List.Vector.toList_injective same).symm
  simp [markRow, Repo.isUnacked, here, apart]

theorem entryView_ack (id : P.EnvelopeId) (entry : Entry P) :
    entryView (entry.ack id) = markView id (entryView entry) := by
  by_cases named : entry.envelope.envelopeId = id
  · simp [Entry.ack, markView, entryView, named]
  · have apart : ¬P.idText entry.envelope.envelopeId = P.idText id := fun same => named (idText_injective same)
    simp [Entry.ack, markView, entryView, named, apart]

theorem filter_unexpired_mark (now : Int) (id : P.EnvelopeId) (views : List View) :
    (views.map (markView id)).filter (unexpired now) = (views.filter (unexpired now)).map (markView id) := by
  rw [List.filter_map]
  congr 2
  funext view
  simp only [Function.comp_apply, markView]
  split_ifs <;> rfl

/-- The row of an accepted push. -/
def pushedRow (config : CoreConfig) (queueId : Bytes32) (payload : Bytes) (ttlSeconds : Int) (id : P.EnvelopeId)
    (now : Int) : EnvelopeRow :=
  ⟨queueId.toList, P.idText id, payload, now, now + 1000 * clampTtl config ttlSeconds, none⟩

theorem history_append (config : CoreConfig) (events : List (Event P)) (event : Event P) :
    history config (events ++ [event]) = advance config (history config events) event := by
  rw [history, List.foldl_append]
  rfl

theorem mailbox_append (config : CoreConfig) (q : Bytes32) (events : List (Event P)) (event : Event P) :
    mailbox config q (events ++ [event]) = apply config q (mailbox config q events) event := by
  rw [mailbox, List.foldl_append]
  rfl

theorem drawnIds_append (events : List (Event P)) (event : Event P) :
    drawnIds (events ++ [event]) = drawnIds events ++ drawnIds [event] := by
  rw [drawnIds, List.filterMap_append]
  rfl

section
variable {config : CoreConfig} {rows : List EnvelopeRow} {events : List (Event P)} {now : Int}

/-- A request that leaves every mailbox alone. -/
theorem Agrees.idle (agrees : Agrees config rows events now) {event : Event P}
    (idle : ∀ q (mailbox : Mailbox P), apply config q mailbox event = mailbox) :
    Agrees config rows (events ++ [event]) now := by
  intro q
  rw [mailbox_append, idle]
  exact agrees q

theorem Agrees.push (agrees : Agrees config rows events now) {queueId : Bytes32} {payload : Bytes}
    (accepts : accepted config payload = true) (ttlSeconds : Int) (id : P.EnvelopeId) :
    Agrees config (rows ++ [pushedRow config queueId payload ttlSeconds id now])
      (events ++ [⟨now, .push queueId payload ttlSeconds id⟩]) now := by
  intro q
  rw [mailbox_append, queueRows_append]
  by_cases here : queueId = q
  · subst here
    simp only [apply, pushedRow, accepts, and_self, if_true, List.map_append, List.filter_append, agrees queueId]
    rfl
  · have apart : ¬queueId.toList = q.toList := fun same => here (List.Vector.toList_injective same)
    simp only [apply, pushedRow, here, false_and, if_false, apart, List.append_nil]
    exact agrees q

theorem Agrees.ack (agrees : Agrees config rows events now) (queueId : Bytes32) (id : P.EnvelopeId) :
    Agrees config (rows.map (markRow queueId id now)) (events ++ [⟨now, .ack queueId id⟩]) now := by
  intro q
  rw [mailbox_append, queueRows_mark]
  have inside : ∀ row ∈ queueRows q rows, row.queueId = q.toList := by
    intro row member
    simpa using (List.mem_filter.mp member).2
  by_cases here : queueId = q
  · subst here
    have marked : ((queueRows queueId rows).map (markRow queueId id now)).map rowView =
        ((queueRows queueId rows).map rowView).map (markView id) := by
      simp only [List.map_map]
      exact List.map_congr_left (fun row member => rowView_mark (inside row member))
    have acked : ((mailbox config queueId events).map (Entry.ack id)).map entryView =
        ((mailbox config queueId events).map entryView).map (markView id) := by
      simp only [List.map_map]
      exact List.map_congr_left (fun entry _ => entryView_ack id entry)
    simp only [apply, if_true, marked, acked]
    rw [filter_unexpired_mark, filter_unexpired_mark, agrees queueId]
  · have same : ((queueRows q rows).map (markRow queueId id now)).map rowView = (queueRows q rows).map rowView := by
      rw [List.map_map]
      exact List.map_congr_left (fun row member => rowView_mark_elsewhere (inside row member) here)
    simp only [apply, here, if_false, same]
    exact agrees q

theorem Agrees.sweep (agrees : Agrees config rows events now) :
    Agrees config (rows.filter (fun row => !decide (row.expiresAt ≤ now))) (events ++ [⟨now, .sweep⟩]) now := by
  intro q
  have kept : ((queueRows q (rows.filter (fun row => !decide (row.expiresAt ≤ now)))).map rowView).filter
      (unexpired now) = ((queueRows q rows).map rowView).filter (unexpired now) := by
    simp only [queueRows, List.filter_map, List.filter_filter]
    congr 2
    funext row
    simp only [Function.comp_apply, unexpired, rowView]
    by_cases alive : now < row.expiresAt <;> simp [alive]
  rw [kept, agrees q, mailbox_append]
  rfl

theorem Sound.push (sound : Sound rows events now) {row : EnvelopeRow} {event : Event P} {id : P.EnvelopeId}
    (received : row.receivedAt = now) (named : row.envelopeId = P.idText id) (member : id ∈ drawnIds [event])
    (instants : P.representable row.receivedAt = true ∧ P.representable row.expiresAt = true) :
    Sound (rows ++ [row]) (events ++ [event]) now where
  sorted := by
    rw [List.pairwise_append]
    refine ⟨sound.sorted, List.pairwise_singleton _ _, ?_⟩
    intro first earlier last same
    rw [List.mem_singleton] at same
    rw [same, received]
    exact sound.past first earlier
  past := by
    intro other found
    rcases List.mem_append.mp found with old | new
    · exact sound.past other old
    · rw [List.mem_singleton.mp new, received]
  drawn := by
    intro other found
    rw [drawnIds_append]
    rcases List.mem_append.mp found with old | new
    · obtain ⟨id', drawn, text⟩ := sound.drawn other old
      exact ⟨id', List.mem_append_left _ drawn, text⟩
    · rw [List.mem_singleton.mp new]
      exact ⟨id, List.mem_append_right _ member, named⟩
  instants := by
    intro other found
    rcases List.mem_append.mp found with old | new
    · exact sound.instants other old
    · rw [List.mem_singleton.mp new]
      exact instants

/-- Rows that are removed or marked leave the rest sound. -/
theorem Sound.sublist (sound : Sound rows events now) {fewer : List EnvelopeRow} (sub : fewer.Sublist rows)
    (event : Event P) : Sound fewer (events ++ [event]) now where
  sorted := sound.sorted.sublist sub
  past row member := sound.past row (sub.subset member)
  drawn row member := by
    obtain ⟨id, drawn, text⟩ := sound.drawn row (sub.subset member)
    rw [drawnIds_append]
    exact ⟨id, List.mem_append_left _ drawn, text⟩
  instants row member := sound.instants row (sub.subset member)

theorem Sound.mark (sound : Sound rows events now) (queueId : Bytes32) (id : P.EnvelopeId) :
    Sound (rows.map (markRow queueId id now)) events now := by
  constructor
  · rw [List.pairwise_map]
    simpa only [markRow_receivedAt] using sound.sorted
  · simpa only [List.forall_mem_map, markRow_receivedAt] using sound.past
  · simpa only [List.forall_mem_map, markRow_envelopeId] using sound.drawn
  · simpa only [List.forall_mem_map, markRow_receivedAt, markRow_expiresAt] using sound.instants

end

theorem pushedTo_append (config : CoreConfig) (q : Bytes32) (log : List (Served P)) (served : Served P) :
    pushedTo config q (log ++ [served]) = pushedTo config q log ++ pushedTo config q [served] := by
  rw [pushedTo, List.filterMap_append]
  rfl

theorem ackedIn_append (log : List (Served P)) (served : Served P) (q : Bytes32) (id : P.EnvelopeId) :
    ackedIn (log ++ [served]) q id = (ackedIn log q id || ackedIn [served] q id) := by
  rw [ackedIn, List.any_append]
  rfl

theorem ackedIn_silent {served : Served P} (silent : ∀ q id, ackedIn [served] q id = false) (log : List (Served P))
    (q : Bytes32) (id : P.EnvelopeId) : ackedIn (log ++ [served]) q id = ackedIn log q id := by
  rw [ackedIn_append, silent, Bool.or_false]

theorem push_rejected {config : CoreConfig} (store : Store) (queueId : Bytes32) {payload : Bytes}
    (refused : accepted config payload = false) (ttlSeconds : Int) (id : P.EnvelopeId) (now : Int) :
    ∃ e, push P config store queueId payload ttlSeconds id now = (store, .error e) := by
  unfold push
  by_cases empty : payload = []
  · exact ⟨_, if_pos empty⟩
  · have long : config.maxPayloadBytes < payload.length := by
      simpa [accepted, empty] using refused
    rw [if_neg empty, if_pos long]
    exact ⟨_, rfl⟩

/-- An accepted push under a fresh identifier stores its row. -/
theorem push_stores {config : CoreConfig} {store : Store} (queueId : Bytes32) {payload : Bytes}
    (accepts : accepted config payload = true) (ttlSeconds : Int) {id : P.EnvelopeId} (now : Int)
    (unused : ∀ row ∈ store.envelopes.contents, row.envelopeId ≠ P.idText id) :
    push P config store queueId payload ttlSeconds id now =
      ({ store with envelopes := store.envelopes.insert ⟨queueId.toList, P.idText id, payload, now,
        saturate (now + saturate (clampTtl config ttlSeconds * 1000)), none⟩ }, .ok id) := by
  simp only [accepted, ne_eq, decide_eq_true_eq] at accepts
  have free : (store.envelopes.contents.any (fun other =>
      decide (other.queueId = queueId.toList ∧ other.envelopeId = P.idText id))) = false := by
    rw [List.any_eq_false]
    intro row member
    simp [unused row member]
  rw [push, if_neg accepts.1, if_neg (by omega), Repo.push]
  simp only [free, Bool.false_eq_true, if_false]

theorem push_accepted {config : CoreConfig} {store : Store} (queueId : Bytes32) {payload : Bytes}
    (accepts : accepted config payload = true) {ttlSeconds : Int} {id : P.EnvelopeId} {now : Int}
    (unused : ∀ row ∈ store.envelopes.contents, row.envelopeId ≠ P.idText id)
    (reading : P.representable now = true)
    (expiry : P.representable (now + 1000 * clampTtl config ttlSeconds) = true) :
    push P config store queueId payload ttlSeconds id now =
      ({ store with envelopes := store.envelopes.insert (pushedRow config queueId payload ttlSeconds id now) },
        .ok id) := by
  rw [push_stores queueId accepts ttlSeconds now unused, expires_exact reading expiry]
  rfl

/-- A push stores nothing, or one unmarked row of its envelope. -/
theorem push_outcome (config : CoreConfig) (store : Store) (queueId : Bytes32) (payload : Bytes) (ttlSeconds : Int)
    (id : P.EnvelopeId) (now : Int) :
    (∃ e, Mailbox.push P config store queueId payload ttlSeconds id now = (store, .error e)) ∨
      ∃ row, Repo.isUnacked P queueId id row = true ∧ Mailbox.push P config store queueId payload ttlSeconds id now =
        ({ store with envelopes := store.envelopes.insert row }, .ok id) := by
  unfold Mailbox.push Repo.push
  split_ifs
  · exact Or.inl ⟨_, rfl⟩
  · exact Or.inl ⟨_, rfl⟩
  · simp only
    split_ifs
    · exact Or.inl ⟨_, rfl⟩
    · exact Or.inr ⟨_, isUnacked_iff.mpr ⟨rfl, rfl, rfl⟩, rfl⟩

/-- `ack` marks the row it finds and answers whether there was one. -/
theorem ack_answers (store : Store) (queueId : Bytes32) (id : P.EnvelopeId) (now : Int) :
    (Repo.ack P store queueId id now).1.envelopes.contents =
        store.envelopes.contents.map (markRow queueId id now) ∧
      (Repo.ack P store queueId id now).2 = .ok (store.envelopes.contents.any (Repo.isUnacked P queueId id)) := by
  have contents := Table.contents_update store.envelopes (Repo.isUnacked P queueId id)
    (fun row => { row with deliveredAt := some now })
  cases found : store.envelopes.contents.any (Repo.isUnacked P queueId id) with
  | true =>
    have affected : ¬(store.envelopes.update (Repo.isUnacked P queueId id)
        (fun row => { row with deliveredAt := some now })).2 = 0 := by
      obtain ⟨row, member, matching⟩ := List.any_eq_true.mp found
      exact (List.countP_pos_iff.mpr ⟨row, member, matching⟩).ne'
    simp only [Repo.ack, if_neg affected]
    exact ⟨contents, trivial⟩
  | false =>
    have affected : (store.envelopes.update (Repo.isUnacked P queueId id)
        (fun row => { row with deliveredAt := some now })).2 = 0 := by
      refine List.countP_eq_zero.mpr (fun row member => ?_)
      exact List.any_eq_false.mp found row member
    simp only [Repo.ack, if_pos affected]
    exact ⟨contents, trivial⟩

theorem sweep_contents (store : Store) (now : Int) : (Repo.expire store now).1.envelopes.contents =
    store.envelopes.contents.filter (fun row => !decide (row.expiresAt ≤ now)) :=
  Table.contents_delete store.envelopes (fun row => decide (row.expiresAt ≤ now))

/-- The store and the log of a history against its mailboxes. -/
structure Tracks (config : CoreConfig) (done : Store × List (Served P)) (events : List (Event P)) (now : Int) :
    Prop where
  agrees : Agrees config done.1.envelopes.contents events now
  sound : Sound done.1.envelopes.contents events now
  pushed : ∀ q, pushedTo config q done.2 = (mailbox config q events).map Entry.envelope
  acked : ∀ q, ∀ entry ∈ mailbox config q events, now < entry.envelope.expiresAt →
    entry.acked = ackedIn done.2 q entry.envelope.envelopeId
  ackedDrawn : ∀ q id, ackedIn done.2 q id = true → id ∈ drawnIds events

section
variable {config : CoreConfig} {done : Store × List (Served P)} {events : List (Event P)} {now : Int}

theorem tracks_empty (config : CoreConfig) (now : Int) : Tracks (P := P) config (.empty, []) [] now where
  agrees _ := rfl
  sound := ⟨.nil, fun _ absent => absurd absent List.not_mem_nil, fun _ absent => absurd absent List.not_mem_nil,
    fun _ absent => absurd absent List.not_mem_nil⟩
  pushed _ := rfl
  acked _ _ absent := absurd absent List.not_mem_nil
  ackedDrawn _ _ absent := by cases absent

theorem Tracks.later (tracks : Tracks config done events now) {later : Int} (le : now ≤ later) :
    Tracks config done events later where
  agrees := tracks.agrees.later le
  sound := tracks.sound.later le
  pushed := tracks.pushed
  acked q entry member alive := tracks.acked q entry member (le.trans_lt alive)
  ackedDrawn := tracks.ackedDrawn

/-- A request that changes no mailbox and logs neither a push nor an acknowledgement. -/
theorem Tracks.idle (tracks : Tracks config done events now) {store : Store} {served : Served P}
    (idle : ∀ q (mailbox : Mailbox P), apply config q mailbox served.event = mailbox)
    (pushes : ∀ q, pushedTo config q [served] = []) (acks : ∀ q id, ackedIn [served] q id = false)
    (agrees : Agrees config store.envelopes.contents (events ++ [served.event]) now)
    (sound : Sound store.envelopes.contents (events ++ [served.event]) now) :
    Tracks config (store, done.2 ++ [served]) (events ++ [served.event]) now where
  agrees := agrees
  sound := sound
  pushed q := by rw [pushedTo_append, pushes, List.append_nil, mailbox_append, idle, tracks.pushed]
  acked q entry member alive := by
    rw [mailbox_append, idle] at member
    rw [ackedIn_silent acks, tracks.acked q entry member alive]
  ackedDrawn q id found := by
    rw [ackedIn_silent acks] at found
    rw [drawnIds_append]
    exact List.mem_append_left _ (tracks.ackedDrawn q id found)

theorem Tracks.push_rejected (tracks : Tracks config done events now) (queueId : Bytes32) {payload : Bytes}
    (refused : accepted config payload = false) (ttlSeconds : Int) (id : P.EnvelopeId) :
    Tracks config (advance config done ⟨now, .push queueId payload ttlSeconds id⟩)
      (events ++ [⟨now, .push queueId payload ttlSeconds id⟩]) now := by
  obtain ⟨e, answer⟩ := Refinement.push_rejected done.1 queueId refused ttlSeconds id now
  have idle (q : Bytes32) (mailbox : Mailbox P) :
      apply config q mailbox ⟨now, .push queueId payload ttlSeconds id⟩ = mailbox := by
    simp [apply, refused]
  simp only [advance, serve, answer]
  exact tracks.idle idle (fun _ => rfl) (fun _ _ => rfl) (tracks.agrees.idle idle)
    (tracks.sound.sublist (List.Sublist.refl _) _)

theorem Tracks.push_accepted (tracks : Tracks config done events now) (queueId : Bytes32) {payload : Bytes}
    (accepts : accepted config payload = true) {ttlSeconds : Int} {id : P.EnvelopeId} (fresh : id ∉ drawnIds events)
    (reading : P.representable now = true)
    (expiry : P.representable (now + 1000 * clampTtl config ttlSeconds) = true) :
    Tracks config (advance config done ⟨now, .push queueId payload ttlSeconds id⟩)
      (events ++ [⟨now, .push queueId payload ttlSeconds id⟩]) now := by
  have unused : ∀ row ∈ done.1.envelopes.contents, row.envelopeId ≠ P.idText id := by
    intro row member same
    obtain ⟨id', drawn, text⟩ := tracks.sound.drawn row member
    exact fresh (idText_injective (text.symm.trans same) ▸ drawn)
  have answer := Refinement.push_accepted queueId accepts unused reading expiry
  simp only [advance, serve, answer]
  refine ⟨?_, ?_, ?_, ?_, ?_⟩
  · rw [Table.contents_insert]
    exact tracks.agrees.push accepts ttlSeconds id
  · rw [Table.contents_insert]
    exact tracks.sound.push rfl rfl (List.mem_singleton_self id) ⟨reading, expiry⟩
  · intro q
    rw [pushedTo_append, mailbox_append, tracks.pushed]
    by_cases here : queueId = q <;> simp [apply, pushedTo, here, accepts]
  · intro q entry member alive
    rw [ackedIn_silent (fun _ _ => rfl)]
    rw [mailbox_append] at member
    by_cases here : queueId = q
    · simp only [apply, here, accepts, and_self, if_true, List.mem_append, List.mem_singleton] at member
      rcases member with old | rfl
      · exact tracks.acked q entry old alive
      · -- no acknowledgement of an identifier succeeded before it was drawn
        cases earlier : ackedIn done.2 q id with
        | false => exact earlier.symm
        | true => exact absurd (tracks.ackedDrawn q id earlier) fresh
    · simp only [apply, here, false_and, if_false] at member
      exact tracks.acked q entry member alive
  · intro q other found
    rw [ackedIn_silent (fun _ _ => rfl)] at found
    rw [drawnIds_append]
    exact List.mem_append_left _ (tracks.ackedDrawn q other found)

/-- An unacknowledged entry that has not expired has an unmarked row. -/
theorem Tracks.unacked_row (tracks : Tracks config done events now) {q : Bytes32} {entry : Entry P}
    (member : entry ∈ mailbox config q events) (alive : now < entry.envelope.expiresAt)
    (open_ : entry.acked = false) :
    done.1.envelopes.contents.any (Repo.isUnacked P q entry.envelope.envelopeId) = true := by
  have seen : entryView entry ∈ ((mailbox config q events).map entryView).filter (unexpired now) :=
    List.mem_filter.mpr ⟨List.mem_map_of_mem member, decide_eq_true alive⟩
  rw [← tracks.agrees q] at seen
  obtain ⟨row, inside, same⟩ := List.mem_map.mp (List.mem_filter.mp seen).1
  obtain ⟨found, here⟩ := List.mem_filter.mp inside
  obtain ⟨named, _, _, _, flag⟩ := View.mk.inj same
  refine List.any_eq_true.mpr ⟨row, found, ?_⟩
  rw [open_] at flag
  simp only [decide_eq_true_eq] at here
  simp [Repo.isUnacked, here, named, Option.isNone_iff_eq_none.mp (Option.isSome_eq_false_iff.mp flag)]

theorem Tracks.ack (tracks : Tracks config done events now) (queueId : Bytes32) (id : P.EnvelopeId) :
    Tracks config (advance config done ⟨now, .ack queueId id⟩) (events ++ [⟨now, .ack queueId id⟩]) now := by
  obtain ⟨contents, answer⟩ := ack_answers done.1 queueId id now
  have logged (q : Bytes32) (other : P.EnvelopeId) :
      ackedIn [⟨⟨now, .ack queueId id⟩, .acked (Repo.ack P done.1 queueId id now).2⟩] q other = true ↔
        done.1.envelopes.contents.any (Repo.isUnacked P queueId id) = true ∧ queueId = q ∧ id = other := by
    rw [answer]
    cases done.1.envelopes.contents.any (Repo.isUnacked P queueId id) <;> simp [ackedIn]
  have served : advance config done ⟨now, .ack queueId id⟩ = ((Repo.ack P done.1 queueId id now).1,
      done.2 ++ [⟨⟨now, .ack queueId id⟩, .acked (Repo.ack P done.1 queueId id now).2⟩]) := rfl
  rw [served]
  refine ⟨?_, ?_, ?_, ?_, ?_⟩
  · rw [contents]
    exact tracks.agrees.ack queueId id
  · rw [contents]
    exact (tracks.sound.mark queueId id).sublist (List.Sublist.refl _) _
  · intro q
    rw [pushedTo_append, mailbox_append, tracks.pushed]
    change _ ++ [] = _
    have kept (entry : Entry P) : (entry.ack id).envelope = entry.envelope := by
      unfold Entry.ack
      split_ifs <;> rfl
    by_cases here : queueId = q <;> simp [apply, here, kept]
  · intro q entry member alive
    rw [ackedIn_append, Bool.eq_iff_iff, Bool.or_eq_true, logged]
    rw [mailbox_append] at member
    by_cases here : queueId = q
    · subst here
      simp only [apply, if_true, List.mem_map] at member
      obtain ⟨before, old, rfl⟩ := member
      by_cases named : before.envelope.envelopeId = id
      · have same : before.ack id = { before with acked := true } := if_pos named
        rw [same] at alive ⊢
        have earlier := tracks.acked queueId before old alive
        refine iff_of_true rfl ?_
        cases open_ : before.acked with
        | true => exact Or.inl (earlier.symm.trans open_)
        | false => exact Or.inr ⟨named ▸ tracks.unacked_row old alive open_, rfl, named.symm⟩
      · have same : before.ack id = before := if_neg named
        rw [same] at alive ⊢
        rw [tracks.acked queueId before old alive]
        exact ⟨Or.inl, fun either => either.resolve_right (fun new => named new.2.2.symm)⟩
    · simp only [apply, here, if_false] at member
      rw [tracks.acked q entry member alive]
      exact ⟨Or.inl, fun either => either.resolve_right (fun new => here new.2.1)⟩
  · intro q other found
    rw [ackedIn_append, Bool.or_eq_true, logged] at found
    rw [drawnIds_append]
    apply List.mem_append_left
    rcases found with old | ⟨some_, rfl, rfl⟩
    · exact tracks.ackedDrawn q other old
    · obtain ⟨row, member, unacked⟩ := List.any_eq_true.mp some_
      obtain ⟨id', drawn, text⟩ := tracks.sound.drawn row member
      simp only [Repo.isUnacked, decide_eq_true_eq] at unacked
      exact idText_injective (text.symm.trans unacked.2.1) ▸ drawn

theorem Tracks.pull (tracks : Tracks config done events now) (queueId : Bytes32) (limit : Int) :
    Tracks config (advance config done ⟨now, .pull queueId limit⟩) (events ++ [⟨now, .pull queueId limit⟩])
      now :=
  tracks.idle (fun _ _ => rfl) (fun _ => rfl) (fun _ _ => rfl) (tracks.agrees.idle (fun _ _ => rfl))
    (tracks.sound.sublist (List.Sublist.refl _) _)

theorem Tracks.sweep (tracks : Tracks config done events now) :
    Tracks config (advance config done ⟨now, .sweep⟩) (events ++ [⟨now, .sweep⟩]) now := by
  have served : advance config done ⟨now, .sweep⟩ = ((Repo.expire done.1 now).1,
      done.2 ++ [⟨⟨now, .sweep⟩, .swept (Repo.expire done.1 now).2⟩]) := rfl
  rw [served]
  refine tracks.idle (fun _ _ => rfl) (fun _ => rfl) (fun _ _ => rfl) ?_ ?_
  · rw [sweep_contents]
    exact tracks.agrees.sweep
  · rw [sweep_contents]
    exact tracks.sound.sublist List.filter_sublist _

end

theorem Valid.init {config : CoreConfig} {events : List (Event P)} {event : Event P} {now : Int}
    (valid : Valid config (events ++ [event]) now) : Valid config events event.at_ where
  clock := (List.pairwise_append.mp valid.clock).1
  past earlier member := (List.pairwise_append.mp valid.clock).2.2 earlier member event (List.mem_singleton_self _)
  readings earlier member := valid.readings earlier (List.mem_append_left _ member)
  expiries earlier member := valid.expiries earlier (List.mem_append_left _ member)
  ids := by
    have all := valid.ids
    rw [drawnIds_append] at all
    exact (List.nodup_append.mp all).1

theorem Valid.sublist {config : CoreConfig} {all fewer : List (Event P)} {now : Int} (valid : Valid config all now)
    (sub : fewer.Sublist all) : Valid config fewer now where
  clock := valid.clock.sublist sub
  past event member := valid.past event (sub.subset member)
  readings event member := valid.readings event (sub.subset member)
  expiries event member := valid.expiries event (sub.subset member)
  ids := valid.ids.sublist (sub.filterMap _)

/-- The store of every valid history tracks its mailboxes. -/
theorem tracks_history (config : CoreConfig) (events : List (Event P)) {now : Int}
    (valid : Valid config events now) : Tracks config (history config events) events now := by
  induction events using List.reverseRecOn generalizing now with
  | nil => exact tracks_empty config now
  | append_singleton events event ih =>
    have tracks := ih valid.init
    have member : event ∈ events ++ [event] := List.mem_append_right _ (List.mem_singleton_self _)
    have reading := valid.readings event member
    refine Tracks.later ?_ (valid.past event member)
    rw [history_append]
    obtain ⟨at_, request⟩ := event
    cases request with
    | push queueId payload ttlSeconds id =>
      have all := valid.ids
      rw [drawnIds_append] at all
      have fresh : id ∉ drawnIds events := fun earlier =>
        (List.nodup_append.mp all).2.2 id earlier id (List.mem_singleton_self id) rfl
      cases accepts : accepted config payload with
      | false => exact tracks.push_rejected queueId accepts ttlSeconds id
      | true =>
        exact tracks.push_accepted queueId accepts fresh reading
          (valid.expiries _ member queueId payload ttlSeconds id rfl)
    | pull queueId limit => exact tracks.pull queueId limit
    | ack queueId id => exact tracks.ack queueId id
    | sweep => exact tracks.sweep

/-- Rows that look like entries are read back as their envelopes. -/
theorem mapM_rowToEnvelope {rows : List EnvelopeRow} {entries : List (Entry P)}
    (same : rows.map rowView = entries.map entryView)
    (instants : ∀ row ∈ rows, P.representable row.receivedAt = true ∧ P.representable row.expiresAt = true) :
    rows.mapM (rowToEnvelope P) = .ok (entries.map Entry.envelope) := by
  induction rows generalizing entries with
  | nil =>
    rw [List.map_nil, eq_comm, List.map_eq_nil_iff] at same
    rw [same]
    rfl
  | cons row rows ih =>
    obtain ⟨entry, rest, rfl, head, tail⟩ := List.map_eq_cons_iff.mp same.symm
    obtain ⟨id, payload, received, expires, _⟩ := View.mk.inj head
    have known := instants row List.mem_cons_self
    rw [← received, ← expires] at known
    have read : rowToEnvelope P row = .ok entry.envelope := by
      simp only [rowToEnvelope, ← id, P.parse_text, msToDt, known, if_true, ← payload, bind, Except.bind, pure,
        Except.pure, ← received, ← expires]
    rw [List.mapM_cons, read, ih tail.symm (fun other member => instants other (List.mem_cons_of_mem _ member))]
    rfl

/-- The rows a pull selects are the live entries of the mailbox. -/
theorem Agrees.live {config : CoreConfig} {rows : List EnvelopeRow} {events : List (Event P)} {now : Int}
    (agrees : Agrees config rows events now) (q : Bytes32) :
    (rows.filter (Repo.isLive q now)).map rowView =
      ((mailbox config q events).filter
        (fun entry => !entry.acked && decide (now < entry.envelope.expiresAt))).map entryView := by
  have selected : (rows.filter (Repo.isLive q now)).map rowView =
      (((queueRows q rows).map rowView).filter (unexpired now)).filter (fun view => !view.acked) := by
    simp only [queueRows, List.filter_map, List.filter_filter]
    congr 2
    funext row
    cases deliveredAt : row.deliveredAt <;>
      by_cases here : row.queueId = q.toList <;>
      simp [Repo.isLive, rowView, unexpired, deliveredAt, here]
  rw [selected, agrees q]
  simp only [List.filter_map, List.filter_filter]
  rfl

/-- The limit a pull is served with. -/
def pullLimit (config : CoreConfig) (limit : Int) : Nat := (max 1 (min limit config.maxPullLimit)).toNat

theorem Tracks.pull_live {config : CoreConfig} {done : Store × List (Served P)} {events : List (Event P)}
    {now : Int} (tracks : Tracks config done events now) (positive : 1 ≤ config.maxPullLimit) (q : Bytes32)
    (limit : Int) :
    Mailbox.pull P config done.1 q limit now =
      .ok ((live now (mailbox config q events)).take (pullLimit config limit)) := by
  have clamped : clamp limit 1 config.maxPullLimit = .ok (max 1 (min limit config.maxPullLimit)) :=
    if_neg (by omega)
  simp only [Mailbox.pull, clamped, bind, Except.bind, Repo.pull]
  rw [Table.select_ordered _ _ _ tracks.sound.sorted, Table.limited, if_neg (by omega)]
  have same := congrArg (List.take (pullLimit config limit)) (tracks.agrees.live q)
  rw [← List.map_take, ← List.map_take] at same
  rw [live, ← List.map_take]
  refine mapM_rowToEnvelope same ?_
  intro row member
  exact tracks.sound.instants row (List.mem_of_mem_filter (List.mem_of_mem_take member))

/-- In terms of the log: what was pushed, has no successful acknowledgement and has not
expired. -/
theorem Tracks.live_log {config : CoreConfig} {done : Store × List (Served P)} {events : List (Event P)}
    {now : Int} (tracks : Tracks config done events now) (q : Bytes32) :
    live now (mailbox config q events) = (pushedTo config q done.2).filter (fun envelope =>
      !ackedIn done.2 q envelope.envelopeId && decide (now < envelope.expiresAt)) := by
  rw [tracks.pushed, List.filter_map, live]
  congr 1
  apply List.filter_congr
  intro entry member
  by_cases alive : now < entry.envelope.expiresAt
  · simp [alive, tracks.acked q entry member alive]
  · simp [alive]

/-- A pull returns the first envelopes, in the order of their pushes, that were pushed to
the queue, have not been acknowledged and have not expired. It is the pull of the queue's
mailbox, so it depends on the requests made to that queue and on the clock, and not on other
queues or on sweeps. -/
theorem pull_refines_mailbox {config : CoreConfig} (positive : 1 ≤ config.maxPullLimit)
    {events : List (Event P)} {now : Int} (valid : Valid config events now) (q : Bytes32) (limit : Int) :
    Mailbox.pull P config (history config events).1 q limit now =
        .ok (((pushedTo config q (history config events).2).filter (fun envelope =>
          !ackedIn (history config events).2 q envelope.envelopeId &&
            decide (now < envelope.expiresAt))).take (pullLimit config limit)) ∧
      Mailbox.pull P config (history config events).1 q limit now =
        .ok ((live now (mailbox config q events)).take (pullLimit config limit)) ∧
      ∀ others : List (Event P), Valid config others now →
        others.filter (concerns q) = events.filter (concerns q) →
        Mailbox.pull P config (history config others).1 q limit now =
          Mailbox.pull P config (history config events).1 q limit now := by
  have tracks := tracks_history config events valid
  have served := tracks.pull_live positive q limit
  refine ⟨?_, served, ?_⟩
  · rw [served, tracks.live_log]
  · intro others sane same
    have mailboxes : mailbox config q others = mailbox config q events := by
      rw [← mailbox_filter config q others, same, mailbox_filter]
    calc
      _ = .ok ((live now (mailbox config q others)).take (pullLimit config limit)) :=
        (tracks_history config others sane).pull_live positive q limit
      _ = .ok ((live now (mailbox config q events)).take (pullLimit config limit)) := by rw [mailboxes]
      _ = _ := served.symm

end

section

/-- A platform whose identifiers are their own text. -/
def samplePlatform : Platform where
  representable ms := decide (-2 ^ 62 ≤ ms ∧ ms < 2 ^ 62)
  bounded inside := of_decide_eq_true inside
  EnvelopeId := String
  idEq := inferInstance
  idText id := id
  parseId text := .ok text
  parse_text _ := rfl
  conflictText := "conflict"

def sampleConfig : CoreConfig := ⟨604800, 2592000, 262144, 100⟩

def sampleQueue : Bytes32 := List.Vector.replicate 32 0x11

/-- Two pushes in one millisecond, a sweep, and an acknowledgement of the first. -/
def sampleEvents : List (Event samplePlatform) :=
  [⟨0, .push sampleQueue [1] 60 "first"⟩, ⟨0, .push sampleQueue [2] 60 "second"⟩, ⟨1, .sweep⟩,
    ⟨2, .ack sampleQueue "first"⟩]

theorem sample_valid : Valid sampleConfig sampleEvents 3 where
  clock := by simp [sampleEvents]
  past := by simp [sampleEvents]
  readings := by
    intro event member
    simp only [sampleEvents, List.mem_cons, List.not_mem_nil, or_false] at member
    rcases member with rfl | rfl | rfl | rfl <;> decide
  expiries := by
    intro event member queueId payload ttlSeconds id request
    simp only [sampleEvents, List.mem_cons, List.not_mem_nil, or_false] at member
    rcases member with rfl | rfl | rfl | rfl <;> cases request <;> decide
  ids := by
    change ["first", "second"].Nodup
    decide

theorem pull_refines_mailbox_sample :
    Mailbox.pull samplePlatform sampleConfig (history sampleConfig sampleEvents).1 sampleQueue 10 3 =
      .ok [⟨"second", [2], 0, 60000⟩] := by
  have refined := (pull_refines_mailbox (by decide) sample_valid sampleQueue 10).2.1
  rw [refined]
  rfl

end

end Buh.Relay.Refinement
