import Buh.Relay.Refinement

/-! The TTL sweep against the requests of clients. A sweep deletes every expired row, and a
pull selects none of them; but the `UPDATE` of `ack` has no expiry of its own, so a client
that acknowledges late learns whether a sweep has run. -/

namespace Buh.Relay.Sweeping
open Buh.Library.RowTable Buh.Wire.Codec Buh.Crypto.Primitives Buh.Relay.Mailbox Buh.Relay.Refinement

section
variable {P : Platform}

/-- A request of a client, and not of the sweeper. -/
def fromClient (event : Event P) : Bool :=
  match event.request with
  | .sweep => false
  | _ => true

def clients (events : List (Event P)) : List (Event P) := events.filter fromClient

/-- The instant that `push` stores as the expiry of an envelope. -/
def expiry (config : CoreConfig) (at_ ttlSeconds : Int) : Int :=
  saturate (at_ + saturate (clampTtl config ttlSeconds * 1000))

/-- What a request changes about the envelope `id` of `q`. -/
def outstandingAfter (config : CoreConfig) (q : Bytes32) (id : P.EnvelopeId) (found : Option Int)
    (event : Event P) : Option Int :=
  match event.request with
  | .push queueId payload ttlSeconds drawn =>
    if (queueId = q ∧ drawn = id) ∧ accepted config payload then some (expiry config event.at_ ttlSeconds) else found
  | .ack queueId acked => if queueId = q ∧ acked = id then none else found
  | .pull _ _ => found
  | .sweep => found

/-- The expiry of the envelope `id` of `q` while it is pushed and not yet acknowledged. -/
def outstanding (config : CoreConfig) (events : List (Event P)) (q : Bytes32) (id : P.EnvelopeId) : Option Int :=
  events.foldl (outstandingAfter config q id) none

/-- Pushed, not yet acknowledged, and unexpired at `now`. -/
def due (config : CoreConfig) (events : List (Event P)) (q : Bytes32) (id : P.EnvelopeId) (now : Int) : Bool :=
  (outstanding config events q id).any (fun expires => now < expires)

/-- No request acknowledges an envelope for the first time after it has expired. -/
def Timely (config : CoreConfig) (events : List (Event P)) : Prop :=
  ∀ before at_ q id after, events = before ++ ⟨at_, .ack q id⟩ :: after →
    ∀ expires, outstanding config before q id = some expires → at_ < expires

/-- A history with its clock in order and its identifiers fresh. -/
structure Ordered (events : List (Event P)) : Prop where
  clock : events.Pairwise (fun first second => first.at_ ≤ second.at_)
  ids : (drawnIds events).Nodup

/-- Whatever sweeps are put between the requests of clients, these are answered as without
them, and the same receipts are written. -/
def SweepsUnseen (config : CoreConfig) (events : List (Event P)) : Prop :=
  ∀ swept : List (Event P), Ordered swept → clients swept = events →
    (history config swept).2.filter (fun served => fromClient served.event) = (history config events).2 ∧
      (history config swept).1.receipts = (history config events).1.receipts

/-- Whatever sweeps are put between them, an `ack` answers whether its envelope is due. -/
def AcksExact (config : CoreConfig) (events : List (Event P)) : Prop :=
  ∀ swept : List (Event P), Ordered swept → clients swept = events →
    ∀ before at_ q id after, swept = before ++ ⟨at_, .ack q id⟩ :: after →
      (Repo.ack P (history config before).1 q id at_).2 = .ok (due config before q id at_)

theorem outstanding_append (config : CoreConfig) (events : List (Event P)) (event : Event P) (q : Bytes32)
    (id : P.EnvelopeId) : outstanding config (events ++ [event]) q id =
      outstandingAfter config q id (outstanding config events q id) event := by
  rw [outstanding, List.foldl_append]
  rfl

theorem clients_append (events : List (Event P)) (event : Event P) :
    clients (events ++ [event]) = clients events ++ if fromClient event then [event] else [] := by
  rw [clients, List.filter_append, List.filter_singleton]
  cases fromClient event <;> rfl

/-- A sweep is no request about an envelope. -/
theorem outstanding_clients (config : CoreConfig) (events : List (Event P)) (q : Bytes32) (id : P.EnvelopeId) :
    outstanding config (clients events) q id = outstanding config events q id := by
  induction events using List.reverseRecOn with
  | nil => rfl
  | append_singleton events event ih =>
    rw [clients_append, outstanding_append]
    obtain ⟨at_, request⟩ := event
    cases request with
    | sweep =>
      change outstanding config (clients events ++ []) q id = outstanding config events q id
      rw [List.append_nil, ih]
    | push queueId payload ttlSeconds drawn =>
      change outstanding config (clients events ++ [_]) q id = _
      rw [outstanding_append, ih]
    | pull queueId limit =>
      change outstanding config (clients events ++ [_]) q id = _
      rw [outstanding_append, ih]
    | ack queueId acked =>
      change outstanding config (clients events ++ [_]) q id = _
      rw [outstanding_append, ih]

theorem Ordered.init {events : List (Event P)} {event : Event P} (ordered : Ordered (events ++ [event])) :
    Ordered events ∧ ∀ earlier ∈ events, earlier.at_ ≤ event.at_ := by
  obtain ⟨clock, ids⟩ := ordered
  rw [List.pairwise_append] at clock
  rw [drawnIds_append] at ids
  exact ⟨⟨clock.1, (List.nodup_append.mp ids).1⟩, fun earlier member => clock.2.2 earlier member _ (List.mem_singleton_self _)⟩

theorem Ordered.clients {events : List (Event P)} (ordered : Ordered events) : Ordered (clients events) where
  clock := ordered.clock.filter _
  ids := ordered.ids.sublist (List.filter_sublist.filterMap _)

/-- The row of an accepted push. -/
def storedRow (config : CoreConfig) (queueId : Bytes32) (payload : Bytes) (ttlSeconds : Int) (id : P.EnvelopeId)
    (now : Int) : EnvelopeRow :=
  ⟨queueId.toList, P.idText id, payload, now, expiry config now ttlSeconds, none⟩

/-- The rows of a history: each unmarked row is of an outstanding envelope, and every
outstanding envelope that no sweep can have deleted has one. -/
structure Kept (config : CoreConfig) (rows : List EnvelopeRow) (events : List (Event P)) (now : Int) : Prop where
  sorted : rows.Pairwise (fun first second => first.receivedAt ≤ second.receivedAt)
  past : ∀ row ∈ rows, row.receivedAt ≤ now
  drawn : ∀ row ∈ rows, ∃ id ∈ drawnIds events, row.envelopeId = P.idText id
  named : ∀ row ∈ rows, ∀ q id, Repo.isUnacked P q id row = true →
    outstanding config events q id = some row.expiresAt
  held : ∀ q id expires, outstanding config events q id = some expires →
    ((∃ event ∈ events, fromClient event = false) → now < expires) →
      ∃ row ∈ rows, Repo.isUnacked P q id row = true

theorem swept_append {events : List (Event P)} (event : Event P)
    (swept : ∃ sweep ∈ events, fromClient sweep = false) :
    ∃ sweep ∈ events ++ [event], fromClient sweep = false := by
  obtain ⟨sweep, member, isSweep⟩ := swept
  exact ⟨sweep, List.mem_append_left _ member, isSweep⟩

section
variable {config : CoreConfig} {rows : List EnvelopeRow} {events : List (Event P)} {now : Int}

theorem Kept.later (kept : Kept config rows events now) {later : Int} (le : now ≤ later) :
    Kept config rows events later where
  sorted := kept.sorted
  past row member := (kept.past row member).trans le
  drawn := kept.drawn
  named := kept.named
  held q id expires found safe := kept.held q id expires found (fun swept => le.trans_lt (safe swept))

theorem Kept.drawn_append (kept : Kept config rows events now) (event : Event P) :
    ∀ row ∈ rows, ∃ id ∈ drawnIds (events ++ [event]), row.envelopeId = P.idText id := by
  intro row member
  obtain ⟨id, found, text⟩ := kept.drawn row member
  rw [drawnIds_append]
  exact ⟨id, List.mem_append_left _ found, text⟩

/-- A request of a client that changes no row and no envelope. -/
theorem Kept.idle (kept : Kept config rows events now) {event : Event P}
    (idle : ∀ q id found, outstandingAfter config q id found event = found) :
    Kept config rows (events ++ [event]) now where
  sorted := kept.sorted
  past := kept.past
  drawn := kept.drawn_append event
  named row member q id unacked := by
    rw [outstanding_append, idle]
    exact kept.named row member q id unacked
  held q id expires found safe := by
    rw [outstanding_append, idle] at found
    exact kept.held q id expires found (fun swept => safe (swept_append _ swept))

theorem Kept.push (kept : Kept config rows events now) (queueId : Bytes32) {payload : Bytes}
    (accepts : accepted config payload = true) (ttlSeconds : Int) {id : P.EnvelopeId} (fresh : id ∉ drawnIds events) :
    Kept config (rows ++ [storedRow config queueId payload ttlSeconds id now])
      (events ++ [⟨now, .push queueId payload ttlSeconds id⟩]) now where
  sorted := by
    rw [List.pairwise_append]
    refine ⟨kept.sorted, List.pairwise_singleton _ _, ?_⟩
    intro row member new same
    rw [List.mem_singleton.mp same]
    exact kept.past row member
  past := by
    intro row member
    rcases List.mem_append.mp member with old | new
    · exact kept.past row old
    · rw [List.mem_singleton.mp new]
      exact le_rfl
  drawn := by
    intro row member
    rcases List.mem_append.mp member with old | new
    · exact kept.drawn_append _ row old
    · rw [List.mem_singleton.mp new, drawnIds_append]
      exact ⟨id, List.mem_append_right _ (List.mem_singleton_self _), rfl⟩
  named := by
    intro row member q other unacked
    rw [outstanding_append]
    rcases List.mem_append.mp member with old | new
    · -- an older row has an identifier drawn before, so it is another envelope's
      have apart : ¬((queueId = q ∧ id = other) ∧ accepted config payload = true) := by
        rintro ⟨⟨_, rfl⟩, _⟩
        obtain ⟨earlier, found, text⟩ := kept.drawn row old
        exact fresh (idText_injective (text.symm.trans (isUnacked_iff.mp unacked).2.1) ▸ found)
      simp only [outstandingAfter, if_neg apart]
      exact kept.named row old q other unacked
    · rw [List.mem_singleton.mp new] at unacked ⊢
      have same : queueId = q ∧ id = other :=
        isUnacked_unique unacked (isUnacked_iff.mpr ⟨rfl, rfl, rfl⟩)
      simp only [outstandingAfter, if_pos (And.intro same accepts)]
      rfl
  held := by
    intro q other expires found safe
    rw [outstanding_append] at found
    by_cases same : queueId = q ∧ id = other
    · refine ⟨_, List.mem_append_right _ (List.mem_singleton_self _), ?_⟩
      rw [isUnacked_iff, ← same.1, ← same.2]
      exact ⟨rfl, rfl, rfl⟩
    · simp only [outstandingAfter, same, false_and, if_false] at found
      obtain ⟨row, member, unacked⟩ := kept.held q other expires found (fun swept => safe (swept_append _ swept))
      exact ⟨row, List.mem_append_left _ member, unacked⟩

theorem Kept.ack (kept : Kept config rows events now) (queueId : Bytes32) (id : P.EnvelopeId) :
    Kept config (rows.map (markRow queueId id now)) (events ++ [⟨now, .ack queueId id⟩]) now := by
  refine ⟨?_, ?_, ?_, ?_, ?_⟩
  · rw [List.pairwise_map]
    simp only [markRow_receivedAt]
    exact kept.sorted
  · intro row member
    obtain ⟨old, found, rfl⟩ := List.mem_map.mp member
    rw [markRow_receivedAt]
    exact kept.past old found
  · intro row member
    obtain ⟨old, found, rfl⟩ := List.mem_map.mp member
    rw [markRow_envelopeId]
    exact kept.drawn_append _ old found
  · intro row member q other unacked
    obtain ⟨old, found, rfl⟩ := List.mem_map.mp member
    obtain ⟨before, different⟩ := isUnacked_mark.mp unacked
    rw [markRow_expiresAt, outstanding_append]
    simp only [outstandingAfter, if_neg different]
    exact kept.named old found q other before
  · intro q other expires found safe
    rw [outstanding_append] at found
    by_cases same : queueId = q ∧ id = other
    · simp only [outstandingAfter, if_pos same, reduceCtorEq] at found
    · simp only [outstandingAfter, if_neg same] at found
      obtain ⟨row, member, unacked⟩ := kept.held q other expires found (fun swept => safe (swept_append _ swept))
      exact ⟨_, List.mem_map_of_mem member, isUnacked_mark.mpr ⟨unacked, same⟩⟩

theorem Kept.sweep (kept : Kept config rows events now) :
    Kept config (rows.filter (fun row => !decide (row.expiresAt ≤ now))) (events ++ [⟨now, .sweep⟩]) now where
  sorted := kept.sorted.filter _
  past row member := kept.past row (List.mem_of_mem_filter member)
  drawn row member := kept.drawn_append _ row (List.mem_of_mem_filter member)
  named row member q id unacked := by
    rw [outstanding_append]
    exact kept.named row (List.mem_of_mem_filter member) q id unacked
  held q id expires found safe := by
    rw [outstanding_append] at found
    have alive : now < expires := safe ⟨_, List.mem_append_right _ (List.mem_singleton_self _), rfl⟩
    obtain ⟨row, member, unacked⟩ := kept.held q id expires found (fun _ => alive)
    refine ⟨row, List.mem_filter.mpr ⟨member, ?_⟩, unacked⟩
    have same : row.expiresAt = expires :=
      Option.some.inj ((kept.named row member q id unacked).symm.trans found)
    simpa [same] using alive

end

theorem Kept.unused {config : CoreConfig} {rows : List EnvelopeRow} {events : List (Event P)} {now : Int}
    (kept : Kept config rows events now) {id : P.EnvelopeId} (fresh : id ∉ drawnIds events) :
    ∀ row ∈ rows, row.envelopeId ≠ P.idText id := by
  intro row member same
  obtain ⟨earlier, found, text⟩ := kept.drawn row member
  exact fresh (idText_injective (text.symm.trans same) ▸ found)

/-- The identifier of a push is not among those drawn before. -/
theorem Ordered.fresh {events : List (Event P)} {at_ : Int} {queueId : Bytes32} {payload : Bytes} {ttlSeconds : Int}
    {id : P.EnvelopeId} (ordered : Ordered (events ++ [⟨at_, .push queueId payload ttlSeconds id⟩])) :
    id ∉ drawnIds events := by
  have ids := ordered.ids
  rw [drawnIds_append] at ids
  intro earlier
  exact (List.nodup_append.mp ids).2.2 id earlier id (List.mem_singleton_self id) rfl

/-- Serving one request keeps the rows and the outstanding envelopes in line. -/
theorem Kept.serve {config : CoreConfig} {store : Store} {events : List (Event P)} {event : Event P}
    (kept : Kept config store.envelopes.contents events event.at_) (ordered : Ordered (events ++ [event])) :
    Kept config (Mailbox.serve config store event).1.envelopes.contents (events ++ [event]) event.at_ := by
  obtain ⟨at_, request⟩ := event
  cases request with
  | push queueId payload ttlSeconds id =>
    cases accepts : accepted config payload with
    | false =>
      obtain ⟨e, rejected⟩ := push_rejected store queueId accepts ttlSeconds id at_
      simp only [Mailbox.serve, rejected]
      refine kept.idle ?_
      intro q other found
      simp only [outstandingAfter, accepts, Bool.false_eq_true, and_false, if_false]
    | true =>
      simp only [Mailbox.serve, push_stores queueId accepts ttlSeconds at_ (kept.unused ordered.fresh),
        Table.contents_insert]
      exact kept.push queueId accepts ttlSeconds ordered.fresh
  | pull queueId limit => exact kept.idle (fun _ _ _ => rfl)
  | ack queueId id =>
    change Kept config (Repo.ack P store queueId id at_).1.envelopes.contents _ _
    rw [(ack_answers store queueId id at_).1]
    exact kept.ack queueId id
  | sweep =>
    change Kept config (Repo.expire store at_).1.envelopes.contents _ _
    rw [sweep_contents]
    exact kept.sweep

theorem kept_history (config : CoreConfig) {events : List (Event P)} {now : Int} (ordered : Ordered events)
    (past : ∀ event ∈ events, event.at_ ≤ now) :
    Kept config (history config events).1.envelopes.contents events now := by
  induction events using List.reverseRecOn generalizing now with
  | nil => exact ⟨.nil, (by rintro _ ⟨⟩), (by rintro _ ⟨⟩), (by rintro _ ⟨⟩), (by rintro _ _ _ ⟨⟩)⟩
  | append_singleton events event ih =>
    obtain ⟨before, earlier⟩ := ordered.init
    rw [history_append]
    exact ((ih before earlier).serve ordered).later (past event (List.mem_append_right _ (List.mem_singleton_self _)))

/-- An `ack` that finds a row finds one of an outstanding envelope. -/
theorem Kept.ack_due {config : CoreConfig} {store : Store} {events : List (Event P)} {now : Int}
    (kept : Kept config store.envelopes.contents events now) {q : Bytes32} {id : P.EnvelopeId}
    (timely : ∀ expires, outstanding config events q id = some expires → now < expires) :
    (Repo.ack P store q id now).2 = .ok (due config events q id now) := by
  rw [(ack_answers store q id now).2]
  refine congrArg Except.ok ?_
  rw [Bool.eq_iff_iff, List.any_eq_true, due, Option.any_eq_true]
  constructor
  · rintro ⟨row, member, unacked⟩
    have found := kept.named row member q id unacked
    exact ⟨row.expiresAt, found, decide_eq_true (timely _ found)⟩
  · rintro ⟨expires, found, alive⟩
    exact kept.held q id expires found (fun _ => of_decide_eq_true alive)

/-- Two stores that no client can tell apart from `now` on, late acknowledgements aside. -/
structure Alike (first second : Store) (now : Int) : Prop where
  rows : first.envelopes.contents.filter (fun row => now < row.expiresAt) =
    second.envelopes.contents.filter (fun row => now < row.expiresAt)
  receipts : first.receipts = second.receipts

theorem filter_alive_later {now later : Int} (le : now ≤ later) (rows : List EnvelopeRow) :
    (rows.filter (fun row => now < row.expiresAt)).filter (fun row => later < row.expiresAt) =
      rows.filter (fun row => later < row.expiresAt) := by
  rw [List.filter_filter]
  congr 1
  funext row
  simp only [Bool.and_eq_left_iff_imp, decide_eq_true_eq]
  omega

theorem Alike.later {first second : Store} {now later : Int} (alike : Alike first second now) (le : now ≤ later) :
    Alike first second later where
  rows := by
    calc
      _ = (first.envelopes.contents.filter (fun row => now < row.expiresAt)).filter
          (fun row => later < row.expiresAt) := (filter_alive_later le _).symm
      _ = (second.envelopes.contents.filter (fun row => now < row.expiresAt)).filter
          (fun row => later < row.expiresAt) := by rw [alike.rows]
      _ = _ := filter_alive_later le _
  receipts := alike.receipts

theorem filter_live (rows : List EnvelopeRow) (q : Bytes32) (now : Int) :
    rows.filter (Repo.isLive q now) =
      (rows.filter (fun row => now < row.expiresAt)).filter (Repo.isLive q now) := by
  rw [List.filter_filter]
  apply List.filter_congr
  intro row _
  by_cases alive : now < row.expiresAt <;> simp [Repo.isLive, alive]

theorem filter_alive_mark (rows : List EnvelopeRow) (q : Bytes32) (id : P.EnvelopeId) (now at_ : Int) :
    (rows.map (markRow q id at_)).filter (fun row => now < row.expiresAt) =
      (rows.filter (fun row => now < row.expiresAt)).map (markRow q id at_) := by
  rw [List.filter_map]
  congr 2
  funext row
  simp only [Function.comp_apply, markRow_expiresAt]

/-- The receipt of an `ack` that found a row. -/
theorem ack_receipts (store : Store) (q : Bytes32) (id : P.EnvelopeId) (now : Int) :
    (Repo.ack P store q id now).1.receipts =
      if store.envelopes.contents.any (Repo.isUnacked P q id) then store.receipts.insert ⟨q.toList, P.idText id, now⟩
      else store.receipts := by
  have counted : (store.envelopes.update (Repo.isUnacked P q id) (fun row => { row with deliveredAt := some now })).2 =
      store.envelopes.contents.countP (Repo.isUnacked P q id) := rfl
  cases found : store.envelopes.contents.any (Repo.isUnacked P q id) with
  | true =>
    obtain ⟨row, member, unacked⟩ := List.any_eq_true.mp found
    have affected : ¬store.envelopes.contents.countP (Repo.isUnacked P q id) = 0 :=
      (List.countP_pos_iff.mpr ⟨row, member, unacked⟩).ne'
    simp only [Repo.ack, counted, if_neg affected, if_true]
  | false =>
    have affected : store.envelopes.contents.countP (Repo.isUnacked P q id) = 0 :=
      List.countP_eq_zero.mpr (List.any_eq_false.mp found)
    simp only [Repo.ack, counted, if_pos affected, Bool.false_eq_true, if_false]

theorem Alike.ack {first second : Store} {q : Bytes32} {id : P.EnvelopeId} {now : Int} (alike : Alike first second now)
    (same : (Repo.ack P first q id now).2 = (Repo.ack P second q id now).2) :
    Alike (Repo.ack P first q id now).1 (Repo.ack P second q id now).1 now where
  rows := by
    rw [(ack_answers first q id now).1, (ack_answers second q id now).1, filter_alive_mark, filter_alive_mark,
      alike.rows]
  receipts := by
    rw [(ack_answers first q id now).2, (ack_answers second q id now).2] at same
    rw [ack_receipts, ack_receipts, Except.ok.inj same, alike.receipts]

theorem Alike.push {first second : Store} {now : Int} (alike : Alike first second now) (row : EnvelopeRow) :
    Alike { first with envelopes := first.envelopes.insert row }
      { second with envelopes := second.envelopes.insert row } now where
  rows := by
    rw [Table.contents_insert, Table.contents_insert, List.filter_append, List.filter_append, alike.rows]
  receipts := alike.receipts

/-- Ordered rows that agree on what is unexpired answer a pull alike. -/
theorem Alike.pull (config : CoreConfig) {first second : Store} {now : Int} (alike : Alike first second now)
    {events others : List (Event P)} (kept : Kept config first.envelopes.contents events now)
    (kept' : Kept config second.envelopes.contents others now) (q : Bytes32) (limit : Int) :
    Mailbox.pull P config first q limit now = Mailbox.pull P config second q limit now := by
  have selected (bound : Int) : first.envelopes.select (Repo.isLive q now) EnvelopeRow.receivedAt bound =
      second.envelopes.select (Repo.isLive q now) EnvelopeRow.receivedAt bound := by
    rw [Table.select_ordered _ _ _ kept.sorted, Table.select_ordered _ _ _ kept'.sorted, filter_live, alike.rows,
      ← filter_live]
  simp only [Mailbox.pull, Repo.pull, selected]

/-- A request of a client is answered by both stores alike. -/
theorem Alike.serve {config : CoreConfig} {first second : Store} {events others : List (Event P)} {event : Event P}
    (alike : Alike first second event.at_) (kept : Kept config first.envelopes.contents events event.at_)
    (kept' : Kept config second.envelopes.contents others event.at_) (ordered : Ordered (events ++ [event]))
    (ordered' : Ordered (others ++ [event])) (client : fromClient event = true)
    (acks : ∀ q id, event.request = .ack q id →
      (Repo.ack P first q id event.at_).2 = (Repo.ack P second q id event.at_).2) :
    (Mailbox.serve config first event).2 = (Mailbox.serve config second event).2 ∧
      Alike (Mailbox.serve config first event).1 (Mailbox.serve config second event).1 event.at_ := by
  obtain ⟨at_, request⟩ := event
  cases request with
  | push queueId payload ttlSeconds id =>
    cases accepts : accepted config payload with
    | false =>
      have answers : Mailbox.push P config first queueId payload ttlSeconds id at_ =
          (first, (Mailbox.push P config second queueId payload ttlSeconds id at_).2) := by
        unfold Mailbox.push
        split_ifs with empty long
        · rfl
        · rfl
        · simp only [accepted, ne_eq, empty, not_false_eq_true, true_and, decide_eq_false_iff_not] at accepts
          omega
      obtain ⟨e, rejected⟩ := push_rejected second queueId accepts ttlSeconds id at_
      simp only [Mailbox.serve, answers, rejected]
      exact ⟨trivial, alike⟩
    | true =>
      simp only [Mailbox.serve, push_stores queueId accepts ttlSeconds at_ (kept.unused ordered.fresh),
        push_stores queueId accepts ttlSeconds at_ (kept'.unused ordered'.fresh)]
      exact ⟨trivial, alike.push _⟩
  | pull queueId limit =>
    simp only [Mailbox.serve, alike.pull config kept kept' queueId limit]
    exact ⟨trivial, alike⟩
  | ack queueId id =>
    have same := acks queueId id rfl
    exact ⟨congrArg Response.acked same, alike.ack same⟩
  | sweep => cases client

theorem Alike.sweep {first second : Store} {now : Int} (alike : Alike first second now) :
    Alike (Repo.expire first now).1 second now where
  rows := by
    rw [sweep_contents, ← alike.rows, List.filter_filter]
    apply List.filter_congr
    intro row _
    by_cases alive : now < row.expiresAt <;> simp [alive]
  receipts := alike.receipts

theorem Timely.init {config : CoreConfig} {events : List (Event P)} {event : Event P}
    (timely : Timely config (events ++ [event])) : Timely config events := by
  intro before at_ q id after split
  refine timely before at_ q id (after ++ [event]) ?_
  rw [split, List.append_assoc, List.cons_append]

theorem Timely.swept {config : CoreConfig} {events : List (Event P)} (timely : Timely config (clients events)) :
    Timely config events := by
  intro before at_ q id after split
  rw [← outstanding_clients]
  refine timely (clients before) at_ q id (clients after) ?_
  rw [split, clients, List.filter_append]
  rfl

/-- Sweeps change nothing for clients whose acknowledgements are timely. -/
theorem alike_history (config : CoreConfig) {swept : List (Event P)} {now : Int} (ordered : Ordered swept)
    (past : ∀ event ∈ swept, event.at_ ≤ now) (timely : Timely config swept) :
    (history config swept).2.filter (fun served => fromClient served.event) = (history config (clients swept)).2 ∧
      Alike (history config swept).1 (history config (clients swept)).1 now := by
  induction swept using List.reverseRecOn generalizing now with
  | nil => exact ⟨rfl, rfl, rfl⟩
  | append_singleton swept event ih =>
    obtain ⟨before, earlier⟩ := ordered.init
    obtain ⟨answers, alike⟩ := ih before earlier timely.init
    have last := past event (List.mem_append_right _ (List.mem_singleton_self _))
    have kept := kept_history config before earlier
    have kept' := kept_history config before.clients
      (fun other member => earlier other (List.mem_of_mem_filter member))
    rw [history_append, clients_append]
    cases client : fromClient event with
    | true =>
      have ordered' : Ordered (clients swept ++ [event]) := by
        have all := ordered.clients
        rwa [clients_append, client] at all
      have acks : ∀ q id, event.request = .ack q id →
          (Repo.ack P (history config swept).1 q id event.at_).2 =
            (Repo.ack P (history config (clients swept)).1 q id event.at_).2 := by
        intro q id request
        have due := timely swept event.at_ q id [] (by rw [← request])
        rw [kept.ack_due due, kept'.ack_due (by rwa [outstanding_clients]), Sweeping.due, Sweeping.due,
          outstanding_clients]
      obtain ⟨response, next⟩ := alike.serve kept kept' ordered ordered' client acks
      rw [if_pos rfl, history_append]
      refine ⟨?_, next.later last⟩
      simp only [advance, List.filter_append, answers, List.filter_singleton, client, response]
      rfl
    | false =>
      rw [if_neg Bool.false_ne_true, List.append_nil]
      obtain ⟨at_, request⟩ := event
      cases request with
      | sweep =>
        refine ⟨?_, alike.sweep.later last⟩
        simp only [advance, List.filter_append, answers, List.filter_singleton, client]
        exact List.append_nil _
      | push queueId payload ttlSeconds id => cases client
      | pull queueId limit => cases client
      | ack queueId id => cases client

/-- Without a sweep, the first acknowledgement is answered with true however late it is. -/
theorem late_ack_answered {config : CoreConfig} {events : List (Event P)} {at_ : Int} {q : Bytes32}
    {id : P.EnvelopeId} {expires : Int} (ordered : Ordered events) (past : ∀ event ∈ events, event.at_ ≤ at_)
    (unswept : ∀ event ∈ events, fromClient event = true)
    (found : outstanding config events q id = some expires) :
    (Repo.ack P (history config events).1 q id at_).2 = .ok true := by
  have kept := kept_history config ordered past
  rw [(ack_answers _ q id at_).2]
  refine congrArg Except.ok (List.any_eq_true.mpr (kept.held q id expires found ?_))
  rintro ⟨sweep, member, isSweep⟩
  rw [unswept sweep member] at isSweep
  cases isSweep

/-- After a sweep it is answered with false. -/
theorem late_ack_refused {config : CoreConfig} {events : List (Event P)} {at_ : Int} {q : Bytes32}
    {id : P.EnvelopeId} {expires : Int} (ordered : Ordered events) (past : ∀ event ∈ events, event.at_ ≤ at_)
    (found : outstanding config events q id = some expires) (late : expires ≤ at_) :
    (Repo.ack P (history config (events ++ [⟨at_, .sweep⟩])).1 q id at_).2 = .ok false := by
  have kept := kept_history config ordered past
  rw [(ack_answers _ q id at_).2, history_append]
  refine congrArg Except.ok (List.any_eq_false.mpr ?_)
  intro row member unacked
  change row ∈ (Repo.expire (history config events).1 at_).1.envelopes.contents at member
  rw [sweep_contents, List.mem_filter] at member
  have same : row.expiresAt = expires :=
    Option.some.inj ((kept.named row member.1 q id unacked).symm.trans found)
  have alive := member.2
  simp only [same, Bool.not_eq_true', decide_eq_false_iff_not] at alive
  exact alive late

/-- The log of a history names its events. -/
theorem log_events (config : CoreConfig) (events : List (Event P)) :
    (history config events).2.map Served.event = events := by
  induction events using List.reverseRecOn with
  | nil => rfl
  | append_singleton events event ih =>
    rw [history_append]
    simp only [advance, List.map_append, ih]
    rfl

theorem log_clients (config : CoreConfig) (events : List (Event P)) :
    ((history config events).2.filter (fun served => fromClient served.event)).map Served.event = clients events := by
  have names := congrArg (List.filter fromClient) (log_events config events)
  rwa [List.filter_map] at names

/-- The log before, at and after one event. -/
theorem log_at (config : CoreConfig) (before : List (Event P)) (event : Event P) (after : List (Event P)) :
    ∃ rest, (history config (before ++ event :: after)).2 =
      (history config before).2 ++ ⟨event, (serve config (history config before).1 event).2⟩ :: rest := by
  induction after using List.reverseRecOn with
  | nil =>
    rw [history_append]
    exact ⟨[], rfl⟩
  | append_singleton after last ih =>
    obtain ⟨rest, log⟩ := ih
    rw [← List.cons_append, ← List.append_assoc, history_append]
    refine ⟨rest ++ [⟨last, (serve config (history config (before ++ event :: after)).1 last).2⟩], ?_⟩
    simp only [advance, log]
    rw [List.append_assoc, List.cons_append]

theorem Ordered.split {before after : List (Event P)} {event : Event P} (ordered : Ordered (before ++ event :: after)) :
    Ordered before ∧ ∀ earlier ∈ before, earlier.at_ ≤ event.at_ := by
  obtain ⟨clock, ids⟩ := ordered
  rw [List.pairwise_append] at clock
  rw [drawnIds, List.filterMap_append] at ids
  exact ⟨⟨clock.1, (List.nodup_append.mp ids).1⟩,
    fun earlier member => clock.2.2 earlier member event List.mem_cons_self⟩

/-- A sweep may be put right before any request. -/
theorem Ordered.sweep_before {before after : List (Event P)} {event : Event P}
    (ordered : Ordered (before ++ event :: after)) :
    Ordered ((before ++ [⟨event.at_, .sweep⟩]) ++ event :: after) where
  clock := by
    have clock := ordered.clock
    rw [List.pairwise_append, List.pairwise_cons] at clock
    obtain ⟨first, ⟨next, rest⟩, across⟩ := clock
    rw [List.append_assoc, List.singleton_append, List.pairwise_append, List.pairwise_cons, List.pairwise_cons]
    refine ⟨first, ⟨?_, next, rest⟩, ?_⟩
    · intro later member
      rcases List.mem_cons.mp member with rfl | member
      · exact le_rfl
      · exact next later member
    · intro earlier member later found
      rcases List.mem_cons.mp found with rfl | found
      · exact across earlier member event List.mem_cons_self
      · exact across earlier member later found
  ids := by
    have ids := ordered.ids
    simpa only [drawnIds, List.filterMap_append, List.filterMap_cons, List.filterMap_nil, List.append_nil] using ids

/-- A late acknowledgement tells its client whether a sweep has run. -/
theorem timely_of_unseen {config : CoreConfig} {events : List (Event P)} (ordered : Ordered events)
    (unswept : ∀ event ∈ events, fromClient event = true) (unseen : SweepsUnseen config events) :
    Timely config events := by
  intro before at_ q id after split expires found
  subst split
  by_contra late
  obtain ⟨sane, past⟩ := ordered.split
  have early : ∀ event ∈ before, fromClient event = true := fun event member =>
    unswept event (List.mem_append_left _ member)
  have same : clients (before ++ [⟨at_, .sweep⟩] ++ ⟨at_, .ack q id⟩ :: after) = before ++ ⟨at_, .ack q id⟩ :: after := by
    have kept := List.filter_eq_self.mpr unswept
    rw [List.filter_append] at kept
    rw [clients, List.filter_append, List.filter_append]
    exact (congrArg (· ++ _) (List.append_nil _)).trans kept
  obtain ⟨logs, _⟩ := unseen _ ordered.sweep_before same
  obtain ⟨rest, plain⟩ := log_at config before ⟨at_, .ack q id⟩ after
  obtain ⟨rest', swept⟩ := log_at config (before ++ [⟨at_, .sweep⟩]) ⟨at_, .ack q id⟩ after
  rw [plain, swept, List.filter_append, List.filter_cons_of_pos (by rfl)] at logs
  -- the answers before the late acknowledgement are as many with the sweep as without it
  have lengths : ((history config (before ++ [⟨at_, .sweep⟩])).2.filter
      (fun served => fromClient served.event)).length = (history config before).2.length := by
    have counted := congrArg List.length (log_clients config (before ++ [⟨at_, .sweep⟩]))
    have plainly := congrArg List.length (log_events config before)
    rw [List.length_map] at counted plainly
    rw [counted, plainly, clients_append, clients, List.filter_eq_self.mpr early]
    exact congrArg List.length (List.append_nil before)
  have answers := (List.cons.inj (List.append_inj logs lengths).2).1
  have same : (Repo.ack P (history config (before ++ [⟨at_, .sweep⟩])).1 q id at_).2 =
      (Repo.ack P (history config before).1 q id at_).2 := Response.acked.inj (Served.mk.inj answers).2
  rw [late_ack_refused sane past found (not_lt.mp late), late_ack_answered sane past early found] at same
  cases same

theorem Ordered.bounded {events : List (Event P)} (ordered : Ordered events) :
    ∃ now, ∀ event ∈ events, event.at_ ≤ now := by
  induction events using List.reverseRecOn with
  | nil => exact ⟨0, by rintro _ ⟨⟩⟩
  | append_singleton events event _ =>
    refine ⟨event.at_, ?_⟩
    intro other member
    rcases List.mem_append.mp member with earlier | last
    · exact ordered.init.2 other earlier
    · rw [List.mem_singleton.mp last]

theorem unseen_of_timely {config : CoreConfig} {events : List (Event P)} (timely : Timely config events) :
    SweepsUnseen config events := by
  rintro swept ordered rfl
  obtain ⟨now, past⟩ := ordered.bounded
  obtain ⟨answers, alike⟩ := alike_history config ordered past timely.swept
  exact ⟨answers, alike.receipts⟩

theorem exact_of_timely {config : CoreConfig} {events : List (Event P)} (timely : Timely config events) :
    AcksExact config events := by
  rintro swept ordered rfl before at_ q id after rfl
  obtain ⟨early, past⟩ := ordered.split
  exact (kept_history config early past).ack_due (timely.swept before at_ q id after rfl)

theorem timely_of_exact {config : CoreConfig} {events : List (Event P)} (ordered : Ordered events)
    (unswept : ∀ event ∈ events, fromClient event = true) (acks : AcksExact config events) :
    Timely config events := by
  intro before at_ q id after split expires found
  have plain := acks events ordered (List.filter_eq_self.mpr unswept) before at_ q id after split
  subst split
  obtain ⟨sane, past⟩ := ordered.split
  rw [late_ack_answered sane past (fun event member => unswept event (List.mem_append_left _ member)) found,
    due, found] at plain
  exact of_decide_eq_true (Except.ok.inj plain).symm

/-- Clients cannot tell where the TTL sweep runs, and an `ack` answers exactly whether its
envelope is pushed, not yet acknowledged and unexpired, just when no client acknowledges an
envelope for the first time after its expiry. Either half alone already needs it. -/
theorem sweep_invisible_iff_timely {config : CoreConfig} {events : List (Event P)} (ordered : Ordered events)
    (unswept : ∀ event ∈ events, fromClient event = true) :
    (SweepsUnseen config events ∧ AcksExact config events ↔ Timely config events) ∧
      (SweepsUnseen config events → Timely config events) ∧ (AcksExact config events → Timely config events) := by
  refine ⟨⟨?_, ?_⟩, timely_of_unseen ordered unswept, timely_of_exact ordered unswept⟩
  · intro both
    exact timely_of_exact ordered unswept both.2
  · intro timely
    exact ⟨unseen_of_timely timely, exact_of_timely timely⟩

end

section

/-- One envelope, acknowledged before it expires. -/
def promptEvents : List (Event samplePlatform) :=
  [⟨0, .push sampleQueue [1] 60 "first"⟩, ⟨59999, .ack sampleQueue "first"⟩]

/-- The same envelope, acknowledged at the instant of its expiry. -/
def lateEvents : List (Event samplePlatform) :=
  [⟨0, .push sampleQueue [1] 60 "first"⟩, ⟨60000, .ack sampleQueue "first"⟩]

theorem prompt_ordered : Ordered promptEvents where
  clock := by simp [promptEvents]
  ids := by
    change ["first"].Nodup
    decide

theorem late_ordered : Ordered lateEvents where
  clock := by simp [lateEvents]
  ids := by
    change ["first"].Nodup
    decide

theorem sweep_invisible_prompt : SweepsUnseen sampleConfig promptEvents ∧ AcksExact sampleConfig promptEvents := by
  refine (sweep_invisible_iff_timely prompt_ordered ?_).1.mpr ?_
  · intro event member
    simp only [promptEvents, List.mem_cons, List.not_mem_nil, or_false] at member
    rcases member with rfl | rfl <;> rfl
  · intro before at_ q id after split expires found
    cases before with
    | nil => cases split
    | cons first rest =>
      obtain ⟨rfl, more⟩ := List.cons.inj split
      cases rest with
      | cons second rest =>
        have short := congrArg List.length more
        simp at short
      | nil =>
        cases more
        cases found
        decide

/-- An acknowledgement at the instant of the expiry is answered with true, and with false
once a sweep has run at that instant. -/
theorem sweep_seen_by_late_ack :
    Ordered lateEvents ∧ (∀ event ∈ lateEvents, fromClient event = true) ∧
      ¬SweepsUnseen sampleConfig lateEvents ∧ ¬AcksExact sampleConfig lateEvents := by
  refine ⟨late_ordered, ?_, ?_, ?_⟩
  · intro event member
    simp only [lateEvents, List.mem_cons, List.not_mem_nil, or_false] at member
    rcases member with rfl | rfl <;> rfl
  · intro unseen
    have split : Ordered ([⟨0, .push sampleQueue [1] 60 "first"⟩] ++
        (⟨60000, .ack sampleQueue "first"⟩ : Event samplePlatform) :: []) := late_ordered
    have same := congrArg (fun log => ackedIn log sampleQueue "first") (unseen _ split.sweep_before rfl).1
    change false = true at same
    cases same
  · intro acks
    have same := acks lateEvents late_ordered rfl [⟨0, .push sampleQueue [1] 60 "first"⟩] 60000 sampleQueue "first" [] rfl
    change Except.ok true = Except.ok false at same
    cases same

end

end Buh.Relay.Sweeping
