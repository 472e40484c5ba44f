import Buh.Library.Runs
import Buh.Relay.Refinement

/-! The long poll of `handlers.rs` with the notifiers of `turso_mailbox.rs`. The first query,
the registration on the notifier and the end of the wait are steps of their own, a push is
its `INSERT` and then its `notify_waiters`, and all of these interleave. -/

namespace Buh.Relay.LongPoll
open Buh.Library Buh.Library.RowTable Buh.Wire.Codec Buh.Crypto.Primitives Buh.Relay.Mailbox Buh.Relay.Refinement

/-- `GET /v1/queue/{queue_id}/envelopes` -/
structure PullParams where
  queueId : Bytes32
  limit : Option Int
  wait : Option Nat

section
variable (P : Platform)

/-- Where the handler stands. -/
inductive Handler where
  | started
  /-- The first query found nothing, and there is time to wait. -/
  | queried
  /-- `notified()` exists; a `notify_waiters` of the queue wakes it. -/
  | waiting (notified : Bool)
  | woken
  | answering (answer : Except Failure (List (StoredEnvelope P)))
  | answered (answer : Except Failure (List (StoredEnvelope P)))

structure System where
  store : Store
  now : Int
  handler : Handler P
  /-- The pushes that have inserted their envelope. -/
  inserted : List (Bytes32 × P.EnvelopeId)
  /-- Those of them that have not yet called `notify_waiters`. -/
  notifying : List (Bytes32 × P.EnvelopeId)
  /-- Those inserted before the first query, and before the wait ended. -/
  beforeQuery : List (Bytes32 × P.EnvelopeId)
  beforeEnd : List (Bytes32 × P.EnvelopeId)

inductive Action where
  | tick (later : Int)
  | insert (queueId : Bytes32) (payload : Bytes) (ttlSeconds : Int) (id : P.EnvelopeId) (at_ : Int)
  | notify (queueId : Bytes32) (id : P.EnvelopeId)
  | ack (queueId : Bytes32) (id : P.EnvelopeId) (at_ : Int)
  | sweep (at_ : Int)
  /-- `mailbox::pull`, with its reading of the clock. -/
  | query (reading : Int)
  | register
  | wake
  | timeout
  | respond

variable {P}

def System.initial (now : Int) : System P := ⟨.empty, now, .started, [], [], [], []⟩

/-- `notify_waiters` on the notifier of `queueId`: it stores no permit, so it reaches the
handler only while its `notified()` exists. -/
def Handler.notify (q queueId : Bytes32) : Handler P → Handler P
  | .waiting notified => .waiting (notified || decide (queueId = q))
  | handler => handler

def PullParams.pull (config : CoreConfig) (params : PullParams) (store : Store) (reading : Int) :
    Except Failure (List (StoredEnvelope P)) :=
  Mailbox.pull P config store params.queueId (params.limit.getD config.maxPullLimit) reading

/-- After the first query: an empty result is worth a wait when the client gave one. -/
def PullParams.queried (params : PullParams) (result : Except Failure (List (StoredEnvelope P))) : Handler P :=
  match result, params.wait with
  | .ok [], some (_ + 1) => .queried
  | result, _ => .answering result

/-- `none` where the action is not possible. A timeout polls `notified()` before its timer,
so it ends the wait only of a handler that was not notified. -/
def step (config : CoreConfig) (params : PullParams) (system : System P) : Action P → Option (System P)
  | .tick later => if system.now ≤ later then some { system with now := later } else none
  | .insert queueId payload ttlSeconds id at_ =>
    if ∃ earlier ∈ system.inserted, earlier.2 = id then none
    else
      match Mailbox.push P config system.store queueId payload ttlSeconds id at_ with
      | (store, .ok _) => some { system with
          store
          inserted := (queueId, id) :: system.inserted
          notifying := (queueId, id) :: system.notifying }
      | (store, .error _) => some { system with store }
  | .notify queueId id =>
    if (queueId, id) ∈ system.notifying then
      some { system with
        notifying := system.notifying.erase (queueId, id)
        handler := system.handler.notify params.queueId queueId }
    else none
  | .ack queueId id at_ => some { system with store := (Repo.ack P system.store queueId id at_).1 }
  | .sweep at_ => some { system with store := (Repo.expire system.store at_).1 }
  | .query reading =>
    if reading ≤ system.now then
      match system.handler with
      | .started => some { system with
          handler := params.queried (params.pull config system.store reading)
          beforeQuery := system.inserted
          beforeEnd := system.inserted }
      | .woken => some { system with handler := .answering (params.pull config system.store reading) }
      | _ => none
    else none
  | .register =>
    match system.handler with
    | .queried => some { system with handler := .waiting false }
    | _ => none
  | .wake =>
    match system.handler with
    | .waiting notified =>
      if notified then some { system with handler := .woken, beforeEnd := system.inserted } else none
    | _ => none
  | .timeout =>
    match system.handler with
    | .waiting notified =>
      if notified then none else some { system with handler := .answering (.ok []), beforeEnd := system.inserted }
    | _ => none
  | .respond =>
    match system.handler with
    | .answering answer => some { system with handler := .answered answer }
    | _ => none

/-- The states of the relay and one handler, when every step is one that is `allowed`. -/
abbrev Run (config : CoreConfig) (params : PullParams) (allowed : System P → Action P → Prop) (system : System P) : Prop :=
  Runs.Run (step config params) allowed (fun system => ∃ now, system = .initial now) system

/-- The timeout does not end the wait once a push has inserted an envelope since the first
query. -/
def Heard (params : PullParams) (system : System P) : Action P → Prop
  | .timeout => ∀ id, (params.queueId, id) ∈ system.inserted → (params.queueId, id) ∈ system.beforeQuery
  | _ => True

/-- None of these envelopes is live in the queue. -/
def Gone (q : Bytes32) (system : System P) (envelopes : List (Bytes32 × P.EnvelopeId)) : Prop :=
  ∀ row ∈ system.store.envelopes.contents, Repo.isLive q system.now row = true →
    ∀ id, (q, id) ∈ envelopes → row.envelopeId ≠ P.idText id

/-- The envelopes that the handler takes to be gone. -/
def System.dismissed (system : System P) : List (Bytes32 × P.EnvelopeId) :=
  match system.handler with
  | .queried => system.beforeQuery
  | .waiting _ => system.beforeQuery
  | .answering (.ok []) => system.beforeEnd
  | .answered (.ok []) => system.beforeEnd
  | _ => []

structure Attentive (params : PullParams) (system : System P) : Prop where
  earlier : ∀ envelope, envelope ∈ system.beforeQuery ∨ envelope ∈ system.beforeEnd → envelope ∈ system.inserted
  stored : ∀ row ∈ system.store.envelopes.contents, ∃ q id, (q, id) ∈ system.inserted ∧ row.queueId = q.toList ∧
    row.envelopeId = P.idText id
  gone : Gone params.queueId system system.dismissed

theorem isLive_iff {q : Bytes32} {now : Int} {row : EnvelopeRow} :
    Repo.isLive q now row = true ↔ row.queueId = q.toList ∧ row.deliveredAt = none ∧ now < row.expiresAt := by
  rw [Repo.isLive, decide_eq_true_eq]

theorem mapM_eq_nil {rows : List EnvelopeRow} (nothing : rows.mapM (rowToEnvelope P) = .ok []) : rows = [] := by
  cases rows with
  | nil => rfl
  | cons row rows =>
    rw [List.mapM_cons] at nothing
    cases read : rowToEnvelope P row with
    | error e =>
      rw [read] at nothing
      cases nothing
    | ok envelope =>
      rw [read] at nothing
      cases more : rows.mapM (rowToEnvelope P) with
      | error e =>
        simp only [more, bind, Except.bind, reduceCtorEq] at nothing
      | ok rest =>
        simp only [more, bind, Except.bind, pure, Except.pure, Except.ok.injEq, reduceCtorEq] at nothing

/-- A pull that returns no envelope leaves no live row behind. -/
theorem pull_empty {config : CoreConfig} {store : Store} {q : Bytes32} {limit now : Int}
    (nothing : Mailbox.pull P config store q limit now = .ok []) :
    ∀ row ∈ store.envelopes.contents, Repo.isLive q now row = false := by
  simp only [Mailbox.pull, clamp, bind] at nothing
  split_ifs at nothing with reversed
  · cases nothing
  · exact (Table.select_eq_nil_iff (le_max_left 1 _)).mp (mapM_eq_nil nothing)

section
variable {config : CoreConfig} {params : PullParams} {system next : System P}

/-- An insertion fails and changes nothing, or stores one row of a fresh envelope. -/
theorem insert_cases {queueId : Bytes32} {payload : Bytes} {ttlSeconds : Int} {id : P.EnvelopeId} {at_ : Int}
    (stepped : step config params system (.insert queueId payload ttlSeconds id at_) = some next) :
    next = system ∨
      ((¬∃ earlier ∈ system.inserted, earlier.2 = id) ∧ ∃ row, Repo.isUnacked P queueId id row = true ∧
        next = { system with
          store := { system.store with envelopes := system.store.envelopes.insert row }
          inserted := (queueId, id) :: system.inserted
          notifying := (queueId, id) :: system.notifying }) := by
  obtain ⟨fresh, ran⟩ := Option.ite_none_left_eq_some.mp stepped
  obtain ⟨e, refused⟩ | ⟨row, unacked, stored⟩ := push_outcome config system.store queueId payload ttlSeconds id at_
  · rw [refused] at ran
    cases ran
    exact Or.inl rfl
  · rw [stored] at ran
    cases ran
    exact Or.inr ⟨fresh, row, unacked, rfl⟩

/-- The first query of a pull, or the one after a wake-up. -/
theorem query_cases {reading : Int} (stepped : step config params system (.query reading) = some next) :
    reading ≤ system.now ∧
      (next = { system with
          handler := params.queried (params.pull config system.store reading)
          beforeQuery := system.inserted
          beforeEnd := system.inserted } ∨
        next = { system with handler := .answering (params.pull config system.store reading) }) := by
  obtain ⟨le, ran⟩ := Option.ite_none_right_eq_some.mp stepped
  refine ⟨le, ?_⟩
  cases handler : system.handler with
  | started =>
    rw [handler] at ran
    cases ran
    exact Or.inl rfl
  | woken =>
    rw [handler] at ran
    cases ran
    exact Or.inr rfl
  | _ => simp only [handler, reduceCtorEq] at ran

theorem register_cases (stepped : step config params system .register = some next) :
    system.handler = .queried ∧ next = { system with handler := .waiting false } := by
  cases handler : system.handler with
  | queried =>
    simp only [LongPoll.step, handler, Option.some.injEq] at stepped
    exact ⟨rfl, stepped.symm⟩
  | _ => simp only [LongPoll.step, handler, reduceCtorEq] at stepped

theorem wake_cases (stepped : step config params system .wake = some next) :
    system.handler = .waiting true ∧
      next = { system with handler := .woken, beforeEnd := system.inserted } := by
  cases handler : system.handler with
  | waiting notified =>
    simp only [LongPoll.step, handler] at stepped
    obtain ⟨rfl, same⟩ := Option.ite_none_right_eq_some.mp stepped
    exact ⟨rfl, (Option.some.inj same).symm⟩
  | _ => simp only [LongPoll.step, handler, reduceCtorEq] at stepped

theorem timeout_cases (stepped : step config params system .timeout = some next) :
    system.handler = .waiting false ∧
      next = { system with handler := .answering (.ok []), beforeEnd := system.inserted } := by
  cases handler : system.handler with
  | waiting notified =>
    simp only [LongPoll.step, handler] at stepped
    obtain ⟨unnotified, same⟩ := Option.ite_none_left_eq_some.mp stepped
    rw [Bool.not_eq_true] at unnotified
    exact ⟨by rw [unnotified], (Option.some.inj same).symm⟩
  | _ => simp only [LongPoll.step, handler, reduceCtorEq] at stepped

theorem respond_cases (stepped : step config params system .respond = some next) :
    ∃ answer, system.handler = .answering answer ∧ next = { system with handler := .answered answer } := by
  cases handler : system.handler with
  | answering answer =>
    simp only [LongPoll.step, handler, Option.some.injEq] at stepped
    exact ⟨answer, rfl, stepped.symm⟩
  | _ => simp only [LongPoll.step, handler, reduceCtorEq] at stepped

/-- What is gone stays gone: no later row of these envelopes is live that was not before. -/
theorem Gone.later {q : Bytes32} {envelopes : List (Bytes32 × P.EnvelopeId)} (gone : Gone q system envelopes)
    (older : ∀ row ∈ next.store.envelopes.contents, Repo.isLive q next.now row = true →
      (∃ old ∈ system.store.envelopes.contents, Repo.isLive q system.now old = true ∧
        old.envelopeId = row.envelopeId) ∨ ∀ id, (q, id) ∈ envelopes → row.envelopeId ≠ P.idText id) :
    Gone q next envelopes := by
  intro row member live
  rcases older row member live with ⟨old, found, alive, same⟩ | other
  · rw [← same]
    exact gone old found alive
  · exact other

theorem Attentive.tick (attentive : Attentive params system) {later : Int} (le : system.now ≤ later) :
    Attentive params { system with now := later } := by
  refine ⟨attentive.earlier, attentive.stored, attentive.gone.later ?_⟩
  intro row member live
  obtain ⟨here, open_, alive⟩ := isLive_iff.mp live
  exact Or.inl ⟨row, member, isLive_iff.mpr ⟨here, open_, le.trans_lt alive⟩, rfl⟩

theorem Attentive.insert (attentive : Attentive params system) {queueId : Bytes32} {id : P.EnvelopeId}
    (fresh : ¬∃ earlier ∈ system.inserted, earlier.2 = id) {row : EnvelopeRow}
    (unacked : Repo.isUnacked P queueId id row = true) :
    Attentive params { system with
      store := { system.store with envelopes := system.store.envelopes.insert row }
      inserted := (queueId, id) :: system.inserted
      notifying := (queueId, id) :: system.notifying } := by
  obtain ⟨here, named, _⟩ := isUnacked_iff.mp unacked
  refine ⟨?_, ?_, attentive.gone.later ?_⟩
  · intro envelope before
    exact List.mem_cons_of_mem _ (attentive.earlier envelope before)
  · intro other member
    rw [Table.contents_insert, List.mem_append, List.mem_singleton] at member
    rcases member with old | rfl
    · obtain ⟨q, drawn, inserted, rest⟩ := attentive.stored other old
      exact ⟨q, drawn, List.mem_cons_of_mem _ inserted, rest⟩
    · exact ⟨queueId, id, List.mem_cons_self, here, named⟩
  · intro other member live
    rw [Table.contents_insert, List.mem_append, List.mem_singleton] at member
    rcases member with old | rfl
    · exact Or.inl ⟨other, old, live, rfl⟩
    · -- its identifier is fresh, so it is none of the envelopes dismissed before
      refine Or.inr ?_
      intro drawn dismissed same
      have before : (params.queueId, drawn) ∈ system.inserted := by
        unfold System.dismissed at dismissed
        split at dismissed
        · exact attentive.earlier _ (Or.inl dismissed)
        · exact attentive.earlier _ (Or.inl dismissed)
        · exact attentive.earlier _ (Or.inr dismissed)
        · exact attentive.earlier _ (Or.inr dismissed)
        · cases dismissed
      exact fresh ⟨_, before, (idText_injective (named.symm.trans same)).symm⟩

theorem Attentive.ack (attentive : Attentive params system) (queueId : Bytes32) (id : P.EnvelopeId) (at_ : Int) :
    Attentive params { system with store := (Repo.ack P system.store queueId id at_).1 } := by
  have contents := (ack_answers system.store queueId id at_).1
  refine ⟨attentive.earlier, ?_, attentive.gone.later ?_⟩
  · intro row member
    rw [contents] at member
    obtain ⟨old, found, rfl⟩ := List.mem_map.mp member
    rw [markRow_queueId, markRow_envelopeId]
    exact attentive.stored old found
  · intro row member live
    rw [contents] at member
    obtain ⟨old, found, rfl⟩ := List.mem_map.mp member
    obtain ⟨deliveredAt, same, unmarked⟩ := markRow_eq queueId id at_ old
    rw [same] at live ⊢
    obtain ⟨here, open_, alive⟩ := isLive_iff.mp live
    exact Or.inl ⟨old, found, isLive_iff.mpr ⟨here, unmarked open_, alive⟩, rfl⟩

theorem Attentive.sweep (attentive : Attentive params system) (at_ : Int) :
    Attentive params { system with store := (Repo.expire system.store at_).1 } := by
  refine ⟨attentive.earlier, ?_, attentive.gone.later ?_⟩
  · intro row member
    rw [sweep_contents] at member
    exact attentive.stored row (List.mem_of_mem_filter member)
  · intro row member live
    rw [sweep_contents] at member
    exact Or.inl ⟨row, List.mem_of_mem_filter member, live, rfl⟩

theorem Attentive.notify (attentive : Attentive params system) (queueId : Bytes32) (id : P.EnvelopeId) :
    Attentive params { system with
      notifying := system.notifying.erase (queueId, id)
      handler := system.handler.notify params.queueId queueId } := by
  refine ⟨attentive.earlier, attentive.stored, ?_⟩
  have same : System.dismissed { system with
      notifying := system.notifying.erase (queueId, id)
      handler := system.handler.notify params.queueId queueId } = system.dismissed := by
    unfold System.dismissed Handler.notify
    cases system.handler <;> rfl
  rw [same]
  exact attentive.gone

/-- An empty result with a reading of the past finds nothing live. -/
theorem gone_of_empty {reading : Int} (le : reading ≤ system.now)
    (nothing : params.pull config system.store reading = .ok ([] : List (StoredEnvelope P)))
    (envelopes : List (Bytes32 × P.EnvelopeId)) : Gone params.queueId system envelopes := by
  intro row member live
  obtain ⟨here, open_, alive⟩ := isLive_iff.mp live
  have dead := pull_empty nothing row member
  rw [isLive_iff.mpr ⟨here, open_, le.trans_lt alive⟩] at dead
  cases dead

theorem queried_cases (params : PullParams) (result : Except Failure (List (StoredEnvelope P))) :
    (params.queried result = .queried ∧ result = .ok []) ∨ params.queried result = .answering result := by
  unfold PullParams.queried
  split
  · exact Or.inl ⟨rfl, rfl⟩
  · exact Or.inr rfl

/-- The second of two queries, and the first when there is no wait, are answered as found. -/
theorem gone_answering {reading : Int} (le : reading ≤ system.now)
    (store : next.store = system.store) (now : next.now = system.now)
    (handler : next.handler = .answering (params.pull config system.store reading)) :
    Gone params.queueId next next.dismissed := by
  cases result : params.pull config system.store reading with
  | error e =>
    rw [System.dismissed, handler, result]
    rintro row _ _ id ⟨⟩
  | ok envelopes =>
    cases envelopes with
    | cons first rest =>
      rw [System.dismissed, handler, result]
      rintro row _ _ id ⟨⟩
    | nil =>
      rw [← store] at result
      exact gone_of_empty (now ▸ le) result _

theorem Attentive.query (attentive : Attentive params system) {reading : Int}
    (stepped : step config params system (.query reading) = some next) : Attentive params next := by
  obtain ⟨le, rfl | rfl⟩ := query_cases stepped
  · refine ⟨fun envelope before => before.elim id id, attentive.stored, ?_⟩
    rcases queried_cases params (params.pull config system.store reading) with ⟨waits, empty⟩ | answers
    · exact gone_of_empty le empty _
    · exact gone_answering le rfl rfl answers
  · exact ⟨attentive.earlier, attentive.stored, gone_answering le rfl rfl rfl⟩

/-- A timeout dismisses what the first query did not see, so nothing may have come since. -/
theorem Attentive.timeout (attentive : Attentive params system) (handler : system.handler = .waiting false)
    (heard : Heard params system .timeout) :
    Attentive params { system with handler := .answering (.ok []), beforeEnd := system.inserted } := by
  refine ⟨fun envelope before => before.elim (fun first => attentive.earlier envelope (Or.inl first)) id,
    attentive.stored, ?_⟩
  have gone := attentive.gone
  rw [System.dismissed, handler] at gone
  intro row member live id inserted
  exact gone row member live id (heard id inserted)

theorem Attentive.respond (attentive : Attentive params system)
    {answer : Except Failure (List (StoredEnvelope P))} (handler : system.handler = .answering answer) :
    Attentive params { system with handler := .answered answer } := by
  refine ⟨attentive.earlier, attentive.stored, ?_⟩
  have same : System.dismissed { system with handler := .answered answer } = system.dismissed := by
    unfold System.dismissed
    rw [handler]
    cases answer with
    | error e => rfl
    | ok envelopes => cases envelopes <;> rfl
  rw [same]
  exact attentive.gone

theorem Attentive.step (attentive : Attentive params system) {action : Action P} (heard : Heard params system action)
    (stepped : step config params system action = some next) : Attentive params next := by
  cases action with
  | tick later =>
    obtain ⟨le, same⟩ := Option.ite_none_right_eq_some.mp stepped
    cases same
    exact attentive.tick le
  | insert queueId payload ttlSeconds id at_ =>
    obtain rfl | ⟨fresh, row, unacked, rfl⟩ := insert_cases stepped
    · exact attentive
    · exact attentive.insert fresh unacked
  | notify queueId id =>
    obtain ⟨_, same⟩ := Option.ite_none_right_eq_some.mp stepped
    cases same
    exact attentive.notify queueId id
  | ack queueId id at_ =>
    cases stepped
    exact attentive.ack queueId id at_
  | sweep at_ =>
    cases stepped
    exact attentive.sweep at_
  | query reading => exact attentive.query stepped
  | register =>
    obtain ⟨handler, rfl⟩ := register_cases stepped
    have gone := attentive.gone
    rw [System.dismissed, handler] at gone
    exact ⟨attentive.earlier, attentive.stored, gone⟩
  | wake =>
    obtain ⟨_, rfl⟩ := wake_cases stepped
    refine ⟨fun envelope before => before.elim (fun first => attentive.earlier envelope (Or.inl first)) id,
      attentive.stored, ?_⟩
    rintro row _ _ id ⟨⟩
  | timeout =>
    obtain ⟨handler, rfl⟩ := timeout_cases stepped
    exact attentive.timeout handler heard
  | respond =>
    obtain ⟨answer, handler, rfl⟩ := respond_cases stepped
    exact attentive.respond handler

theorem attentive_run (run : Run config params (Heard params) system) :
    Attentive params system := by
  refine Runs.Run.invariant ?_ (fun _ _ _ attentive heard stepped => attentive.step heard stepped) run
  rintro _ ⟨now, rfl⟩
  refine ⟨?_, (by rintro _ ⟨⟩), (by rintro _ ⟨⟩)⟩
  rintro envelope (before | before) <;> cases before

/-- In every run in which no timeout ends the wait after a push has inserted an envelope
since the first query, an empty answer means that no envelope inserted before the wait
ended is still live. -/
theorem long_poll_misses_nothing {config : CoreConfig} (run : Run config params (Heard params) system)
    (empty : system.handler = .answered (.ok [])) :
    ∀ row ∈ system.store.envelopes.contents, Repo.isLive params.queueId system.now row = true →
      ∀ id, (params.queueId, id) ∈ system.beforeEnd → row.envelopeId ≠ P.idText id := by
  have gone := (attentive_run run).gone
  rwa [System.dismissed, empty] at gone

/-- Every push that inserts after the first query notifies while `notified()` exists: it has
not done so before the registration, and does not leave it until after the timeout. -/
def Registered (params : PullParams) (system : System P) : Action P → Prop
  | .register => ∀ id, (params.queueId, id) ∈ system.inserted →
      (params.queueId, id) ∈ system.beforeQuery ∨ (params.queueId, id) ∈ system.notifying
  | .timeout => ∀ id, (params.queueId, id) ∈ system.notifying → (params.queueId, id) ∈ system.beforeQuery
  | _ => True

/-- While the handler waits unnotified, the pushes since the first query are yet to notify. -/
def Expecting (params : PullParams) (system : System P) : Prop :=
  system.handler = .waiting false → ∀ id, (params.queueId, id) ∈ system.inserted →
    (params.queueId, id) ∈ system.beforeQuery ∨ (params.queueId, id) ∈ system.notifying

theorem Expecting.notify (expecting : Expecting params system) (queueId : Bytes32) (id : P.EnvelopeId) :
    Expecting params { system with
      notifying := system.notifying.erase (queueId, id)
      handler := system.handler.notify params.queueId queueId } := by
  intro waits other inserted
  cases handler : system.handler with
  | waiting notified =>
    -- a notification for this queue would have woken the handler
    simp only [Handler.notify, handler, Handler.waiting.injEq, Bool.or_eq_false_iff, decide_eq_false_iff_not] at waits
    rw [waits.1] at handler
    refine (expecting handler other inserted).imp_right ?_
    intro pending
    refine (List.mem_erase_of_ne ?_).mpr pending
    intro same
    exact waits.2 (Prod.mk.inj same).1.symm
  | _ => simp only [Handler.notify, handler, reduceCtorEq] at waits

theorem Expecting.step (expecting : Expecting params system) {action : Action P}
    (registered : Registered params system action) (stepped : step config params system action = some next) :
    Expecting params next := by
  cases action with
  | tick later =>
    obtain ⟨_, same⟩ := Option.ite_none_right_eq_some.mp stepped
    cases same
    exact expecting
  | insert queueId payload ttlSeconds id at_ =>
    obtain rfl | ⟨_, row, _, rfl⟩ := insert_cases stepped
    · exact expecting
    · intro waits other inserted
      rcases List.mem_cons.mp inserted with new | old
      · exact Or.inr (List.mem_cons.mpr (Or.inl new))
      · exact (expecting waits other old).imp_right (List.mem_cons_of_mem _)
  | notify queueId id =>
    obtain ⟨_, same⟩ := Option.ite_none_right_eq_some.mp stepped
    cases same
    exact expecting.notify queueId id
  | ack queueId id at_ =>
    cases stepped
    exact expecting
  | sweep at_ =>
    cases stepped
    exact expecting
  | query reading =>
    obtain ⟨_, rfl | rfl⟩ := query_cases stepped
    · intro waits id inserted
      exact Or.inl inserted
    · rintro ⟨⟩
  | register =>
    obtain ⟨_, rfl⟩ := register_cases stepped
    exact fun _ => registered
  | wake =>
    obtain ⟨_, rfl⟩ := wake_cases stepped
    rintro ⟨⟩
  | timeout =>
    obtain ⟨_, rfl⟩ := timeout_cases stepped
    rintro ⟨⟩
  | respond =>
    obtain ⟨answer, _, rfl⟩ := respond_cases stepped
    rintro ⟨⟩

/-- A push that notifies while the handler is registered is never dismissed by a timeout. -/
theorem heard_of_registered (run : Run config params (Registered params) system) :
    Run config params (Heard params) system ∧ Expecting params system := by
  refine Runs.Run.invariant (motive := fun system => Run config params (Heard params) system ∧ Expecting params system)
    ?_ ?_ run
  · rintro _ ⟨now, rfl⟩
    exact ⟨.start ⟨now, rfl⟩, by rintro ⟨⟩⟩
  · rintro system next action ⟨heard, expecting⟩ registered stepped
    refine ⟨heard.step ?_ stepped, expecting.step registered stepped⟩
    cases action with
    | timeout =>
      intro id inserted
      obtain ⟨handler, _⟩ := timeout_cases stepped
      exact (expecting handler id inserted).elim (fun old => old) (registered id)
    | _ => exact trivial

/-- In every run in which each push since the first query notifies while the handler is
registered, an empty answer means that no envelope inserted before the wait ended is still
live. -/
theorem registered_poll_misses_nothing (run : Run config params (Registered params) system)
    (empty : system.handler = .answered (.ok [])) :
    ∀ row ∈ system.store.envelopes.contents, Repo.isLive params.queueId system.now row = true →
      ∀ id, (params.queueId, id) ∈ system.beforeEnd → row.envelopeId ≠ P.idText id := by
  have gone := (attentive_run (heard_of_registered run).1).gone
  rwa [System.dismissed, empty] at gone

end

end

section

def sampleParams : PullParams := ⟨sampleQueue, none, some 30⟩

/-- After a first query of the empty relay. -/
def sampleQueried : System samplePlatform := { System.initial 0 with handler := .queried }

theorem query_nothing {store : Store}
    (dead : ∀ row ∈ store.envelopes.contents, Repo.isLive sampleQueue 0 row = false) :
    sampleParams.pull sampleConfig store 0 = .ok ([] : List (StoredEnvelope samplePlatform)) := by
  have nothing : store.envelopes.select (Repo.isLive sampleQueue 0) EnvelopeRow.receivedAt 100 = [] :=
    (Table.select_eq_nil_iff (by decide)).mpr dead
  change List.mapM _ (store.envelopes.select (Repo.isLive sampleQueue 0) EnvelopeRow.receivedAt 100) = _
  rw [nothing]
  rfl

theorem sampleQueried_step :
    step sampleConfig sampleParams (System.initial 0) (.query 0) = some sampleQueried := by
  have nothing : sampleParams.pull sampleConfig Store.empty 0 = .ok ([] : List (StoredEnvelope samplePlatform)) :=
    query_nothing (by rintro _ ⟨⟩)
  simp only [step, System.initial, le_refl, if_true, nothing]
  rfl

/-- A woken handler finds nothing, and answers. -/
theorem answered_nothing {allowed : System samplePlatform → Action samplePlatform → Prop}
    {system : System samplePlatform} (run : Run sampleConfig sampleParams allowed system)
    (free : ∀ system, allowed system (.query 0) ∧ allowed system .respond) (woken : system.handler = .woken)
    (now : system.now = 0) (dead : ∀ row ∈ system.store.envelopes.contents, Repo.isLive sampleQueue 0 row = false) :
    Run sampleConfig sampleParams allowed { system with handler := .answered (.ok []) } := by
  have again : step sampleConfig sampleParams system (.query 0) =
      some { system with handler := .answering (.ok []) } := by
    simp only [step, now, le_refl, if_true, woken, query_nothing dead]
  have last : step sampleConfig sampleParams { system with handler := .answering (.ok []) } .respond =
      some { system with handler := .answered (.ok []) } := rfl
  exact (run.step (free _).1 again).step (free _).2 last

/-- A push lands while the handler is registered, and another client acknowledges it before
the second query. -/
def heardActions : List (Action samplePlatform) :=
  [.register, .insert sampleQueue [1] 60 "first" 0, .notify sampleQueue "first", .wake, .ack sampleQueue "first" 0]

theorem long_poll_misses_nothing_heard : ∃ system : System samplePlatform,
    Run sampleConfig sampleParams (Heard sampleParams) system ∧ system.beforeEnd = [(sampleQueue, "first")] ∧
      system.handler = .answered (.ok []) ∧
      ∀ row ∈ system.store.envelopes.contents, Repo.isLive sampleQueue system.now row = true →
        ∀ id, (sampleQueue, id) ∈ system.beforeEnd → row.envelopeId ≠ samplePlatform.idText id := by
  have queried : Run sampleConfig sampleParams (Heard sampleParams) sampleQueried :=
    Runs.Run.step (.start ⟨0, rfl⟩) (by exact trivial) sampleQueried_step
  have middle : ∃ system, heardActions.foldlM (step sampleConfig sampleParams) sampleQueried = some system ∧
      (system.handler = .woken ∧ system.now = 0 ∧ system.beforeEnd = [(sampleQueue, "first")]) ∧
        ∀ row ∈ system.store.envelopes.contents, Repo.isLive sampleQueue 0 row = false := by
    refine ⟨_, rfl, ⟨rfl, rfl, rfl⟩, ?_⟩
    intro row member
    rw [List.mem_singleton.mp member]
    decide
  obtain ⟨system, ran, ⟨woken, now, ended⟩, dead⟩ := middle
  have waited : Run sampleConfig sampleParams (Heard sampleParams) system := by
    refine queried.follow (Runs.follows_of_foldlM ?_ ran)
    intro action member
    simp only [heardActions, List.mem_cons, List.not_mem_nil, or_false] at member
    rcases member with rfl | rfl | rfl | rfl | rfl <;> exact fun _ => trivial
  have responded := answered_nothing waited (fun _ => ⟨trivial, trivial⟩) woken now dead
  exact ⟨_, responded, ended, rfl, long_poll_misses_nothing responded rfl⟩

/-- The push inserts before the registration and notifies after it. -/
def registeredActions : List (Action samplePlatform) :=
  [.insert sampleQueue [1] 60 "first" 0, .register, .notify sampleQueue "first", .wake, .ack sampleQueue "first" 0]

theorem registered_poll_misses_nothing_late : ∃ system : System samplePlatform,
    Run sampleConfig sampleParams (Registered sampleParams) system ∧ system.beforeQuery = [] ∧
      system.beforeEnd = [(sampleQueue, "first")] ∧ system.handler = .answered (.ok []) ∧
      ∀ row ∈ system.store.envelopes.contents, Repo.isLive sampleQueue system.now row = true →
        ∀ id, (sampleQueue, id) ∈ system.beforeEnd → row.envelopeId ≠ samplePlatform.idText id := by
  have queried : Run sampleConfig sampleParams (Registered sampleParams) sampleQueried :=
    Runs.Run.step (.start ⟨0, rfl⟩) (by exact trivial) sampleQueried_step
  have middle : ∃ system, Runs.Follows (step sampleConfig sampleParams) (Registered sampleParams) sampleQueried
      registeredActions system ∧
      (system.handler = .woken ∧ system.now = 0 ∧ system.beforeQuery = [] ∧ system.beforeEnd = [(sampleQueue, "first")]) ∧
        ∀ row ∈ system.store.envelopes.contents, Repo.isLive sampleQueue 0 row = false := by
    refine ⟨_, ⟨trivial, _, rfl, fun _ inserted => Or.inr inserted, _, rfl, trivial, _, rfl, trivial, _, rfl, trivial, _,
      rfl, rfl⟩, ⟨rfl, rfl, rfl, rfl⟩, ?_⟩
    intro row member
    rw [List.mem_singleton.mp member]
    decide
  obtain ⟨system, follows, ⟨woken, now, began, ended⟩, dead⟩ := middle
  have responded := answered_nothing (queried.follow follows) (fun _ => ⟨trivial, trivial⟩) woken now dead
  exact ⟨_, responded, began, ended, rfl, registered_poll_misses_nothing responded rfl⟩

/-- A push lands whole between the first query and the registration. -/
def unheardActions : List (Action samplePlatform) :=
  [.insert sampleQueue [1] 60 "first" 0, .notify sampleQueue "first", .register, .tick 30000, .timeout, .respond]

/-- The wait runs out and the answer is empty, with the envelope live in the queue. -/
theorem long_poll_misses_arrival : ∃ system : System samplePlatform,
    Run sampleConfig sampleParams (fun _ _ => True) system ∧ system.handler = .answered (.ok []) ∧
      ∃ row ∈ system.store.envelopes.contents, Repo.isLive sampleQueue system.now row = true ∧
        (sampleQueue, "first") ∈ system.beforeEnd ∧ row.envelopeId = samplePlatform.idText "first" := by
  have queried : Run sampleConfig sampleParams (fun _ _ => True) sampleQueried :=
    Runs.Run.step (.start ⟨0, rfl⟩) (by exact trivial) sampleQueried_step
  have missed : ∃ system, unheardActions.foldlM (step sampleConfig sampleParams) sampleQueried = some system ∧
      system.handler = .answered (.ok []) ∧ ∃ row ∈ system.store.envelopes.contents,
        Repo.isLive sampleQueue system.now row = true ∧ (sampleQueue, "first") ∈ system.beforeEnd ∧
          row.envelopeId = samplePlatform.idText "first" := by
    refine ⟨_, rfl, rfl, _, List.mem_cons_self, ?_, List.mem_cons_self, rfl⟩
    decide
  obtain ⟨system, ran, rest⟩ := missed
  exact ⟨system, queried.follow (Runs.follows_of_foldlM (fun _ _ _ => trivial) ran), rest⟩

end

end Buh.Relay.LongPoll
