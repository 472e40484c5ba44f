import Buh.Relay.Refinement

/-! Acknowledgements that overlap. An `ack` is two statements, the `UPDATE` that marks the
row and the `INSERT` of the receipt, and other requests and sweeps come between them. The
guard of the `UPDATE` alone decides which acknowledgement is the one that counts. -/

namespace Buh.Relay.Acknowledgement
open Buh.Library.RowTable Buh.Wire.Codec Buh.Crypto.Primitives Buh.Relay.Mailbox Buh.Relay.Refinement

section
variable {P : Platform}

/-- An `ack` request, with the reading of the clock it was made at. -/
structure Ack (P : Platform) where
  queueId : Bytes32
  id : P.EnvelopeId
  at_ : Int
  deriving DecidableEq

/-- How far a request in flight has come. -/
inductive Phase where
  | started
  | marked
  | recorded
  | refused
  deriving DecidableEq

def Ack.receipt (ack : Ack P) : ReceiptRow := ⟨ack.queueId.toList, P.idText ack.id, ack.at_⟩

/-- The first statement of `ack`, with the number of rows it affected. -/
def ackUpdate (store : Store) (ack : Ack P) : Store × Nat :=
  let (envelopes, affected) := store.envelopes.update (Repo.isUnacked P ack.queueId ack.id)
    (fun row => { row with deliveredAt := some ack.at_ })
  ({ store with envelopes }, affected)

/-- The second statement of `ack`. -/
def ackInsert (store : Store) (ack : Ack P) : Store :=
  { store with receipts := store.receipts.insert ack.receipt }

/-- Run without interruption, the two statements are `ack`. -/
theorem ack_statements (store : Store) (ack : Ack P) :
    Repo.ack P store ack.queueId ack.id ack.at_ =
      if (ackUpdate store ack).2 = 0 then ((ackUpdate store ack).1, .ok false)
      else (ackInsert (ackUpdate store ack).1 ack, .ok true) := rfl

structure System (P : Platform) where
  store : Store
  inflight : List (Ack P × Phase)
  /-- The acknowledgements that have returned, with their answers. -/
  answered : List (Ack P × Bool)
  /-- The envelopes that pushes have stored, with their queues. -/
  pushed : List (Bytes32 × P.EnvelopeId)
  drawn : List P.EnvelopeId

def System.initial : System P := ⟨.empty, [], [], [], []⟩

/-- One statement, or the beginning or end of an `ack`. -/
inductive Action (P : Platform) where
  | push (queueId : Bytes32) (payload : Bytes) (ttlSeconds : Int) (id : P.EnvelopeId) (now : Int)
  | pull (queueId : Bytes32) (limit now : Int)
  | sweep (now : Int)
  | request (ack : Ack P)
  | update (ack : Ack P)
  | record (ack : Ack P)
  | reply (ack : Ack P) (answer : Bool)

/-- A request in flight moves on. -/
def System.move (system : System P) (old new : Ack P × Phase) : System P :=
  { system with inflight := new :: system.inflight.erase old }

/-- `none` where the action is not possible: an identifier drawn twice, or a request that
is not at that point. -/
def step (config : CoreConfig) (system : System P) : Action P → Option (System P)
  | .push queueId payload ttlSeconds id now =>
    if id ∈ system.drawn then none
    else
      let (store, answer) := Mailbox.push P config system.store queueId payload ttlSeconds id now
      some { system with
        store
        pushed := if answer.isOk then (queueId, id) :: system.pushed else system.pushed
        drawn := id :: system.drawn }
  | .pull _ _ _ => some system
  | .sweep now => some { system with store := (Repo.expire system.store now).1 }
  | .request ack => some { system with inflight := (ack, .started) :: system.inflight }
  | .update ack =>
    if (ack, .started) ∈ system.inflight then
      let (store, affected) := ackUpdate system.store ack
      some ({ system with store }.move (ack, .started) (ack, if affected = 0 then .refused else .marked))
    else none
  | .record ack =>
    if (ack, .marked) ∈ system.inflight then
      some ({ system with store := ackInsert system.store ack }.move (ack, .marked) (ack, .recorded))
    else none
  | .reply ack answer =>
    let phase : Phase := if answer then .recorded else .refused
    if (ack, phase) ∈ system.inflight then
      some { system with
        inflight := system.inflight.erase (ack, phase)
        answered := (ack, answer) :: system.answered }
    else none

/-- The system after any interleaving. -/
def run (config : CoreConfig) (actions : List (Action P)) : Option (System P) :=
  actions.foldlM (step config) .initial

/-- A request in flight that has marked the row of the envelope. -/
def holds (q : Bytes32) (id : P.EnvelopeId) (entry : Ack P × Phase) : Bool :=
  (entry.1.queueId = q ∧ entry.1.id = id) ∧ (entry.2 = .marked ∨ entry.2 = .recorded)

/-- A request that was answered with true. -/
def confirms (q : Bytes32) (id : P.EnvelopeId) (entry : Ack P × Bool) : Bool :=
  (entry.1.queueId = q ∧ entry.1.id = id) ∧ entry.2 = true

/-- The claims on the envelope: acknowledgements that have marked its row, and its unmarked
rows. -/
def System.claims (system : System P) (q : Bytes32) (id : P.EnvelopeId) : Nat :=
  system.inflight.countP (holds q id) + system.answered.countP (confirms q id) +
    system.store.envelopes.contents.countP (Repo.isUnacked P q id)

/-- The receipts owed by the requests that have written theirs. -/
def System.receipts (system : System P) : List ReceiptRow :=
  ((system.answered.filter (fun entry => entry.2)).map (fun entry => entry.1.receipt)) ++
    ((system.inflight.filter (fun entry => entry.2 = .recorded)).map (fun entry => entry.1.receipt))

structure Accounted (system : System P) : Prop where
  once : ∀ q id, system.claims q id ≤ 1
  known : ∀ q id, 0 < system.claims q id → (q, id) ∈ system.pushed
  drawn : ∀ q id, (q, id) ∈ system.pushed → id ∈ system.drawn
  receipts : system.store.receipts.contents.Perm system.receipts

/-- A request that moves on is counted for its new place and no longer for its old one. -/
theorem countP_move {α : Type} [BEq α] [LawfulBEq α] (counted : α → Bool) {old : α} (new : α) {list : List α}
    (member : old ∈ list) : (new :: list.erase old).countP counted + (if counted old then 1 else 0) =
      list.countP counted + if counted new then 1 else 0 := by
  have split := (List.perm_cons_erase member).countP_eq counted
  rw [List.countP_cons] at split ⊢
  omega

theorem filter_move {α : Type} [BEq α] [LawfulBEq α] (kept : α → Bool) {old : α} (new : α) {list : List α} (member : old ∈ list)
    (dropped : kept old = false) : ((new :: list.erase old).filter kept).Perm
      ((if kept new then [new] else []) ++ list.filter kept) := by
  have split := (List.perm_cons_erase member).filter kept
  rw [List.filter_cons_of_neg (by rw [dropped]; decide)] at split
  rw [List.filter_cons]
  cases kept new with
  | true => exact split.symm.cons new
  | false => exact split.symm

section
variable {config : CoreConfig} {system : System P}

/-- What makes no new claim keeps the accounts, as long as the receipts are right. -/
theorem Accounted.transfer (accounted : Accounted system) {next : System P}
    (less : ∀ q id, next.claims q id ≤ system.claims q id) (pushed : next.pushed = system.pushed)
    (drawn : next.drawn = system.drawn) (receipts : next.store.receipts.contents.Perm next.receipts) :
    Accounted next where
  once q id := (less q id).trans (accounted.once q id)
  known q id some_ := pushed ▸ accounted.known q id (some_.trans_le (less q id))
  drawn := by
    rw [pushed, drawn]
    exact accounted.drawn
  receipts := receipts

theorem Accounted.sweep (accounted : Accounted system) (now : Int) :
    Accounted { system with store := (Repo.expire system.store now).1 } := by
  refine accounted.transfer ?_ rfl rfl accounted.receipts
  intro q id
  apply Nat.add_le_add_left
  rw [sweep_contents]
  exact List.filter_sublist.countP_le

theorem Accounted.request (accounted : Accounted system) (ack : Ack P) :
    Accounted { system with inflight := (ack, .started) :: system.inflight } := by
  have same (q : Bytes32) (id : P.EnvelopeId) :
      ({ system with inflight := (ack, .started) :: system.inflight }).claims q id = system.claims q id := by
    simp only [System.claims, List.countP_cons, holds, reduceCtorEq, or_self, and_false, decide_false,
      Bool.false_eq_true, if_false, Nat.add_zero]
  exact accounted.transfer (fun q id => (same q id).le) rfl rfl accounted.receipts

/-- The row of a push under a fresh identifier is the first claim on its envelope. -/
theorem Accounted.push (accounted : Accounted system) {queueId : Bytes32} {id : P.EnvelopeId} {row : EnvelopeRow}
    (fresh : id ∉ system.drawn) (unacked : Repo.isUnacked P queueId id row = true) :
    Accounted { system with
      store := { system.store with envelopes := system.store.envelopes.insert row }
      pushed := (queueId, id) :: system.pushed
      drawn := id :: system.drawn } := by
  have counted (q : Bytes32) (other : P.EnvelopeId) : System.claims { system with
      store := { system.store with envelopes := system.store.envelopes.insert row }
      pushed := (queueId, id) :: system.pushed
      drawn := id :: system.drawn } q other =
        system.claims q other + if Repo.isUnacked P q other row then 1 else 0 := by
    simp only [System.claims, Table.contents_insert, List.countP_append, List.countP_singleton]
    omega
  have unclaimed : system.claims queueId id = 0 := by
    by_contra claimed
    exact fresh (accounted.drawn queueId id (accounted.known queueId id (Nat.pos_of_ne_zero claimed)))
  refine ⟨?_, ?_, ?_, accounted.receipts⟩
  · intro q other
    rw [counted]
    split_ifs with here
    · obtain ⟨rfl, rfl⟩ := isUnacked_unique here unacked
      rw [unclaimed]
    · exact accounted.once q other
  · intro q other claimed
    rw [counted] at claimed
    split_ifs at claimed with here
    · obtain ⟨rfl, rfl⟩ := isUnacked_unique here unacked
      exact List.mem_cons_self
    · exact List.mem_cons_of_mem _ (accounted.known q other claimed)
  · intro q other member
    rcases List.mem_cons.mp member with same | old
    · rw [(Prod.mk.inj same).2]
      exact List.mem_cons_self
    · exact List.mem_cons_of_mem _ (accounted.drawn q other old)

theorem Accounted.draw (accounted : Accounted system) (id : P.EnvelopeId) :
    Accounted { system with drawn := id :: system.drawn } :=
  ⟨accounted.once, accounted.known, fun q other member => List.mem_cons_of_mem _ (accounted.drawn q other member),
    accounted.receipts⟩

/-- The `UPDATE` takes the unmarked rows of its envelope and leaves those of the others. -/
theorem countP_update (store : Store) (ack : Ack P) (q : Bytes32) (id : P.EnvelopeId) :
    (ackUpdate store ack).1.envelopes.contents.countP (Repo.isUnacked P q id) =
      if ack.queueId = q ∧ ack.id = id then 0 else store.envelopes.contents.countP (Repo.isUnacked P q id) := by
  have contents : (ackUpdate store ack).1.envelopes.contents =
      store.envelopes.contents.map (markRow ack.queueId ack.id ack.at_) :=
    Table.contents_update store.envelopes (Repo.isUnacked P ack.queueId ack.id)
      (fun row => { row with deliveredAt := some ack.at_ })
  rw [contents, List.countP_map]
  split_ifs with same
  · refine List.countP_eq_zero.mpr (fun row _ unacked => ?_)
    exact (isUnacked_mark.mp unacked).2 same
  · refine List.countP_congr (fun row _ => ?_)
    exact isUnacked_mark.trans (and_iff_left same)

/-- The claim of the row it marks passes to the acknowledgement. -/
theorem Accounted.update (accounted : Accounted system) {ack : Ack P} (member : (ack, .started) ∈ system.inflight) :
    Accounted (({ system with store := (ackUpdate system.store ack).1 }).move (ack, .started)
      (ack, if (ackUpdate system.store ack).2 = 0 then .refused else .marked)) := by
  have affected : (ackUpdate system.store ack).2 =
      system.store.envelopes.contents.countP (Repo.isUnacked P ack.queueId ack.id) := rfl
  have same (q : Bytes32) (id : P.EnvelopeId) : (({ system with store := (ackUpdate system.store ack).1 }).move
      (ack, .started) (ack, if (ackUpdate system.store ack).2 = 0 then .refused else .marked)).claims q id =
        system.claims q id := by
    have moved := countP_move (holds q id)
      (ack, if (ackUpdate system.store ack).2 = 0 then .refused else .marked) member
    have bound := accounted.once ack.queueId ack.id
    simp only [System.claims, System.move, countP_update] at bound ⊢
    by_cases here : ack.queueId = q ∧ ack.id = id
    · obtain ⟨rfl, rfl⟩ := here
      simp only [and_self, if_true]
      by_cases unaffected : (ackUpdate system.store ack).2 = 0
      · simp only [unaffected, if_true, holds, reduceCtorEq, or_self, and_false, decide_false, Bool.false_eq_true,
          if_false, Nat.add_zero] at moved ⊢
        rw [affected] at unaffected
        omega
      · simp only [unaffected, if_false, holds, reduceCtorEq, or_self, or_false, and_false, and_self, decide_false,
          decide_true, Bool.false_eq_true, if_true, Nat.add_zero] at moved ⊢
        rw [affected] at unaffected
        omega
    · simp only [if_neg here]
      have others (phase : Phase) : holds q id (ack, phase) = false := by
        simp only [holds, here, false_and, decide_false]
      simp only [others, Bool.false_eq_true, if_false, Nat.add_zero] at moved
      omega
  refine accounted.transfer (fun q id => (same q id).le) rfl rfl ?_
  refine accounted.receipts.trans (List.Perm.append_left _ (List.Perm.map _ ?_))
  have moved := filter_move (fun entry : Ack P × Phase => decide (entry.2 = .recorded))
    (ack, if (ackUpdate system.store ack).2 = 0 then .refused else .marked) member rfl
  have unrecorded : ¬(if (ackUpdate system.store ack).2 = 0 then Phase.refused else .marked) = .recorded := by
    split_ifs <;> simp
  simp only [unrecorded, decide_false, Bool.false_eq_true, if_false, List.nil_append] at moved
  exact moved.symm

theorem Accounted.record (accounted : Accounted system) {ack : Ack P} (member : (ack, .marked) ∈ system.inflight) :
    Accounted (({ system with store := ackInsert system.store ack }).move (ack, .marked) (ack, .recorded)) := by
  have same (q : Bytes32) (id : P.EnvelopeId) : (({ system with store := ackInsert system.store ack }).move
      (ack, .marked) (ack, .recorded)).claims q id = system.claims q id := by
    have moved := countP_move (holds q id) (ack, .recorded) member
    have alike : holds q id (ack, .recorded) = holds q id (ack, .marked) := by
      simp only [holds, reduceCtorEq, or_true, or_false]
    rw [alike] at moved
    simp only [System.claims, System.move, ackInsert]
    omega
  refine accounted.transfer (fun q id => (same q id).le) rfl rfl ?_
  have moved := filter_move (fun entry : Ack P × Phase => decide (entry.2 = .recorded)) (ack, .recorded) member rfl
  have contents : (ackInsert system.store ack).receipts.contents = system.store.receipts.contents ++ [ack.receipt] :=
    Table.contents_insert _ _
  change (ackInsert system.store ack).receipts.contents.Perm (_ ++ _)
  rw [contents]
  refine (accounted.receipts.append_right _).trans ?_
  rw [System.receipts, List.append_assoc]
  refine List.Perm.append_left _ ((List.perm_append_singleton _ _).trans ?_)
  exact moved.symm.map (fun entry => entry.1.receipt)

/-- An answer replaces a claim in flight, or none. -/
theorem Accounted.reply (accounted : Accounted system) {ack : Ack P} {answer : Bool}
    (member : (ack, if answer then Phase.recorded else .refused) ∈ system.inflight) :
    Accounted { system with
      inflight := system.inflight.erase (ack, if answer then .recorded else .refused)
      answered := (ack, answer) :: system.answered } := by
  have same (q : Bytes32) (id : P.EnvelopeId) : System.claims { system with
      inflight := system.inflight.erase (ack, if answer then .recorded else .refused)
      answered := (ack, answer) :: system.answered } q id = system.claims q id := by
    have split := (List.perm_cons_erase member).countP_eq (holds q id)
    have alike : holds q id (ack, if answer then Phase.recorded else .refused) = confirms q id (ack, answer) := by
      cases answer <;> simp [holds, confirms]
    rw [List.countP_cons, alike] at split
    simp only [System.claims, List.countP_cons]
    omega
  refine accounted.transfer (fun q id => (same q id).le) rfl rfl ?_
  have split := ((List.perm_cons_erase member).filter (fun entry => decide (entry.2 = .recorded))).map
    (fun entry => entry.1.receipt)
  refine accounted.receipts.trans ?_
  cases answer with
  | false =>
    rw [List.filter_cons_of_neg (by simp)] at split
    exact List.Perm.append_left _ split
  | true =>
    rw [List.filter_cons_of_pos (by simp)] at split
    exact (List.Perm.append_left _ split).trans List.perm_middle

/-- Every step keeps the accounts. -/
theorem Accounted.step (accounted : Accounted system) {action : Action P} {next : System P}
    (stepped : step config system action = some next) : Accounted next := by
  cases action with
  | push queueId payload ttlSeconds id now =>
    by_cases used : id ∈ system.drawn
    · simp only [Acknowledgement.step, if_pos used, reduceCtorEq] at stepped
    · simp only [Acknowledgement.step, if_neg used] at stepped
      obtain ⟨e, refused⟩ | ⟨row, unacked, stored⟩ :=
        push_outcome config system.store queueId payload ttlSeconds id now
      · rw [refused] at stepped
        cases stepped
        exact accounted.draw id
      · rw [stored] at stepped
        cases stepped
        exact accounted.push used unacked
  | pull queueId limit now =>
    cases stepped
    exact accounted
  | sweep now =>
    cases stepped
    exact accounted.sweep now
  | request ack =>
    cases stepped
    exact accounted.request ack
  | update ack =>
    obtain ⟨member, same⟩ := Option.ite_none_right_eq_some.mp stepped
    cases same
    exact accounted.update member
  | record ack =>
    obtain ⟨member, same⟩ := Option.ite_none_right_eq_some.mp stepped
    cases same
    exact accounted.record member
  | reply ack answer =>
    obtain ⟨member, same⟩ := Option.ite_none_right_eq_some.mp stepped
    cases same
    exact accounted.reply member

theorem accounted_run {actions : List (Action P)} (reached : run config actions = some system) :
    Accounted system := by
  induction actions using List.reverseRecOn generalizing system with
  | nil =>
    cases reached
    exact ⟨fun _ _ => Nat.zero_le 1, fun _ _ some_ => absurd some_ (lt_irrefl 0), (by rintro _ _ ⟨⟩), .nil⟩
  | append_singleton actions action ih =>
    rw [run, List.foldlM_append] at reached
    obtain ⟨before, earlier, last⟩ := Option.bind_eq_some_iff.mp reached
    obtain ⟨next, stepped, rest⟩ := Option.bind_eq_some_iff.mp last
    cases rest
    exact (ih earlier).step stepped

/-- An answer of true is a claim on its envelope. -/
theorem Accounted.answered_known (accounted : Accounted system) {entry : Ack P × Bool}
    (member : entry ∈ system.answered) (answer : entry.2 = true) :
    (entry.1.queueId, entry.1.id) ∈ system.pushed := by
  refine accounted.known _ _ ?_
  have counted : 0 < system.answered.countP (confirms entry.1.queueId entry.1.id) :=
    List.countP_pos_iff.mpr ⟨entry, member, by simp [confirms, answer]⟩
  unfold System.claims
  omega

/-- There is no row to mark for an envelope that was never pushed to the queue. -/
theorem Accounted.update_unknown (accounted : Accounted system) {ack : Ack P} {next : System P}
    (unknown : (ack.queueId, ack.id) ∉ system.pushed) (stepped : Acknowledgement.step config system (.update ack) = some next) :
    next = system.move (ack, .started) (ack, .refused) := by
  have unclaimed : system.claims ack.queueId ack.id = 0 := by
    by_contra claimed
    exact unknown (accounted.known _ _ (Nat.pos_of_ne_zero claimed))
  have unaffected : (ackUpdate system.store ack).2 = 0 := (Nat.add_eq_zero_iff.mp unclaimed).2
  have unchanged : (ackUpdate system.store ack).1 = system.store := by
    simp only [ackUpdate]
    rw [Table.update_unaffected unaffected]
  obtain ⟨_, same⟩ := Option.ite_none_right_eq_some.mp stepped
  have moved : ({ system with store := (ackUpdate system.store ack).1 }).move (ack, .started)
      (ack, if (ackUpdate system.store ack).2 = 0 then .refused else .marked) = next := Option.some.inj same
  rw [← moved, unchanged, if_pos unaffected]

/-- In every interleaving, at most one acknowledgement of an envelope in a queue is
answered with true, and that envelope was pushed to that queue. An acknowledgement that
finds none pushed is refused: it changes nothing, and its answer is false. When no request
is in flight, the receipts are those of the acknowledgements answered with true, one each,
whatever was swept in between. -/
theorem exactly_one_acknowledgement {actions : List (Action P)} (reached : run config actions = some system) :
    (∀ q id, system.answered.countP (confirms q id) ≤ 1) ∧
      (∀ entry ∈ system.answered, entry.2 = true → (entry.1.queueId, entry.1.id) ∈ system.pushed) ∧
      (∀ ack next, (ack.queueId, ack.id) ∉ system.pushed → step config system (.update ack) = some next →
        next = system.move (ack, .started) (ack, .refused)) ∧
      (∀ ack, (ack, .refused) ∈ system.inflight → step config system (.reply ack false) = some { system with
        inflight := system.inflight.erase (ack, .refused)
        answered := (ack, false) :: system.answered }) ∧
      (system.inflight = [] → system.store.receipts.contents.Perm
        ((system.answered.filter (fun entry => entry.2)).map (fun entry => entry.1.receipt))) := by
  have accounted := accounted_run reached
  refine ⟨?_, fun entry => accounted.answered_known, fun ack next => accounted.update_unknown, ?_, ?_⟩
  · intro q id
    have bound := accounted.once q id
    unfold System.claims at bound
    omega
  · intro ack member
    exact if_pos member
  · intro idle
    have receipts := accounted.receipts
    rwa [System.receipts, idle, List.filter_nil, List.map_nil, List.append_nil] at receipts

end

end

section

def sampleAck : Ack samplePlatform := ⟨sampleQueue, "first", 7⟩

/-- Two acknowledgements overlap, and a sweep deletes the envelope between the statements
of the first. A third names another queue. -/
def overlapping : List (Action samplePlatform) :=
  [.push sampleQueue [1] 60 "first" 0, .request sampleAck, .request ⟨sampleQueue, "first", 8⟩, .update sampleAck,
    .update ⟨sampleQueue, "first", 8⟩, .sweep 60000, .record sampleAck, .reply ⟨sampleQueue, "first", 8⟩ false,
    .reply sampleAck true, .request ⟨List.Vector.replicate 32 0, "first", 9⟩,
    .update ⟨List.Vector.replicate 32 0, "first", 9⟩, .reply ⟨List.Vector.replicate 32 0, "first", 9⟩ false]

theorem exactly_one_acknowledgement_overlapping : ∃ system, run sampleConfig overlapping = some system ∧
    system.inflight = [] ∧ system.answered.map (fun entry => entry.2) = [false, true, false] ∧
    system.store.envelopes.contents = [] ∧ system.store.receipts.contents.Perm [sampleAck.receipt] := by
  refine ⟨_, rfl, rfl, rfl, rfl, ?_⟩
  have reached : run sampleConfig overlapping = some _ := rfl
  exact (exactly_one_acknowledgement reached).2.2.2.2 rfl

end

end Buh.Relay.Acknowledgement
