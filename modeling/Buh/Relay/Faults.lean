import Buh.Relay.Acknowledgement

/-! An `ack` of `turso_mailbox.rs` that does not get through. A statement that fails has no
effect, but the `UPDATE` and the `INSERT` are two of them on a plain connection: what comes
between them leaves a marked row behind, and no receipt. -/

namespace Buh.Relay.Faults
open Buh.Library.RowTable Buh.Wire.Codec Buh.Crypto.Primitives Buh.Relay.Mailbox Buh.Relay.Refinement
  Buh.Relay.Acknowledgement

/-- Where a call breaks off: an error with its text, or the end of the process. -/
inductive Fault where
  | connect (text : String)
  | update (text : String)
  | stop
  | insert (text : String)

section
variable {P : Platform}

def repo (text : String) : Failure := .error (.repo text)

/-- `TursoMailboxRepo::ack` with what is left in the store and the answer, if there is one. -/
def ack (store : Store) (request : Ack P) (fault : Option Fault) : Store × Option (Except Failure Bool) :=
  match fault with
  | some (.connect text) => (store, some (.error (repo text)))
  | some (.update text) => (store, some (.error (repo text)))
  | fault =>
    let (marked, affected) := ackUpdate store request
    if affected = 0 then (marked, some (.ok false))
    else
      match fault with
      | some .stop => (marked, none)
      | some (.insert text) => (marked, some (.error (repo text)))
      | _ => (ackInsert marked request, some (.ok true))

/-- Nothing in the way, it is the `ack` of the store. -/
theorem ack_none (store : Store) (request : Ack P) :
    ack store request none = ((Repo.ack P store request.queueId request.id request.at_).1,
      some (Repo.ack P store request.queueId request.id request.at_).2) := by
  rw [ack_statements]
  simp only [ack]
  split_ifs <;> rfl

/-- The envelope is in the queue and nobody has acknowledged it. -/
def Unacked (store : Store) (request : Ack P) : Prop :=
  ∃ row ∈ store.envelopes.contents, Repo.isUnacked P request.queueId request.id row = true

/-- The call left the store as it was, or it acknowledged the envelope and wrote one
receipt. -/
def AllOrNothing (before after : Store) (request : Ack P) : Prop :=
  after = before ∨
    (Unacked before request ∧ ¬Unacked after request ∧
      after.receipts.contents = before.receipts.contents ++ [request.receipt])

/-- The call does not break off after an `UPDATE` that has found the envelope. -/
def Harmless (store : Store) (request : Ack P) : Option Fault → Prop
  | some .stop => ¬Unacked store request
  | some (.insert _) => ¬Unacked store request
  | _ => True

theorem affected_zero {store : Store} {request : Ack P} :
    (ackUpdate store request).2 = 0 ↔ ¬Unacked store request := by
  have count : (ackUpdate store request).2 =
      store.envelopes.contents.countP (Repo.isUnacked P request.queueId request.id) := rfl
  rw [count, List.countP_eq_zero, Unacked]
  simp only [not_exists, not_and]

theorem update_missing {store : Store} {request : Ack P} (missing : ¬Unacked store request) :
    (ackUpdate store request).1 = store := by
  have same : (store.envelopes.update (Repo.isUnacked P request.queueId request.id)
      (fun row => { row with deliveredAt := some request.at_ })).1 = store.envelopes :=
    Table.update_unaffected (affected_zero.mpr missing)
  simp only [ackUpdate, same]

/-- After the `UPDATE` nothing of the envelope is left to acknowledge. -/
theorem update_marks (store : Store) (request : Ack P) : ¬Unacked (ackUpdate store request).1 request := by
  rintro ⟨row, member, unacked⟩
  have count := countP_update store request request.queueId request.id
  rw [if_pos ⟨rfl, rfl⟩, List.countP_eq_zero] at count
  exact count row member unacked

/-- The three ways a call can end. -/
theorem ack_cases (store : Store) (request : Ack P) (fault : Option Fault) :
    (Harmless store request fault ∧ (ack store request fault).1 = store ∧
        (Unacked store request → fault ≠ none ∧ ∃ e, (ack store request fault).2 = some (.error e))) ∨
      (Harmless store request fault ∧ Unacked store request ∧
        ack store request fault = (ackInsert (ackUpdate store request).1 request, some (.ok true))) ∨
      (¬Harmless store request fault ∧ Unacked store request ∧
        (ack store request fault).1 = (ackUpdate store request).1) := by
  by_cases present : Unacked store request
  · have affected : ¬(ackUpdate store request).2 = 0 := fun zero => affected_zero.mp zero present
    rcases fault with _ | (text | text | _ | text)
    · exact Or.inr (Or.inl ⟨trivial, present, by simp [ack, affected]⟩)
    · exact Or.inl ⟨trivial, rfl, fun _ => ⟨by simp, _, rfl⟩⟩
    · exact Or.inl ⟨trivial, rfl, fun _ => ⟨by simp, _, rfl⟩⟩
    · exact Or.inr (Or.inr ⟨fun harmless => harmless present, present, by simp [ack, affected]⟩)
    · exact Or.inr (Or.inr ⟨fun harmless => harmless present, present, by simp [ack, affected]⟩)
  · have unaffected : (ackUpdate store request).2 = 0 := affected_zero.mpr present
    have same := update_missing present
    left
    rcases fault with _ | (text | text | _ | text)
    · exact ⟨trivial, by simp [ack, unaffected, same], fun found => absurd found present⟩
    · exact ⟨trivial, rfl, fun found => absurd found present⟩
    · exact ⟨trivial, rfl, fun found => absurd found present⟩
    · exact ⟨present, by simp [ack, unaffected, same], fun found => absurd found present⟩
    · exact ⟨present, by simp [ack, unaffected, same], fun found => absurd found present⟩

theorem allOrNothing_iff (store : Store) (request : Ack P) (fault : Option Fault) :
    AllOrNothing store (ack store request fault).1 request ↔ Harmless store request fault := by
  rcases ack_cases store request fault with ⟨harmless, same, -⟩ | ⟨harmless, present, answered⟩ | ⟨harmful, present, left_⟩
  · exact iff_of_true (Or.inl same) harmless
  · refine iff_of_true (Or.inr ⟨present, ?_, ?_⟩) harmless
    · rw [answered]
      exact update_marks store request
    · rw [answered]
      exact Table.contents_insert _ _
  · refine iff_of_false ?_ harmful
    rw [left_]
    rintro (same | ⟨-, -, receipts⟩)
    · rw [← same] at present
      exact update_marks store request (same ▸ present)
    · have lengths := congrArg List.length receipts
      change store.receipts.contents.length = _ at lengths
      rw [List.length_append, List.length_singleton] at lengths
      omega

/-- A request, any of which may meet a fault; those of one statement then do nothing. -/
def serve (config : CoreConfig) (store : Store) (event : Event P) (fault : Option Fault) : Store :=
  match event.request with
  | .ack queueId id => (ack store ⟨queueId, id, event.at_⟩ fault).1
  | _ => if fault.isSome then store else (Mailbox.serve config store event).1

/-- The stores that requests and faults can lead to when every `ack` is harmless. -/
inductive Reached (config : CoreConfig) : Store → Prop
  | empty : Reached config .empty
  | serve {store : Store} (event : Event P) (fault : Option Fault) : Reached config store →
      (∀ queueId id, event.request = .ack queueId id → Harmless store (⟨queueId, id, event.at_⟩ : Ack P) fault) →
      Reached config (Faults.serve config store event fault)

/-- Every acknowledged envelope has a receipt. -/
def Receipted (store : Store) : Prop :=
  ∀ row ∈ store.envelopes.contents, row.deliveredAt ≠ none →
    ∃ receipt ∈ store.receipts.contents, receipt.queueId = row.queueId ∧ receipt.envelopeId = row.envelopeId

theorem Receipted.ack {store : Store} (receipted : Receipted store) {request : Ack P} {fault : Option Fault}
    (harmless : Harmless store request fault) : Receipted (ack store request fault).1 := by
  rcases ack_cases store request fault with ⟨-, same, -⟩ | ⟨-, -, answered⟩ | ⟨harmful, -⟩
  · rwa [same]
  · have contents : (ackInsert (ackUpdate store request).1 request).envelopes.contents =
        store.envelopes.contents.map (markRow request.queueId request.id request.at_) :=
      Table.contents_update store.envelopes (Repo.isUnacked P request.queueId request.id)
        (fun row => { row with deliveredAt := some request.at_ })
    have receipts : (ackInsert (ackUpdate store request).1 request).receipts.contents =
        store.receipts.contents ++ [request.receipt] := Table.contents_insert _ _
    rw [answered]
    intro row member delivered
    rw [contents, List.mem_map] at member
    obtain ⟨before, member, rfl⟩ := member
    rw [receipts, markRow_queueId, markRow_envelopeId]
    cases unacked : Repo.isUnacked P request.queueId request.id before with
    | true =>
      obtain ⟨queue, envelope, -⟩ := isUnacked_iff.mp unacked
      exact ⟨request.receipt, by simp, queue.symm, envelope.symm⟩
    | false =>
      rw [markRow, if_neg (by rw [unacked]; decide)] at delivered
      obtain ⟨receipt, found, same⟩ := receipted before member delivered
      exact ⟨receipt, List.mem_append_left _ found, same⟩
  · exact absurd harmless harmful

theorem Receipted.serve {config : CoreConfig} {store : Store} (receipted : Receipted store) {event : Event P}
    {fault : Option Fault}
    (harmless : ∀ queueId id, event.request = .ack queueId id → Harmless store (⟨queueId, id, event.at_⟩ : Ack P) fault) :
    Receipted (Faults.serve config store event fault) := by
  obtain ⟨at_, request⟩ := event
  cases request with
  | ack queueId id => exact receipted.ack (harmless queueId id rfl)
  | pull queueId limit =>
    change Receipted (if fault.isSome then store else store)
    rwa [ite_self]
  | sweep =>
    change Receipted (if fault.isSome then store else (Repo.expire store at_).1)
    split_ifs
    · exact receipted
    · intro row member delivered
      rw [sweep_contents] at member
      exact receipted row (List.mem_of_mem_filter member) delivered
  | push queueId payload ttlSeconds id =>
    change Receipted (if fault.isSome then store else (Mailbox.push P config store queueId payload ttlSeconds id at_).1)
    split_ifs
    · exact receipted
    · rcases push_outcome config store queueId payload ttlSeconds id at_ with ⟨e, pushed⟩ | ⟨row, unacked, pushed⟩
      · rwa [pushed]
      · rw [pushed]
        intro other member delivered
        rw [Table.contents_insert, List.mem_append, List.mem_singleton] at member
        rcases member with earlier | rfl
        · exact receipted other earlier delivered
        · exact absurd (isUnacked_iff.mp unacked).2.2 delivered

theorem receipted_reached {config : CoreConfig} {store : Store} (reached : Reached (P := P) config store) :
    Receipted store := by
  induction reached with
  | empty =>
    intro row absent
    cases absent
  | serve event fault _ harmless ih => exact ih.serve harmless

/-- A call is all or nothing exactly when it does not break off after an `UPDATE` that has
found the envelope. While that never happens, every acknowledged envelope has a receipt,
and an error means that a later call can still acknowledge. -/
theorem ack_all_or_nothing (config : CoreConfig) (store : Store) (request : Ack P) (fault : Option Fault) :
    (AllOrNothing store (ack store request fault).1 request ↔ Harmless store request fault) ∧
      (Reached (P := P) config store → Receipted store) ∧
      (Harmless store request fault → ∀ e, (ack store request fault).2 = some (.error e) → Unacked store request →
        (ack (ack store request fault).1 request none).2 = some (.ok true) ∧
          request.receipt ∈ (ack (ack store request fault).1 request none).1.receipts.contents) := by
  refine ⟨allOrNothing_iff store request fault, receipted_reached, ?_⟩
  intro harmless e failed present
  have same : (ack store request fault).1 = store := by
    rcases ack_cases store request fault with ⟨-, same, -⟩ | ⟨-, -, answered⟩ | ⟨harmful, -⟩
    · exact same
    · rw [answered] at failed
      cases failed
    · exact absurd harmless harmful
  rw [same]
  rcases ack_cases store request none with ⟨-, -, stuck⟩ | ⟨-, -, answered⟩ | ⟨harmful, -⟩
  · exact absurd rfl (stuck present).1
  · rw [answered]
    refine ⟨rfl, ?_⟩
    rw [ackInsert, Table.contents_insert]
    exact List.mem_append_right _ (List.mem_singleton_self _)
  · exact absurd trivial harmful

end

/-- The store after one push. -/
def samplePushed : Store :=
  (Mailbox.push samplePlatform sampleConfig .empty sampleQueue [1] 60 "first" 0).1

/-- The `INSERT` fails: the envelope is marked, there is no receipt, and the call that
tries again finds nothing to acknowledge. -/
theorem receipt_lost :
    (ack samplePushed sampleAck (some (.insert "disk I/O error"))).2 = some (.error (repo "disk I/O error")) ∧
      ¬AllOrNothing samplePushed (ack samplePushed sampleAck (some (.insert "disk I/O error"))).1 sampleAck ∧
      (ack (ack samplePushed sampleAck (some (.insert "disk I/O error"))).1 sampleAck none).2 = some (.ok false) ∧
      (ack (ack samplePushed sampleAck (some (.insert "disk I/O error"))).1 sampleAck none).1.receipts.contents = [] := by
  refine ⟨rfl, ?_, rfl, rfl⟩
  rw [allOrNothing_iff]
  intro harmless
  exact harmless ⟨⟨sampleQueue.toList, "first", [1], 0, 60000, none⟩, by decide, by decide⟩

end Buh.Relay.Faults
