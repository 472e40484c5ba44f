import Buh.Library.Fallible
import Buh.Library.Runs
import Buh.Node.Trust
import Buh.Relay.Http

/-! The operator's side of peer trust: `peer trust`, `peer distrust` and `peer list` of
`buh-cli`. They ask the admin API of the running node, and open the datastore themselves
when nothing comes back. Statements fail, connections break, and the node stops and starts
between commands and in the middle of them. What a command has reported stays so. -/

namespace Buh.Node.Console
open Buh.Library Buh.Library.Fallible Buh.Library.RowTable Buh.Wire.Codec Buh.Node.Trust Buh.Relay.Http

/-- What the server makes of a text that stands in the path of a request as it is: the
parameter of the route, or no request that it understands. -/
structure PathText where
  read : Text → Option Text

/-- Letters, digits and the separators of a fingerprint. -/
def Plain (text : Text) : Prop := text ≠ [] ∧ ∀ c ∈ text, c.isAlphanum ∨ c = ':'

instance (text : Text) : Decidable (Plain text) :=
  haveI : Decidable (∀ c ∈ text, c.isAlphanum ∨ c = ':') := List.decidableBAll _ text
  inferInstanceAs (Decidable (_ ∧ _))

/-- Such texts need no escape. -/
def PathText.Lawful (http : PathText) : Prop := ∀ text, Plain text → http.read text = some text

inductive Request where
  | listPeers
  | trustPeer (caFingerprint : Text) (note : Option Text)
  | distrustPeer (path : Text)

structure PeerJson where
  caFingerprint : Text
  note : Option Text
  trustedAtMs : Int

inductive Body where
  | peers (peers : List PeerJson)
  | trusted (caFingerprint : Text)
  | removed (removed : Bool)
  | error

/-- The statement of a request that fails. -/
inductive Stop where
  | atWrite (e : CoreError)
  | atList (e : CoreError)

/-- A node that runs: the live trust snapshot, and the list that `refresh_trust` has read and
not yet put into it. -/
structure Daemon where
  trust : TrustStore
  timer : Option (List TrustedPeer)

structure Host where
  registry : Table TrustedPeer
  daemon : Option Daemon

/-- `trust_peer` and `distrust_peer`: a write, and `refresh_live`. -/
def mutate {α : Type} (write : Table TrustedPeer → Table TrustedPeer × α) (registry : Table TrustedPeer)
    (trust : TrustStore) (stop : Option Stop) : Table TrustedPeer × TrustStore × Except CoreError α :=
  match stop with
  | some (.atWrite e) => (registry, trust, .error e)
  | some (.atList e) => ((write registry).1, trust, .error e)
  | none => ((write registry).1, replace (Registry.list (write registry).1), .ok (write registry).2)

/-- The status and the body that an answer comes with. -/
def answer (result : Except CoreError Body) : Nat × Body :=
  match result with
  | .ok body => (200, body)
  | .error e => ((intoResponse e).status, .error)

def peerJson (peer : TrustedPeer) : PeerJson := ⟨peer.caFingerprint, peer.note, peer.trustedAt⟩

section
variable (unicode : Unicode) (http : PathText) (locked : CoreError) (now : Int)

/-- `trust`, as a write that answers nothing. -/
def trusting (caFingerprint : Text) (note : Option Text) (registry : Table TrustedPeer) : Table TrustedPeer × Unit :=
  (Registry.trust unicode registry caFingerprint note now, ())

def distrusting (caFingerprint : Text) (registry : Table TrustedPeer) : Table TrustedPeer × Bool :=
  Registry.distrust unicode registry caFingerprint

/-- The routes of `admin_router` that the commands use. -/
def handle (registry : Table TrustedPeer) (trust : TrustStore) (request : Request) (stop : Option Stop) :
    Table TrustedPeer × TrustStore × Nat × Body :=
  match request with
  | .listPeers =>
    match stop with
    | some (.atWrite e) | some (.atList e) => (registry, trust, answer (.error e))
    | none => (registry, trust, answer (.ok (.peers ((Registry.list registry).map peerJson))))
  | .trustPeer caFingerprint note =>
    let (registry, trust, result) := mutate (trusting unicode now caFingerprint note) registry trust stop
    (registry, trust, answer (result.map (fun _ => .trusted caFingerprint)))
  | .distrustPeer path =>
    match http.read path with
    | none => (registry, trust, 400, .error)
    | some caFingerprint =>
      let (registry, trust, result) := mutate (distrusting unicode caFingerprint) registry trust stop
      (registry, trust, answer (result.map .removed))

/-- What becomes of the exchange with the admin API. -/
inductive Fate where
  /-- Nobody listens. -/
  | refused
  | answered (stop : Option Stop)
  /-- The status arrives, but not the whole body, and `serde_json` reads it with an error. -/
  | cut (stop : Option Stop) (e : String)
  /-- The connection breaks before the answer has been read, where the request had got so far
  (`none`: not to its handler), possibly because the node stopped. -/
  | broken (reached : Option (Option Stop)) (stopped : Bool)

/-- What a request that gets this far does to the node. -/
def reach (host : Host) (daemon : Daemon) (request : Request) (stop : Option Stop) : Host × Nat × Body :=
  let (registry, trust, response) := handle unicode http now host.registry daemon.trust request stop
  (⟨registry, some { daemon with trust }⟩, response)

def Host.stopped (host : Host) : Host := { host with daemon := none }

/-- Nothing comes back where the node is down or the exchange broke off. -/
def adminReq (host : Host) (request : Request) (fate : Fate) : Host × Option (Nat × Except String Body) :=
  match host.daemon, fate with
  | some daemon, .answered stop =>
    let (host, status, body) := reach unicode http now host daemon request stop
    (host, some (status, .ok body))
  | some daemon, .cut stop e =>
    let (host, status, _) := reach unicode http now host daemon request stop
    (host, some (status, .error e))
  | some daemon, .broken reached stopped =>
    let host := match reached with
      | none => host
      | some stop => (reach unicode http now host daemon request stop).1
    (if stopped then host.stopped else host, none)
  | _, _ => (host, none)

/-- `open_registry` and the call on it. While the node runs the datastore is `locked`. -/
def direct {α : Type} (host : Host) (write : Table TrustedPeer → Table TrustedPeer × α) (fault : Option CoreError) :
    Host × Except String α :=
  match host.daemon, fault with
  | some _, _ => (host, .error locked.display)
  | none, some e => (host, .error e.display)
  | none, none => (⟨(write host.registry).1, none⟩, .ok (write host.registry).2)

def ensureOk (status : Nat) : Except String Unit :=
  if 200 ≤ status ∧ status < 300 then .ok () else .error ("admin API returned HTTP " ++ toString status)

/-- `json_bool` of `removed`. -/
def removedIn : Except String Body → Bool
  | .ok (.removed removed) => removed
  | _ => false

def peersIn : Except String Body → Except String (List (Text × Option Text))
  | .error e => .error e
  | .ok (.peers peers) => .ok (peers.map (fun peer => (peer.caFingerprint, peer.note)))
  | .ok _ => .ok []

inductive PeerCommand where
  | trust (caFp : Text) (note : Option Text)
  | distrust (caFp : Text)
  | list

def viaNode : Text := " (applied to the running node)".toList

def viaDatastore : Text := " (direct DB — daemon not running)".toList

def distrusted (caFp : Text) (removed : Bool) (how : Text) : List Text :=
  if removed then ["distrusted peer CA ".toList ++ caFp ++ how]
  else ["peer CA ".toList ++ caFp ++ " was not trusted".toList ++ how]

def listed (peers : List (Text × Option Text)) : List Text :=
  if peers = [] then ["no trusted peer CAs".toList]
  else peers.map (fun peer =>
    match peer.2 with
    | some note => peer.1 ++ "  ".toList ++ note
    | none => peer.1)

/-- What every command does: it asks the node, and opens the datastore when nothing comes back. -/
def askOrOpen {α β : Type} (host : Host) (request : Request) (write : Table TrustedPeer → Table TrustedPeer × α)
    (fate : Fate) (fault : Option CoreError) (answered : Except String Body → Except String β) (opened : α → β) :
    Host × Except String β :=
  match adminReq unicode http now host request fate with
  | (host, some (status, body)) => (host, (ensureOk status).bind (fun _ => answered body))
  | (host, none) =>
    let (host, result) := direct locked host write fault
    (host, result.map opened)

def entries (registry : Table TrustedPeer) : List (Text × Option Text) :=
  (Registry.list registry).map (fun peer => (peer.caFingerprint, peer.note))

def listing (registry : Table TrustedPeer) : Table TrustedPeer × List (Text × Option Text) :=
  (registry, entries registry)

def trustedFingerprintsWithNotes (host : Host) (fate : Fate) (fault : Option CoreError) :
    Host × Except String (List (Text × Option Text)) :=
  askOrOpen unicode http locked now host .listPeers listing fate fault peersIn id

/-- The lines that a command prints, or the error it ends with. -/
def runPeer (host : Host) (command : PeerCommand) (fate : Fate) (fault : Option CoreError) :
    Host × Except String (List Text) :=
  match command with
  | .trust caFp note =>
    askOrOpen unicode http locked now host (.trustPeer caFp note) (trusting unicode now caFp note) fate fault
      (fun _ => .ok ["trusting peer CA ".toList ++ caFp ++ viaNode])
      (fun _ => ["trusting peer CA ".toList ++ caFp ++ viaDatastore])
  | .distrust caFp =>
    askOrOpen unicode http locked now host (.distrustPeer caFp) (distrusting unicode caFp) fate fault
      (fun body => .ok (distrusted caFp (removedIn body) viaNode)) (fun removed => distrusted caFp removed viaDatastore)
  | .list =>
    let (host, result) := trustedFingerprintsWithNotes unicode http locked now host fate fault
    (host, result.map listed)

end

inductive Event where
  /-- `main` with an empty snapshot, which `refresh_trust` fills later. -/
  | start
  | stop
  | timerLists (fault : Option CoreError)
  | timerReplaces
  | command (command : PeerCommand) (now : Int) (fate : Fate) (fault : Option CoreError)

/-- What the operator has been told of a fingerprint last, and has not tried to change since. -/
inductive Standing where
  | unknown
  | trusted (note : Option Text)
  | distrusted

abbrev Ledger := Text → Standing

section
variable (unicode : Unicode) (http : PathText) (locked : CoreError)

/-- `none` where the event is not possible. -/
def step (host : Host) : Event → Option Host
  | .start => if host.daemon.isNone then some { host with daemon := some ⟨∅, none⟩ } else none
  | .stop => some host.stopped
  | .timerLists fault => host.daemon.map (fun daemon => { host with
      daemon := some { daemon with timer := if fault.isNone then some (Registry.list host.registry) else none } })
  | .timerReplaces =>
    match host.daemon with
    | some ⟨_, some peers⟩ => some { host with daemon := some ⟨replace peers, none⟩ }
    | _ => none
  | .command command now fate fault => some (runPeer unicode http locked now host command fate fault).1

/-- A command that ends in an error leaves its fingerprint in doubt. -/
def told {α : Type} (result : Except String α) (standing : Standing) : Standing :=
  match result with
  | .ok _ => standing
  | .error _ => .unknown

def Ledger.step (ledger : Ledger) (host : Host) : Event → Ledger
  | .command (.trust caFp note) now fate fault => Function.update ledger (normalize unicode caFp)
      (told (runPeer unicode http locked now host (.trust caFp note) fate fault).2 (.trusted note))
  | .command (.distrust caFp) now fate fault => Function.update ledger (normalize unicode caFp)
      (told (runPeer unicode http locked now host (.distrust caFp) fate fault).2 .distrusted)
  | _ => ledger

/-- The timer is not between its list and its replace. -/
def Host.Idle (host : Host) : Prop := ∀ daemon, host.daemon = some daemon → daemon.timer = none

/-- Commands that write come while the timer is idle, and what they distrust needs no escape. -/
def Settled (host : Host) : Event → Prop
  | .command (.trust _ _) _ _ _ => host.Idle
  | .command (.distrust caFp) _ _ _ => host.Idle ∧ Plain caFp
  | _ => True

def advance (at_ : Host × Ledger) (event : Event) : Option (Host × Ledger) :=
  (step unicode http locked at_.1 event).map (fun host => (host, at_.2.step unicode http locked at_.1 event))

/-- Nothing fails and nobody stops the node while a command runs. -/
def Quiet (host : Host) (fate : Fate) (fault : Option CoreError) : Prop :=
  host.daemon.isSome ∧ fate = .answered none ∨ host.daemon = none ∧ fault = none

/-- What any such events lead to, from any registry. -/
abbrev Run (host : Host) (ledger : Ledger) : Prop :=
  Runs.Run (advance unicode http locked) (fun at_ event => Settled at_.1 event)
    (fun at_ => ∃ registry, at_ = (⟨registry, none⟩, fun _ => .unknown)) (host, ledger)

end

/-- What a report says of the registry. -/
def Standing.Holds (registry : Table TrustedPeer) (fp : Text) : Standing → Prop
  | .unknown => True
  | .trusted note => fp ∈ fingerprints registry ∧
      ∀ peer ∈ registry.contents, peer.caFingerprint = fp → peer.note = note
  | .distrusted => fp ∉ fingerprints registry

/-- What it says of a snapshot. -/
def Standing.Shown (trust : TrustStore) (fp : Text) : Standing → Prop
  | .unknown => True
  | .trusted _ => fp ∈ trust
  | .distrusted => fp ∉ trust

/-- The reports hold of the registry, of the snapshot once it is filled, and of a list that
the timer has read. -/
structure Kept (host : Host) (ledger : Ledger) : Prop where
  registry : ∀ fp, (ledger fp).Holds host.registry fp
  snapshot : ∀ daemon, host.daemon = some daemon → daemon.trust = ∅ ∨ ∀ fp, (ledger fp).Shown daemon.trust fp
  timer : ∀ daemon peers, host.daemon = some daemon → daemon.timer = some peers →
    ∀ fp, (ledger fp).Shown (replace peers) fp

/-- A write that settles one fingerprint and leaves the others as they are. -/
structure Writes {α : Type} (write : Table TrustedPeer → Table TrustedPeer × α) (named : Text) (standing : Standing) :
    Prop where
  settles : ∀ registry, standing.Holds (write registry).1 named
  frame : ∀ registry fp (other : Standing), fp ≠ named → other.Holds registry fp → other.Holds (write registry).1 fp

section
variable {unicode : Unicode} {registry : Table TrustedPeer}

theorem Standing.Holds.shown {standing : Standing} {fp : Text} (holds : standing.Holds registry fp) :
    standing.Shown (replace (Registry.list registry)) fp := by
  rw [replace_list]
  cases standing with
  | unknown => trivial
  | trusted note => exact holds.1
  | distrusted => exact holds

/-- A trusted peer is the one just trusted, or was there before. -/
theorem mem_trust {caFingerprint : Text} {note : Option Text} {now : Int} {peer : TrustedPeer}
    (member : peer ∈ (Registry.trust unicode registry caFingerprint note now).contents) :
    peer.caFingerprint = normalize unicode caFingerprint ∧ peer.note = note ∨
      peer.caFingerprint ≠ normalize unicode caFingerprint ∧ peer ∈ registry.contents := by
  simp only [Registry.trust] at member
  split_ifs at member with known
  · rw [Table.contents_update, List.mem_map] at member
    obtain ⟨before, member, rfl⟩ := member
    split_ifs with named
    · exact Or.inl ⟨of_decide_eq_true named, rfl⟩
    · exact Or.inr ⟨of_decide_eq_false (Bool.eq_false_iff.mpr named), member⟩
  · rw [Table.contents_insert, List.mem_append, List.mem_singleton] at member
    rcases member with before | rfl
    · refine Or.inr ⟨fun named => known ?_, before⟩
      exact List.any_eq_true.mpr ⟨peer, before, decide_eq_true named⟩
    · exact Or.inl ⟨rfl, rfl⟩

theorem writes_trusting (caFingerprint : Text) (note : Option Text) (now : Int) :
    Writes (trusting unicode now caFingerprint note) (normalize unicode caFingerprint) (.trusted note) where
  settles registry := by
    refine ⟨?_, fun peer member named => ?_⟩
    · rw [trusting, fingerprints_trust]
      exact Finset.mem_insert_self _ _
    · exact (mem_trust member).elim And.right (fun other => absurd named other.1)
  frame registry fp other apart holds := by
    have same : fp ∈ fingerprints (trusting unicode now caFingerprint note registry).1 ↔ fp ∈ fingerprints registry := by
      rw [trusting, fingerprints_trust, Finset.mem_insert]
      exact or_iff_right apart
    cases other with
    | unknown => trivial
    | trusted given =>
      refine ⟨same.mpr holds.1, fun peer member named => ?_⟩
      rcases mem_trust member with here | ⟨-, before⟩
      · exact absurd (named.symm.trans here.1) apart
      · exact holds.2 peer before named
    | distrusted => exact mt same.mp holds

theorem writes_distrusting (caFingerprint : Text) :
    Writes (distrusting unicode caFingerprint) (normalize unicode caFingerprint) .distrusted where
  settles registry := by
    rw [Standing.Holds, distrusting, fingerprints_distrust]
    exact Finset.notMem_erase _ _
  frame registry fp other apart holds := by
    have same : fp ∈ fingerprints (distrusting unicode caFingerprint registry).1 ↔ fp ∈ fingerprints registry := by
      rw [distrusting, fingerprints_distrust, Finset.mem_erase]
      exact and_iff_right apart
    cases other with
    | unknown => trivial
    | trusted given =>
      refine ⟨same.mpr holds.1, fun peer member named => holds.2 peer ?_ named⟩
      rw [distrusting, Registry.distrust, Table.contents_delete] at member
      exact List.mem_of_mem_filter member
    | distrusted => exact mt same.mp holds

end

section
variable {host : Host} {registry : Table TrustedPeer} {trust : TrustStore} {ledger : Ledger} {named : Text}

theorem Kept.stopped (kept : Kept host ledger) : Kept host.stopped ledger :=
  ⟨kept.registry, fun _ => nofun, fun _ _ => nofun⟩

/-- A report may be forgotten. -/
theorem Kept.doubt (kept : Kept host ledger) (named : Text) : Kept host (Function.update ledger named .unknown) where
  registry := (Function.forall_update_iff ledger (fun fp standing => standing.Holds host.registry fp)).mpr
    ⟨trivial, fun fp _ => kept.registry fp⟩
  snapshot daemon running := (kept.snapshot daemon running).imp_right fun shown =>
    (Function.forall_update_iff ledger (fun fp standing => standing.Shown daemon.trust fp)).mpr
      ⟨trivial, fun fp _ => shown fp⟩
  timer daemon peers running read :=
    (Function.forall_update_iff ledger (fun fp standing => standing.Shown (replace peers) fp)).mpr
      ⟨trivial, fun fp _ => kept.timer daemon peers running read fp⟩

/-- A snapshot that has just been read shows what the registry holds. -/
theorem kept_replaced (holds : ∀ fp, (ledger fp).Holds registry fp) :
    Kept ⟨registry, some ⟨replace (Registry.list registry), none⟩⟩ ledger := by
  refine ⟨holds, ?_, ?_⟩
  · rintro _ ⟨⟩
    exact Or.inr fun fp => (holds fp).shown
  · rintro _ peers ⟨⟩ ⟨⟩

section
variable {α : Type} {write : Table TrustedPeer → Table TrustedPeer × α} {standing : Standing}
  (writes : Writes write named standing)
include writes

theorem Writes.holds (holds : ∀ fp, (Function.update ledger named .unknown fp).Holds registry fp) :
    ∀ fp, (Function.update ledger named standing fp).Holds (write registry).1 fp := by
  rw [Function.forall_update_iff ledger (fun fp standing => standing.Holds registry fp)] at holds
  rw [Function.forall_update_iff ledger (fun fp standing => standing.Holds (write registry).1 fp)]
  exact ⟨writes.settles registry, fun fp apart => writes.frame registry fp _ apart (holds.2 fp apart)⟩

/-- Wherever the request stops, the other reports are kept, and where it does not, so is its own. -/
theorem Writes.mutate (kept : Kept ⟨registry, some ⟨trust, none⟩⟩ (Function.update ledger named .unknown))
    (stop : Option Stop) {registry' : Table TrustedPeer} {trust' : TrustStore} {result : Except CoreError α}
    (called : mutate write registry trust stop = (registry', trust', result)) :
    Kept ⟨registry', some ⟨trust', none⟩⟩ (Function.update ledger named .unknown) ∧
      ∀ a, result = .ok a → Kept ⟨registry', some ⟨trust', none⟩⟩ (Function.update ledger named standing) := by
  have written := writes.holds kept.registry
  cases stop with
  | none =>
    cases called
    have replaced := kept_replaced written
    refine ⟨?_, fun _ _ => replaced⟩
    have doubted := replaced.doubt named
    rwa [Function.update_idem] at doubted
  | some stop =>
    cases stop with
    | atWrite e =>
      cases called
      exact ⟨kept, fun _ failed => nomatch failed⟩
    | atList e =>
      cases called
      refine ⟨⟨?_, kept.snapshot, kept.timer⟩, fun _ failed => nomatch failed⟩
      rw [Function.forall_update_iff ledger (fun fp standing => standing.Holds (write registry).1 fp)] at written ⊢
      exact ⟨trivial, written.2⟩

end

end

section
variable {unicode : Unicode} {http : PathText} {locked : CoreError} {now : Int} {host : Host} {ledger : Ledger}
  {named : Text} {request : Request}

theorem intoResponse_failed (e : CoreError) : ¬(200 ≤ (intoResponse e).status ∧ (intoResponse e).status < 300) := by
  cases e <;> simp [intoResponse]

section
variable {α : Type} {write : Table TrustedPeer → Table TrustedPeer × α} {standing : Standing} {body : α → Body}
  (writes : Writes write named standing)
  (mutates : ∀ registry trust stop, handle unicode http now registry trust request stop =
    ((mutate write registry trust stop).1, (mutate write registry trust stop).2.1,
      answer ((mutate write registry trust stop).2.2.map body)))
include writes mutates

/-- A request that reaches the node keeps the other reports, and its own when its status says so. -/
theorem reach_kept (kept : Kept host (Function.update ledger named .unknown)) {daemon : Daemon}
    (running : host.daemon = some daemon) (idle : daemon.timer = none) (stop : Option Stop) :
    Kept (reach unicode http now host daemon request stop).1 (Function.update ledger named .unknown) ∧
      ((200 ≤ (reach unicode http now host daemon request stop).2.1 ∧
          (reach unicode http now host daemon request stop).2.1 < 300) →
        Kept (reach unicode http now host daemon request stop).1 (Function.update ledger named standing)) := by
  obtain ⟨registry, _⟩ := host
  obtain ⟨trust, _⟩ := daemon
  cases running
  cases idle
  have mutated := writes.mutate kept stop rfl
  rw [reach, mutates]
  refine ⟨mutated.1, fun success => ?_⟩
  cases result : (mutate write registry trust stop).2.2 with
  | ok a => exact mutated.2 a result
  | error e =>
    simp only [result, Except.map, answer] at success
    exact absurd success (intoResponse_failed e)

theorem adminReq_kept (kept : Kept host (Function.update ledger named .unknown)) (idle : host.Idle) (fate : Fate)
    {after : Host} {response : Option (Nat × Except String Body)}
    (called : adminReq unicode http now host request fate = (after, response)) :
    Kept after (Function.update ledger named .unknown) ∧ ∀ status body, response = some (status, body) →
      200 ≤ status ∧ status < 300 → Kept after (Function.update ledger named standing) := by
  unfold adminReq at called
  split at called
  · next daemon stop running =>
    obtain ⟨others, own⟩ := reach_kept writes mutates kept running (idle daemon running) stop
    cases called
    exact ⟨others, by rintro _ _ ⟨⟩ success; exact own success⟩
  · next daemon stop e running =>
    obtain ⟨others, own⟩ := reach_kept writes mutates kept running (idle daemon running) stop
    cases called
    exact ⟨others, by rintro _ _ ⟨⟩ success; exact own success⟩
  · next daemon reached stopped running =>
    cases called
    refine ⟨?_, fun _ _ => nofun⟩
    have reachedIt : Kept (match reached with
        | none => host
        | some stop => (reach unicode http now host daemon request stop).1) (Function.update ledger named .unknown) := by
      cases reached with
      | none => exact kept
      | some stop => exact (reach_kept writes mutates kept running (idle daemon running) stop).1
    split_ifs
    · exact reachedIt.stopped
    · exact reachedIt
  · cases called
    exact ⟨kept, fun _ _ => nofun⟩

omit mutates in
theorem direct_kept (kept : Kept host (Function.update ledger named .unknown)) (fault : Option CoreError) {after : Host}
    {result : Except String α} (called : direct locked host write fault = (after, result)) :
    Kept after (Function.update ledger named (told result standing)) := by
  unfold direct at called
  split at called
  · cases called
    exact kept
  · cases called
    exact kept
  · next down fine =>
    cases called
    exact ⟨writes.holds kept.registry, fun _ => nofun, fun _ _ => nofun⟩

/-- What a command reports is kept, and whatever was reported of other fingerprints. -/
theorem askOrOpen_kept {β : Type} (kept : Kept host ledger) (idle : host.Idle) (fate : Fate) (fault : Option CoreError)
    (answered : Except String Body → Except String β) (opened : α → β) {after : Host} {result : Except String β}
    (called : askOrOpen unicode http locked now host request write fate fault answered opened = (after, result)) :
    Kept after (Function.update ledger named (told result standing)) := by
  unfold askOrOpen at called
  split at called
  · next between status body asked =>
    obtain ⟨others, own⟩ := adminReq_kept writes mutates (kept.doubt named) idle fate asked
    cases called
    unfold ensureOk
    split_ifs with success
    · have settled := own status body rfl success
      cases answered body with
      | ok lines => exact settled
      | error e =>
        have doubted := settled.doubt named
        rwa [Function.update_idem] at doubted
    · exact others
  · next between asked =>
    have others := (adminReq_kept writes mutates (kept.doubt named) idle fate asked).1
    cases opening : direct locked between write fault with
    | mk after' result' =>
      have settled := direct_kept writes others fault opening
      rw [opening] at called
      cases called
      cases result' <;> exact settled

end

/-- A request for the list changes nothing at the node. -/
theorem reach_list {daemon : Daemon} (running : host.daemon = some daemon) (stop : Option Stop) :
    (reach unicode http now host daemon .listPeers stop).1 = host := by
  obtain ⟨registry, _⟩ := host
  cases running
  cases stop with
  | none => rfl
  | some stop => cases stop <;> rfl

theorem reach_listed {daemon : Daemon} (stop : Option Stop)
    (success : 200 ≤ (reach unicode http now host daemon .listPeers stop).2.1 ∧
      (reach unicode http now host daemon .listPeers stop).2.1 < 300) :
    (reach unicode http now host daemon .listPeers stop).2.2 = .peers ((Registry.list host.registry).map peerJson) := by
  cases stop with
  | none => rfl
  | some stop => cases stop with
    | atWrite e => exact absurd success (intoResponse_failed e)
    | atList e => exact absurd success (intoResponse_failed e)

theorem adminReq_list (fate : Fate) {after : Host} {response : Option (Nat × Except String Body)}
    (called : adminReq unicode http now host .listPeers fate = (after, response)) :
    (after = host ∨ after = host.stopped) ∧ ∀ status body, response = some (status, body) →
      200 ≤ status ∧ status < 300 → ∀ peers, peersIn body = .ok peers → peers = entries host.registry := by
  unfold adminReq at called
  split at called
  · next daemon stop running =>
    have same : (reach unicode http now host daemon .listPeers stop).1 = host := reach_list running stop
    cases called
    refine ⟨Or.inl same, ?_⟩
    rintro _ _ ⟨⟩ success peers shown
    change peersIn (.ok (reach unicode http now host daemon .listPeers stop).2.2) = .ok peers at shown
    rw [reach_listed stop success, peersIn, List.map_map, Except.ok.injEq] at shown
    exact shown.symm
  · next daemon stop e running =>
    have same : (reach unicode http now host daemon .listPeers stop).1 = host := reach_list running stop
    cases called
    exact ⟨Or.inl same, by rintro _ _ ⟨⟩ _ _ ⟨⟩⟩
  · next daemon reached stopped running =>
    cases called
    refine ⟨?_, fun _ _ => nofun⟩
    have same : (match reached with
        | none => host
        | some stop => (reach unicode http now host daemon .listPeers stop).1) = host := by
      cases reached with
      | none => rfl
      | some stop => exact reach_list running stop
    rw [same]
    split_ifs
    · exact Or.inr rfl
    · exact Or.inl rfl
  · cases called
    exact ⟨Or.inl rfl, fun _ _ => nofun⟩

theorem direct_list (fault : Option CoreError) {after : Host} {result : Except String (List (Text × Option Text))}
    (called : direct locked host listing fault = (after, result)) :
    after = host ∧ ∀ peers, result = .ok peers → peers = entries host.registry := by
  obtain ⟨registry, daemon⟩ := host
  cases daemon with
  | some daemon =>
    cases called
    exact ⟨rfl, fun _ => nofun⟩
  | none =>
    cases fault with
    | some e =>
      cases called
      exact ⟨rfl, fun _ => nofun⟩
    | none =>
      cases called
      exact ⟨rfl, fun _ success => (Except.ok.inj success).symm⟩

/-- A list that succeeds is that of the registry, whoever read it. -/
theorem list_kept (kept : Kept host ledger) (fate : Fate) (fault : Option CoreError) {after : Host}
    {result : Except String (List (Text × Option Text))}
    (called : trustedFingerprintsWithNotes unicode http locked now host fate fault = (after, result)) :
    Kept after ledger ∧ ∀ peers, result = .ok peers → peers = entries host.registry := by
  unfold trustedFingerprintsWithNotes askOrOpen at called
  split at called
  · next between status body asked =>
    obtain ⟨same, shown⟩ := adminReq_list fate asked
    cases called
    refine ⟨?_, fun peers success => ?_⟩
    · rcases same with rfl | rfl
      · exact kept
      · exact kept.stopped
    · unfold ensureOk at success
      split_ifs at success with fine
      · exact shown status body rfl fine peers success
      · cases success
  · next between asked =>
    obtain ⟨same, -⟩ := adminReq_list fate asked
    have registry : between.registry = host.registry := by rcases same with rfl | rfl <;> rfl
    have still : Kept between ledger := by
      rcases same with rfl | rfl
      · exact kept
      · exact kept.stopped
    cases opening : direct locked between listing fault with
    | mk after' result' =>
      obtain ⟨rfl, shown⟩ := direct_list fault opening
      rw [opening] at called
      cases called
      refine ⟨still, fun peers success => ?_⟩
      cases result' with
      | error e => cases success
      | ok found => rw [← registry, ← shown found rfl, ← Except.ok.inj success, id]

theorem step_kept (escapes : http.Lawful) (kept : Kept host ledger) {event : Event} (settled : Settled host event)
    {after : Host} (stepped : step unicode http locked host event = some after) :
    Kept after (ledger.step unicode http locked host event) := by
  cases event with
  | start =>
    simp only [step] at stepped
    split_ifs at stepped with down
    cases stepped
    refine ⟨kept.registry, ?_, ?_⟩
    · rintro _ ⟨⟩
      exact Or.inl rfl
    · rintro _ peers ⟨⟩ ⟨⟩
  | stop =>
    cases stepped
    exact kept.stopped
  | timerLists fault =>
    obtain ⟨daemon, running, rfl⟩ := Option.map_eq_some_iff.mp stepped
    refine ⟨kept.registry, ?_, ?_⟩
    · rintro _ ⟨⟩
      exact kept.snapshot daemon running
    · rintro _ peers ⟨⟩ read fp
      dsimp only at read
      split_ifs at read
      cases read
      exact (kept.registry fp).shown
  | timerReplaces =>
    simp only [step] at stepped
    split at stepped
    · next trust peers running =>
      cases stepped
      refine ⟨kept.registry, ?_, ?_⟩
      · rintro _ ⟨⟩
        exact Or.inr (kept.timer _ peers running rfl)
      · rintro _ others ⟨⟩ ⟨⟩
    · cases stepped
  | command command now fate fault =>
    cases command with
    | trust caFp note =>
      cases stepped
      exact askOrOpen_kept (writes_trusting caFp note now) (fun _ _ _ => rfl) kept settled fate fault _ _ rfl
    | distrust caFp =>
      cases stepped
      obtain ⟨idle, plain⟩ := settled
      have mutates (registry : Table TrustedPeer) (trust : TrustStore) (stop : Option Stop) :
          handle unicode http now registry trust (.distrustPeer caFp) stop =
            ((mutate (distrusting unicode caFp) registry trust stop).1,
              (mutate (distrusting unicode caFp) registry trust stop).2.1,
              answer ((mutate (distrusting unicode caFp) registry trust stop).2.2.map Body.removed)) := by
        simp only [handle, escapes caFp plain]
      exact askOrOpen_kept (writes_distrusting caFp) mutates kept idle fate fault _ _ rfl
    | list =>
      cases stepped
      exact (list_kept kept fate fault rfl).1

theorem kept_run (escapes : http.Lawful) (run : Run unicode http locked host ledger) : Kept host ledger := by
  refine Runs.Run.invariant (motive := fun at_ : Host × Ledger => Kept at_.1 at_.2) ?_ ?_ run
  · rintro _ ⟨registry, rfl⟩
    exact ⟨fun _ => trivial, fun _ => nofun, fun _ _ => nofun⟩
  · rintro ⟨host, ledger⟩ next event kept settled advanced
    obtain ⟨after, stepped, rfl⟩ := Option.map_eq_some_iff.mp advanced
    exact step_kept escapes kept settled stepped

theorem quiet_succeeds (escapes : http.Lawful) {command : PeerCommand}
    (plain : ∀ caFp, command = .distrust caFp → Plain caFp) {fate : Fate} {fault : Option CoreError}
    (quiet : Quiet host fate fault) :
    ∃ after lines, runPeer unicode http locked now host command fate fault = (after, .ok lines) := by
  obtain ⟨registry, daemon⟩ := host
  rcases quiet with ⟨running, rfl⟩ | ⟨down, rfl⟩
  · obtain ⟨daemon, rfl⟩ := Option.isSome_iff_exists.mp running
    cases command with
    | trust caFp note => exact ⟨_, _, rfl⟩
    | distrust caFp =>
      have read := escapes caFp (plain caFp rfl)
      simp only [runPeer, askOrOpen, adminReq, reach, handle, read]
      exact ⟨_, _, rfl⟩
    | list => exact ⟨_, _, rfl⟩
  · cases down
    cases command with
    | trust caFp note => exact ⟨_, _, rfl⟩
    | distrust caFp => exact ⟨_, _, rfl⟩
    | list => exact ⟨_, _, rfl⟩

end

section

/-- Letters, digits and colons stand for themselves, and nothing else is understood. -/
def samplePath : PathText := ⟨fun text => if Plain text then some text else none⟩

/-- A CA is trusted while the node is down, and another over its API; the node stops while it is
asked to distrust the first, and starts again. -/
def sampleEvents : List Event :=
  [.command (.trust "A:B".toList (some ['x'])) 0 .refused none, .start, .timerLists none, .timerReplaces,
    .command (.trust "cd".toList none) 1 (.answered none) none,
    .command (.distrust "ab".toList) 2 (.broken (some none) true) none, .start, .timerLists none, .timerReplaces]

end

end Buh.Node.Console
