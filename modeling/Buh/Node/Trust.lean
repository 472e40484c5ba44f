import Buh.Library.RowTable
import Buh.Library.Runs
import Buh.Wire.Codec

/-! The peer CAs a node trusts: the registry of `peer_trust.rs`, the live snapshot that the
certificate verifiers of `tls.rs` read, and the requests of `admin.rs` and the rotation
timer of `serve.rs` that copy the one into the other. Texts are their characters. -/

namespace Buh.Node.Trust
open Buh.Library Buh.Library.RowTable Buh.Wire.Codec

/-- The Unicode tables of the standard library. -/
structure Unicode where
  /-- `str::trim` -/
  trim : List Char → List Char
  /-- `char::to_lowercase` -/
  toLowercase : Char → List Char

/-- What the verifiers take from the hash and from `x509_parser`. -/
structure Certificates where
  Certificate : Type
  /-- The lowercase hex SHA-256 of the DER. -/
  fingerprint : Bytes → List Char
  fromDer : Bytes → Option Certificate
  /-- The basic constraints are there and say that it is a CA. -/
  isCa : Certificate → Bool
  verifySignature : Certificate → Option Certificate → Bool
  notBefore : Certificate → Int
  notAfter : Certificate → Int

structure TrustedPeer where
  caFingerprint : List Char
  note : Option (List Char)
  trustedAt : Int
  deriving DecidableEq

/-- `TrustStore`: the fingerprints that the verifiers accept. -/
abbrev TrustStore := Finset (List Char)

def normalize (unicode : Unicode) (fingerprint : List Char) : List Char :=
  ((unicode.trim fingerprint).filter (fun c => c ≠ ':')).flatMap unicode.toLowercase

namespace Registry

/-- `INSERT … ON CONFLICT(ca_fingerprint) DO UPDATE SET note = excluded.note` -/
def trust (unicode : Unicode) (registry : Table TrustedPeer) (caFingerprint : List Char) (note : Option (List Char))
    (now : Int) : Table TrustedPeer :=
  let fp := normalize unicode caFingerprint
  if registry.contents.any (fun peer => peer.caFingerprint = fp) then
    (registry.update (fun peer => peer.caFingerprint = fp) (fun peer => { peer with note })).1
  else registry.insert ⟨fp, note, now⟩

/-- Whether the fingerprint was trusted comes with the registry without it. -/
def distrust (unicode : Unicode) (registry : Table TrustedPeer) (caFingerprint : List Char) :
    Table TrustedPeer × Bool :=
  let fp := normalize unicode caFingerprint
  let (registry, affected) := registry.delete (fun peer => peer.caFingerprint = fp)
  (registry, decide (0 < affected))

def isTrusted (unicode : Unicode) (registry : Table TrustedPeer) (caFingerprint : List Char) : Bool :=
  let fp := normalize unicode caFingerprint
  registry.contents.any (fun peer => peer.caFingerprint = fp)

/-- `ORDER BY trusted_at DESC` -/
def list (registry : Table TrustedPeer) : List TrustedPeer :=
  registry.select (fun _ => true) (fun peer => -peer.trustedAt) (-1)

end Registry

/-- `TrustStore::replace`, as `refresh_live` and `refresh_trust` call it. -/
def replace (peers : List TrustedPeer) : TrustStore := (peers.map TrustedPeer.caFingerprint).toFinset

/-- The fingerprints of the registry. -/
def fingerprints (registry : Table TrustedPeer) : TrustStore :=
  (registry.contents.map TrustedPeer.caFingerprint).toFinset

def checkValidity (certificates : Certificates) (cert : certificates.Certificate) (nowSecs : Int) (what : String) :
    Except String Unit :=
  if nowSecs < certificates.notBefore cert then .error (what ++ " not yet valid")
  else if certificates.notAfter cert < nowSecs then .error (what ++ " expired")
  else .ok ()

def verifyPinnedChain (certificates : Certificates) (endEntity : Bytes) (intermediates : List Bytes) (now : Nat)
    (trust : TrustStore) : Except String Unit := do
  let some caDer := intermediates.getLast? | .error "peer presented no issuing CA"
  if certificates.fingerprint caDer ∉ trust then .error "peer CA is not trusted (unpinned)"
  let some ca := certificates.fromDer caDer | .error "malformed CA cert"
  let some leaf := certificates.fromDer endEntity | .error "malformed leaf cert"
  if !certificates.isCa ca then .error "pinned cert is not a CA"
  if !certificates.verifySignature ca none then .error "CA self-signature invalid"
  if !certificates.verifySignature leaf (some ca) then .error "leaf does not chain to pinned CA"
  -- `i64::try_from(now.as_secs()).unwrap_or(i64::MAX)`
  let nowSecs : Int := min now (2 ^ 63 - 1)
  checkValidity certificates leaf nowSecs "leaf"
  checkValidity certificates ca nowSecs "CA"

theorem verify_unpinned (certificates : Certificates) (endEntity : Bytes) (intermediates : List Bytes) (now : Nat)
    {trust : TrustStore} {caDer : Bytes} (last : intermediates.getLast? = some caDer)
    (unpinned : certificates.fingerprint caDer ∉ trust) :
    verifyPinnedChain certificates endEntity intermediates now trust = .error "peer CA is not trusted (unpinned)" := by
  simp only [verifyPinnedChain, last, if_pos unpinned]
  rfl

/-- What a request, or a run of the timer, is for. -/
inductive Operation where
  | trust (caFingerprint : List Char) (note : Option (List Char))
  | distrust (caFingerprint : List Char) (removed : Bool)
  | refresh
  deriving DecidableEq

/-- What is left to do: the registry list, the snapshot replace, the answer. -/
inductive Phase where
  | written
  | listed (number : Nat) (peers : List TrustedPeer)
  | replaced
  deriving DecidableEq

/-- A request in flight, with the number of lists that had been read when it began. -/
structure Task where
  operation : Operation
  phase : Phase
  since : Nat
  deriving DecidableEq

structure System where
  registry : Table TrustedPeer
  snapshot : TrustStore
  inflight : List Task
  /-- The lists read so far, the last of them that a write came after, and the one that the
  snapshot was replaced with. -/
  lists : Nat
  lastWrite : Nat
  installed : Nat
  /-- The fingerprints of answered `distrust_peer` requests, until a `trust_peer` begins. -/
  refused : List (List Char)

/-- The snapshot has been read from the registry. -/
def System.initial (registry : Table TrustedPeer) : System :=
  ⟨registry, fingerprints registry, [], 1, 0, 1, []⟩

inductive Action where
  /-- The registry writes, with which the requests begin. -/
  | trustPeer (caFingerprint : List Char) (note : Option (List Char)) (now : Int)
  | distrustPeer (caFingerprint : List Char)
  | refreshTrust
  | list (task : Task)
  | replace (task : Task)
  | answer (task : Task)

/-- An answered `distrust_peer` refuses its CA. -/
def refuse (unicode : Unicode) (operation : Operation) (refused : List (List Char)) : List (List Char) :=
  match operation with
  | .distrust caFingerprint _ => normalize unicode caFingerprint :: refused
  | _ => refused

/-- A request in flight moves on. -/
def System.advance (system : System) (task : Task) (phase : Phase) : System :=
  { system with inflight := { task with phase } :: system.inflight.erase task }

/-- `none` where the action is not possible. -/
def step (unicode : Unicode) (system : System) : Action → Option System
  | .trustPeer caFingerprint note now => some { system with
      registry := Registry.trust unicode system.registry caFingerprint note now
      inflight := ⟨.trust caFingerprint note, .written, system.lists⟩ :: system.inflight
      lastWrite := system.lists
      refused := system.refused.filter (fun fp => fp ≠ normalize unicode caFingerprint) }
  | .distrustPeer caFingerprint =>
    let (registry, removed) := Registry.distrust unicode system.registry caFingerprint
    some { system with
      registry
      inflight := ⟨.distrust caFingerprint removed, .written, system.lists⟩ :: system.inflight
      lastWrite := system.lists }
  | .refreshTrust => some { system with inflight := ⟨.refresh, .written, system.lists⟩ :: system.inflight }
  | .list task =>
    if task ∈ system.inflight ∧ task.phase = .written then
      some ({ system with lists := system.lists + 1 }.advance task
        (.listed (system.lists + 1) (Registry.list system.registry)))
    else none
  | .replace task =>
    match task.phase with
    | .listed number peers =>
      if task ∈ system.inflight then
        some ({ system with snapshot := replace peers, installed := number }.advance task .replaced)
      else none
    | _ => none
  | .answer task =>
    if task ∈ system.inflight ∧ task.phase = .replaced then
      some { system with
        inflight := system.inflight.erase task
        refused := refuse unicode task.operation system.refused }
    else none

/-- The states that any interleaving reaches from a snapshot equal to the registry, when
every step is one that is `allowed`. -/
abbrev Run (unicode : Unicode) (allowed : System → Action → Bool) (system : System) : Prop :=
  Runs.Run (step unicode) (fun system action => allowed system action = true)
    (fun system => ∃ registry, system = .initial registry) system

theorem mem_fingerprints {registry : Table TrustedPeer} {fp : List Char} :
    fp ∈ fingerprints registry ↔ ∃ peer ∈ registry.contents, peer.caFingerprint = fp := by
  rw [fingerprints, List.mem_toFinset, List.mem_map]

theorem mem_list {registry : Table TrustedPeer} {peer : TrustedPeer} :
    peer ∈ Registry.list registry ↔ peer ∈ registry.contents := by
  rw [Registry.list, Table.mem_select_unlimited (by decide)]
  exact and_iff_left rfl

/-- A list has the fingerprints of the registry it was read from. -/
theorem replace_list (registry : Table TrustedPeer) : replace (Registry.list registry) = fingerprints registry := by
  ext fp
  rw [replace, List.mem_toFinset, List.mem_map, mem_fingerprints]
  simp only [mem_list]

theorem fingerprints_trust (unicode : Unicode) (registry : Table TrustedPeer) (caFingerprint : List Char)
    (note : Option (List Char)) (now : Int) :
    fingerprints (Registry.trust unicode registry caFingerprint note now) =
      insert (normalize unicode caFingerprint) (fingerprints registry) := by
  simp only [Registry.trust]
  split_ifs with known
  · have same : fingerprints (registry.update (fun peer => peer.caFingerprint = normalize unicode caFingerprint)
        (fun peer => { peer with note })).1 = fingerprints registry := by
      rw [fingerprints, fingerprints, Table.contents_update, List.map_map]
      congr 2
      funext peer
      simp only [Function.comp_apply]
      split_ifs <;> rfl
    obtain ⟨peer, member, named⟩ := List.any_eq_true.mp known
    rw [same, Finset.insert_eq_of_mem (mem_fingerprints.mpr ⟨peer, member, of_decide_eq_true named⟩)]
  · rw [fingerprints, Table.contents_insert, List.map_append, List.toFinset_append, Finset.union_comm]
    rfl

theorem fingerprints_distrust (unicode : Unicode) (registry : Table TrustedPeer) (caFingerprint : List Char) :
    fingerprints (Registry.distrust unicode registry caFingerprint).1 =
      (fingerprints registry).erase (normalize unicode caFingerprint) := by
  ext fp
  have contents : (Registry.distrust unicode registry caFingerprint).1.contents =
      registry.contents.filter (fun peer => !decide (peer.caFingerprint = normalize unicode caFingerprint)) :=
    Table.contents_delete registry (fun peer => decide (peer.caFingerprint = normalize unicode caFingerprint))
  rw [Finset.mem_erase, mem_fingerprints, mem_fingerprints, contents]
  simp only [List.mem_filter, Bool.not_eq_true', decide_eq_false_iff_not]
  constructor
  · rintro ⟨peer, ⟨member, other⟩, rfl⟩
    exact ⟨other, peer, member, rfl⟩
  · rintro ⟨other, peer, member, rfl⟩
    exact ⟨peer, ⟨member, other⟩, rfl⟩

/-- The snapshot is never replaced with a list older than the one it holds, and no
`trust_peer` writes while a `distrust_peer` of the same CA is in flight. -/
def inOrder (unicode : Unicode) (system : System) : Action → Bool
  | .replace task =>
    match task.phase with
    | .listed number _ => system.installed ≤ number
    | _ => true
  | .trustPeer caFingerprint _ _ => system.inflight.all (fun task =>
      match task.operation with
      | .distrust other _ => normalize unicode other ≠ normalize unicode caFingerprint
      | _ => true)
  | _ => true

/-- Lists read after the last write show the registry as it is, and until the snapshot is
one of them, such a list is still to be installed. -/
structure Current (system : System) : Prop where
  numbered : ∀ task ∈ system.inflight, ∀ number peers, task.phase = .listed number peers → number ≤ system.lists ∧
    (system.lastWrite < number → replace peers = fingerprints system.registry)
  written : system.lastWrite ≤ system.lists
  bounded : system.installed ≤ system.lists
  snapshot : system.lastWrite < system.installed → system.snapshot = fingerprints system.registry
  pending : system.installed ≤ system.lastWrite → ∃ task ∈ system.inflight, task.phase = .written ∨
    ∃ number peers, task.phase = .listed number peers ∧ system.lastWrite < number

/-- No list read after the first `since` ones has the fingerprint. -/
structure Clean (system : System) (fp : List Char) (since : Nat) : Prop where
  registry : fp ∉ fingerprints system.registry
  listed : ∀ task ∈ system.inflight, ∀ number peers, task.phase = .listed number peers → since < number →
    fp ∉ replace peers
  snapshot : since < system.installed → fp ∉ system.snapshot

/-- What the requests to distrust a CA have achieved. -/
structure Final (unicode : Unicode) (system : System) : Prop where
  listed : ∀ task ∈ system.inflight, ∀ number peers, task.phase = .listed number peers → task.since < number
  replaced : ∀ task ∈ system.inflight, task.phase = .replaced → task.since < system.installed
  flying : ∀ task ∈ system.inflight, task.since ≤ system.lists ∧ ∀ fp removed, task.operation = .distrust fp removed →
    Clean system (normalize unicode fp) task.since
  refused : ∀ fp ∈ system.refused, ∃ since, since < system.installed ∧ Clean system fp since

section
variable {unicode : Unicode} {system : System}

/-- A request that moves on: what the other requests in flight show is as it was. -/
theorem mem_advance {task other : Task} {phase : Phase}
    (member : other ∈ (system.advance task phase).inflight) :
    other = { task with phase } ∨ other ∈ system.inflight := by
  rcases List.mem_cons.mp member with rfl | kept
  · exact Or.inl rfl
  · exact Or.inr (List.mem_of_mem_erase kept)

/-- All that a step can do. -/
inductive Effect (unicode : Unicode) (system : System) : Action → System → Prop
  | trustPeer (caFingerprint note now) : Effect unicode system (.trustPeer caFingerprint note now) { system with
      registry := Registry.trust unicode system.registry caFingerprint note now
      inflight := ⟨.trust caFingerprint note, .written, system.lists⟩ :: system.inflight
      lastWrite := system.lists
      refused := system.refused.filter (fun fp => fp ≠ normalize unicode caFingerprint) }
  | distrustPeer (caFingerprint) : Effect unicode system (.distrustPeer caFingerprint) { system with
      registry := (Registry.distrust unicode system.registry caFingerprint).1
      inflight := ⟨.distrust caFingerprint (Registry.distrust unicode system.registry caFingerprint).2, .written,
        system.lists⟩ :: system.inflight
      lastWrite := system.lists }
  | refreshTrust : Effect unicode system .refreshTrust
      { system with inflight := ⟨.refresh, .written, system.lists⟩ :: system.inflight }
  | list {task} (member : task ∈ system.inflight) (phase : task.phase = .written) : Effect unicode system (.list task)
      ({ system with lists := system.lists + 1 }.advance task
        (.listed (system.lists + 1) (Registry.list system.registry)))
  | replace {task number peers} (member : task ∈ system.inflight) (phase : task.phase = .listed number peers) :
      Effect unicode system (.replace task)
        ({ system with snapshot := Trust.replace peers, installed := number }.advance task .replaced)
  | answer {task} (member : task ∈ system.inflight) (phase : task.phase = .replaced) :
      Effect unicode system (.answer task) { system with
        inflight := system.inflight.erase task
        refused := refuse unicode task.operation system.refused }

theorem step_effect {action : Action} {next : System} (stepped : step unicode system action = some next) :
    Effect unicode system action next := by
  cases action with
  | trustPeer caFingerprint note now =>
    cases stepped
    exact .trustPeer caFingerprint note now
  | distrustPeer caFingerprint =>
    cases stepped
    exact .distrustPeer caFingerprint
  | refreshTrust =>
    cases stepped
    exact .refreshTrust
  | list task =>
    obtain ⟨⟨member, phase⟩, same⟩ := Option.ite_none_right_eq_some.mp stepped
    cases same
    exact .list member phase
  | replace task =>
    cases phase : task.phase with
    | written => simp only [step, phase, reduceCtorEq] at stepped
    | replaced => simp only [step, phase, reduceCtorEq] at stepped
    | listed number peers =>
      simp only [step, phase] at stepped
      obtain ⟨member, same⟩ := Option.ite_none_right_eq_some.mp stepped
      cases same
      exact .replace member phase
  | answer task =>
    obtain ⟨⟨member, phase⟩, same⟩ := Option.ite_none_right_eq_some.mp stepped
    cases same
    exact .answer member phase

/-- The write of a request, after which every list there is counts as old. -/
theorem Current.write (current : Current system) (registry : Table TrustedPeer) (operation : Operation)
    (refused : List (List Char)) :
    Current { system with
      registry
      inflight := ⟨operation, .written, system.lists⟩ :: system.inflight
      lastWrite := system.lists
      refused } where
  numbered task member number peers phase := by
    rcases List.mem_cons.mp member with rfl | old
    · cases phase
    · have le := (current.numbered task old number peers phase).1
      exact ⟨le, fun later => absurd later (not_lt.mpr le)⟩
  written := le_rfl
  bounded := current.bounded
  snapshot later := absurd later (not_lt.mpr current.bounded)
  pending _ := ⟨_, List.mem_cons_self, Or.inl rfl⟩

theorem Current.refresh (current : Current system) :
    Current { system with inflight := ⟨.refresh, .written, system.lists⟩ :: system.inflight } where
  numbered task member number peers phase := by
    rcases List.mem_cons.mp member with rfl | old
    · cases phase
    · exact current.numbered task old number peers phase
  written := current.written
  bounded := current.bounded
  snapshot := current.snapshot
  pending behind := by
    obtain ⟨task, member, due⟩ := current.pending behind
    exact ⟨task, List.mem_cons_of_mem _ member, due⟩

theorem Current.list (current : Current system) (task : Task) :
    Current ({ system with lists := system.lists + 1 }.advance task
      (.listed (system.lists + 1) (Registry.list system.registry))) where
  numbered other member number peers phase := by
    rcases mem_advance member with rfl | old
    · cases phase
      exact ⟨le_rfl, fun _ => replace_list system.registry⟩
    · obtain ⟨le, fresh⟩ := current.numbered other old number peers phase
      exact ⟨le.trans (Nat.le_succ _), fresh⟩
  written := current.written.trans (Nat.le_succ _)
  bounded := current.bounded.trans (Nat.le_succ _)
  snapshot := current.snapshot
  pending _ := ⟨_, List.mem_cons_self, Or.inr ⟨_, _, rfl, Nat.lt_succ_of_le current.written⟩⟩

/-- What is pending is not the request that moves on, when that one is done or has a list
from before the last write. -/
theorem Current.still_pending (current : Current system) (behind : system.installed ≤ system.lastWrite) (task : Task)
    (written : task.phase ≠ .written)
    (old : ∀ number peers, task.phase = .listed number peers → number ≤ system.lastWrite) :
    ∃ other ∈ system.inflight.erase task, other.phase = .written ∨
      ∃ number peers, other.phase = .listed number peers ∧ system.lastWrite < number := by
  obtain ⟨other, member, due⟩ := current.pending behind
  refine ⟨other, (List.mem_erase_of_ne ?_).mpr member, due⟩
  rintro rfl
  rcases due with phase | ⟨number, peers, phase, later⟩
  · exact written phase
  · exact absurd later (not_lt.mpr (old number peers phase))

theorem Current.replace (current : Current system) {task : Task} {number : Nat} {peers : List TrustedPeer}
    (member : task ∈ system.inflight) (phase : task.phase = .listed number peers)
    (ordered : system.installed ≤ number) :
    Current ({ system with snapshot := Trust.replace peers, installed := number }.advance task .replaced) where
  numbered other found otherNumber otherPeers listed := by
    rcases mem_advance found with rfl | old
    · cases listed
    · exact current.numbered other old otherNumber otherPeers listed
  written := current.written
  bounded := (current.numbered task member number peers phase).1
  snapshot later := (current.numbered task member number peers phase).2 later
  pending behind := by
    have late : number ≤ system.lastWrite := behind
    obtain ⟨other, kept, due⟩ := current.still_pending (ordered.trans late) task (by simp [phase]) (by
      intro other _ same
      cases phase.symm.trans same
      exact late)
    exact ⟨other, List.mem_cons_of_mem _ kept, due⟩

theorem Current.answer (current : Current system) {task : Task} (phase : task.phase = .replaced)
    (refused : List (List Char)) :
    Current { system with inflight := system.inflight.erase task, refused } where
  numbered other member number peers listed :=
    current.numbered other (List.mem_of_mem_erase member) number peers listed
  written := current.written
  bounded := current.bounded
  snapshot := current.snapshot
  pending behind := current.still_pending behind task (by simp [phase]) (by simp [phase])

theorem inOrder_replace {task : Task} {number : Nat} {peers : List TrustedPeer}
    (ordered : inOrder unicode system (.replace task) = true) (phase : task.phase = .listed number peers) :
    system.installed ≤ number := by
  simpa only [inOrder, phase, decide_eq_true_eq] using ordered

/-- Every step keeps the snapshot and the registry together, as long as the lists are
installed in the order in which they were read. -/
theorem Current.step (current : Current system) {action : Action} {next : System}
    (ordered : inOrder unicode system action = true) (effect : Effect unicode system action next) : Current next := by
  cases effect with
  | trustPeer caFingerprint note now => exact current.write _ _ _
  | distrustPeer caFingerprint => exact current.write _ _ _
  | refreshTrust => exact current.refresh
  | list _ _ => exact current.list _
  | replace member phase => exact current.replace member phase (inOrder_replace ordered phase)
  | answer _ phase => exact current.answer phase _

/-- A write of the registry, and the request that begins with it. -/
theorem Clean.write {fp : List Char} {since : Nat} (clean : Clean system fp since) {registry : Table TrustedPeer}
    (absent : fp ∉ fingerprints registry) (operation : Operation) (lastWrite : Nat) (refused : List (List Char)) :
    Clean { system with
      registry
      inflight := ⟨operation, .written, system.lists⟩ :: system.inflight
      lastWrite
      refused } fp since where
  registry := absent
  listed task member number peers phase := by
    rcases List.mem_cons.mp member with rfl | old
    · cases phase
    · exact clean.listed task old number peers phase
  snapshot := clean.snapshot

/-- Only a `trust_peer` of the same CA brings a fingerprint back. -/
theorem Clean.step {fp : List Char} {since : Nat} (clean : Clean system fp since) {action : Action} {next : System}
    (others : ∀ caFingerprint note now, action = .trustPeer caFingerprint note now →
      normalize unicode caFingerprint ≠ fp)
    (effect : Effect unicode system action next) : Clean next fp since := by
  cases effect with
  | trustPeer caFingerprint note now =>
    refine clean.write ?_ _ _ _
    rw [fingerprints_trust, Finset.mem_insert, not_or]
    exact ⟨(others caFingerprint note now rfl).symm, clean.registry⟩
  | distrustPeer caFingerprint =>
    refine clean.write ?_ _ _ _
    rw [fingerprints_distrust]
    exact fun member => clean.registry (Finset.mem_of_mem_erase member)
  | refreshTrust => exact clean.write clean.registry _ _ _
  | list member phase =>
    refine ⟨clean.registry, ?_, clean.snapshot⟩
    intro other found number peers listed later
    rcases mem_advance found with rfl | old
    · cases listed
      rw [replace_list]
      exact clean.registry
    · exact clean.listed other old number peers listed later
  | replace member phase =>
    refine ⟨clean.registry, ?_, clean.listed _ member _ _ phase⟩
    intro other found number peers listed later
    rcases mem_advance found with rfl | old
    · cases listed
    · exact clean.listed other old number peers listed later
  | answer member phase =>
    exact ⟨clean.registry, fun other found => clean.listed other (List.mem_of_mem_erase found), clean.snapshot⟩

/-- A `distrust_peer` that has just written has no list of its own yet. -/
theorem Current.clean (current : Current system) {fp : List Char} (absent : fp ∉ fingerprints system.registry) :
    Clean system fp system.lists where
  registry := absent
  listed task member number peers phase later :=
    absurd later (not_lt.mpr (current.numbered task member number peers phase).1)
  snapshot later := absurd later (not_lt.mpr current.bounded)

/-- The lists are installed in order, so the snapshot never goes back behind one of them. -/
theorem installed_mono {action : Action} {next : System} (ordered : inOrder unicode system action = true)
    (effect : Effect unicode system action next) : system.installed ≤ next.installed := by
  cases effect with
  | replace member phase => exact inOrder_replace ordered phase
  | _ => exact le_rfl

/-- No `trust_peer` of a CA writes while it is being distrusted, or after it has been
refused without taking it off the refused. -/
theorem Final.clean_step (final : Final unicode system) {action : Action} {next : System}
    (ordered : inOrder unicode system action = true) (effect : Effect unicode system action next) :
    (∀ task ∈ system.inflight, ∀ fp removed, task.operation = .distrust fp removed →
      Clean next (normalize unicode fp) task.since) ∧
    ∀ fp ∈ system.refused, fp ∈ next.refused → ∃ since, since < next.installed ∧ Clean next fp since := by
  constructor
  · intro task member fp removed operation
    refine ((final.flying task member).2 fp removed operation).step ?_ effect
    rintro caFingerprint note now rfl same
    have apart := List.all_eq_true.mp ordered task member
    simp only [operation, ne_eq, decide_not, Bool.not_eq_true', decide_eq_false_iff_not] at apart
    exact apart same.symm
  · intro fp before after
    obtain ⟨since, later, clean⟩ := final.refused fp before
    refine ⟨since, later.trans_le (installed_mono ordered effect), clean.step ?_ effect⟩
    rintro caFingerprint note now rfl same
    cases effect
    have kept := (List.mem_filter.mp after).2
    simp [same] at kept

theorem mem_refuse {operation : Operation} {refused : List (List Char)} {fp : List Char} :
    fp ∈ refuse unicode operation refused ↔
      (∃ caFingerprint removed, operation = .distrust caFingerprint removed ∧ normalize unicode caFingerprint = fp) ∨
        fp ∈ refused := by
  cases operation <;> simp [refuse, eq_comm]

/-- A request begins. -/
theorem Final.begin (final : Final unicode system) {next : System} {operation : Operation}
    (inflight : next.inflight = ⟨operation, .written, system.lists⟩ :: system.inflight)
    (lists : next.lists = system.lists) (installed : next.installed = system.installed)
    (flying : ∀ task ∈ system.inflight, ∀ fp removed, task.operation = .distrust fp removed →
      Clean next (normalize unicode fp) task.since)
    (begun : ∀ fp removed, operation = .distrust fp removed → Clean next (normalize unicode fp) system.lists)
    (refused : ∀ fp ∈ next.refused, ∃ since, since < next.installed ∧ Clean next fp since) :
    Final unicode next := by
  refine ⟨?_, ?_, ?_, refused⟩
  · intro task member number peers phase
    rw [inflight] at member
    rcases List.mem_cons.mp member with rfl | old
    · cases phase
    · exact final.listed task old number peers phase
  · intro task member phase
    rw [inflight] at member
    rcases List.mem_cons.mp member with rfl | old
    · cases phase
    · rw [installed]
      exact final.replaced task old phase
  · intro task member
    rw [inflight] at member
    rw [lists]
    rcases List.mem_cons.mp member with rfl | old
    · exact ⟨le_rfl, begun⟩
    · exact ⟨(final.flying task old).1, flying task old⟩

theorem Final.step (final : Final unicode system) (current : Current system) {action : Action} {next : System}
    (ordered : inOrder unicode system action = true) (effect : Effect unicode system action next) :
    Final unicode next := by
  obtain ⟨flying, refused⟩ := final.clean_step ordered effect
  have after := current.step ordered effect
  cases effect with
  | trustPeer caFingerprint note now =>
    refine final.begin rfl rfl rfl flying (by rintro _ _ ⟨⟩) ?_
    intro fp member
    exact refused fp (List.mem_of_mem_filter member) member
  | distrustPeer caFingerprint =>
    refine final.begin rfl rfl rfl flying ?_ (fun fp member => refused fp member member)
    rintro fp removed ⟨⟩
    refine after.clean ?_
    rw [fingerprints_distrust]
    exact Finset.notMem_erase _ _
  | refreshTrust =>
    exact final.begin rfl rfl rfl flying (by rintro _ _ ⟨⟩) (fun fp member => refused fp member member)
  | @list task member phase =>
    refine ⟨?_, ?_, ?_, fun fp found => refused fp found found⟩
    · intro other found number peers listed
      rcases mem_advance found with rfl | old
      · cases listed
        exact Nat.lt_succ_of_le (final.flying task member).1
      · exact final.listed other old number peers listed
    · intro other found replaced
      rcases mem_advance found with rfl | old
      · cases replaced
      · exact final.replaced other old replaced
    · intro other found
      rcases mem_advance found with rfl | old
      · exact ⟨(final.flying task member).1.trans (Nat.le_succ _), flying task member⟩
      · exact ⟨(final.flying other old).1.trans (Nat.le_succ _), flying other old⟩
  | @replace task number peers member phase =>
    refine ⟨?_, ?_, ?_, fun fp found => refused fp found found⟩
    · intro other found otherNumber otherPeers listed
      rcases mem_advance found with rfl | old
      · cases listed
      · exact final.listed other old otherNumber otherPeers listed
    · intro other found replaced
      rcases mem_advance found with rfl | old
      · exact final.listed task member number peers phase
      · exact (final.replaced other old replaced).trans_le (inOrder_replace ordered phase)
    · intro other found
      rcases mem_advance found with rfl | old
      · exact ⟨(final.flying task member).1, flying task member⟩
      · exact ⟨(final.flying other old).1, flying other old⟩
  | @answer task member phase =>
    refine ⟨fun other found => final.listed other (List.mem_of_mem_erase found),
      fun other found => final.replaced other (List.mem_of_mem_erase found), ?_, ?_⟩
    · intro other found
      have old := List.mem_of_mem_erase found
      exact ⟨(final.flying other old).1, flying other old⟩
    · intro fp found
      rcases mem_refuse.mp found with ⟨caFingerprint, removed, operation, rfl⟩ | old
      · exact ⟨task.since, final.replaced task member phase, flying task member caFingerprint removed operation⟩
      · exact refused fp old found

theorem current_final_run (run : Run unicode (inOrder unicode) system) : Current system ∧ Final unicode system := by
  refine Runs.Run.invariant (motive := fun system => Current system ∧ Final unicode system) ?_ ?_ run
  · rintro _ ⟨registry, rfl⟩
    refine ⟨⟨(by rintro _ ⟨⟩), Nat.zero_le 1, le_rfl, fun _ => rfl, fun behind => absurd behind (Nat.not_succ_le_zero 0)⟩, ?_⟩
    exact ⟨(by rintro _ ⟨⟩), (by rintro _ ⟨⟩), (by rintro _ ⟨⟩), (by rintro _ ⟨⟩)⟩
  · rintro system next action ⟨current, final⟩ ordered stepped
    have effect := step_effect stepped
    exact ⟨current.step ordered effect, final.step current ordered effect⟩

/-- In every interleaving whose lists are installed in the order in which they were read,
and in which no `trust_peer` writes while the same CA is being distrusted: when no request
is in flight the snapshot is the registry, and from the answer to a `distrust_peer` until a
`trust_peer` of that CA begins, every chain with that CA is refused. -/
theorem distrust_is_final (run : Run unicode (inOrder unicode) system) :
    (system.inflight = [] → system.snapshot = fingerprints system.registry) ∧
      ∀ fp ∈ system.refused, fp ∉ system.snapshot ∧
        ∀ (certificates : Certificates) (endEntity : Bytes) (intermediates : List Bytes) (now : Nat) (caDer : Bytes),
          intermediates.getLast? = some caDer → certificates.fingerprint caDer = fp →
          verifyPinnedChain certificates endEntity intermediates now system.snapshot =
            .error "peer CA is not trusted (unpinned)" := by
  obtain ⟨current, final⟩ := current_final_run run
  constructor
  · intro idle
    refine current.snapshot ?_
    by_contra behind
    obtain ⟨task, member, _⟩ := current.pending (not_lt.mp behind)
    rw [idle] at member
    cases member
  · intro fp member
    obtain ⟨since, later, clean⟩ := final.refused fp member
    have absent := clean.snapshot later
    refine ⟨absent, ?_⟩
    intro certificates endEntity intermediates now caDer last same
    exact verify_unpinned certificates endEntity intermediates now last (same ▸ absent)

end

section

/-- The Unicode tables within ASCII. -/
def sampleUnicode : Unicode where
  trim text := ((text.dropWhile Char.isWhitespace).reverse.dropWhile Char.isWhitespace).reverse
  toLowercase c := [c.toLower]

def samplePeer : TrustedPeer := ⟨['a', 'b'], none, 0⟩

def sampleRegistry : Table TrustedPeer := Table.empty.insert samplePeer

/-- The timer has read the registry; a `distrust_peer` has then removed the one CA in it and
read it again. Neither has replaced the snapshot yet. -/
def sampleOverlap : System where
  registry := (Registry.distrust sampleUnicode sampleRegistry ['A', ':', 'B']).1
  snapshot := fingerprints sampleRegistry
  inflight := [⟨.distrust ['A', ':', 'B'] true, .listed 3 [], 2⟩, ⟨.refresh, .listed 2 [samplePeer], 1⟩]
  lists := 3
  lastWrite := 2
  installed := 1
  refused := []

theorem sampleRegistry_list : Registry.list sampleRegistry = [samplePeer] := by
  simp [Registry.list, Table.select, Table.limited, sampleRegistry, Table.insert, Table.empty]

theorem distrusted_list :
    Registry.list (Registry.distrust sampleUnicode sampleRegistry ['A', ':', 'B']).1 = [] := by
  have rows : (Registry.distrust sampleUnicode sampleRegistry ['A', ':', 'B']).1.rows = [] := by decide
  simp [Registry.list, Table.select, Table.limited, rows]

theorem sampleOverlap_run : Run sampleUnicode (inOrder sampleUnicode) sampleOverlap := by
  have began : step sampleUnicode (.initial sampleRegistry) .refreshTrust =
      some { System.initial sampleRegistry with inflight := [⟨.refresh, .written, 1⟩] } := rfl
  have read : step sampleUnicode { System.initial sampleRegistry with inflight := [⟨.refresh, .written, 1⟩] }
      (.list ⟨.refresh, .written, 1⟩) = some { System.initial sampleRegistry with
        inflight := [⟨.refresh, .listed 2 (Registry.list sampleRegistry), 1⟩]
        lists := 2 } := rfl
  have wrote : step sampleUnicode { System.initial sampleRegistry with
        inflight := [⟨.refresh, .listed 2 [samplePeer], 1⟩]
        lists := 2 } (.distrustPeer ['A', ':', 'B']) =
      some { sampleOverlap with
        inflight := [⟨.distrust ['A', ':', 'B'] true, .written, 2⟩, ⟨.refresh, .listed 2 [samplePeer], 1⟩]
        lists := 2 } := rfl
  have readAgain : step sampleUnicode { sampleOverlap with
        inflight := [⟨.distrust ['A', ':', 'B'] true, .written, 2⟩, ⟨.refresh, .listed 2 [samplePeer], 1⟩]
        lists := 2 } (.list ⟨.distrust ['A', ':', 'B'] true, .written, 2⟩) =
      some { sampleOverlap with
        inflight := [⟨.distrust ['A', ':', 'B'] true, .listed 3 (Registry.list sampleOverlap.registry), 2⟩,
          ⟨.refresh, .listed 2 [samplePeer], 1⟩] } := rfl
  rw [sampleRegistry_list] at read
  rw [show Registry.list sampleOverlap.registry = [] from distrusted_list] at readAgain
  have first : Run sampleUnicode (inOrder sampleUnicode) (.initial sampleRegistry) := .start ⟨sampleRegistry, rfl⟩
  exact (((first.step rfl began).step rfl read).step rfl wrote).step rfl readAgain

/-- Certificates that are in order. -/
def sampleCertificates : Certificates where
  Certificate := Unit
  fingerprint _ := ['a', 'b']
  fromDer _ := some ()
  isCa _ := true
  verifySignature _ _ := true
  notBefore _ := 0
  notAfter _ := 1

/-- The timer installs its list first. -/
theorem distrust_is_final_in_order : ∃ system : System, Run sampleUnicode (inOrder sampleUnicode) system ∧
    system.inflight = [] ∧ system.snapshot = fingerprints system.registry ∧
      verifyPinnedChain sampleCertificates [1] [[2]] 0 system.snapshot = .error "peer CA is not trusted (unpinned)" := by
  have ends : ∃ system : System, Runs.Follows (step sampleUnicode)
      (fun system action => inOrder sampleUnicode system action = true) sampleOverlap
      [.replace ⟨.refresh, .listed 2 [samplePeer], 1⟩, .replace ⟨.distrust ['A', ':', 'B'] true, .listed 3 [], 2⟩,
        .answer ⟨.refresh, .replaced, 1⟩, .answer ⟨.distrust ['A', ':', 'B'] true, .replaced, 2⟩] system ∧
      system.inflight = [] ∧ ['a', 'b'] ∈ system.refused :=
    ⟨_, ⟨rfl, _, rfl, rfl, _, rfl, rfl, _, rfl, rfl, _, rfl, rfl⟩, rfl, List.mem_cons_self⟩
  obtain ⟨system, follows, idle, refused⟩ := ends
  have run := sampleOverlap_run.follow follows
  exact ⟨system, run, idle, (distrust_is_final run).1 idle,
    ((distrust_is_final run).2 _ refused).2 sampleCertificates [1] [[2]] 0 [2] rfl rfl⟩

/-- The timer installs its list last, and the node accepts the distrusted CA again. -/
theorem distrusted_ca_accepted : ∃ system : System, Run sampleUnicode (fun _ _ => true) system ∧
    system.inflight = [] ∧ system.snapshot ≠ fingerprints system.registry ∧ ['a', 'b'] ∈ system.refused ∧
      ['a', 'b'] ∈ system.snapshot ∧ verifyPinnedChain sampleCertificates [1] [[2]] 0 system.snapshot = .ok () := by
  have ends : ∃ system : System, [Action.replace ⟨.distrust ['A', ':', 'B'] true, .listed 3 [], 2⟩,
      .answer ⟨.distrust ['A', ':', 'B'] true, .replaced, 2⟩, .replace ⟨.refresh, .listed 2 [samplePeer], 1⟩,
      .answer ⟨.refresh, .replaced, 1⟩].foldlM (step sampleUnicode) sampleOverlap = some system ∧
        system.inflight = [] ∧ system.snapshot ≠ fingerprints system.registry ∧ ['a', 'b'] ∈ system.refused ∧
        ['a', 'b'] ∈ system.snapshot ∧ verifyPinnedChain sampleCertificates [1] [[2]] 0 system.snapshot = .ok () := by
    refine ⟨_, rfl, rfl, ?_, List.mem_cons_self, ?_, ?_⟩
    · decide
    · decide
    · rfl
  obtain ⟨system, ran, rest⟩ := ends
  have anyOrder : Run sampleUnicode (fun _ _ => true) sampleOverlap := sampleOverlap_run.mono fun _ _ _ => rfl
  exact ⟨system, anyOrder.follow (Runs.follows_of_foldlM (fun _ _ _ => rfl) ran), rest⟩

end

end Buh.Node.Trust
