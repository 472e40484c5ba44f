import Buh.Library.Runs
import Buh.Node.Authority

/-! The PKI directory while `load_or_init` and `rekey` are at work on it. Each goes from one
file-system step to the next and may be stopped in front of any of them, by a crash or by an
error of the file system; a later run starts from the files that are there. -/

namespace Buh.Node.Interruption
open Buh.Library Buh.Library.Fallible Buh.Wire.Codec Buh.Node.Trust Buh.Node.Authority

section
variable (pki : Pki)

/-- The file-system step that a run is in front of. -/
inductive Phase where
  /-- `cert_path.exists()` and `key_path.exists()` of `load_or_init` -/
  | certExists (start : Start pki)
  | keyExists (start : Start pki)
  | readKey (start : Start pki)
  | readCert (start : Start pki) (caKey : pki.KeyPair)
  /-- The two writes of `persist`, and the mode of the key file behind them -/
  | writeCert (start : Start pki) (caKey : pki.KeyPair) (caDer : Bytes)
  | writeKey (start : Start pki) (caKey : pki.KeyPair) (caDer : Bytes)
  | restrictKey (start : Start pki) (caKey : pki.KeyPair) (caDer : Bytes)
  /-- The loop of `rekey` over the two paths -/
  | oldCertExists (start : Start pki)
  | renameCert (start : Start pki)
  | oldKeyExists (start : Start pki)
  | renameKey (start : Start pki)

inductive Progress where
  | goes (phase : Phase pki)
  | returns (answer : Except CoreError (RcgenNodeCa pki))
  /-- The file is not there. -/
  | fails

variable {pki}

/-- The branch of `load_or_init` that makes a new CA, up to its first step. -/
def renew (start : Start pki) : Progress pki :=
  match generate pki start with
  | .error e => .returns (.error e)
  | .ok (caKey, caDer) => .goes (.writeCert start caKey caDer)

/-- One file-system step, and what the run does until the next. -/
def next (dir : PkiDir) : Phase pki → PkiDir × Progress pki
  | .certExists start => (dir, if dir.caCert.isSome then .goes (.keyExists start) else renew start)
  | .keyExists start => (dir, if dir.caKey.isSome then .goes (.readKey start) else renew start)
  | .readKey start =>
    match dir.caKey with
    | none => (dir, .fails)
    | some keyPem =>
      match (pki.fromPem keyPem).mapError (pkiError pki "parse CA key") with
      | .error e => (dir, .returns (.error e))
      | .ok caKey => (dir, .goes (.readCert start caKey))
  | .readCert start caKey =>
    match dir.caCert with
    | none => (dir, .fails)
    | some caDer => (dir, .returns (fromLoaded pki caKey caDer start.sans start.leafTtl start.issuerEntropy))
  | .writeCert start caKey caDer => ({ dir with caCert := some caDer }, .goes (.writeKey start caKey caDer))
  | .writeKey start caKey caDer =>
    ({ dir with caKey := some (pki.serializePem caKey) }, .goes (.restrictKey start caKey caDer))
  | .restrictKey start caKey caDer =>
    (dir, .returns (fromLoaded pki caKey caDer start.sans start.leafTtl start.issuerEntropy))
  | .oldCertExists start => (dir, .goes (if dir.caCert.isSome then .renameCert start else .oldKeyExists start))
  | .renameCert start =>
    match dir.caCert with
    | none => (dir, .fails)
    | some caDer => ({ dir with caCert := none, caCertBak := some caDer }, .goes (.oldKeyExists start))
  | .oldKeyExists start => (dir, .goes (if dir.caKey.isSome then .renameKey start else .certExists start))
  | .renameKey start =>
    match dir.caKey with
    | none => (dir, .fails)
    | some keyPem => ({ dir with caKey := none, caKeyBak := some keyPem }, .goes (.certExists start))

variable (pki)

/-- The directory and the run at work on it, with the history that matters: what the runs
have loaded, the key in place when the current `rekey` began, and the keys in place when one
began that was stopped. -/
structure Disk where
  dir : PkiDir
  phase : Option (Phase pki)
  loaded : List (RcgenNodeCa pki)
  inUse : Option Text
  owed : List Text

inductive Move where
  | load (start : Start pki)
  | rekey (start : Start pki)
  | advance
  | stop

variable {pki}

namespace Disk

def empty : Disk pki := ⟨⟨none, none, none, none⟩, none, [], none, []⟩

/-- The run is over without a CA. -/
def stopped (disk : Disk pki) : Disk pki :=
  { disk with phase := none, inUse := none, owed := disk.inUse.toList ++ disk.owed }

def settle (disk : Disk pki) : PkiDir × Progress pki → Disk pki
  | (dir, .goes phase) => { disk with dir, phase := some phase }
  | (dir, .returns (.ok ca)) => { disk with dir, phase := none, inUse := none, loaded := ca :: disk.loaded }
  | (dir, .returns (.error _)) => { disk with dir }.stopped
  | (dir, .fails) => { disk with dir }.stopped

/-- Runs come one after the other. -/
def step (disk : Disk pki) : Move pki → Option (Disk pki)
  | .load start => if disk.phase.isNone then some { disk with phase := some (.certExists start), inUse := none } else none
  | .rekey start =>
    if disk.phase.isNone then some { disk with phase := some (.oldCertExists start), inUse := disk.dir.caKey } else none
  | .advance => disk.phase.map fun phase => disk.settle (next disk.dir phase)
  | .stop => disk.phase.map fun _ => disk.stopped

/-- The key is in the directory, in place or as a backup. -/
def Present (dir : PkiDir) (key : Text) : Prop := dir.caKey = some key ∨ dir.caKeyBak = some key

/-- A new certificate is written only where no key is in place, and a key is renamed over a
backup only where that is not the key of a `rekey` that was stopped. -/
def Careful (disk : Disk pki) : Move pki → Prop
  | .advance =>
    match disk.phase with
    | some (.writeCert ..) => disk.dir.caKey = none
    | some (.renameKey _) => ∀ key ∈ disk.owed, disk.dir.caKeyBak = some key → disk.dir.caKey = some key
    | _ => True
  | _ => True

/-- The moves can be made one after the other, each where the condition allows it. -/
abbrev Follows (allowed : Disk pki → Move pki → Prop) (disk : Disk pki) (moves : List (Move pki)) (after : Disk pki) :
    Prop := Runs.Follows Disk.step allowed disk moves after

end Disk

variable (pki) in
/-- The end entity of the chain is signed under the key of the certificate that is advertised. -/
def Chains (leaf : NodeLeaf) (caDer : Bytes) : Prop :=
  ∃ leafDer cert ca, leaf.chainDer = [leafDer, caDer] ∧ pki.fromDer leafDer = some cert ∧
    pki.fromDer caDer = some ca ∧ pki.signedUnder cert (pki.subjectKey ca) = true

/-- Every CA that was loaded has the certificate of its key, and no key is missing of which
a `rekey` was stopped. -/
structure Survives (disk : Disk pki) : Prop where
  selfSigned : ∀ ca ∈ disk.loaded, MadeFor pki ca.caKey ca.caDer
  chains : ∀ ca ∈ disk.loaded, ∀ now draws leaf, ca.issueLeaf now draws = some (.ok leaf) → Chains pki leaf ca.caDer
  present : ∀ key ∈ disk.inUse.toList ++ disk.owed, Disk.Present disk.dir key

/-! A run that nothing stops does what `loadOrInit` and `rekey` say. -/

/-- The rest of the run ends with these files and this answer. -/
def Ends (disk : Disk pki) (outcome : PkiDir × Except CoreError (RcgenNodeCa pki)) : Prop :=
  ∃ count, disk.Follows (fun _ _ => True) (List.replicate count .advance) (disk.settle (outcome.1, .returns outcome.2))

theorem ends_of_returns {disk : Disk pki} {phase : Phase pki} (running : disk.phase = some phase) {dir : PkiDir}
    {answer : Except CoreError (RcgenNodeCa pki)} (last : next disk.dir phase = (dir, .returns answer)) :
    Ends disk (dir, answer) := by
  refine ⟨1, trivial, _, ?_, rfl⟩
  rw [Disk.step, running, Option.map_some, last]

theorem ends_of_goes {disk : Disk pki} {phase phase' : Phase pki} (running : disk.phase = some phase) {dir : PkiDir}
    {outcome : PkiDir × Except CoreError (RcgenNodeCa pki)} (goes : next disk.dir phase = (dir, .goes phase'))
    (rest : Ends { disk with dir, phase := some phase' } outcome) : Ends disk outcome := by
  obtain ⟨count, run⟩ := rest
  refine ⟨count + 1, trivial, { disk with dir, phase := some phase' }, ?_, ?_⟩
  · rw [Disk.step, running, Option.map_some, goes]
    rfl
  · cases answer : outcome.2 <;> rw [answer] at run <;> exact run

/-- From a missing file on. -/
theorem renew_ends {disk : Disk pki} {phase : Phase pki} (running : disk.phase = some phase) {start : Start pki}
    (renews : next disk.dir phase = (disk.dir, renew start)) :
    Ends disk (match generate pki start with
      | .error e => (disk.dir, .error e)
      | .ok (caKey, caDer) => ({ disk.dir with caCert := some caDer, caKey := some (pki.serializePem caKey) },
          fromLoaded pki caKey caDer start.sans start.leafTtl start.issuerEntropy)) := by
  cases generated : generate pki start with
  | error e =>
    apply ends_of_returns running
    rw [renews, renew, generated]
  | ok made =>
    have writes : next disk.dir phase = (disk.dir, .goes (.writeCert start made.1 made.2)) := by
      rw [renews, renew, generated]
    refine ends_of_goes running writes ?_
    refine ends_of_goes rfl rfl ?_
    refine ends_of_goes rfl rfl ?_
    exact ends_of_returns rfl rfl

theorem next_certExists {dir : PkiDir} {caDer : Bytes} (cert : dir.caCert = some caDer) (start : Start pki) :
    next dir (.certExists start) = (dir, .goes (.keyExists start)) := by
  rw [next, cert]
  rfl

theorem load_ends {disk : Disk pki} {start : Start pki} (running : disk.phase = some (.certExists start)) :
    Ends disk (loadOrInit pki disk.dir start) := by
  unfold loadOrInit
  split
  · next caDer keyPem cert key =>
    have checksKey : next disk.dir (.keyExists start) = (disk.dir, .goes (.readKey start)) := by
      rw [next, key]
      rfl
    refine ends_of_goes running (next_certExists cert start) ?_
    refine ends_of_goes rfl checksKey ?_
    cases parsed : (pki.fromPem keyPem).mapError (pkiError pki "parse CA key") with
    | error e =>
      apply ends_of_returns rfl
      simp only [next, key, parsed, bind, Except.bind]
    | ok caKey =>
      have reads : next disk.dir (.readKey start) = (disk.dir, .goes (.readCert start caKey)) := by
        simp only [next, key, parsed]
      refine ends_of_goes rfl reads ?_
      apply ends_of_returns rfl
      simp only [next, cert, bind, Except.bind]
  · next missing =>
    cases cert : disk.dir.caCert with
    | none =>
      apply renew_ends running
      rw [next, cert]
      rfl
    | some caDer =>
      have absent : disk.dir.caKey = none := by
        cases key : disk.dir.caKey with
        | none => rfl
        | some keyPem => exact absurd key (missing caDer keyPem cert)
      refine ends_of_goes running (next_certExists cert start) ?_
      apply renew_ends rfl
      rw [next, absent]
      rfl

theorem renameKey_ends {disk : Disk pki} {start : Start pki} (running : disk.phase = some (.oldKeyExists start)) :
    Ends disk (loadOrInit pki { disk.dir with caKey := none, caKeyBak := disk.dir.caKey.or disk.dir.caKeyBak } start) := by
  cases key : disk.dir.caKey with
  | none =>
    have skips : next disk.dir (.oldKeyExists start) = (disk.dir, .goes (.certExists start)) := by
      rw [next, key]
      rfl
    refine ends_of_goes running skips ?_
    rw [Option.none_or, ← key]
    exact load_ends rfl
  | some keyPem =>
    have checks : next disk.dir (.oldKeyExists start) = (disk.dir, .goes (.renameKey start)) := by
      rw [next, key]
      rfl
    have renames : next disk.dir (.renameKey start) =
        ({ disk.dir with caKey := none, caKeyBak := some keyPem }, .goes (.certExists start)) := by
      simp only [next, key]
    refine ends_of_goes running checks ?_
    refine ends_of_goes rfl renames ?_
    exact load_ends rfl

theorem rekey_ends {disk : Disk pki} {start : Start pki} (running : disk.phase = some (.oldCertExists start)) :
    Ends disk (rekey pki disk.dir start) := by
  unfold rekey
  cases cert : disk.dir.caCert with
  | none =>
    have skips : next disk.dir (.oldCertExists start) = (disk.dir, .goes (.oldKeyExists start)) := by
      rw [next, cert]
      rfl
    refine ends_of_goes running skips ?_
    rw [Option.none_or, ← cert]
    exact renameKey_ends rfl
  | some caDer =>
    have checks : next disk.dir (.oldCertExists start) = (disk.dir, .goes (.renameCert start)) := by
      rw [next, cert]
      rfl
    have renames : next disk.dir (.renameCert start) =
        ({ disk.dir with caCert := none, caCertBak := some caDer }, .goes (.oldKeyExists start)) := by
      simp only [next, cert]
    refine ends_of_goes running checks ?_
    refine ends_of_goes rfl renames ?_
    exact renameKey_ends rfl

/-- From between two runs, the next one can go on to the end that its function gives. -/
theorem uninterrupted {disk : Disk pki} (idle : disk.phase = none) (start : Start pki) :
    (∃ begun, disk.step (.load start) = some begun ∧ begun.dir = disk.dir ∧ Ends begun (loadOrInit pki disk.dir start)) ∧
      ∃ begun, disk.step (.rekey start) = some begun ∧ begun.dir = disk.dir ∧ Ends begun (rekey pki disk.dir start) := by
  constructor
  · refine ⟨{ disk with phase := some (.certExists start), inUse := none }, ?_, rfl, load_ends rfl⟩
    rw [Disk.step, idle]
    rfl
  · refine ⟨{ disk with phase := some (.oldCertExists start), inUse := disk.dir.caKey }, ?_, rfl, rekey_ends rfl⟩
    rw [Disk.step, idle]
    rfl

/-! What a careful run keeps. -/

/-- What is known in front of a step. -/
def AtPhase (dir : PkiDir) (inUse : Option Text) : Phase pki → Prop
  | .certExists _ => True
  | .keyExists _ => True
  | .readKey _ => True
  | .readCert _ caKey => ∃ keyPem, dir.caKey = some keyPem ∧ pki.fromPem keyPem = .ok caKey
  | .writeCert _ caKey caDer => MadeFor pki caKey caDer
  | .writeKey _ caKey caDer => MadeFor pki caKey caDer ∧ dir.caCert = some caDer ∧ dir.caKey = none
  | .restrictKey _ caKey caDer => MadeFor pki caKey caDer
  | .oldCertExists _ => inUse = dir.caKey
  | .renameCert _ => inUse = dir.caKey
  | .oldKeyExists _ => inUse = dir.caKey
  | .renameKey _ => inUse = dir.caKey

def Sensible (dir : PkiDir) (inUse : Option Text) : Progress pki → Prop
  | .goes phase => AtPhase dir inUse phase
  | .returns answer => ∀ ca, answer = .ok ca → MadeFor pki ca.caKey ca.caDer
  | .fails => True

structure Intact (disk : Disk pki) : Prop where
  paired : Paired pki disk.dir
  atPhase : ∀ phase, disk.phase = some phase → AtPhase disk.dir disk.inUse phase
  loaded : ∀ ca ∈ disk.loaded, MadeFor pki ca.caKey ca.caDer
  inUse : ∀ key, disk.inUse = some key → Disk.Present disk.dir key
  owed : ∀ key ∈ disk.owed, Disk.Present disk.dir key

theorem Intact.empty : Intact (Disk.empty : Disk pki) where
  paired := paired_of_missing (.inl rfl)
  atPhase := by
    intro phase running
    cases running
  loaded := by
    intro ca member
    cases member
  inUse := by
    intro key begun
    cases begun
  owed := by
    intro key member
    cases member

/-- A run that ends without a CA leaves its key among those that are owed. -/
theorem Intact.stopped {disk : Disk pki} (intact : Intact disk) : Intact disk.stopped where
  paired := intact.paired
  atPhase := by
    intro phase running
    cases running
  loaded := intact.loaded
  inUse := by
    intro key begun
    cases begun
  owed := by
    intro key member
    rcases List.mem_append.mp member with began | earlier
    · exact intact.inUse key (Option.mem_toList.mp began)
    · exact intact.owed key earlier

theorem renew_sensible (dir : PkiDir) (inUse : Option Text) (start : Start pki) : Sensible dir inUse (renew start) := by
  unfold renew
  split
  · intro ca failed
    cases failed
  · next caKey caDer generated => exact generate_ok generated

/-- What a step leaves behind it, when the files still pair and no key is lost. -/
theorem settle_intact {disk : Disk pki} (intact : Intact disk) {dir : PkiDir} {progress : Progress pki}
    (paired : Paired pki dir) (inUse : ∀ key, disk.inUse = some key → Disk.Present dir key)
    (owed : ∀ key ∈ disk.owed, Disk.Present dir key) (sensible : Sensible dir disk.inUse progress) :
    Intact (disk.settle (dir, progress)) := by
  have between : Intact { disk with dir, phase := none } := by
    refine ⟨paired, ?_, intact.loaded, inUse, owed⟩
    intro phase running
    cases running
  cases progress with
  | goes phase =>
    refine ⟨paired, ?_, intact.loaded, inUse, owed⟩
    intro phase' running
    cases running
    exact sensible
  | returns answer =>
    cases answer with
    | error e => exact between.stopped
    | ok ca =>
      refine ⟨paired, ?_, ?_, ?_, owed⟩
      · intro phase running
        cases running
      · intro other member
        rcases List.mem_cons.mp member with rfl | earlier
        · exact sensible other rfl
        · exact intact.loaded other earlier
      · intro key begun
        cases begun
  | fails => exact between.stopped

theorem settle_same {disk : Disk pki} (intact : Intact disk) {progress : Progress pki}
    (sensible : Sensible disk.dir disk.inUse progress) : Intact (disk.settle (disk.dir, progress)) :=
  settle_intact intact intact.paired intact.inUse intact.owed sensible

theorem fromLoaded_sensible (dir : PkiDir) (inUse : Option Text) (start : Start pki) {caKey : pki.KeyPair} {caDer : Bytes}
    (made : MadeFor pki caKey caDer) :
    Sensible dir inUse (.returns (fromLoaded pki caKey caDer start.sans start.leafTtl start.issuerEntropy)) := by
  intro ca loaded
  obtain ⟨sameKey, sameDer, _⟩ := fromLoaded_ok loaded
  rw [sameKey, sameDer]
  exact made

/-- The new key beside its certificate: where no key was in place, what is present is a
backup. -/
theorem writeKey_intact {disk : Disk pki} (intact : Intact disk) {start : Start pki} {caKey : pki.KeyPair} {caDer : Bytes}
    (known : MadeFor pki caKey caDer ∧ disk.dir.caCert = some caDer ∧ disk.dir.caKey = none) :
    Intact (disk.settle (next disk.dir (.writeKey start caKey caDer))) := by
  obtain ⟨made, cert, absent⟩ := known
  have keeps (key : Text) (present : Disk.Present disk.dir key) :
      Disk.Present { disk.dir with caKey := some (pki.serializePem caKey) } key := by
    rcases present with inPlace | backup
    · rw [absent] at inPlace
      cases inPlace
    · exact .inr backup
  refine settle_intact intact ?_ (fun key begun => keeps key (intact.inUse key begun))
    (fun key member => keeps key (intact.owed key member)) made
  intro der pem cert' key
  cases cert.symm.trans cert'
  cases key
  exact ⟨caKey, rfl, made⟩

/-- The key of the `rekey` becomes the backup, over one that nobody is owed. -/
theorem renameKey_intact {disk : Disk pki} (intact : Intact disk) {start : Start pki} (known : disk.inUse = disk.dir.caKey)
    (careful : ∀ key ∈ disk.owed, disk.dir.caKeyBak = some key → disk.dir.caKey = some key) :
    Intact (disk.settle (next disk.dir (.renameKey start))) := by
  simp only [next]
  split
  · exact settle_same intact trivial
  · next keyPem key =>
    refine settle_intact intact (paired_of_missing (.inr rfl)) ?_ ?_ trivial
    · intro other begun
      exact .inr (key.symm.trans (known.symm.trans begun))
    · intro other member
      right
      rcases intact.owed other member with inPlace | backup
      · exact key.symm.trans inPlace
      · exact key.symm.trans (careful other member backup)

variable {signer : pki.Certificate → Option pki.PublicKey} (laws : Laws pki signer)
include laws

/-- A key that was read is the one that its certificate was made for. -/
theorem readCert_intact {disk : Disk pki} (intact : Intact disk) {start : Start pki} {caKey : pki.KeyPair}
    (known : ∃ keyPem, disk.dir.caKey = some keyPem ∧ pki.fromPem keyPem = .ok caKey) :
    Intact (disk.settle (next disk.dir (.readCert start caKey))) := by
  simp only [next]
  split
  · exact settle_same intact trivial
  · next caDer cert =>
    obtain ⟨keyPem, key, parsed⟩ := known
    obtain ⟨written, rfl, made⟩ := intact.paired caDer keyPem cert key
    rw [laws.fromPem_serializePem] at parsed
    cases parsed
    exact settle_same intact (fromLoaded_sensible _ _ start made)

/-- One case per step of the file system. -/
theorem next_intact {disk : Disk pki} (intact : Intact disk) (careful : disk.Careful .advance) {phase : Phase pki}
    (running : disk.phase = some phase) : Intact (disk.settle (next disk.dir phase)) := by
  have known := intact.atPhase phase running
  cases phase with
  | certExists start =>
    apply settle_same intact
    split
    · trivial
    · exact renew_sensible _ _ start
  | keyExists start =>
    apply settle_same intact
    split
    · trivial
    · exact renew_sensible _ _ start
  | readKey start =>
    simp only [next]
    split
    · exact settle_same intact trivial
    · next keyPem key =>
      split
      · apply settle_same intact
        intro ca failed
        cases failed
      · next caKey parsed => exact settle_same intact ⟨keyPem, key, mapError_eq_ok.mp parsed⟩
  | readCert start caKey => exact readCert_intact laws intact known
  | writeCert start caKey caDer =>
    rw [Disk.Careful, running] at careful
    exact settle_intact intact (paired_of_missing (.inr careful)) intact.inUse intact.owed ⟨known, rfl, careful⟩
  | writeKey start caKey caDer => exact writeKey_intact intact known
  | restrictKey start caKey caDer => exact settle_same intact (fromLoaded_sensible _ _ start known)
  | oldCertExists start =>
    apply settle_same intact
    split
    · exact known
    · exact known
  | renameCert start =>
    simp only [next]
    split
    · exact settle_same intact trivial
    · exact settle_intact intact (paired_of_missing (.inl rfl)) intact.inUse intact.owed known
  | oldKeyExists start =>
    apply settle_same intact
    split
    · exact known
    · trivial
  | renameKey start =>
    rw [Disk.Careful, running] at careful
    exact renameKey_intact intact known careful

theorem step_intact {disk after : Disk pki} {move : Move pki} (intact : Intact disk) (careful : disk.Careful move)
    (moves : disk.step move = some after) : Intact after := by
  cases move with
  | load start =>
    obtain ⟨_, same⟩ := Option.ite_none_right_eq_some.mp moves
    cases same
    refine ⟨intact.paired, ?_, intact.loaded, ?_, intact.owed⟩
    · intro phase running
      cases running
      trivial
    · intro key begun
      cases begun
  | rekey start =>
    obtain ⟨_, same⟩ := Option.ite_none_right_eq_some.mp moves
    cases same
    refine ⟨intact.paired, ?_, intact.loaded, fun key inPlace => .inl inPlace, intact.owed⟩
    intro phase running
    cases running
    exact rfl
  | advance =>
    obtain ⟨phase, running, rfl⟩ := Option.map_eq_some_iff.mp moves
    exact next_intact laws intact careful running
  | stop =>
    obtain ⟨phase, _, rfl⟩ := Option.map_eq_some_iff.mp moves
    exact intact.stopped

theorem follows_intact {disk after : Disk pki} {moves : List (Move pki)} (intact : Intact disk)
    (run : disk.Follows Disk.Careful moves after) : Intact after :=
  run.invariant (fun _ _ _ intact careful stepped => step_intact laws intact careful stepped) intact

theorem chains_of_made {ca : RcgenNodeCa pki} (made : MadeFor pki ca.caKey ca.caDer) {now : Int} {draws : Draws pki}
    {leaf : NodeLeaf} (issued : ca.issueLeaf now draws = some (.ok leaf)) : Chains pki leaf ca.caDer := by
  obtain ⟨caCert, caParsed, _, subject, _⟩ := made.certificate laws
  obtain ⟨leafDer, cert, chain, leafParsed, signs, _⟩ := issueLeaf_certificate laws issued
  refine ⟨leafDer, cert, caCert, chain, leafParsed, caParsed, ?_⟩
  rw [subject]
  exact (laws.exact _ _).mpr signs

/-- The CA survives every run in which no certificate is written beside a key and no backup is
written over that an earlier `rekey` still owes. -/
theorem careful_runs_survive {moves : List (Move pki)} {disk : Disk pki}
    (run : Disk.empty.Follows Disk.Careful moves disk) : Survives disk where
  selfSigned := (follows_intact laws Intact.empty run).loaded
  chains ca member _ _ _ issued := chains_of_made laws ((follows_intact laws Intact.empty run).loaded ca member) issued
  present := (follows_intact laws Intact.empty run).stopped.owed

end

def drawing (key : Nat) : Start samplePki := ⟨[], 3600 * 1000000000, .ok key, [], []⟩

/-- A CA is made; its `rekey` is stopped behind the two renames; the next start makes a new one. -/
def resumed : List (Move samplePki) :=
  [.load (drawing 1), .advance, .advance, .advance, .advance, .rekey (drawing 2), .advance, .advance, .advance, .advance,
    .stop, .load (drawing 3), .advance, .advance, .advance, .advance]

theorem careful_runs_survive_resumed : ∃ disk : Disk samplePki,
    Disk.empty.Follows Disk.Careful resumed disk ∧ disk.owed = [samplePki.serializePem (1 : Nat)] ∧ Survives disk := by
  obtain ⟨disk, run, owed⟩ : ∃ disk : Disk samplePki, Disk.empty.Follows Disk.Careful resumed disk ∧
      disk.owed = [samplePki.serializePem (1 : Nat)] := by
    refine ⟨_, ⟨trivial, _, rfl, trivial, _, rfl, rfl, _, rfl, trivial, _, rfl, trivial, _, rfl, trivial, _, rfl,
      trivial, _, rfl, trivial, _, rfl, trivial, _, rfl, ?_, _, rfl, trivial, _, rfl, trivial, _, rfl,
      trivial, _, rfl, rfl, _, rfl, trivial, _, rfl, trivial, _, rfl, rfl⟩, rfl⟩
    intro key member
    cases member
  exact ⟨disk, run, owed, careful_runs_survive samplePki_laws run⟩

/-- The `rekey` is stopped between its two renames instead, and the next start between its
two writes. -/
def betweenRenames : List (Move samplePki) :=
  [.load (drawing 1), .advance, .advance, .advance, .advance, .rekey (drawing 2), .advance, .advance, .stop,
    .load (drawing 3), .advance, .advance]

/-- The certificate that `samplePki` makes for a CA key. -/
def certified (key : Nat) : Bytes :=
  List.replicate (Encodable.encode (true, key, (157766400 : Int), (67090118400 : Int), key)) 0

theorem madeFor_certified {key other : Nat} (made : MadeFor samplePki key (certified other)) : key = other := by
  obtain ⟨params, entropy, ok, signed⟩ := made
  cases ok
  have lengths := congrArg List.length (Except.ok.inj signed)
  simp only [certified, List.length_replicate] at lengths
  have same := Encodable.encode_injective lengths
  exact congrArg (fun cert => cert.2.1) same

/-- What is left is a key with the certificate of another, which the next start takes; and a
start that is not stopped there has the old key nowhere. -/
theorem interrupted_rekey_breaks :
    (∃ disk : Disk samplePki, Disk.empty.Follows (fun _ _ => True)
        (betweenRenames ++ [.stop, .load (drawing 4), .advance, .advance, .advance, .advance]) disk ∧
      ∃ ca ∈ disk.loaded, ¬ MadeFor samplePki ca.caKey ca.caDer) ∧
    ∃ disk : Disk samplePki, Disk.empty.Follows (fun _ _ => True) (betweenRenames ++ [.advance, .advance]) disk ∧
      ∃ key ∈ disk.owed, ¬ Disk.Present disk.dir key := by
  constructor
  · refine ⟨_, Runs.follows_of_foldlM (fun _ _ _ => trivial) rfl, _, List.mem_cons_self, ?_⟩
    intro (made : MadeFor samplePki (1 : Nat) (certified 3))
    have same := madeFor_certified made
    omega
  · refine ⟨_, Runs.follows_of_foldlM (fun _ _ _ => trivial) rfl, samplePki.serializePem (1 : Nat), List.mem_cons_self, ?_⟩
    rintro (inPlace | backup)
    · cases inPlace
    · cases backup

end Buh.Node.Interruption
