import Buh.Node.Authority

/-! The leaf that a node serves: `NodeTls` of `tls.rs` and the timer of `serve.rs` that issues
a new leaf at every tick and reads the trust registry again. Times are in nanoseconds. -/

namespace Buh.Node.Rotation
open Buh.Library.Fallible Buh.Wire.Codec Buh.Node.Trust Buh.Node.Authority

/-- `CryptoProvider`, as far as it loads keys. -/
structure Provider where
  SigningKey : Type
  loadPrivateKey : Bytes → Except String SigningKey

/-- The `tls` helper. -/
def tlsError (context : String) (e : String) : CoreError := ⟨"tls: " ++ context ++ ": " ++ e⟩

structure CertifiedKey (provider : Provider) where
  certs : List Bytes
  key : provider.SigningKey

section
variable (pki : Pki) (provider : Provider)

/-- What `context` says is where the provider fails. -/
def certifiedKey (context : String) (leaf : NodeLeaf) : Except CoreError (CertifiedKey provider) :=
  ((provider.loadPrivateKey leaf.privateKeyDer).map (fun key => ⟨leaf.chainDer, key⟩)).mapError (tlsError context)

structure NodeTls where
  trust : TrustStore
  resolver : CertifiedKey provider
  pki : RcgenNodeCa pki

variable {pki provider}

/-- `NodeTls::new`. There is no result where the issue panics. -/
def NodeTls.new (ca : RcgenNodeCa pki) (trust : TrustStore) (now : Int) (draws : Draws pki) :
    Option (Except CoreError (NodeTls pki provider)) := do
  let issued ← ca.issueLeaf now draws
  return do
    let leaf ← issued
    let resolver ← certifiedKey provider "load leaf key" leaf
    return ⟨trust, resolver, ca⟩

/-- A failure leaves the old leaf in its place. -/
def NodeTls.rotateLeaf (tls : NodeTls pki provider) (now : Int) (draws : Draws pki) :
    Option (NodeTls pki provider × Except CoreError Int) := do
  let issued ← tls.pki.issueLeaf now draws
  return match issued with
    | .error e => (tls, .error e)
    | .ok leaf =>
      match certifiedKey provider "load leaf key" leaf with
      | .error e => (tls, .error e)
      | .ok next => ({ tls with resolver := next }, .ok leaf.notAfterMs)

/-- `client_config`: the chain and key that a client presents. -/
def NodeTls.clientConfig (tls : NodeTls pki provider) (now : Int) (draws : Draws pki) :
    Option (Except CoreError (CertifiedKey provider)) := do
  let issued ← tls.pki.issueLeaf now draws
  return do
    let leaf ← issued
    certifiedKey provider "client auth cert" leaf

/-- An error of the registry leaves the snapshot as it was. -/
def refreshTrust (tls : NodeTls pki provider) (listed : Except CoreError (List TrustedPeer)) : NodeTls pki provider :=
  match listed with
  | .ok peers => { tls with trust := replace peers }
  | .error _ => tls

/-- A node that serves, with its timer and what that has logged. -/
structure Daemon (pki : Pki) (provider : Provider) where
  tls : NodeTls pki provider
  period : Nat
  /-- When the next tick is due. -/
  deadline : Int
  log : List (Int × Except CoreError Int)
  /-- The timer's task has panicked. -/
  stopped : Bool

/-- The start of `serve_pqmtls`. The first tick of the interval comes at once and does
nothing; the others follow `rotateEvery` apart, a second at least. -/
def serve (tls : NodeTls pki provider) (listed : Except CoreError (List TrustedPeer)) (rotateEvery : Nat)
    (spawned : Int) : Daemon pki provider :=
  let period := max rotateEvery second.toNat
  ⟨refreshTrust tls listed, period, spawned + period, [], false⟩

inductive Happening (pki : Pki) where
  | tick (draws : Draws pki) (listed : Except CoreError (List TrustedPeer))
  /-- `refresh_live` -/
  | admin (peers : List TrustedPeer)

/-- A tick never comes early. A late one leaves the times of the others as they are. -/
def step (daemon : Daemon pki provider) (now : Int) : Happening pki → Option (Daemon pki provider)
  | .tick draws listed =>
    if daemon.stopped ∨ now < daemon.deadline then none
    else
      match daemon.tls.rotateLeaf now draws with
      | none => some { daemon with stopped := true }
      | some (tls, result) => some { daemon with
          tls := refreshTrust tls listed
          deadline := daemon.deadline + daemon.period
          log := daemon.log ++ [(now, result)] }
  | .admin peers => some { daemon with tls := { daemon.tls with trust := replace peers } }

/-- What may have become of a node at a time. -/
inductive Run (first : Daemon pki provider) (spawned : Int) : Int → Daemon pki provider → Prop where
  | start : Run first spawned spawned first
  | wait {now later : Int} {daemon : Daemon pki provider} (run : Run first spawned now daemon) (passes : now ≤ later) :
      Run first spawned later daemon
  | happens {now : Int} {daemon next : Daemon pki provider} (run : Run first spawned now daemon)
      {happening : Happening pki} (stepped : step daemon now happening = some next) : Run first spawned now next

/-- When the last logged leaf was issued, `first` where there is none. -/
def lastIssue (first : Int) (log : List (Int × Except CoreError Int)) : Int :=
  log.foldl (fun issued line =>
    match line.2 with
    | .ok _ => line.1
    | .error _ => issued) first

/-- How many rotations have failed since. -/
def missed (log : List (Int × Except CoreError Int)) : Nat :=
  log.foldl (fun count line =>
    match line.2 with
    | .ok _ => 0
    | .error _ => count + 1) 0

theorem lastIssue_concat (first : Int) (log : List (Int × Except CoreError Int)) (line : Int × Except CoreError Int) :
    lastIssue first (log ++ [line]) = match line.2 with
      | .ok _ => line.1
      | .error _ => lastIssue first log := by
  rw [lastIssue, List.foldl_concat]
  rfl

theorem missed_concat (log : List (Int × Except CoreError Int)) (line : Int × Except CoreError Int) :
    missed (log ++ [line]) = match line.2 with
      | .ok _ => 0
      | .error _ => missed log + 1 := by
  rw [missed, List.foldl_concat]
  rfl

end

section
variable {pki : Pki} {provider : Provider}

theorem certifiedKey_ok {context : String} {leaf : NodeLeaf} {made : CertifiedKey provider}
    (ok : certifiedKey provider context leaf = .ok made) : made.certs = leaf.chainDer := by
  obtain ⟨key, -, rfl⟩ := map_eq_ok.mp (mapError_eq_ok.mp ok)
  rfl

theorem new_ok {ca : RcgenNodeCa pki} {trust : TrustStore} {now : Int} {draws : Draws pki} {tls : NodeTls pki provider}
    (new : NodeTls.new ca trust now draws = some (.ok tls)) :
    ∃ leaf, ca.issueLeaf now draws = some (.ok leaf) ∧ tls.resolver.certs = leaf.chainDer ∧ tls.pki = ca := by
  obtain ⟨issued, called, rest⟩ := Option.bind_eq_some_iff.mp new
  obtain ⟨leaf, ready, loads⟩ := bind_eq_ok.mp (Option.some.inj rest)
  obtain ⟨resolver, made, same⟩ := bind_eq_ok.mp loads
  cases same
  exact ⟨leaf, ready ▸ called, certifiedKey_ok made, rfl⟩

theorem clientConfig_ok {tls : NodeTls pki provider} {now : Int} {draws : Draws pki} {hello : CertifiedKey provider}
    (config : tls.clientConfig now draws = some (.ok hello)) :
    ∃ leaf, tls.pki.issueLeaf now draws = some (.ok leaf) ∧ hello.certs = leaf.chainDer := by
  obtain ⟨issued, called, rest⟩ := Option.bind_eq_some_iff.mp config
  obtain ⟨leaf, rfl, made⟩ := bind_eq_ok.mp (Option.some.inj rest)
  exact ⟨leaf, called, certifiedKey_ok made⟩

/-- A rotation swaps a new leaf in, or changes nothing. -/
theorem rotateLeaf_cases {tls after : NodeTls pki provider} {now : Int} {draws : Draws pki}
    {result : Except CoreError Int} (rotated : tls.rotateLeaf now draws = some (after, result)) :
    (∃ leaf, tls.pki.issueLeaf now draws = some (.ok leaf) ∧ after.resolver.certs = leaf.chainDer ∧
        after.pki = tls.pki ∧ ∃ expiry, result = .ok expiry) ∨
      (after = tls ∧ ∃ e, result = .error e) := by
  obtain ⟨issued, called, rest⟩ := Option.bind_eq_some_iff.mp rotated
  cases issued with
  | error e =>
    cases rest
    exact Or.inr ⟨rfl, e, rfl⟩
  | ok leaf =>
    cases made : certifiedKey provider "load leaf key" leaf with
    | error e =>
      simp only [made, pure, Option.some.injEq, Prod.mk.injEq] at rest
      exact Or.inr ⟨rest.1.symm, e, rest.2.symm⟩
    | ok next =>
      simp only [made, pure, Option.some.injEq, Prod.mk.injEq] at rest
      obtain ⟨rfl, rfl⟩ := rest
      exact Or.inl ⟨leaf, called, certifiedKey_ok made, rfl, _, rfl⟩

@[simp] theorem refreshTrust_pki (tls : NodeTls pki provider) (listed : Except CoreError (List TrustedPeer)) :
    (refreshTrust tls listed).pki = tls.pki := by
  cases listed <;> rfl

@[simp] theorem refreshTrust_resolver (tls : NodeTls pki provider) (listed : Except CoreError (List TrustedPeer)) :
    (refreshTrust tls listed).resolver = tls.resolver := by
  cases listed <;> rfl

/-- A node that has come up: `main.rs` from the issue of the first leaf to the timer. -/
structure Up (pki : Pki) (provider : Provider) where
  ca : RcgenNodeCa pki
  node : NodeCa pki ca
  issuedAt : Int
  draws : Draws pki
  tls : NodeTls pki provider
  new : NodeTls.new ca ∅ issuedAt draws = some (.ok tls)
  listed : Except CoreError (List TrustedPeer)
  rotateEvery : Nat
  spawned : Int
  inOrder : issuedAt ≤ spawned

def Up.first (up : Up pki provider) : Daemon pki provider := serve up.tls up.listed up.rotateEvery up.spawned

abbrev Up.Run (up : Up pki provider) (now : Int) (daemon : Daemon pki provider) : Prop :=
  Rotation.Run up.first up.spawned now daemon

/-- The leaf that a node serves is the last one its timer logged, and as old as the failures
since then let it be. -/
structure Serving (up : Up pki provider) (now : Int) (daemon : Daemon pki provider) (served : Presenting pki) : Prop where
  ca : served.ca = up.ca
  pki : daemon.tls.pki = up.ca
  certs : daemon.tls.resolver.certs = served.leaf.chainDer
  issued : served.issuedAt = lastIssue up.issuedAt daemon.log
  past : served.issuedAt ≤ now
  period : daemon.period = max up.rotateEvery second.toNat
  recent : daemon.deadline ≤
    served.issuedAt + (up.spawned - up.issuedAt) + (missed daemon.log + 1) * (daemon.period : Int)

theorem serving_first (up : Up pki provider) : ∃ served, Serving up up.spawned up.first served := by
  obtain ⟨leaf, issued, certs, same⟩ := new_ok up.new
  refine ⟨⟨up.ca, up.node, up.issuedAt, up.draws, leaf, issued⟩, rfl, ?_, ?_, rfl, up.inOrder, rfl, ?_⟩
  · exact (refreshTrust_pki _ _).trans same
  · exact (congrArg CertifiedKey.certs (refreshTrust_resolver _ _)).trans certs
  · change up.spawned + _ ≤ up.issuedAt + _ + _
    simp only [Up.first, serve, missed, List.foldl_nil]
    omega

/-- One step of the timer, or of the admin API. -/
theorem Serving.step {up : Up pki provider} {now : Int} {daemon next : Daemon pki provider} {served : Presenting pki}
    (serving : Serving up now daemon served) {happening : Happening pki}
    (stepped : Rotation.step daemon now happening = some next) : ∃ served', Serving up now next served' := by
  cases happening with
  | admin peers =>
    cases stepped
    exact ⟨served, serving.ca, serving.pki, serving.certs, serving.issued, serving.past, serving.period, serving.recent⟩
  | tick draws listed =>
    simp only [Rotation.step] at stepped
    split_ifs at stepped with early
    obtain ⟨-, due⟩ := not_or.mp early
    cases rotated : daemon.tls.rotateLeaf now draws with
    | none =>
      rw [rotated] at stepped
      cases stepped
      exact ⟨served, serving.ca, serving.pki, serving.certs, serving.issued, serving.past, serving.period, serving.recent⟩
    | some answer =>
      obtain ⟨tls, result⟩ := answer
      rw [rotated] at stepped
      cases stepped
      have delay := up.inOrder
      have recent := serving.recent
      rcases rotateLeaf_cases rotated with ⟨leaf, issued, certs, same, expiry, rfl⟩ | ⟨rfl, e, rfl⟩
      · rw [serving.pki] at issued same
        refine ⟨⟨up.ca, up.node, now, draws, leaf, issued⟩, rfl, ?_, ?_, ?_, le_refl now, serving.period, ?_⟩
        · exact (refreshTrust_pki _ _).trans same
        · exact (congrArg CertifiedKey.certs (refreshTrust_resolver _ _)).trans certs
        · rw [lastIssue_concat]
        · rw [missed_concat]
          dsimp only
          push_cast
          omega
      · refine ⟨served, serving.ca, ?_, ?_, ?_, serving.past, serving.period, ?_⟩
        · exact (refreshTrust_pki _ _).trans serving.pki
        · exact (congrArg CertifiedKey.certs (refreshTrust_resolver _ _)).trans serving.certs
        · rw [lastIssue_concat]
          exact serving.issued
        · rw [missed_concat]
          dsimp only
          push_cast
          linarith

theorem serving_run {up : Up pki provider} {now : Int} {daemon : Daemon pki provider} (run : up.Run now daemon) :
    ∃ served, Serving up now daemon served := by
  induction run with
  | start => exact serving_first up
  | wait _ passes ih =>
    obtain ⟨served, serving⟩ := ih
    exact ⟨served, serving.ca, serving.pki, serving.certs, serving.issued, serving.past.trans passes, serving.period,
      serving.recent⟩
  | happens _ stepped ih =>
    obtain ⟨served, serving⟩ := ih
    exact serving.step stepped

end

section
variable {pki : Pki} {provider : Provider}

/-- `UnixTime::as_secs` -/
def asSecs (clock : Nat) : Nat := clock / 1000000000

/-- The mutual handshake of `probe_peer`: the client looks at the chain that the server's
resolver has, then the server at the chain of the client. Each has its own clock. -/
def handshake (client server : Daemon pki provider) (hello : CertifiedKey provider) (serverName ocspResponse : Bytes)
    (clientClock serverClock : Nat) : Except String Unit := do
  presented server.tls.resolver.certs (fun endEntity intermediates =>
    verifyServerCert pki client.tls.trust endEntity intermediates serverName ocspResponse (asSecs clientClock))
  presented hello.certs (fun endEntity intermediates =>
    verifyClientCert pki server.tls.trust endEntity intermediates (asSecs serverClock))

/-- The years that rcgen stamps a CA for. -/
def InEra (clock : Nat) : Prop := 157766400 ≤ asSecs clock ∧ asSecs clock ≤ 67090118400

instance (clock : Nat) : Decidable (InEra clock) := inferInstanceAs (Decidable (_ ∧ _))

/-- The clock is inside the lifetime of a leaf, to the second. -/
def Lives (issuedAt : Int) (leafTtl clock : Nat) : Prop :=
  unixTimestamp issuedAt - 300 ≤ asSecs clock ∧ asSecs clock ≤ unixTimestamp (issuedAt + leafTtl)

theorem asSecs_eq (clock : Nat) : (asSecs clock : Int) = unixTimestamp clock := by
  unfold asSecs unixTimestamp second
  omega

/-- What the lifetime comes to in nanoseconds. -/
theorem lives_of_between {issuedAt : Int} {leafTtl clock : Nat} (begun : issuedAt - clockSkew ≤ clock)
    (lasts : (clock : Int) ≤ issuedAt + leafTtl) : Lives issuedAt leafTtl clock := by
  rw [Lives, asSecs_eq]
  unfold unixTimestamp
  unfold clockSkew at begun
  unfold second at begun ⊢
  omega

variable {signer : pki.Certificate → Option pki.PublicKey} (laws : Laws pki signer)
include laws

theorem presented_iff (node : Presenting pki) {clock : Nat} (era : InEra clock) (trust : TrustStore) :
    presented node.leaf.chainDer (fun endEntity intermediates =>
        verifyPinnedChain pki.certificates endEntity intermediates (asSecs clock) trust) = .ok () ↔
      node.ca.caFingerprint ∈ trust ∧ Lives node.issuedAt node.ca.leafTtl clock := by
  obtain ⟨made, -⟩ := node.node.made laws
  obtain ⟨ca, parsed, -, -, -, begins, ends⟩ := made.certificate laws
  obtain ⟨leafDer, chain, agree⟩ := node.verify_iff laws
  have valid : node.CaValid (asSecs clock) := by
    obtain ⟨early, late⟩ := era
    exact ⟨ca, parsed, by omega, by omega⟩
  have verified := agree [] (asSecs clock) trust valid
  rw [List.nil_append] at verified
  rw [chain, presented, verified]
  rfl

theorem handshake_iff {client server : Up pki provider} {now : Int} {c s : Daemon pki provider}
    (clientRun : client.Run now c) (serverRun : server.Run now s) {draws : Draws pki} {hello : CertifiedKey provider}
    (config : c.tls.clientConfig now draws = some (.ok hello)) (serverName ocspResponse : Bytes)
    {clientClock serverClock : Nat} (clientEra : InEra clientClock) (serverEra : InEra serverClock) :
    handshake c s hello serverName ocspResponse clientClock serverClock = .ok () ↔
      (server.ca.caFingerprint ∈ c.tls.trust ∧ Lives (lastIssue server.issuedAt s.log) server.ca.leafTtl clientClock) ∧
        client.ca.caFingerprint ∈ s.tls.trust ∧ Lives now client.ca.leafTtl serverClock := by
  obtain ⟨own, ownServing⟩ := serving_run clientRun
  obtain ⟨served, serving⟩ := serving_run serverRun
  obtain ⟨leaf, issued, certs⟩ := clientConfig_ok config
  rw [ownServing.pki] at issued
  have atClient := presented_iff laws served clientEra c.tls.trust
  have atServer := presented_iff laws ⟨client.ca, client.node, now, draws, leaf, issued⟩ serverEra s.tls.trust
  rw [serving.ca, serving.issued, ← serving.certs] at atClient
  rw [← certs] at atServer
  rw [← atClient, ← atServer, handshake, bind_eq_ok]
  constructor
  · rintro ⟨⟨⟩, first, second⟩
    exact ⟨first, second⟩
  · rintro ⟨first, second⟩
    exact ⟨(), first, second⟩

end

/-- A provider that cannot load one of the keys. -/
def sampleProvider : Provider := ⟨Unit, fun der => if der.length = 3 then .error "bad key" else .ok ()⟩

def sampleTime : Int := 1700000000 * second

theorem sample_issue {ca : RcgenNodeCa samplePki} (leafTtl : ca.leafTtl = 3600 * 1000000000) {now : Int}
    (near : sampleTime ≤ now ∧ now ≤ 2 * sampleTime) (key : Nat) :
    ∃ leaf, ca.issueLeaf now ⟨.ok key, []⟩ = some (.ok leaf) ∧ leaf.privateKeyDer = List.replicate key 0 := by
  unfold sampleTime second at near
  have begins : offsetDateTime (now - clockSkew) = some (now - clockSkew) := by
    unfold offsetDateTime clockSkew second
    rw [if_pos (by omega)]
  have ends : offsetDateTime (now + ca.leafTtl) = some (now + ca.leafTtl) := by
    rw [leafTtl]
    unfold offsetDateTime second
    rw [if_pos (by omega)]
  simp only [RcgenNodeCa.issueLeaf, begins, ends]
  exact ⟨_, rfl, rfl⟩

section
variable {pki : Pki} {provider : Provider} {ca : RcgenNodeCa pki} {tls : NodeTls pki provider} {now : Int}
  {draws : Draws pki} {leaf : NodeLeaf}

theorem new_issued (issued : ca.issueLeaf now draws = some (.ok leaf)) {resolver : CertifiedKey provider}
    (loads : certifiedKey provider "load leaf key" leaf = .ok resolver) (trust : TrustStore) :
    NodeTls.new ca trust now draws = some (.ok ⟨trust, resolver, ca⟩) := by
  simp only [NodeTls.new, issued, loads, bind, Option.bind, pure, Except.bind, Except.pure]

theorem rotateLeaf_failed (issued : tls.pki.issueLeaf now draws = some (.ok leaf)) {e : CoreError}
    (fails : certifiedKey provider "load leaf key" leaf = .error e) :
    tls.rotateLeaf now draws = some (tls, .error e) := by
  simp only [NodeTls.rotateLeaf, issued, fails, bind, Option.bind, pure]

theorem clientConfig_issued (issued : tls.pki.issueLeaf now draws = some (.ok leaf)) {hello : CertifiedKey provider}
    (loads : certifiedKey provider "client auth cert" leaf = .ok hello) :
    tls.clientConfig now draws = some (.ok hello) := by
  simp only [NodeTls.clientConfig, issued, loads, bind, Option.bind, pure, Except.bind]

end

/-- A node that trusts itself and rotates every thousand seconds. -/
theorem sample_up : ∃ up : Up samplePki sampleProvider, up.issuedAt = sampleTime ∧ up.spawned = sampleTime ∧
    up.rotateEvery = 1000 * 1000000000 ∧ up.ca.leafTtl = 3600 * 1000000000 ∧
    up.listed = .ok [⟨up.ca.caFingerprint, none, 0⟩] ∧ up.tls.pki = up.ca := by
  have fresh : Kept samplePki ⟨none, none, none, none⟩ := .fresh _ (.inl rfl)
  obtain ⟨ca, made, leafTtl⟩ : ∃ ca, (loadOrInit samplePki ⟨none, none, none, none⟩ sampleStart).2 = .ok ca ∧
      ca.leafTtl = sampleStart.leafTtl := ⟨_, rfl, rfl⟩
  have near : sampleTime ≤ sampleTime ∧ sampleTime ≤ 2 * sampleTime := by
    unfold sampleTime second
    omega
  obtain ⟨leaf, issued, key⟩ := sample_issue leafTtl near 2
  have loads : certifiedKey sampleProvider "load leaf key" leaf = .ok ⟨leaf.chainDer, ()⟩ := by
    simp only [certifiedKey, key, sampleProvider, List.length_replicate]
    rfl
  exact ⟨⟨ca, ⟨_, _, fresh, .inl made⟩, sampleTime, _, _, new_issued issued loads ∅, .ok [⟨ca.caFingerprint, none, 0⟩],
    1000 * 1000000000, sampleTime, le_refl _⟩, rfl, rfl, rfl, leafTtl, rfl, rfl⟩

end Buh.Node.Rotation
