import Buh.Relay.Sweeping

/-! How long the relay keeps what it is sent: the sweeper that `serve.rs` spawns, beside the
requests that are served, over restarts of the process. Times are in milliseconds. -/

namespace Buh.Relay.Retention
open Buh.Library.RowTable Buh.Wire.Codec Buh.Crypto.Primitives Buh.Relay.Mailbox Buh.Relay.Refinement Buh.Relay.Sweeping

/-- A relay on its store, with the timer of the process that runs it. -/
structure Daemon where
  store : Store
  period : Nat
  /-- When the next tick is due. -/
  deadline : Int
  /-- When the sweeper last removed what had expired, or the store began. -/
  sweptAt : Int
  /-- The same in this process, or when it began. -/
  since : Int
  /-- How many sweeps have failed since. -/
  missed : Nat

/-- `spawn_sweeper`: the immediate first tick does nothing, and the others follow an interval
apart, a second at least. -/
def spawnSweeper (store : Store) (interval : Nat) (now sweptAt : Int) : Daemon :=
  let period := max interval 1000
  ⟨store, period, now + period, sweptAt, now, 0⟩

inductive Happening (P : Platform) where
  | request (request : Request P)
  /-- A tick, whose sweep may fail. -/
  | tick (failure : Option CoreError)
  /-- The process ends, and another starts on its store. -/
  | restart (interval : Nat)

section
variable {P : Platform}

/-- A tick never comes early. A late one leaves the times of the others as they are. -/
def step (config : CoreConfig) (daemon : Daemon) (now : Int) : Happening P → Option Daemon
  | .request request => some { daemon with store := (serve config daemon.store ⟨now, request⟩).1 }
  | .tick failure =>
    if now < daemon.deadline then none
    else
      let deadline := daemon.deadline + daemon.period
      match failure with
      | some _ => some { daemon with deadline, missed := daemon.missed + 1 }
      | none =>
        some { daemon with store := (Repo.expire daemon.store now).1, deadline, sweptAt := now, since := now, missed := 0 }
  | .restart interval => some (spawnSweeper daemon.store interval now daemon.sweptAt)

variable (P)

/-- What may have become of a relay at a time. -/
inductive Run (config : CoreConfig) (origin : Daemon) (spawned : Int) : Int → Daemon → Prop where
  | start : Run config origin spawned spawned origin
  | wait {now : Int} {daemon : Daemon} (run : Run config origin spawned now daemon) (later : Int)
      (passes : now ≤ later) : Run config origin spawned later daemon
  | happens {now : Int} {daemon next : Daemon} (run : Run config origin spawned now daemon) (happening : Happening P)
      (stepped : step config daemon now happening = some next) : Run config origin spawned now next

variable {P}

/-- The longest time to live that a push is given. -/
def lifetime (config : CoreConfig) : Int := max 0 (max config.defaultTtlSeconds config.maxTtlSeconds) * 1000

theorem expiry_le (config : CoreConfig) {now : Int} (epoch : 0 ≤ now) (ttlSeconds : Int) :
    expiry config now ttlSeconds ≤ now + lifetime config := by
  have clamped : clampTtl config ttlSeconds ≤ max 0 (max config.defaultTtlSeconds config.maxTtlSeconds) := by
    unfold clampTtl
    split_ifs <;> omega
  have longest : 0 ≤ lifetime config := by
    unfold lifetime
    omega
  have product : clampTtl config ttlSeconds * 1000 ≤ lifetime config := by
    unfold lifetime
    omega
  unfold expiry saturate i64Min i64Max
  split_ifs <;> omega

/-- A served request keeps the ages and the expiries of rows, and a row that it adds is of a push. -/
theorem rows_serve (config : CoreConfig) (store : Store) (event : Event P) {row : EnvelopeRow}
    (member : row ∈ (serve config store event).1.envelopes.contents) :
    (∃ old ∈ store.envelopes.contents, row.receivedAt = old.receivedAt ∧ row.expiresAt = old.expiresAt) ∨
      (row.receivedAt = event.at_ ∧ ∃ ttlSeconds, row.expiresAt = expiry config event.at_ ttlSeconds) := by
  obtain ⟨at_, request⟩ := event
  cases request with
  | push queueId payload ttlSeconds id =>
    simp only [serve, push, Repo.push] at member
    split_ifs at member
    · exact .inl ⟨row, member, rfl, rfl⟩
    · exact .inl ⟨row, member, rfl, rfl⟩
    · exact .inl ⟨row, member, rfl, rfl⟩
    · rw [Table.contents_insert, List.mem_append, List.mem_singleton] at member
      rcases member with old | rfl
      · exact .inl ⟨row, old, rfl, rfl⟩
      · exact .inr ⟨rfl, ttlSeconds, rfl⟩
  | pull queueId limit => exact .inl ⟨row, member, rfl, rfl⟩
  | ack queueId id =>
    change row ∈ (Repo.ack P store queueId id at_).1.envelopes.contents at member
    rw [(ack_answers store queueId id at_).1] at member
    obtain ⟨old, before, rfl⟩ := List.mem_map.mp member
    refine .inl ⟨old, before, ?_⟩
    unfold markRow
    split_ifs <;> exact ⟨rfl, rfl⟩
  | sweep =>
    change row ∈ (Repo.expire store at_).1.envelopes.contents at member
    rw [sweep_contents] at member
    exact .inl ⟨row, (List.mem_filter.mp member).1, rfl, rfl⟩

/-- No request takes a receipt back. -/
theorem receipts_serve (config : CoreConfig) (store : Store) (event : Event P) :
    store.receipts.contents <+: (serve config store event).1.receipts.contents := by
  obtain ⟨at_, request⟩ := event
  cases request with
  | push queueId payload ttlSeconds id =>
    simp only [serve, push, Repo.push]
    split_ifs <;> exact List.prefix_rfl
  | pull queueId limit => exact List.prefix_rfl
  | ack queueId id =>
    simp only [serve, Repo.ack]
    split_ifs
    · exact List.prefix_rfl
    · rw [Table.contents_insert]
      exact List.prefix_append _ _
  | sweep => exact List.prefix_rfl

/-- A row is younger than the last sweep, or had not expired then. -/
structure Recent (config : CoreConfig) (now sweptAt : Int) (row : EnvelopeRow) : Prop where
  past : row.receivedAt ≤ now
  expires : row.expiresAt ≤ row.receivedAt + lifetime config
  spared : sweptAt ≤ row.receivedAt ∨ sweptAt < row.expiresAt

structure Timed (config : CoreConfig) (now : Int) (daemon : Daemon) : Prop where
  epoch : 0 ≤ now
  swept : daemon.sweptAt ≤ daemon.since
  running : daemon.since ≤ now
  due : daemon.deadline ≤ daemon.since + (daemon.missed + 1) * (daemon.period : Int)
  rows : ∀ row ∈ daemon.store.envelopes.contents, Recent config now daemon.sweptAt row

section
variable {config : CoreConfig} {now : Int} {daemon next : Daemon}

theorem Timed.step (timed : Timed config now daemon) {happening : Happening P}
    (stepped : Retention.step config daemon now happening = some next) : Timed config now next := by
  have swept := timed.swept
  have running := timed.running
  have due := timed.due
  cases happening with
  | request request =>
    cases stepped
    refine ⟨timed.epoch, swept, running, due, fun row member => ?_⟩
    rcases rows_serve config daemon.store ⟨now, request⟩ member with
      ⟨old, before, received, expires⟩ | ⟨received, ttl, expires⟩
    · obtain ⟨past, bounded, spared⟩ := timed.rows old before
      rw [← received] at past bounded spared
      rw [← expires] at bounded spared
      exact ⟨past, bounded, spared⟩
    · have bounded := expiry_le config timed.epoch ttl
      rw [← expires] at bounded
      dsimp only at received
      exact ⟨by omega, by omega, .inl (by dsimp only; omega)⟩
  | tick failure =>
    simp only [Retention.step] at stepped
    split_ifs at stepped with early
    cases failure with
    | some e =>
      cases stepped
      refine ⟨timed.epoch, swept, running, ?_, timed.rows⟩
      push_cast
      linarith
    | none =>
      cases stepped
      refine ⟨timed.epoch, le_refl now, le_refl now, by simp only; push_cast; omega, fun row member => ?_⟩
      rw [sweep_contents] at member
      obtain ⟨before, unexpired⟩ := List.mem_filter.mp member
      obtain ⟨past, bounded, _⟩ := timed.rows row before
      rw [Bool.not_eq_true', decide_eq_false_iff_not, not_le] at unexpired
      exact ⟨past, bounded, .inr unexpired⟩
  | restart interval =>
    cases stepped
    refine ⟨timed.epoch, swept.trans running, le_refl now, ?_, timed.rows⟩
    simp only [spawnSweeper]
    push_cast
    omega

theorem Timed.run {origin : Daemon} {spawned : Int} (timed : Timed config spawned origin)
    (run : Run P config origin spawned now daemon) : Timed config now daemon := by
  induction run with
  | start => exact timed
  | wait _ _ passes ih =>
    refine ⟨ih.epoch.trans passes, ih.swept, ih.running.trans passes, ih.due, fun row member => ?_⟩
    obtain ⟨past, bounded, spared⟩ := ih.rows row member
    exact ⟨past.trans passes, bounded, spared⟩
  | happens _ _ stepped ih => exact ih.step stepped

theorem receipts_run {origin : Daemon} {spawned : Int} (run : Run P config origin spawned now daemon) :
    origin.store.receipts.contents <+: daemon.store.receipts.contents := by
  induction run with
  | start => exact List.prefix_rfl
  | wait _ _ _ ih => exact ih
  | happens run _ stepped ih =>
    rename_i happening
    cases happening with
    | request request =>
      cases stepped
      exact ih.trans (receipts_serve config _ ⟨_, request⟩)
    | tick failure =>
      simp only [Retention.step] at stepped
      split_ifs at stepped
      cases failure <;> cases stepped <;> exact ih
    | restart interval =>
      cases stepped
      exact ih

/-- Whatever requests are served, whatever sweeps fail and however often the process restarts:
no envelope, acknowledged or not, is kept for longer than the longest time to live and what
has passed since the last sweep; the timer bounds that by the sweeps it missed since, its
lateness, and the time its process was not up to sweep; and a receipt is kept for good. -/
theorem retention_bounded {interval : Nat} {first : Int} (epoch : 0 ≤ first)
    (run : Run P config (spawnSweeper .empty interval first first) first now daemon) :
    (∀ row ∈ daemon.store.envelopes.contents, now - row.receivedAt ≤ lifetime config + (now - daemon.sweptAt)) ∧
    (∀ late : Nat, now ≤ daemon.deadline + late → ∀ row ∈ daemon.store.envelopes.contents,
      now - row.receivedAt ≤
        lifetime config + (daemon.since - daemon.sweptAt) + (daemon.missed + 1) * daemon.period + late) ∧
    (∀ later daemon', Run P config daemon now later daemon' →
      daemon.store.receipts.contents <+: daemon'.store.receipts.contents) := by
  have fresh : Timed config first (spawnSweeper .empty interval first first) := by
    refine ⟨epoch, le_refl first, le_refl first, ?_, fun row member => nomatch member⟩
    simp only [spawnSweeper]
    push_cast
    omega
  have timed := fresh.run run
  have aged : ∀ row ∈ daemon.store.envelopes.contents, daemon.sweptAt ≤ row.receivedAt + lifetime config := by
    intro row member
    obtain ⟨past, bounded, spared⟩ := timed.rows row member
    have longest : 0 ≤ lifetime config := by
      unfold lifetime
      omega
    omega
  refine ⟨fun row member => ?_, fun late onTime row member => ?_, fun later daemon' further => receipts_run further⟩
  · have := aged row member
    omega
  · have := aged row member
    have := timed.due
    linarith

end

end

/-- A pushed envelope past a sweep that failed. -/
theorem retention_bounded_sample : ∃ daemon : Daemon,
    Run samplePlatform sampleConfig (spawnSweeper .empty 60000 5 5) 5 60009 daemon ∧ daemon.missed = 1 ∧
      daemon.store.envelopes.contents.length = 1 ∧
      ∀ row ∈ daemon.store.envelopes.contents, 60009 - row.receivedAt ≤ lifetime sampleConfig + 2 * 60000 + 4 := by
  have started : Run samplePlatform sampleConfig (spawnSweeper .empty 60000 5 5) 5 5 _ := .start
  have pushed := started.happens (.request (.push sampleQueue [1] 60 "first")) rfl
  have late := pushed.wait 60009 (by decide)
  have run := late.happens (.tick (some (.repo "busy"))) rfl
  refine ⟨_, run, rfl, rfl, fun row member => ?_⟩
  exact (retention_bounded (by decide) run).2.1 4 (by decide) row member

end Buh.Relay.Retention
