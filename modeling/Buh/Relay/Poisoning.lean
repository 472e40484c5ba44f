import Buh.Library.Fallible
import Buh.Relay.Sweeping

/-! What an accepted push can do to its queue. A pull turns every row it selects back into
calendar time and fails as a whole where one of them has none, and its limit is clamped
between bounds that `AppConfig::load` takes as they come. -/

namespace Buh.Relay.Poisoning
open Buh.Library.Fallible Buh.Library.RowTable Buh.Wire.Codec Buh.Crypto.Primitives
open Buh.Relay.Mailbox Buh.Relay.Refinement Buh.Relay.Sweeping

/-- The part of `RelayConfig` that the core reads. `AppConfig::load` checks none of it. -/
structure RelayConfig where
  defaultTtlSeconds : Int
  maxTtlSeconds : Int
  maxPayloadBytes : Nat
  maxPullLimit : Int

def RelayConfig.coreConfig (relay : RelayConfig) : CoreConfig where
  defaultTtlSeconds := relay.defaultTtlSeconds
  maxTtlSeconds := relay.maxTtlSeconds
  maxPayloadBytes := relay.maxPayloadBytes
  maxPullLimit := relay.maxPullLimit

/-- `DateTime::<Utc>::MIN_UTC` and `MAX_UTC`, from the year -262143 to the end of 262142. -/
def minUtc : Int := -8334601228800000
def maxUtc : Int := 8210266876799999

section
variable {P : Platform}

/-- The store after more requests. -/
def later (config : CoreConfig) (store : Store) (events : List (Event P)) : Store :=
  events.foldl (fun store event => (serve config store event).1) store

/-- The pull does not panic, and an error of it comes from another row than this one. -/
def Unharmed (P : Platform) (config : CoreConfig) (store : Store) (queueId : Bytes32) (limit now : Int)
    (row : EnvelopeRow) : Prop :=
  ∀ failure, Mailbox.pull P config store queueId limit now = .error failure → failure ≠ .panic ∧
    ∃ other ∈ store.envelopes.contents, Repo.isLive queueId now other = true ∧ other ≠ row ∧
      rowToEnvelope P other = .error failure

/-- Wherever the push is accepted, the row it stores expires later than now and within the
maximum, and harms no pull of the queue after any further requests. -/
def Harmless (config : CoreConfig) (payload : Bytes) (ttlSeconds : Int) (id : P.EnvelopeId) (now : Int) : Prop :=
  ∀ store queueId after, Mailbox.push P config store queueId payload ttlSeconds id now = (after, .ok id) →
    ∃ row, after = { store with envelopes := store.envelopes.insert row } ∧ row.receivedAt = now ∧
      now < row.expiresAt ∧ row.expiresAt ≤ now + 1000 * config.maxTtlSeconds ∧
      ∀ (events : List (Event P)) (limit at_ : Int), Unharmed P config (later config after events) queueId limit at_ row

/-- A store with one row. -/
def only (row : EnvelopeRow) : Store := { Store.empty with envelopes := Table.empty.insert row }

/-- The row that the push stores. -/
def stored (config : CoreConfig) (queueId : Bytes32) (payload : Bytes) (ttlSeconds : Int) (id : P.EnvelopeId) (now : Int) :
    EnvelopeRow :=
  ⟨queueId.toList, P.idText id, payload, now, expiry config now ttlSeconds, none⟩

theorem push_ok {config : CoreConfig} {store after : Store} {queueId : Bytes32} {payload : Bytes} {ttlSeconds now : Int}
    {id : P.EnvelopeId} (pushed : Mailbox.push P config store queueId payload ttlSeconds id now = (after, .ok id)) :
    after = { store with envelopes := store.envelopes.insert (stored config queueId payload ttlSeconds id now) } := by
  simp only [Mailbox.push, Repo.push] at pushed
  split_ifs at pushed with empty long taken
  · cases (congrArg Prod.snd pushed)
  · cases (congrArg Prod.snd pushed)
  · cases (congrArg Prod.snd pushed)
  · exact (congrArg Prod.fst pushed).symm

theorem msToDt_no_panic {ms : Int} : msToDt P ms ≠ .error .panic := by
  unfold msToDt
  split_ifs
  · intro failed
    cases failed
  · intro failed
    cases failed

theorem push_empty {config : CoreConfig} {payload : Bytes} (accepts : accepted config payload = true) (queueId : Bytes32)
    (ttlSeconds : Int) (id : P.EnvelopeId) (now : Int) : Mailbox.push P config .empty queueId payload ttlSeconds id now =
      (only (stored config queueId payload ttlSeconds id now), .ok id) := by
  apply push_stores _ accepts
  intro row member
  cases member

theorem rowToEnvelope_no_panic {row : EnvelopeRow} : rowToEnvelope P row ≠ .error .panic := by
  intro failed
  simp only [rowToEnvelope] at failed
  split at failed
  · rcases bind_eq_error.mp failed with parsed | ⟨_, _, rest⟩
    · cases parsed
    rcases bind_eq_error.mp rest with received | ⟨_, _, rest⟩
    · exact msToDt_no_panic received
    rcases bind_eq_error.mp rest with expires | ⟨_, _, done⟩
    · exact msToDt_no_panic expires
    · cases done
  · rcases bind_eq_error.mp failed with parsed | ⟨_, parsed, _⟩
    · cases parsed
    · cases parsed

/-- A stored row is read back exactly where its expiry is an instant of the calendar. -/
theorem stored_read (config : CoreConfig) (queueId : Bytes32) (payload : Bytes) (ttlSeconds : Int) (id : P.EnvelopeId)
    {now : Int} (reading : P.representable now = true) :
    rowToEnvelope P (stored config queueId payload ttlSeconds id now) =
      (msToDt P (expiry config now ttlSeconds)).map (fun expiresAt => ⟨id, payload, now, expiresAt⟩) := by
  simp only [rowToEnvelope, stored, P.parse_text, bind, Except.bind]
  rw [msToDt, if_pos reading]
  rfl

theorem stored_live (config : CoreConfig) (queueId : Bytes32) (payload : Bytes) {ttlSeconds now : Int} (id : P.EnvelopeId)
    (future : now < expiry config now ttlSeconds) :
    Repo.isLive queueId now (stored config queueId payload ttlSeconds id now) = true :=
  decide_eq_true ⟨rfl, rfl, future⟩

/-! The expiry. -/

/-- The last instant of the calendar is far from where the arithmetic saturates. -/
theorem expiry_good_iff (config : CoreConfig) (ttlSeconds : Int) {now : Int} (reading : minUtc ≤ now ∧ now ≤ maxUtc) :
    (now < expiry config now ttlSeconds ∧ expiry config now ttlSeconds ≤ now + 1000 * config.maxTtlSeconds ∧
        expiry config now ttlSeconds ≤ maxUtc) ↔
      1 ≤ clampTtl config ttlSeconds ∧ clampTtl config ttlSeconds ≤ config.maxTtlSeconds ∧
        now + 1000 * clampTtl config ttlSeconds ≤ maxUtc := by
  unfold minUtc maxUtc at *
  rw [expiry]
  generalize clampTtl config ttlSeconds = granted
  unfold saturate i64Min i64Max
  split_ifs <;> omega

theorem granted_good_iff (config : CoreConfig) (ttlSeconds now : Int) :
    (1 ≤ clampTtl config ttlSeconds ∧ clampTtl config ttlSeconds ≤ config.maxTtlSeconds ∧
        now + 1000 * clampTtl config ttlSeconds ≤ maxUtc) ↔
      (ttlSeconds ≤ 0 → 1 ≤ config.defaultTtlSeconds ∧ config.defaultTtlSeconds ≤ config.maxTtlSeconds ∧
          now + 1000 * config.defaultTtlSeconds ≤ maxUtc) ∧
        (0 < ttlSeconds → 1 ≤ config.maxTtlSeconds ∧ now + 1000 * min ttlSeconds config.maxTtlSeconds ≤ maxUtc) := by
  unfold clampTtl
  split_ifs <;> omega

/-! The pulls. -/

/-- A row that is read back harms no pull, whatever is in the store. -/
theorem unharmed_of_read {config : CoreConfig} (limited : 1 ≤ config.maxPullLimit) {row : EnvelopeRow}
    {envelope : StoredEnvelope P} (read : rowToEnvelope P row = .ok envelope) (store : Store) (queueId : Bytes32)
    (limit now : Int) : Unharmed P config store queueId limit now row := by
  intro failure failed
  rcases bind_eq_error.mp failed with clamped | ⟨_, _, pulled⟩
  · rw [clamp, if_neg (by omega)] at clamped
    cases clamped
  · obtain ⟨other, selected, fails⟩ := mapM_eq_error pulled
    obtain ⟨member, live⟩ := Table.mem_of_mem_select selected
    refine ⟨?_, other, member, live, ?_, fails⟩
    · rintro rfl
      exact rowToEnvelope_no_panic fails
    · rintro rfl
      rw [read] at fails
      cases fails

theorem pull_panics {config : CoreConfig} (unlimited : config.maxPullLimit < 1) (store : Store) (queueId : Bytes32)
    (limit now : Int) : Mailbox.pull P config store queueId limit now = .error .panic := by
  rw [Mailbox.pull, clamp, if_pos unlimited]
  rfl

/-- A live row by itself is what a pull reads. -/
theorem pull_single {config : CoreConfig} (limited : 1 ≤ config.maxPullLimit) {row : EnvelopeRow} {queueId : Bytes32}
    {now : Int} (live : Repo.isLive queueId now row = true) :
    Mailbox.pull P config (only row) queueId 1 now =
      [row].mapM (rowToEnvelope P) := by
  have one : max 1 (min 1 config.maxPullLimit) = 1 := by omega
  have selected : (Table.empty.insert row).select (Repo.isLive queueId now) EnvelopeRow.receivedAt 1 = [row] := by
    rw [Table.select_ordered _ _ _ (List.pairwise_singleton _ row), Table.contents_insert]
    change Table.limited 1 ([row].filter _) = [row]
    rw [List.filter_singleton, live]
    rfl
  rw [Mailbox.pull, clamp, if_neg (by omega), one]
  exact congrArg (fun rows => rows.mapM (rowToEnvelope P)) selected

variable (calendar : ∀ ms, P.representable ms = true ↔ minUtc ≤ ms ∧ ms ≤ maxUtc)
include calendar

theorem harmless_of_good {config : CoreConfig} {payload : Bytes} {ttlSeconds now : Int} {id : P.EnvelopeId}
    (reading : P.representable now = true) (limited : 1 ≤ config.maxPullLimit)
    (good : now < expiry config now ttlSeconds ∧ expiry config now ttlSeconds ≤ now + 1000 * config.maxTtlSeconds ∧
      expiry config now ttlSeconds ≤ maxUtc) : Harmless config payload ttlSeconds id now := by
  intro store queueId after pushed
  obtain ⟨future, within, ends⟩ := good
  have read := stored_read config queueId payload ttlSeconds id reading
  have expires : P.representable (expiry config now ttlSeconds) = true :=
    (calendar _).mpr ⟨((calendar now).mp reading).1.trans future.le, ends⟩
  rw [msToDt, if_pos expires] at read
  exact ⟨_, push_ok pushed, rfl, future, within, fun events limit at_ => unharmed_of_read limited read _ _ _ _⟩

/-- The push into an empty store and the pull right after it show every defect there is. -/
theorem good_of_harmless {config : CoreConfig} {payload : Bytes} (accepts : accepted config payload = true)
    {ttlSeconds now : Int} {id : P.EnvelopeId} (reading : P.representable now = true)
    (harmless : Harmless config payload ttlSeconds id now) :
    1 ≤ config.maxPullLimit ∧ now < expiry config now ttlSeconds ∧
      expiry config now ttlSeconds ≤ now + 1000 * config.maxTtlSeconds ∧ expiry config now ttlSeconds ≤ maxUtc := by
  have pushed := push_empty accepts (List.Vector.replicate 32 0) ttlSeconds id now
  obtain ⟨row, same, _, future, within, unharmed⟩ := harmless _ _ _ pushed
  obtain rfl : stored config (List.Vector.replicate 32 0) payload ttlSeconds id now = row := by
    have contents : [stored config (List.Vector.replicate 32 0) payload ttlSeconds id now] = [row] :=
      congrArg (fun store => store.envelopes.contents) same
    exact List.head_eq_of_cons_eq contents
  have limited : 1 ≤ config.maxPullLimit := by
    by_contra low
    exact (unharmed [] 1 now _ (pull_panics (by omega) _ _ _ _)).1 rfl
  refine ⟨limited, future, within, ?_⟩
  by_contra beyond
  -- the pull fails on the only row there is
  have outside : ¬P.representable (expiry config now ttlSeconds) = true := fun inside =>
    beyond ((calendar _).mp inside).2
  have failed := pull_single (P := P) limited (stored_live config (List.Vector.replicate 32 0) payload id future)
  rw [List.mapM_cons, stored_read _ _ _ _ _ reading, msToDt, if_neg outside] at failed
  obtain ⟨_, other, member, _, different, _⟩ := unharmed [] 1 now _ failed
  exact different (List.mem_singleton.mp member)

/-- No accepted push harms its queue exactly where the limit can be clamped and the lifetime
that is granted, the default or the request as far as the maximum, is at least a second, at
most the maximum, and over before the calendar is. -/
theorem harmless_iff (relay : RelayConfig) {payload : Bytes} (accepts : accepted relay.coreConfig payload = true)
    (ttlSeconds : Int) (id : P.EnvelopeId) {now : Int} (reading : P.representable now = true) :
    Harmless relay.coreConfig payload ttlSeconds id now ↔ 1 ≤ relay.maxPullLimit ∧
      (ttlSeconds ≤ 0 → 1 ≤ relay.defaultTtlSeconds ∧ relay.defaultTtlSeconds ≤ relay.maxTtlSeconds ∧
        now + 1000 * relay.defaultTtlSeconds ≤ maxUtc) ∧
      (0 < ttlSeconds → 1 ≤ relay.maxTtlSeconds ∧ now + 1000 * min ttlSeconds relay.maxTtlSeconds ≤ maxUtc) := by
  have expires := expiry_good_iff relay.coreConfig ttlSeconds ((calendar now).mp reading)
  have granted := granted_good_iff relay.coreConfig ttlSeconds now
  constructor
  · intro harmless
    obtain ⟨limited, good⟩ := good_of_harmless calendar accepts reading harmless
    exact ⟨limited, granted.mp (expires.mp good)⟩
  · rintro ⟨limited, good⟩
    exact harmless_of_good calendar reading limited (expires.mpr (granted.mpr good))

end

theorem calendar_bounded {ms : Int} (inside : decide (minUtc ≤ ms ∧ ms ≤ maxUtc) = true) :
    -2 ^ 62 ≤ ms ∧ ms < 2 ^ 62 := by
  have within := of_decide_eq_true inside
  unfold minUtc maxUtc at within
  omega

/-- The calendar of `chrono`. -/
def calendarPlatform : Platform where
  __ := samplePlatform
  representable ms := decide (minUtc ≤ ms ∧ ms ≤ maxUtc)
  bounded := calendar_bounded

theorem calendarPlatform_calendar (ms : Int) :
    calendarPlatform.representable ms = true ↔ minUtc ≤ ms ∧ ms ≤ maxUtc := decide_eq_true_iff

/-- The defaults of `CoreConfig`. -/
def defaultRelay : RelayConfig := ⟨604800, 2592000, 262144, 100⟩

/-- A maximum that is none. -/
def endlessRelay : RelayConfig := { defaultRelay with maxTtlSeconds := i64Max }

theorem harmless_iff_default : Harmless (P := calendarPlatform) defaultRelay.coreConfig [1] 60 "first" 0 :=
  (harmless_iff calendarPlatform_calendar defaultRelay (by decide) 60 "first" (by decide)).mpr (by decide)

/-- Without a maximum a client may ask for a lifetime that no pull of the queue can read back;
with a default of zero an envelope has expired when it arrives; with a limit of zero every
pull panics. -/
theorem accepted_push_poisons :
    (¬Harmless (P := calendarPlatform) endlessRelay.coreConfig [1] 9000000000000 "first" 0 ∧
      Mailbox.pull calendarPlatform endlessRelay.coreConfig
          (Mailbox.push calendarPlatform endlessRelay.coreConfig .empty sampleQueue [1] 9000000000000 "first" 0).1
          sampleQueue 1 0 =
        .error (.error (.repo "timestamp out of range: 9000000000000000"))) ∧
      ¬Harmless (P := calendarPlatform) { defaultRelay with defaultTtlSeconds := 0 }.coreConfig [1] 0 "first" 0 ∧
      ¬Harmless (P := calendarPlatform) { defaultRelay with maxPullLimit := 0 }.coreConfig [1] 60 "first" 0 := by
  refine ⟨⟨?_, ?_⟩, ?_, ?_⟩
  · exact mt (good_of_harmless calendarPlatform_calendar (by decide) (by decide)) (by decide)
  · have live := stored_live (P := calendarPlatform) endlessRelay.coreConfig sampleQueue [1] "first"
      (by decide : 0 < expiry endlessRelay.coreConfig 0 9000000000000)
    exact (pull_single (by decide) live).trans rfl
  · exact mt (good_of_harmless calendarPlatform_calendar (by decide) (by decide)) (by decide)
  · exact mt (good_of_harmless calendarPlatform_calendar (by decide) (by decide)) (by decide)

end Buh.Relay.Poisoning
