import Buh.Wire.Codec
import Mathlib.Logic.Function.Basic

/-! The key store of a browser, `keystore.ts`: its values are sealed under a key stretched from
a passphrase and the salt of the device. Each transaction on the database is a step, and those
of any number of tabs interleave. -/

namespace Buh.Client.KeyStore
open Buh.Wire.Codec

structure Argon2Options where
  password : String
  salt : Bytes
  parallelism : Nat
  iterations : Nat
  memorySize : Nat
  hashLength : Nat

/-- What the store takes from the browser and `hash-wasm`; `AES-GCM` under a key and an iv. -/
structure WebCrypto where
  argon2id : Argon2Options → Bytes
  encrypt : Bytes → Bytes → Bytes → Bytes
  decrypt : Bytes → Bytes → Bytes → Option Bytes
  decrypt_encrypt : ∀ key iv plaintext, decrypt key iv (encrypt key iv plaintext) = some plaintext

structure SealedRecord where
  iv : Bytes
  ct : Bytes
  deriving DecidableEq

/-- The object stores: the salt in `meta`, and `sealed`. -/
structure Database where
  salt : Option Bytes
  sealed : String → Option SealedRecord

/-- Where a tab is in `open`, from `openDB` on. -/
inductive Tab where
  | opening (passphrase : String)
  /-- There was no salt, and the one it drew is not stored yet. -/
  | salting (passphrase : String) (salt : Bytes)
  | opened (aesKey : Bytes)
  deriving DecidableEq

structure State where
  db : Database
  tabs : Nat → Option Tab
  /-- The records of `put` calls that have yet to reach the database. -/
  puts : Nat → Option (String × SealedRecord)

def State.initial : State := ⟨⟨none, fun _ => none⟩, fun _ => none, fun _ => none⟩

inductive Action where
  | openDB (tab : Nat) (passphrase : String)
  | readSalt (tab : Nat) (drawn : Bytes)
  | putSalt (tab : Nat)
  /-- `put` until it awaits the database. -/
  | encrypt (put tab : Nat) (key : String) (value iv : Bytes)
  | store (put : Nat)
  /-- The database refuses a record. -/
  | refuse (put : Nat)
  | delete (tab : Nat) (key : String)

def State.setTab (state : State) (id : Nat) (tab : Tab) : State :=
  { state with tabs := Function.update state.tabs id (some tab) }

def State.setPut (state : State) (id : Nat) (put : Option (String × SealedRecord)) : State :=
  { state with puts := Function.update state.puts id put }

def State.setSealed (state : State) (key : String) (record : Option SealedRecord) : State :=
  { state with db := { state.db with sealed := Function.update state.db.sealed key record } }

theorem State.setTab_self (state : State) (id : Nat) (tab : Tab) : (state.setTab id tab).tabs id = some tab :=
  Function.update_self _ _ _

theorem State.setTab_of_ne (state : State) {id other : Nat} (tab : Tab) (apart : other ≠ id) :
    (state.setTab id tab).tabs other = state.tabs other := Function.update_of_ne apart _ _

section
variable (W : WebCrypto)

def aesKey (passphrase : String) (salt : Bytes) : Bytes :=
  W.argon2id { password := passphrase, salt, parallelism := 1, iterations := 3, memorySize := 65536, hashLength := 32 }

/-- `none` where the action is not possible. -/
def step (state : State) : Action → Option State
  | .openDB id passphrase =>
    match state.tabs id with
    | none => some (state.setTab id (.opening passphrase))
    | some _ => none
  | .readSalt id drawn =>
    match state.tabs id, state.db.salt with
    | some (.opening passphrase), some salt => some (state.setTab id (.opened (aesKey W passphrase salt)))
    | some (.opening passphrase), none => some (state.setTab id (.salting passphrase drawn))
    | _, _ => none
  | .putSalt id =>
    match state.tabs id with
    | some (.salting passphrase salt) =>
      some ({ state with db := { state.db with salt := some salt } }.setTab id (.opened (aesKey W passphrase salt)))
    | _ => none
  | .encrypt put id key value iv =>
    match state.tabs id, state.puts put with
    | some (.opened aesKey), none => some (state.setPut put (some (key, ⟨iv, W.encrypt aesKey iv value⟩)))
    | _, _ => none
  | .store put =>
    match state.puts put with
    | some (key, record) => some ((state.setSealed key (some record)).setPut put none)
    | none => none
  | .refuse put => some (state.setPut put none)
  | .delete id key =>
    match state.tabs id with
    | some (.opened _) => some (state.setSealed key none)
    | _ => none

/-- One transaction reads the record; what follows touches the database no more. -/
def get (db : Database) (aesKey : Bytes) (key : String) : Except String (Option Bytes) :=
  match db.sealed key with
  | none => .ok none
  | some record =>
    match W.decrypt aesKey record.iv record.ct with
    | some plaintext => .ok (some plaintext)
    | none => .error "OperationError"

end

/-! What the store is for: a map, in which each value has the passphrase that it was put under. -/

structure Ledger where
  passphrases : Nat → Option String
  entries : String → Option (String × Bytes)
  pending : Nat → Option (String × String × Bytes)

def Ledger.initial : Ledger := ⟨fun _ => none, fun _ => none, fun _ => none⟩

def Ledger.step (ledger : Ledger) : Action → Ledger
  | .openDB id passphrase => { ledger with passphrases := Function.update ledger.passphrases id (some passphrase) }
  | .readSalt _ _ => ledger
  | .putSalt _ => ledger
  | .encrypt put id key value _ =>
    let entry := (ledger.passphrases id).map (fun passphrase => (key, passphrase, value))
    { ledger with pending := Function.update ledger.pending put entry }
  | .store put =>
    match ledger.pending put with
    | some (key, entry) =>
      { ledger with
        entries := Function.update ledger.entries key (some entry)
        pending := Function.update ledger.pending put none }
    | none => ledger
  | .refuse put => { ledger with pending := Function.update ledger.pending put none }
  | .delete _ key => { ledger with entries := Function.update ledger.entries key none }

/-- An open that finds no salt is alone in that: no other has drawn one that is still to be stored. -/
def Calm (state : State) : Action → Prop
  | .readSalt _ _ => state.db.salt = none → ∀ id passphrase salt, state.tabs id ≠ some (.salting passphrase salt)
  | _ => True

/-- The store beside its ledger, after any interleaving in which no two first opens race. -/
inductive Run (W : WebCrypto) : State → Ledger → Prop
  | start : Run W .initial .initial
  | next {state state' : State} {ledger : Ledger} (run : Run W state ledger) (action : Action)
      (calm : Calm state action) (stepped : step W state action = some state') : Run W state' (ledger.step action)

section
variable {W : WebCrypto}

/-- A record is of an entry, under the passphrase of the entry and the salt of the device. -/
def Holds (W : WebCrypto) (salt : Option Bytes) (record : SealedRecord) (entry : String × Bytes) : Prop :=
  ∃ s, salt = some s ∧ record.ct = W.encrypt (aesKey W entry.1 s) record.iv entry.2

/-- An open on its way has its passphrase in the ledger, and a key is of that passphrase and the salt. -/
def Opens (W : WebCrypto) (salt : Option Bytes) (passphrase : Option String) : Tab → Prop
  | .opening own => passphrase = some own
  | .salting own _ => passphrase = some own ∧ salt = none
  | .opened key => ∃ own s, passphrase = some own ∧ salt = some s ∧ key = aesKey W own s

structure Kept (W : WebCrypto) (state : State) (ledger : Ledger) : Prop where
  tabs : ∀ id tab, state.tabs id = some tab → Opens W state.db.salt (ledger.passphrases id) tab
  alone : ∀ first second own own' salt salt', state.tabs first = some (.salting own salt) →
    state.tabs second = some (.salting own' salt') → first = second
  puts : ∀ put, Option.Rel (fun record entry => record.1 = entry.1 ∧ Holds W state.db.salt record.2 entry.2)
    (state.puts put) (ledger.pending put)
  sealed : ∀ key, Option.Rel (Holds W state.db.salt) (state.db.sealed key) (ledger.entries key)

theorem kept_initial : Kept W .initial .initial where
  tabs := by
    intro id tab found
    cases found
  alone := by
    intro first second own own' salt salt' found
    cases found
  puts _ := .none
  sealed _ := .none

/-- One tab moves on, which is no first open beside another. -/
theorem Kept.setTab {state : State} {ledger : Ledger} (kept : Kept W state ledger) {id : Nat} {tab : Tab}
    {passphrases : Nat → Option String} (others : ∀ other, other ≠ id → passphrases other = ledger.passphrases other)
    (opens : Opens W state.db.salt (passphrases id) tab)
    (alone : ∀ own salt, tab = .salting own salt → ∀ other own' salt', state.tabs other ≠ some (.salting own' salt')) :
    Kept W (state.setTab id tab) { ledger with passphrases } where
  tabs other found there := by
    by_cases same : other = id
    · subst same
      rw [State.setTab_self] at there
      cases there
      exact opens
    · rw [State.setTab_of_ne _ _ same] at there
      change Opens W state.db.salt (passphrases other) found
      rw [others other same]
      exact kept.tabs other found there
  alone first second own own' salt salt' here there := by
    simp only [State.setTab, Function.update_apply] at here there
    split_ifs at here there with at_ at'
    · rw [at_, at']
    · exact absurd there (alone own salt (Option.some.inj here) second own' salt')
    · exact absurd here (alone own' salt' (Option.some.inj there) first own salt)
    · exact kept.alone first second own own' salt salt' here there
  puts := kept.puts
  sealed := kept.sealed

theorem rel_imp {β γ : Type} {R R' : β → γ → Prop} {b : Option β} {c : Option γ} (rel : Option.Rel R b c)
    (imp : ∀ b c, R b c → R' b c) : Option.Rel R' b c := by
  cases rel with
  | none => exact .none
  | some related => exact .some (imp _ _ related)

theorem rel_update {α β γ : Type} [DecidableEq α] {R : β → γ → Prop} {f : α → Option β} {g : α → Option γ}
    (rel : ∀ a, Option.Rel R (f a) (g a)) (at_ : α) {b : Option β} {c : Option γ} (new : Option.Rel R b c) (a : α) :
    Option.Rel R (Function.update f at_ b a) (Function.update g at_ c a) := by
  by_cases same : a = at_
  · subst same
    rwa [Function.update_self, Function.update_self]
  · rw [Function.update_of_ne same, Function.update_of_ne same]
    exact rel a

/-- The first salt. Nothing was sealed before it. -/
theorem Kept.salted {state : State} {ledger : Ledger} (kept : Kept W state ledger) {id : Nat} {passphrase : String}
    {salt : Bytes} (there : state.tabs id = some (.salting passphrase salt)) :
    Kept W ({ state with db := { state.db with salt := some salt } }.setTab id (.opened (aesKey W passphrase salt)))
      ledger := by
  obtain ⟨own, unsalted⟩ := kept.tabs id _ there
  have empty : ∀ record entry, ¬Holds W state.db.salt record entry := by
    rintro record entry ⟨s, salted, -⟩
    rw [unsalted] at salted
    cases salted
  constructor
  · intro other found here
    by_cases same : other = id
    · subst same
      rw [State.setTab_self] at here
      cases here
      exact ⟨passphrase, salt, own, rfl, rfl⟩
    · rw [State.setTab_of_ne _ _ same] at here
      have opens := kept.tabs other found here
      cases found with
      | opening own' => exact opens
      | salting own' salt' => exact absurd (kept.alone other id own' passphrase salt' salt here there) same
      | opened key =>
        obtain ⟨_, s, _, salted, _⟩ := opens
        rw [unsalted] at salted
        cases salted
  · intro first second own' own'' salt' salt'' here also
    have elsewhere : ∀ other own salt', (({ state with db := { state.db with salt := some salt } } : State).setTab id
        (.opened (aesKey W passphrase salt))).tabs other = some (.salting own salt') →
        state.tabs other = some (.salting own salt') := by
      intro other own salt' found
      by_cases same : other = id
      · rw [same, State.setTab_self] at found
        cases found
      · rwa [State.setTab_of_ne _ _ same] at found
    exact kept.alone first second own' own'' salt' salt'' (elsewhere _ _ _ here) (elsewhere _ _ _ also)
  · exact fun put => rel_imp (kept.puts put) (fun record entry both => absurd both.2 (empty _ _))
  · exact fun key => rel_imp (kept.sealed key) (fun record entry holds => absurd holds (empty _ _))

theorem Kept.step {state state' : State} {ledger : Ledger} (kept : Kept W state ledger) {action : Action}
    (calm : Calm state action) (stepped : KeyStore.step W state action = some state') :
    Kept W state' (ledger.step action) := by
  cases action with
  | openDB id passphrase =>
    simp only [KeyStore.step] at stepped
    split at stepped
    · cases stepped
      refine kept.setTab (fun other apart => Function.update_of_ne apart _ _) ?_ (fun own salt absurd_ => nomatch absurd_)
      exact Function.update_self _ _ _
    · cases stepped
  | readSalt id drawn =>
    simp only [KeyStore.step] at stepped
    split at stepped
    · next passphrase salt there salted =>
      cases stepped
      have own : ledger.passphrases id = some passphrase := kept.tabs id _ there
      exact kept.setTab (fun _ _ => rfl) ⟨passphrase, salt, own, salted, rfl⟩ (fun own salt absurd_ => nomatch absurd_)
    · next passphrase there unsalted =>
      cases stepped
      exact kept.setTab (fun _ _ => rfl) ⟨kept.tabs id _ there, unsalted⟩ (fun _ _ _ => calm unsalted)
    · cases stepped
  | putSalt id =>
    simp only [KeyStore.step] at stepped
    split at stepped
    · next passphrase salt there =>
      cases stepped
      exact kept.salted there
    · cases stepped
  | encrypt put id key value iv =>
    simp only [KeyStore.step] at stepped
    split at stepped
    · next aesKey there _ =>
      cases stepped
      obtain ⟨own, s, passphrase, salted, rfl⟩ := kept.tabs id _ there
      refine ⟨kept.tabs, kept.alone, rel_update kept.puts put ?_, kept.sealed⟩
      rw [passphrase]
      exact .some ⟨rfl, s, salted, rfl⟩
    · cases stepped
  | store put =>
    have waiting := kept.puts put
    simp only [KeyStore.step, Ledger.step] at stepped ⊢
    cases here : state.puts put with
    | none =>
      rw [here] at stepped
      cases stepped
    | some record =>
      cases there : ledger.pending put with
      | none =>
        rw [here, there] at waiting
        cases waiting
      | some entry =>
        rw [here, there] at waiting
        rw [here] at stepped
        cases stepped
        obtain ⟨key, record⟩ := record
        obtain ⟨key', entry⟩ := entry
        cases waiting with
        | some both =>
          obtain ⟨same, holds⟩ := both
          dsimp only at same
          subst same
          exact ⟨kept.tabs, kept.alone, rel_update kept.puts put .none, rel_update kept.sealed key (.some holds)⟩
  | refuse put =>
    cases stepped
    exact ⟨kept.tabs, kept.alone, rel_update kept.puts put .none, kept.sealed⟩
  | delete id key =>
    simp only [KeyStore.step] at stepped
    split at stepped
    · cases stepped
      exact ⟨kept.tabs, kept.alone, kept.puts, rel_update kept.sealed key .none⟩
    · cases stepped

theorem Run.kept {state : State} {ledger : Ledger} (run : Run W state ledger) : Kept W state ledger := by
  induction run with
  | start => exact kept_initial
  | next run action calm stepped ih => exact ih.step calm stepped

/-- However the calls of the tabs overlap, and however often the store is opened again: a `get`
finds nothing just where nothing is put or it is deleted since, and under the passphrase that
it was put under it reads the last value stored. -/
theorem store_is_a_map {state : State} {ledger : Ledger} (run : Run W state ledger) {id : Nat} {aesKey : Bytes}
    (opened : state.tabs id = some (.opened aesKey)) (key : String) :
    (get W state.db aesKey key = .ok none ↔ ledger.entries key = none) ∧
      ∀ passphrase value, ledger.passphrases id = some passphrase → ledger.entries key = some (passphrase, value) →
        get W state.db aesKey key = .ok (some value) := by
  have kept := run.kept
  have held := kept.sealed key
  obtain ⟨own, s, passphrase, salted, rfl⟩ := kept.tabs id _ opened
  cases here : state.db.sealed key with
  | none =>
    cases there : ledger.entries key with
    | some entry =>
      rw [here, there] at held
      cases held
    | none => simp [get, here]
  | some record =>
    cases there : ledger.entries key with
    | none =>
      rw [here, there] at held
      cases held
    | some entry =>
      rw [here, there] at held
      cases held with
      | some holds =>
        obtain ⟨s', salted', sealed⟩ := holds
        rw [salted] at salted'
        cases salted'
        constructor
        · simp only [get, here]
          cases W.decrypt (KeyStore.aesKey W own s) record.iv record.ct <;> simp
        · intro passphrase' value own' same
          rw [passphrase] at own'
          cases own'
          cases same
          simp only [get, here, sealed, W.decrypt_encrypt]

end

/-- A cipher that writes the key in front, and refuses another. -/
def sampleCrypto : WebCrypto where
  argon2id options := options.password.toList.map (fun c => UInt8.ofNat c.toNat) ++ options.salt
  encrypt key iv plaintext := key ++ iv ++ plaintext
  decrypt key iv ct := if key ++ iv <+: ct then some (ct.drop (key ++ iv).length) else none
  decrypt_encrypt key iv plaintext := by rw [if_pos (List.prefix_append _ _), List.drop_left]

/-- A session, saved in one tab and read in another. -/
theorem store_is_a_map_sample : ∃ state ledger key, Run sampleCrypto state ledger ∧ state.tabs 1 = some (.opened key) ∧
    get sampleCrypto state.db key "bob/session" = .ok none ∧
      get sampleCrypto state.db key "alice/session" = .ok (some [7]) := by
  have calm : Calm (State.initial.setTab 0 (.opening "p")) (.readSalt 0 [1]) := by
    intro _ id passphrase salt found
    by_cases same : id = 0
    · rw [same, State.setTab_self] at found
      cases found
    · rw [State.setTab_of_ne _ _ same] at found
      cases found
  have first : Run sampleCrypto (State.initial.setTab 0 (.opening "p")) _ := .next .start (.openDB 0 "p") trivial rfl
  have salted := (first.next (.readSalt 0 [1]) calm rfl).next (.putSalt 0) trivial rfl
  have saved := (salted.next (.encrypt 0 0 "alice/session" [7] [2]) trivial rfl).next (.store 0) trivial rfl
  have run := (saved.next (.openDB 1 "p") trivial rfl).next (.readSalt 1 [3]) (fun unsalted => nomatch unsalted) rfl
  refine ⟨_, _, _, run, State.setTab_self _ _ _, ?_, ?_⟩
  · exact ((store_is_a_map run (State.setTab_self _ _ _) "bob/session").1).mpr rfl
  · exact (store_is_a_map run (State.setTab_self _ _ _) "alice/session").2 "p" [7] rfl rfl

/-- Two first opens that race. What the first of them saves, no later one reads. -/
example : ([.openDB 0 "p", .openDB 1 "p", .readSalt 0 [1], .readSalt 1 [2], .putSalt 0, .putSalt 1,
    .encrypt 0 0 "alice/session" [7] [3], .store 0, .openDB 2 "p", .readSalt 2 [4]].foldlM (step sampleCrypto)
      State.initial).bind (fun state =>
        match state.tabs 2 with
        | some (.opened key) => some (get sampleCrypto state.db key "alice/session")
        | _ => none) = some (.error "OperationError") := by
  rfl

end Buh.Client.KeyStore
