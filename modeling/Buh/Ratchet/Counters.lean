import Buh.Ratchet.Failure
import Buh.Ratchet.Receiving

/-! Chain keys and counters. A session is traced together with the chain seeds it has
derived, so that the counters can be held against the number of KDF steps taken. -/

namespace Buh.Ratchet.Counters
open Buh.Wire.Codec Buh.Crypto Buh.Crypto.Primitives Buh.Ratchet.Message Buh.Ratchet.Chain
  Buh.Ratchet.State Buh.Ratchet.Placement Buh.Ratchet.Session Buh.Ratchet.Skipping Buh.Ratchet.Receiving
  Buh.Ratchet.Failure

/-- The seed of the last sending chain, and of every receiving chain with the ratchet key
it was derived for, the newest first. -/
structure Seeds (S : Suite) where
  sending : Option S.Key
  receiving : List (Bytes32 × S.Key)

/-- The seeds once `dh_ratchet` has run in `s`. -/
def Seeds.turn {S : Suite} (seeds : Seeds S) (s : RatchetState S) (header : Header) (generated : Bytes32) :
    Seeds S where
  sending := some (s.turnOutputs header generated).2.2
  receiving := (header.dh, (s.turnOutputs header generated).1.2) :: seeds.receiving

/-- The same case distinctions as `receiveKey`, up to its `dh_ratchet`. -/
def Seeds.receive {S : Suite} (seeds : Seeds S) (s : RatchetState S) (header : Header) (generated : Bytes32) :
    Seeds S :=
  match s.skipped.lookup (header.dh, header.n) with
  | some _ => seeds
  | none =>
    if s.dhr = some header.dh then seeds
    else
      match s.skipMessageKeys header.pn with
      | (_, .error _) => seeds
      | (s, .ok ()) => seeds.turn s header generated

/-- A session and the seeds it derived on the way. -/
structure Traced (S : Suite) where
  state : RatchetState S
  seeds : Seeds S

inductive Call where
  | encrypt (plaintext : Bytes)
  | decrypt (generated : Bytes32) (message : Bytes)

namespace Traced
variable {S : Suite}

def initiator (root : S.Key) (remoteRatchetKey generated : Bytes32) : Traced S where
  state := .initiator root remoteRatchetKey generated
  seeds := ⟨some (kdfRk S root (S.diffieHellman generated remoteRatchetKey)).2, []⟩

def responder (root : S.Key) (ratchetKey : Bytes32) : Traced S where
  state := .responder root ratchetKey
  seeds := ⟨none, []⟩

/-- One call, whatever it answers. -/
def step (t : Traced S) : Call → Traced S
  | .encrypt plaintext => ⟨(t.state.encrypt plaintext).1, t.seeds⟩
  | .decrypt generated message =>
    ⟨(t.state.decrypt generated message).1,
      match parseMessage message with
      | .error _ => t.seeds
      | .ok (header, _) => t.seeds.receive t.state header generated⟩

end Traced

/-- Both chain keys are as many steps past their seeds as the counters say, and every
banked key is the one of its number in a chain derived for its ratchet key. -/
structure Lockstep {S : Suite} (t : Traced S) : Prop where
  receiving : ∀ ck, t.state.ckr = some ck → ∃ dhr seed, t.state.dhr = some dhr ∧
    t.seeds.receiving.head? = some (dhr, seed) ∧ ck = chainIter S seed t.state.nr.toNat
  sending : ∀ ck, t.state.cks = some ck → ∃ seed, t.seeds.sending = some seed ∧
    ck = chainIter S seed t.state.ns.toNat
  banked : ∀ dh n mk, t.state.skipped.lookup (dh, n) = some mk → ∃ seed,
    (dh, seed) ∈ t.seeds.receiving ∧ mk = (kdfCk S (chainIter S seed n.toNat)).2

/-- A skip that `MAX_SKIP` admits is not stopped half-way by a full store. -/
def Unstopped (taken : Finset (Bytes32 × UInt32)) (dhr : Bytes32) (nr upto : UInt32) : Prop :=
  upto.toNat ≤ nr.toNat + maxSkip.toNat → SkipFits taken dhr nr upto

section
variable {S : Suite}

/-- What the header asks of the current receiving chain: its skip is not stopped, and the
counter has a value left for the message. -/
def SteadyCurrent (s : RatchetState S) (header : Header) : Prop :=
  s.ckr ≠ none → header.n.toNat ≤ s.nr.toNat + maxSkip.toNat →
    SkipFits s.skipped.keys header.dh s.nr header.n ∧ max s.nr.toNat header.n.toNat + 1 < 2 ^ 32

/-- The drain of the current chain can not be stopped, nor can the skip in the new one if
the drain goes through. -/
def SteadyTurn (s : RatchetState S) (header : Header) : Prop :=
  (∀ dhr, s.dhr = some dhr → s.ckr ≠ none → Unstopped s.skipped.keys dhr s.nr header.pn) ∧
    ((∀ dhr, s.dhr = some dhr → s.ckr ≠ none → SkipFits s.skipped.keys dhr s.nr header.pn) →
      Unstopped (drainedSlots s header.pn) header.dh 0 header.n)

/-- The call runs into no full store and no counter at the end of its range. -/
def Steady (s : RatchetState S) : Call → Prop
  | .encrypt _ => s.cks ≠ none → s.ns.toNat + 1 < 2 ^ 32
  | .decrypt _ message => ∀ header ciphertext, parseMessage message = .ok (header, ciphertext) →
    s.skipped.lookup (header.dh, header.n) = none →
      (s.dhr = some header.dh → SteadyCurrent s header) ∧ (s.dhr ≠ some header.dh → SteadyTurn s header)

/-- Runs of calls on any input, all of them steady where they are made. -/
def SteadyRun : Traced S → Traced S → Prop :=
  Relation.ReflTransGen fun t t' => ∃ call, Steady t.state call ∧ t' = t.step call

theorem Lockstep.initiator (root : S.Key) (remote generated : Bytes32) :
    Lockstep (Traced.initiator root remote generated) where
  receiving := by
    intro ck chain
    cases chain
  sending := by
    intro ck chain
    cases chain
    exact ⟨_, rfl, rfl⟩
  banked := by
    intro dh n mk found
    simp [Traced.initiator, RatchetState.initiator] at found

theorem Lockstep.responder (root : S.Key) (ratchetKey : Bytes32) :
    Lockstep (Traced.responder root ratchetKey) where
  receiving := by
    intro ck chain
    cases chain
  sending := by
    intro ck chain
    cases chain
  banked := by
    intro dh n mk found
    simp [Traced.responder, RatchetState.responder] at found

/-! What each piece of a call keeps. -/

variable {s after : RatchetState S} {seeds : Seeds S}

theorem Lockstep.erase (kept : Lockstep ⟨s, seeds⟩) (slot : Bytes32 × UInt32) :
    Lockstep ⟨{ s with skipped := s.skipped.erase slot }, seeds⟩ where
  receiving := kept.receiving
  sending := kept.sending
  banked := by
    intro dh n mk found
    by_cases same : (dh, n) = slot
    · rw [← same] at found
      simp at found
    · apply kept.banked dh n mk
      rwa [Finmap.lookup_erase_ne same] at found

theorem Lockstep.send (kept : Lockstep ⟨s, seeds⟩) {ck : S.Key} (chain : s.cks = some ck)
    (room : s.ns.toNat + 1 < 2 ^ 32) :
    Lockstep ⟨{ s with cks := some (kdfCk S ck).1, ns := s.ns + 1 }, seeds⟩ where
  receiving := kept.receiving
  sending := by
    intro next same
    cases same
    obtain ⟨seed, derived, rfl⟩ := kept.sending ck chain
    refine ⟨seed, derived, ?_⟩
    rw [toNat_succ s.ns room]
    rfl
  banked := kept.banked

theorem Lockstep.advance (kept : Lockstep ⟨s, seeds⟩) {ck : S.Key} (chain : s.ckr = some ck)
    (room : s.nr.toNat + 1 < 2 ^ 32) :
    Lockstep ⟨{ s with ckr := some (kdfCk S ck).1, nr := s.nr + 1 }, seeds⟩ where
  receiving := by
    intro next same
    cases same
    obtain ⟨dhr, seed, remote, derived, rfl⟩ := kept.receiving ck chain
    refine ⟨dhr, seed, remote, derived, ?_⟩
    rw [toNat_succ s.nr room]
    rfl
  sending := kept.sending
  banked := kept.banked

theorem Lockstep.skip (kept : Lockstep ⟨s, seeds⟩) {dhr : Bytes32} {ck : S.Key} {count : Nat}
    (remote : s.dhr = some dhr) (chain : s.ckr = some ck) (skips : Skips s after dhr ck count) :
    Lockstep ⟨after, seeds⟩ := by
  obtain ⟨dhr', seed, remote', derived, rfl⟩ := kept.receiving ck chain
  rw [remote] at remote'
  cases remote'
  constructor
  · intro next same
    have walked : after.ckr = some (chainIter S (chainIter S seed s.nr.toNat) count) :=
      congrArg RatchetState.ckr skips.rest
    refine ⟨dhr, seed, (congrArg RatchetState.dhr skips.rest).trans remote, derived, ?_⟩
    rw [walked, Option.some.injEq] at same
    rw [← same, chainIter_add, skips.nr]
  · intro next same
    have cks : after.cks = s.cks := by rw [skips.rest]
    have ns : after.ns = s.ns := by rw [skips.rest]
    dsimp only at same ⊢
    rw [cks] at same
    rw [ns]
    exact kept.sending next same
  · intro dh n mk found
    dsimp only at found
    by_cases inside : dh = dhr ∧ s.nr.toNat ≤ n.toNat ∧ n.toNat < s.nr.toNat + count
    · -- banked by this skip
      obtain ⟨rfl, low, high⟩ := inside
      rw [skips.banked n low high, chainIter_add, Nat.add_sub_cancel' low] at found
      cases found
      exact ⟨seed, List.mem_of_mem_head? derived, rfl⟩
    · rw [skips.kept (dh, n) inside] at found
      exact kept.banked dh n mk found

theorem Lockstep.turn (kept : Lockstep ⟨s, seeds⟩) (header : Header) (generated : Bytes32) :
    Lockstep ⟨s.dhRatchet header generated, seeds.turn s header generated⟩ where
  receiving := by
    intro ck chain
    cases chain
    exact ⟨header.dh, _, rfl, rfl, rfl⟩
  sending := by
    intro ck chain
    cases chain
    exact ⟨_, rfl, rfl⟩
  banked := by
    intro dh n mk found
    obtain ⟨seed, derived, value⟩ := kept.banked dh n mk found
    exact ⟨seed, List.mem_cons_of_mem _ derived, value⟩

/-- A skip that is not stopped half-way ends in lockstep, refused or not; a skip that goes
through leaves the counter where it was asked to be. -/
theorem Lockstep.skipMessageKeys (kept : Lockstep ⟨s, seeds⟩) {upto : UInt32}
    (free : ∀ dhr, s.dhr = some dhr → s.ckr ≠ none → Unstopped s.skipped.keys dhr s.nr upto) :
    Lockstep ⟨(s.skipMessageKeys upto).1, seeds⟩ := by
  cases answer : (s.skipMessageKeys upto).2 with
  | ok done =>
    have call : s.skipMessageKeys upto = ((s.skipMessageKeys upto).1, .ok ()) := Prod.ext rfl answer
    rcases skipMessageKeys_ok call with ⟨_, same⟩ | ⟨dhr, ck, remote, chain, skips⟩
    · rw [same]
      exact kept
    · exact kept.skip remote chain skips
  | error e =>
    -- short of a full store only the distance is refused, and that before the loop
    have failed : ¬(s.skipMessageKeys upto).2 = .ok () := by simp [answer]
    rw [drain_ok_iff] at failed
    push Not at failed
    obtain ⟨dhr, remote, present, stuck⟩ := failed
    obtain ⟨ck, chain⟩ := Option.ne_none_iff_exists'.mp present
    have far : saturatingAdd s.nr maxSkip < upto := by
      have beyond : ¬upto.toNat ≤ s.nr.toNat + maxSkip.toNat := fun near => stuck (free dhr remote present near)
      have top := upto.toNat_lt
      rw [UInt32.lt_iff_toNat_lt, saturatingAdd_toNat]
      omega
    rw [skipMessageKeys_loop remote chain, if_pos far]
    exact kept

/-- A skip that goes through in a chain ends at the later of the two numbers. -/
theorem skipMessageKeys_nr {upto : UInt32} (call : s.skipMessageKeys upto = (after, .ok ())) (remote : s.dhr ≠ none)
    (present : s.ckr ≠ none) : after.nr.toNat = max s.nr.toNat upto.toNat := by
  rcases skipMessageKeys_ok call with ⟨ended, _⟩ | ⟨_, _, _, _, skips⟩
  · exact absurd ended (by simp [remote, present])
  · have reached := skips.nr
    omega

theorem Lockstep.chainKey (kept : Lockstep ⟨s, seeds⟩) {header : Header} (current : s.dhr = some header.dh)
    (steady : SteadyCurrent s header) : Lockstep ⟨(s.chainKey header.n).1, seeds⟩ := by
  have free : ∀ dhr, s.dhr = some dhr → s.ckr ≠ none → Unstopped s.skipped.keys dhr s.nr header.n := by
    intro dhr remote present near
    rw [current, Option.some.injEq] at remote
    rw [← remote]
    exact (steady present near).1
  have skipped := kept.skipMessageKeys free
  unfold RatchetState.chainKey
  split
  · next middle e failed =>
    rw [failed] at skipped
    exact skipped
  · next middle done =>
    rw [done] at skipped
    split
    · exact skipped
    · next ck chain =>
      apply skipped.advance chain
      -- the chain was there before the skip, so the bound on the counter applies
      have present : s.ckr ≠ none := by
        intro ended
        rw [skipMessageKeys_idle header.n (.inr ended)] at done
        cases done
        rw [ended] at chain
        cases chain
      have fits := (skipMessageKeys_ok_iff current (Option.some_get (Option.isSome_iff_ne_none.mpr present)).symm).mp
        (congrArg Prod.snd done)
      have bound := (steady present fits.near).2
      rw [skipMessageKeys_nr done (by simp [current]) present]
      exact bound

/-- Right after a turn the chain is fresh, so only its own skip matters. -/
theorem steadyCurrent_turned (header : Header) (generated : Bytes32)
    (free : Unstopped s.skipped.keys header.dh 0 header.n) :
    SteadyCurrent (s.dhRatchet header generated) header := by
  intro _ near
  refine ⟨free near, ?_⟩
  have zero : (s.dhRatchet header generated).nr.toNat = 0 := rfl
  have limit : maxSkip.toNat = 1000 := rfl
  omega

theorem Lockstep.receiveKey (kept : Lockstep ⟨s, seeds⟩) {header : Header} (generated : Bytes32)
    (steady : s.skipped.lookup (header.dh, header.n) = none →
      (s.dhr = some header.dh → SteadyCurrent s header) ∧ (s.dhr ≠ some header.dh → SteadyTurn s header)) :
    Lockstep ⟨(s.receiveKey header generated).1, seeds.receive s header generated⟩ := by
  cases absent : s.skipped.lookup (header.dh, header.n) with
  | some key =>
    rw [RatchetState.receiveKey, Seeds.receive, absent]
    exact kept.erase _
  | none =>
    obtain ⟨stay, turn⟩ := steady absent
    by_cases current : s.dhr = some header.dh
    · rw [RatchetState.receiveKey, RatchetState.turnIfNew, Seeds.receive, absent, if_pos current]
      dsimp only
      rw [if_pos current]
      exact kept.chainKey current (stay current)
    · rw [RatchetState.receiveKey, RatchetState.turnIfNew, Seeds.receive, absent, if_neg current]
      dsimp only
      rw [if_neg current]
      obtain ⟨drain, fresh⟩ := turn current
      have drained := kept.skipMessageKeys drain
      cases call : s.skipMessageKeys header.pn with
      | mk middle answer =>
        rw [call] at drained
        cases answer with
        | error e => exact drained
        | ok done =>
          apply (drained.turn header generated).chainKey rfl
          apply steadyCurrent_turned
          rw [skipMessageKeys_keys call]
          exact fresh (drain_ok_iff.mp (congrArg Prod.snd call))

/-- One steady call keeps the counters in lockstep, whatever it answers. -/
theorem Lockstep.step {t : Traced S} (kept : Lockstep t) {call : Call} (steady : Steady t.state call) :
    Lockstep (t.step call) := by
  cases call with
  | encrypt plaintext =>
    cases chain : t.state.cks with
    | none =>
      have idle : t.step (.encrypt plaintext) = t := by rw [Traced.step, RatchetState.encrypt, chain]
      rw [idle]
      exact kept
    | some ck =>
      have moved : (t.state.encrypt plaintext).1 =
          { t.state with cks := some (kdfCk S ck).1, ns := t.state.ns + 1 } := by
        rw [RatchetState.encrypt, chain]
        dsimp only
        split <;> rfl
      rw [Traced.step, moved]
      exact kept.send chain (steady (by simp [chain]))
  | decrypt generated message =>
    rw [Traced.step]
    cases parsed : parseMessage message with
    | error e =>
      rw [RatchetState.decrypt, parsed]
      exact kept
    | ok content =>
      rw [RatchetState.decrypt_parsed parsed]
      exact kept.receiveKey generated (steady content.1 content.2 parsed)

/-- In every state that steady calls lead to, the chain keys and the banked keys are the
ones the counters say. -/
theorem chains_match_counters {start t : Traced S} (run : SteadyRun start t)
    (begins : (∃ root remote generated, start = Traced.initiator root remote generated) ∨
      ∃ root ratchetKey, start = Traced.responder root ratchetKey) : Lockstep t := by
  induction run with
  | refl =>
    rcases begins with ⟨root, remote, generated, rfl⟩ | ⟨root, ratchetKey, rfl⟩
    · exact Lockstep.initiator root remote generated
    · exact Lockstep.responder root ratchetKey
  | tail _ last ih =>
    obtain ⟨call, steady, rfl⟩ := last
    exact ih.step steady

end

/-- A fresh responder stays in lockstep when a forged header turns its ratchet. -/
theorem chains_match_counters_sample :
    Steady (RatchetState.responder sampleRoot samplePrekey) (.decrypt sampleGenerated forgedMessage) ∧
      Lockstep ((Traced.responder sampleRoot samplePrekey).step (.decrypt sampleGenerated forgedMessage)) := by
  have steady : Steady (RatchetState.responder sampleRoot samplePrekey) (.decrypt sampleGenerated forgedMessage) := by
    intro header ciphertext parsed absent
    have content : parseMessage forgedMessage = .ok (forgedHeader, []) := parseMessage_encode _ (by decide)
    rw [content] at parsed
    cases parsed
    refine ⟨fun current => ?_, fun _ => ⟨fun dhr remote => ?_, fun _ _ => ⟨?_, ?_⟩⟩⟩
    · cases current
    · cases remote
    · decide
    · intro i small
      exact absurd small (Nat.not_lt_zero i)
  exact ⟨steady, chains_match_counters (.single ⟨_, steady, rfl⟩) (.inr ⟨_, _, rfl⟩)⟩

/-! How a store is filled by headers alone: their ciphertexts need not open. -/

/-- A message of the forged ratchet key with a number of choice and an empty ciphertext. -/
def forgedAt (n : UInt32) : Bytes := (messageFrame ⟨forgedHeader.dh, 0, n⟩ []).encode

theorem parse_forgedAt (n : UInt32) : parseMessage (forgedAt n) = .ok (⟨forgedHeader.dh, 0, n⟩, []) :=
  parseMessage_encode _ (by decide)

/-- The receiving chain of the forged key stands `received` steps past `seed`, with so
many keys in the bank, none of them ahead. -/
structure Filled {S : Suite} (t : Traced S) (seed : S.Key) (received stored : Nat) : Prop where
  dhr : t.state.dhr = some forgedHeader.dh
  ckr : t.state.ckr = some (chainIter S seed received)
  nr : t.state.nr.toNat = received
  behind : ∀ n : UInt32, received ≤ n.toNat → (forgedHeader.dh, n) ∉ t.state.skipped.keys
  card : t.state.skipped.keys.card = stored
  derived : t.seeds.receiving.head? = some (forgedHeader.dh, seed)

section
variable {S : Suite} {seed : S.Key} {received stored : Nat}

theorem Filled.chainKey {s : RatchetState S} {seeds : Seeds S} (filled : Filled ⟨s, seeds⟩ seed received stored)
    {n : UInt32} (ahead : received ≤ n.toNat) (below : n.toNat + 1 < 2 ^ 32) (near : n.toNat - received ≤ maxSkip.toNat)
    (room : stored + (n.toNat - received) ≤ maxStoredSkipped) :
    Filled ⟨(s.chainKey n).1, seeds⟩ seed (n.toNat + 1) (stored + (n.toNat - received)) := by
  obtain ⟨dhr, ckr, nr, behind, card, derived⟩ := filled
  dsimp only at dhr ckr nr behind card derived
  have fits : SkipFits s.skipped.keys forgedHeader.dh s.nr n := skipFits_of_room (by omega) (by omega)
  obtain ⟨after, taken, remote, chain, number, keys⟩ := chainKey_walks dhr ckr fits (by omega) below
  rw [nr, chainIter_add, ← Nat.add_assoc, Nat.add_sub_cancel' ahead] at chain
  have top := n.toNat_lt
  have size : s.nr.toNat + (n.toNat - s.nr.toNat) < 2 ^ 32 := by omega
  have grown : (s.skipped.keys ∪ chainSlots forgedHeader.dh s.nr (n.toNat - s.nr.toNat)).card = _ :=
    card_walked size (fun n high => behind n (by omega))
  rw [taken]
  refine ⟨remote, chain, number, ?_, ?_, derived⟩
  · intro later high
    dsimp only
    rw [keys, Finset.mem_union, mem_chainSlots size]
    rintro (old | ⟨_, _, small⟩)
    · exact behind later (by omega) old
    · dsimp only at small
      omega
  · dsimp only
    rw [keys, grown, card, nr]

/-- A header of the current chain goes straight to `chainKey`. -/
theorem Filled.step {t : Traced S} (filled : Filled t seed received stored) {n : UInt32} (ahead : received ≤ n.toNat)
    (drawn : Bytes32) : t.step (.decrypt drawn (forgedAt n)) = ⟨(t.state.chainKey n).1, t.seeds⟩ := by
  have absent : t.state.skipped.lookup (forgedHeader.dh, n) = none := by
    rw [Finmap.lookup_eq_none, ← Finmap.mem_keys]
    exact filled.behind n ahead
  have stays : t.state.turnIfNew ⟨forgedHeader.dh, 0, n⟩ drawn = (t.state, .ok ()) := if_pos filled.dhr
  rw [Traced.step, parse_forgedAt, RatchetState.decrypt_parsed (parse_forgedAt n)]
  simp only [RatchetState.receiveKey, Seeds.receive, absent, stays, if_pos filled.dhr]

theorem Filled.walk {t : Traced S} (filled : Filled t seed received stored) {n : UInt32} (ahead : received ≤ n.toNat)
    (below : n.toNat + 1 < 2 ^ 32) (near : n.toNat - received ≤ maxSkip.toNat)
    (room : stored + (n.toNat - received) ≤ maxStoredSkipped) (drawn : Bytes32) :
    Filled (t.step (.decrypt drawn (forgedAt n))) seed (n.toNat + 1) (stored + (n.toNat - received)) := by
  rw [filled.step ahead drawn]
  exact Filled.chainKey (s := t.state) filled ahead below near room

/-- The first forged header turns a fresh responder and walks the chain it starts. -/
theorem filled_responder (root : S.Key) (ratchetKey drawn : Bytes32) {n : UInt32} (near : n.toNat ≤ maxSkip.toNat) :
    Filled ((Traced.responder root ratchetKey).step (.decrypt drawn (forgedAt n)))
      (kdfRk S root (S.diffieHellman ratchetKey forgedHeader.dh)).2 (n.toNat + 1) n.toNat := by
  obtain ⟨t, looked, remote, chain, number, keys, _⟩ :=
    responder_reaches root ratchetKey forgedHeader.dh drawn 0 near
  have limit : maxSkip.toNat = 1000 := rfl
  have size : (0 : UInt32).toNat + n.toNat < 2 ^ 32 := by
    rw [UInt32.toNat_zero]
    omega
  have turned : (Traced.responder root ratchetKey).step (.decrypt drawn (forgedAt n)) =
      ⟨t, Seeds.turn ⟨none, []⟩ (.responder root ratchetKey) ⟨forgedHeader.dh, 0, n⟩ drawn⟩ := by
    rw [Traced.step, parse_forgedAt, RatchetState.decrypt_parsed (parse_forgedAt n)]
    exact congrArg (fun state => Traced.mk state _) (congrArg Prod.fst looked)
  rw [turned]
  refine ⟨remote, chain, number, ?_, ?_, rfl⟩
  · intro later high
    dsimp only
    rw [keys, mem_chainSlots size]
    rintro ⟨_, _, small⟩
    rw [UInt32.toNat_zero] at small
    dsimp only at small
    omega
  · dsimp only
    rw [keys, card_chainSlots size]

/-- With the store full, one more header moves the chain key and not the counter. -/
theorem Filled.overrun {t : Traced S} (filled : Filled t seed received maxStoredSkipped) {n : UInt32}
    (next : n.toNat = received + 1) (drawn : Bytes32) :
    (t.step (.decrypt drawn (forgedAt n))).state.ckr = some (chainIter S seed (received + 1)) ∧
      (t.step (.decrypt drawn (forgedAt n))).state.nr = t.state.nr ∧
      (t.step (.decrypt drawn (forgedAt n))).seeds = t.seeds := by
  have counter := filled.nr
  have close : ¬saturatingAdd t.state.nr maxSkip < n := by
    have top := n.toNat_lt
    have limit : maxSkip.toNat = 1000 := rfl
    rw [UInt32.lt_iff_toNat_lt, saturatingAdd_toNat]
    omega
  have one : n.toNat - t.state.nr.toNat = 0 + 1 := by omega
  have stopped : t.state.skipMessageKeys n =
      ({ t.state with ckr := some (kdfCk S (chainIter S seed received)).1 },
        .error (.ratchet "skipped-key store full")) := by
    rw [skipMessageKeys_loop filled.dhr filled.ckr, if_neg close, one, RatchetState.skipLoop]
    exact if_pos (le_of_eq filled.card.symm)
  rw [filled.step (by omega) drawn, RatchetState.chainKey, stopped]
  exact ⟨rfl, rfl, rfl⟩

end

/-- Three forged headers put the receiving chain one step ahead of its counter. -/
theorem full_store_breaks_lockstep : ¬Lockstep
    ((((Traced.responder sampleRoot samplePrekey).step (.decrypt sampleGenerated (forgedAt 1000))).step
      (.decrypt sampleGenerated (forgedAt 2001))).step (.decrypt sampleGenerated (forgedAt 2003))) := by
  intro kept
  have first := filled_responder sampleRoot samplePrekey sampleGenerated (n := 1000) (by decide)
  have second := first.walk (n := 2001) (by decide) (by decide) (by decide) (by decide) sampleGenerated
  obtain ⟨chain, counter, seeds⟩ := second.overrun (n := 2003) (by decide) sampleGenerated
  obtain ⟨_, seed, _, derived, same⟩ := kept.receiving _ chain
  rw [seeds, second.derived] at derived
  cases derived
  rw [counter, second.nr] at same
  -- the two chain keys sit at different places of the schedule
  have place : ChainAt Symbolic.suite sampleRoot 1 0
      (kdfRk Symbolic.suite sampleRoot (Symbolic.suite.diffieHellman samplePrekey forgedHeader.dh)).2 := .seed .start _
  have numbers := place.iter_inj Symbolic.suite_ideal sampleRoot_session same
  omega

end Buh.Ratchet.Counters
