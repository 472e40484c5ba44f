import Buh.Ratchet.Authenticity
import Buh.Ratchet.Coverage
import Buh.Ratchet.Losses
import Buh.Ratchet.Stamps

/-! Messages of the peer in any order. When two orders open all of them, they end in the
same state, whatever the session has been through before. -/

namespace Buh.Ratchet.Reordering
open Buh.Library.Overlay Buh.Wire.Codec Buh.Crypto Buh.Crypto.Primitives Buh.Ratchet.Message Buh.Ratchet.Chain
  Buh.Ratchet.State Buh.Ratchet.Placement Buh.Ratchet.Session Buh.Ratchet.Secrecy Buh.Ratchet.Skipping
  Buh.Ratchet.Receiving Buh.Ratchet.Coverage Buh.Ratchet.Losses Buh.Ratchet.Stamps

section
variable {S : Suite}

/-- Every message in `taken` has been opened once, by calls that would all draw the same
secret. -/
inductive Receives (drawn : Bytes32) (s : RatchetState S) : Set (Item S) → RatchetState S → Prop where
  | start : Receives drawn s ∅ s
  | next {taken : Set (Item S)} {t u : RatchetState S} {item : Item S} (before : Receives drawn s taken t)
      (call : t.receiveKey item.header drawn = (u, .ok item.key)) : Receives drawn s (insert item taken) u

/-- Where a drain of the current chain up to the number `pn` ends. -/
def drain (nr pn : UInt32) (count : Nat) : Nat := count + (pn.toNat - (nr + UInt32.ofNat count).toNat)

/-- The seed of the receiving chain that a turn on the ratchet key starts. -/
def turnSeed (s : RatchetState S) (dh : Bytes32) : S.Key := (kdfRk S s.rk (S.diffieHellman s.dhs dh)).2

/-- The current chain has been walked and drained, the ratchet has turned, and the chain of
the turn has been walked. -/
structure Crossed (drawn : Bytes32) (s : RatchetState S) (dhr : Bytes32) (ck : S.Key) (before later : Set (Item S))
    (dh : Bytes32) (pn : UInt32) (reached count further : Nat) (middle u : RatchetState S) : Prop where
  walked : Walked s dhr ck before middle count
  led : Led ck before reached
  within : reached ≤ count
  drained : s.dhr = some dhr → s.ckr = some ck → count = drain s.nr pn reached
  walkedOn : Walked (middle.dhRatchet ⟨dh, pn, 0⟩ drawn) dh (turnSeed s dh) later u further
  ledOn : Led (turnSeed s dh) later further
  turns : ∃ item ∈ later, item.header.dh = dh ∧ item.header.pn = pn ∧ ∃ i, item.key = keyAt S (turnSeed s dh) i

/-- A drain from further on, but not past its end, ends in the same place. -/
theorem drain_drain {nr pn : UInt32} {count later : Nat} (further : count ≤ later) (within : later ≤ drain nr pn count) :
    drain nr pn later = drain nr pn count := by
  obtain ⟨more, rfl⟩ := Nat.exists_eq_add_of_le further
  have top := pn.toNat_lt
  unfold drain at within ⊢
  have step : (nr + UInt32.ofNat (count + more)).toNat = (nr + UInt32.ofNat count).toNat + more := by
    have := (nr + UInt32.ofNat count).toNat_lt
    rw [UInt32.ofNat_add, ← UInt32.add_assoc, UInt32.toNat_add, UInt32.toNat_ofNat']
    omega
  omega

theorem keyAt_at {root ck : S.Key} {d k : Nat} (place : ChainAt S root d k ck) (i : Nat) :
    MessageAt S root d (k + i) (keyAt S ck i) := ⟨_, place.iter i, rfl⟩

/-- The drain before a turn leaves the slots of the new ratchet key alone. -/
theorem drain_absent {t u : RatchetState S} {upto n : UInt32} {dh : Bytes32} (call : t.skipMessageKeys upto = (u, .ok ()))
    (other : t.dhr ≠ some dh) (absent : t.skipped.lookup (dh, n) = none) : u.skipped.lookup (dh, n) = none := by
  rcases skipMessageKeys_ok call with ⟨_, rfl⟩ | ⟨dhr, ck, remote, _, skips⟩
  · exact absent
  · rw [skips.kept, absent]
    rintro ⟨same, _⟩
    exact other (remote.trans (congrArg some same.symm))

end

section
variable {S : Suite} (ideal : Ideal S) {root : S.Key} (session : SessionRoot S root)
include ideal session
variable {s : RatchetState S} {depth sendPos recvPos : Nat}

theorem keyAt_injective {ck : S.Key} {d k : Nat} (place : ChainAt S root d k ck) :
    Function.Injective (keyAt S ck) := by
  intro i j same
  have := (MessageAt.unique ideal session (keyAt_at place i) (same ▸ keyAt_at place j)).2
  omega

/-- Every state has a receiving chain none of whose keys is banked: its own, or else one
that it could turn to. -/
theorem exists_chain (placed : Placed S root s depth sendPos recvPos) :
    ∃ dhr ck, Fresh s ck ∧ (∀ dhr' ck', s.dhr = some dhr' → s.ckr = some ck' → dhr' = dhr ∧ ck' = ck) := by
  cases current : s.ckr with
  | none =>
    let seed := (kdfRk S s.rk (S.diffieHellman s.dhs s.dhs)).2
    have place : ChainAt S root (depth + 1) 0 seed := .seed placed.rk _
    refine ⟨s.dhs, seed, ⟨keyAt_injective ideal session place, ?_, placed.distinct⟩, fun _ _ _ none => by cases none⟩
    intro slot i banked
    obtain ⟨d, k, other, _, under, _⟩ := placed.bank slot _ banked
    have := (MessageAt.unique ideal session (keyAt_at place i) other).1
    omega
  | some ck =>
    obtain ⟨below, under, place⟩ := placed.ckr ck current
    refine ⟨s.dhr.getD s.dhs, ck, ⟨keyAt_injective ideal session place, ?_, placed.distinct⟩, ?_⟩
    · intro slot i banked
      obtain ⟨d, k, other, turns, total, inside⟩ := placed.bank slot _ banked
      obtain ⟨depths, positions⟩ := MessageAt.unique ideal session (keyAt_at place i) other
      have := inside (by omega)
      omega
    · intro dhr' ck' remote same
      rw [remote]
      exact ⟨rfl, (Option.some.inj same).symm⟩

/-- The key belongs to a chain that the session has reached without another turn. -/
def Below (S : Suite) (root : S.Key) (depth : Nat) (key : S.Key) : Prop :=
  ∃ d k, MessageAt S root d k key ∧ d < depth

omit ideal session in
theorem covered_below (placed : Placed S root s depth sendPos recvPos) {dhr : Bytes32} {ck key : S.Key}
    {taken : Set (Item S)} {count : Nat} {slot : Bytes32 × UInt32} (chain : 0 < count → s.ckr = some ck)
    (read : covered s dhr ck taken count slot = some key) : Below S root depth key := by
  rcases overlay_source read with banked | ⟨i, small, _, rfl, _⟩
  · obtain ⟨d, k, place, turns, total, _⟩ := placed.bank slot key banked
    exact ⟨d, k, place, by omega⟩
  · obtain ⟨below, under, place⟩ := placed.ckr ck (chain (by omega))
    exact ⟨below, _, keyAt_at place i, by omega⟩

omit ideal session in
theorem banked_below (placed : Placed S root s depth sendPos recvPos) {dhr : Bytes32} {ck key : S.Key}
    {taken : Set (Item S)} {t : RatchetState S} {count : Nat} (walked : Walked s dhr ck taken t count)
    {slot : Bytes32 × UInt32} (banked : t.skipped.lookup slot = some key) : Below S root depth key :=
  covered_below placed (fun moved => (walked.chain moved).2) ((walked.bank slot key).mp banked).1

omit ideal session in
theorem taken_below (placed : Placed S root s depth sendPos recvPos) {dhr : Bytes32} {ck : S.Key}
    {taken : Set (Item S)} {t : RatchetState S} {count : Nat} (walked : Walked s dhr ck taken t count) {item : Item S}
    (member : item ∈ taken) : Below S root depth item.key := by
  rcases walked.source item member with banked | ⟨i, small, key⟩
  · obtain ⟨d, k, place, turns, total, _⟩ := placed.bank _ _ banked
    exact ⟨d, k, place, by omega⟩
  · obtain ⟨below, under, place⟩ := placed.ckr ck (walked.chain (by omega)).2
    exact ⟨below, _, key ▸ keyAt_at place i, by omega⟩

omit ideal session in
theorem turnSeed_at (placed : Placed S root s depth sendPos recvPos) (dh : Bytes32) :
    ChainAt S root (depth + 1) 0 (turnSeed s dh) := .seed placed.rk _

theorem not_below (placed : Placed S root s depth sendPos recvPos) {dh : Bytes32} {i : Nat}
    (below : Below S root depth (keyAt S (turnSeed s dh) i)) : False := by
  obtain ⟨d, k, place, low⟩ := below
  have := (MessageAt.unique ideal session place (keyAt_at (turnSeed_at placed dh) i)).1
  omega

/-- Whatever has been walked before a turn, the chain that it starts is a fresh one. -/
theorem fresh_turned (placed : Placed S root s depth sendPos recvPos) {dhr : Bytes32} {ck : S.Key}
    (fresh : Fresh s ck) {taken : Set (Item S)} {middle : RatchetState S} {count : Nat}
    (walked : Walked s dhr ck taken middle count) (dh : Bytes32) (pn : UInt32) (drawn : Bytes32) :
    Fresh (middle.dhRatchet ⟨dh, pn, 0⟩ drawn) (turnSeed s dh) where
  steps := keyAt_injective ideal session (turnSeed_at placed dh)
  ahead := by
    intro slot i banked
    exact not_below ideal session placed (banked_below placed walked banked)
  distinct := by
    intro slot slot' key held held'
    have read := ((walked.bank slot key).mp held).1
    have read' := ((walked.bank slot' key).mp held').1
    exact overlay_distinct fresh.distinct fresh.steps fresh.ahead read read'

omit ideal session in
/-- Walking and draining leave the seed of the turn to come as it is, so the turn starts
this chain and no other. -/
theorem turned_only {dhr : Bytes32} {ck : S.Key} {taken : Set (Item S)} {middle : RatchetState S} {count : Nat}
    (walked : Walked s dhr ck taken middle count) (dh : Bytes32) (pn n : UInt32) (drawn : Bytes32) (dhr' : Bytes32)
    (ck' : S.Key) (remote : (middle.dhRatchet ⟨dh, pn, n⟩ drawn).dhr = some dhr')
    (chain : (middle.dhRatchet ⟨dh, pn, n⟩ drawn).ckr = some ck') : dhr' = dh ∧ ck' = turnSeed s dh := by
  have current : (middle.dhRatchet ⟨dh, pn, n⟩ drawn).ckr = some (turnSeed s dh) := by
    rw [walked.rest]
    rfl
  exact ⟨(Option.some.inj remote).symm, (Option.some.inj (current.symm.trans chain)).symm⟩

omit ideal session in
theorem dhRatchet_rk {dhr dh : Bytes32} {ck : S.Key} {taken : Set (Item S)} {middle : RatchetState S} {count : Nat}
    (placed : Placed S root s depth sendPos recvPos) (walked : Walked s dhr ck taken middle count) (pn : UInt32)
    (drawn : Bytes32) : RootAt S root (depth + 2) (middle.dhRatchet ⟨dh, pn, 0⟩ drawn).rk := by
  rw [walked.rest]
  exact .step (.step placed.rk _) _

/-- The state before any turn, or after one. -/
def Progress (drawn : Bytes32) (s : RatchetState S) (dhr : Bytes32) (ck : S.Key) (taken : Set (Item S))
    (u : RatchetState S) : Prop :=
  (∃ count, Walked s dhr ck taken u count ∧ Led ck taken count) ∨
    ∃ before later dh pn reached count further middle, taken = before ∪ later ∧
      Crossed drawn s dhr ck before later dh pn reached count further middle u

/-- A message opens before the turn, or it is the one that turns the ratchet. -/
theorem walked_receive (placed : Placed S root s depth sendPos recvPos) {dhr drawn : Bytes32} {ck : S.Key}
    (fresh : Fresh s ck) (only : ∀ dhr' ck', s.dhr = some dhr' → s.ckr = some ck' → dhr' = dhr ∧ ck' = ck)
    {taken : Set (Item S)} {t u : RatchetState S} {count : Nat} (walked : Walked s dhr ck taken t count)
    (led : Led ck taken count) {item : Item S} (call : t.receiveKey item.header drawn = (u, .ok item.key)) :
    Progress drawn s dhr ck (insert item taken) u := by
  rcases RatchetState.receiveKey_ok call with ⟨found, rfl⟩ | ⟨absent, remote, taking⟩ | ⟨absent, new, middle, skipped, taking⟩
  · exact .inl ⟨count, walked.erase fresh found, led.insert item⟩
  · obtain ⟨count', further, led', _⟩ := walked.chainKey fresh only remote absent taking
    exact .inl ⟨count', further, led'⟩
  · obtain ⟨more, drained, steps⟩ := walked.skip fresh only skipped
    have turned := fresh_turned ideal session placed fresh drained item.header.dh item.header.pn drawn
    have start : Walked (middle.dhRatchet item.header drawn) item.header.dh (turnSeed s item.header.dh) ∅
        (middle.dhRatchet item.header drawn) 0 := Walked.refl
    have chain := turned_only drained item.header.dh item.header.pn item.header.n drawn
    have unbanked : middle.skipped.lookup item.slot = none := drain_absent skipped new absent
    obtain ⟨further, walkedOn, ledOn, key⟩ := start.chainKey turned chain rfl unbanked taking
    rw [insert_empty_eq] at walkedOn ledOn
    refine .inr ⟨taken, {item}, item.header.dh, item.header.pn, count, count + more, further, middle, ?_, ?_⟩
    · rw [Set.union_singleton]
    · refine ⟨drained, led, Nat.le_add_right _ _, ?_, walkedOn, ledOn, item, Set.mem_singleton _, rfl, rfl, key⟩
      intro remote present
      rw [steps remote present, walked.nr_eq]
      rfl

/-- After the turn, the messages come from the bank and from the new chain. -/
theorem Crossed.receive (placed : Placed S root s depth sendPos recvPos) {dhr drawn : Bytes32} {ck : S.Key}
    (fresh : Fresh s ck) {before later : Set (Item S)} {dh : Bytes32} {pn : UInt32} {reached count further : Nat}
    {middle t u : RatchetState S} (crossed : Crossed drawn s dhr ck before later dh pn reached count further middle t)
    {item : Item S} (near : ∃ d k, MessageAt S root d k item.key ∧ d ≤ depth + 1)
    (call : t.receiveKey item.header drawn = (u, .ok item.key)) :
    ∃ further', Crossed drawn s dhr ck before (insert item later) dh pn reached count further' middle u := by
  obtain ⟨turning, member, named, numbered, key⟩ := crossed.turns
  have turned := fresh_turned ideal session placed fresh crossed.walked dh pn drawn
  have chain := turned_only crossed.walked dh pn 0 drawn
  have turns : ∃ other ∈ insert item later, other.header.dh = dh ∧ other.header.pn = pn ∧
      ∃ i, other.key = keyAt S (turnSeed s dh) i := ⟨turning, Set.mem_insert_of_mem _ member, named, numbered, key⟩
  rcases RatchetState.receiveKey_ok call with ⟨found, rfl⟩ | ⟨absent, remote, taking⟩ | ⟨absent, new, after, skipped, taking⟩
  · exact ⟨further, crossed.walked, crossed.led, crossed.within, crossed.drained, crossed.walkedOn.erase turned found,
      crossed.ledOn.insert item, turns⟩
  · obtain ⟨further', walkedOn, ledOn, _⟩ := crossed.walkedOn.chainKey turned chain remote absent taking
    exact ⟨further', crossed.walked, crossed.led, crossed.within, crossed.drained, walkedOn, ledOn, turns⟩
  · -- a second turn would open a chain that lies past the next one
    obtain ⟨i, derived⟩ := chainKey_from rfl taking
    have rk : RootAt S root (depth + 2) t.rk := by
      rw [crossed.walkedOn.rest]
      exact dhRatchet_rk placed crossed.walked pn drawn
    have drained : RootAt S root (depth + 2) after.rk := by
      rw [(skipMessageKeys_same skipped).rk]
      exact rk
    obtain ⟨d, k, place, low⟩ := near
    have beyond : MessageAt S root (depth + 2 + 1) (0 + i) item.key :=
      ⟨_, (ChainAt.seed drained _).iter i, derived⟩
    have := (MessageAt.unique ideal session place beyond).1
    omega

theorem progress (placed : Placed S root s depth sendPos recvPos) {dhr drawn : Bytes32} {ck : S.Key}
    (fresh : Fresh s ck) (only : ∀ dhr' ck', s.dhr = some dhr' → s.ckr = some ck' → dhr' = dhr ∧ ck' = ck)
    {taken : Set (Item S)} {u : RatchetState S} (received : Receives drawn s taken u)
    (near : ∀ item ∈ taken, ∃ d k, MessageAt S root d k item.key ∧ d ≤ depth + 1) :
    Progress drawn s dhr ck taken u := by
  induction received with
  | start => exact .inl ⟨0, .refl, .inl rfl⟩
  | @next taken t u item _ call ih =>
    rcases ih (fun other member => near other (Set.mem_insert_of_mem _ member)) with
      ⟨count, walked, led⟩ | ⟨before, later, dh, pn, reached, count, further, middle, rfl, crossed⟩
    · exact walked_receive ideal session placed fresh only walked led call
    · obtain ⟨further', crossed'⟩ :=
        crossed.receive ideal session placed fresh (near item (Set.mem_insert _ _)) call
      exact .inr ⟨before, insert item later, dh, pn, reached, count, further', middle, (Set.union_insert ..).symm, crossed'⟩

section
variable {drawn dhr dh : Bytes32} {ck : S.Key} {before later before' later' : Set (Item S)} {pn : UInt32}
  {reached count further reached' count' further' : Nat} {middle u middle' u' : RatchetState S}

/-- One order has drained the current chain at least as far as the other one walked it. -/
theorem Crossed.reached_le (placed : Placed S root s depth sendPos recvPos) (fresh : Fresh s ck)
    (crossed : Crossed drawn s dhr ck before later dh pn reached count further middle u)
    (crossed' : Crossed drawn s dhr ck before' later' dh pn reached' count' further' middle' u')
    (same : before ∪ later = before' ∪ later') : reached' ≤ count := by
  rcases crossed'.led with zero | ⟨item, member, key⟩
  · omega
  · have both : item ∈ before ∪ later := same ▸ Set.mem_union_left _ member
    rcases both with early | late
    · by_contra beyond
      exact crossed.walked.not_gone fresh (by omega) ⟨item, early, key⟩
    · rcases crossed.walkedOn.source item late with banked | ⟨i, _, named⟩
      · -- opened from the bank after the turn, so it was banked before it
        have read := ((crossed.walked.bank item.slot item.key).mp banked).1
        rcases overlay_source read with old | ⟨i, small, _, named, _⟩
        · exact absurd (key ▸ old) (fresh.ahead item.slot _)
        · have := fresh.steps (key.symm.trans named)
          omega
      · have below := taken_below placed crossed'.walked member
        rw [named] at below
        exact (not_below ideal session placed below).elim

theorem Crossed.count_eq (placed : Placed S root s depth sendPos recvPos) (fresh : Fresh s ck)
    (crossed : Crossed drawn s dhr ck before later dh pn reached count further middle u)
    (crossed' : Crossed drawn s dhr ck before' later' dh pn reached' count' further' middle' u')
    (same : before ∪ later = before' ∪ later') : count = count' := by
  by_cases chain : s.dhr = some dhr ∧ s.ckr = some ck
  · have ends := crossed.drained chain.1 chain.2
    have ends' := crossed'.drained chain.1 chain.2
    have low := crossed.reached_le ideal session placed fresh crossed' same
    have low' := crossed'.reached_le ideal session placed fresh crossed same.symm
    rw [ends] at low ⊢
    rw [ends'] at low' ⊢
    rcases Nat.le_total reached reached' with first | first
    · exact (drain_drain first low).symm
    · exact drain_drain first low'
  · -- without a chain neither has walked anywhere
    have none : ¬0 < count := fun moved => chain (crossed.walked.chain moved)
    have none' : ¬0 < count' := fun moved => chain (crossed'.walked.chain moved)
    omega

theorem Crossed.further_le (placed : Placed S root s depth sendPos recvPos) (fresh : Fresh s ck)
    (crossed : Crossed drawn s dhr ck before later dh pn reached count further middle u)
    (crossed' : Crossed drawn s dhr ck before' later' dh pn reached' count' further' middle' u')
    (same : before ∪ later = before' ∪ later') : further' ≤ further := by
  have turned := fresh_turned ideal session placed fresh crossed.walked dh pn drawn
  apply crossed.walkedOn.led_le turned
  rcases crossed'.ledOn with zero | ⟨item, member, key⟩
  · exact .inl zero
  · have both : item ∈ before ∪ later := same ▸ Set.mem_union_right _ member
    rcases both with early | late
    · have below := taken_below placed crossed.walked early
      rw [key] at below
      exact (not_below ideal session placed below).elim
    · exact .inr ⟨item, late, key⟩

/-- What was opened after the turn does not change how the current chain was banked. -/
theorem Crossed.covered_eq (placed : Placed S root s depth sendPos recvPos) (fresh : Fresh s ck)
    (crossed : Crossed drawn s dhr ck before later dh pn reached count further middle u) :
    covered s dhr ck before count = covered s dhr ck (before ∪ later) count := by
  apply overlay_congr
  intro i small
  constructor
  · rintro ⟨item, member, key, slot⟩
    exact ⟨item, Set.mem_union_left _ member, key, slot⟩
  · rintro ⟨item, member, key, slot⟩
    rcases member with early | late
    · exact ⟨item, early, key, slot⟩
    · exfalso
      rcases crossed.walkedOn.source item late with banked | ⟨j, _, named⟩
      · have read := ((crossed.walked.bank item.slot item.key).mp banked).1
        rcases overlay_source read with old | ⟨j, _, own, named, _⟩
        · exact fresh.ahead item.slot i (key ▸ old)
        · rw [fresh.steps (named.symm.trans key)] at own
          exact slot own
      · obtain ⟨below, under, place⟩ := placed.ckr ck (crossed.walked.chain (by omega)).2
        have current : Below S root depth (keyAt S ck i) := ⟨below, _, keyAt_at place i, by omega⟩
        rw [← key, named] at current
        exact not_below ideal session placed current

theorem Crossed.astray_iff (placed : Placed S root s depth sendPos recvPos)
    (crossed : Crossed drawn s dhr ck before later dh pn reached count further middle u) (i : Nat) :
    Astray dh 0 (turnSeed s dh) later i ↔ Astray dh 0 (turnSeed s dh) (before ∪ later) i := by
  constructor
  · rintro ⟨item, member, key, slot⟩
    exact ⟨item, Set.mem_union_right _ member, key, slot⟩
  · rintro ⟨item, early | late, key, slot⟩
    · have below := taken_below placed crossed.walked early
      rw [key] at below
      exact (not_below ideal session placed below).elim
    · exact ⟨item, late, key, slot⟩

omit ideal session in
theorem gone_union (key : S.Key) : Gone (before ∪ later) key ↔ Gone before key ∨ Gone later key := by
  constructor
  · rintro ⟨item, early | late, same⟩
    · exact .inl ⟨item, early, same⟩
    · exact .inr ⟨item, late, same⟩
  · rintro (⟨item, member, same⟩ | ⟨item, member, same⟩)
    · exact ⟨item, Set.mem_union_left _ member, same⟩
    · exact ⟨item, Set.mem_union_right _ member, same⟩

/-- The bank once all messages are opened: both chains written over the bank there was, and
every key that was used taken out. -/
theorem Crossed.bank (placed : Placed S root s depth sendPos recvPos) (fresh : Fresh s ck)
    (crossed : Crossed drawn s dhr ck before later dh pn reached count further middle u)
    (slot : Bytes32 × UInt32) (key : S.Key) :
    u.skipped.lookup slot = some key ↔
      overlay (covered s dhr ck (before ∪ later) count) (slotAt dh 0) (keyAt S (turnSeed s dh))
        (Astray dh 0 (turnSeed s dh) (before ∪ later)) further slot = some key ∧ ¬Gone (before ∪ later) key := by
  have unused : ∀ i < further, ¬Gone before (keyAt S (turnSeed s dh) i) := by
    rintro i _ ⟨item, early, same⟩
    have below := taken_below placed crossed.walked early
    rw [same] at below
    exact not_below ideal session placed below
  have removed := overlay_remove (slotAt dh 0) (Astray dh 0 (turnSeed s dh) later) crossed.walked.bank unused slot key
  rw [← crossed.covered_eq ideal session placed fresh,
    ← overlay_congr (fun i _ => crossed.astray_iff ideal session placed i), gone_union, not_or, ← and_assoc, ← removed]
  exact crossed.walkedOn.bank slot key

theorem Crossed.unique (placed : Placed S root s depth sendPos recvPos) (fresh : Fresh s ck)
    (crossed : Crossed drawn s dhr ck before later dh pn reached count further middle u)
    (crossed' : Crossed drawn s dhr ck before' later' dh pn reached' count' further' middle' u')
    (same : before ∪ later = before' ∪ later') : u = u' := by
  obtain rfl := crossed.count_eq ideal session placed fresh crossed' same
  obtain rfl : further = further' := Nat.le_antisymm
    (crossed'.further_le ideal session placed fresh crossed same.symm)
    (crossed.further_le ideal session placed fresh crossed' same)
  have bank : u.skipped = u'.skipped := by
    apply Finmap.ext_lookup
    intro slot
    apply Option.ext
    intro key
    have read := crossed.bank ideal session placed fresh slot key
    rw [same] at read
    exact read.trans (crossed'.bank ideal session placed fresh slot key).symm
  rw [crossed.walkedOn.rest, crossed'.walkedOn.rest, bank, crossed.walked.rest, crossed'.walked.rest]
  rfl

end

/-- The keys of the messages lie in chains up to the next one, and two messages of one
chain carry the same ratchet key and the same previous count. -/
structure Issued (S : Suite) (root : S.Key) (depth : Nat) (taken : Set (Item S)) : Prop where
  near : ∀ item ∈ taken, ∃ d k, MessageAt S root d k item.key ∧ d ≤ depth + 1
  stamped : ∀ item ∈ taken, ∀ other ∈ taken, ∀ d k k', MessageAt S root d k item.key → MessageAt S root d k' other.key →
    item.header.dh = other.header.dh ∧ item.header.pn = other.header.pn

/-- Any two ways to open the same messages end in the same state. -/
theorem received_unique (placed : Placed S root s depth sendPos recvPos) {drawn : Bytes32} {taken : Set (Item S)}
    (issued : Issued S root depth taken) {u u' : RatchetState S} (received : Receives drawn s taken u)
    (received' : Receives drawn s taken u') : u = u' := by
  obtain ⟨dhr, ck, fresh, only⟩ := exists_chain ideal session placed
  -- a message of the next chain is not opened without a turn
  have turning {other : RatchetState S} {count : Nat} (walked : Walked s dhr ck taken other count) {item : Item S}
      (member : item ∈ taken) {dh : Bytes32} : ¬∃ i, item.key = keyAt S (turnSeed s dh) i := by
    rintro ⟨i, key⟩
    have below := taken_below placed walked member
    rw [key] at below
    exact not_below ideal session placed below
  rcases progress ideal session placed fresh only received issued.near with
      ⟨count, walked, led⟩ | ⟨before, later, dh, pn, reached, count, further, middle, same, crossed⟩ <;>
    rcases progress ideal session placed fresh only received' issued.near with
      ⟨count', walked', led'⟩ | ⟨before', later', dh', pn', reached', count', further', middle', same', crossed'⟩
  · obtain rfl : count = count' := Nat.le_antisymm (walked'.led_le fresh led) (walked.led_le fresh led')
    exact walked.unique walked'
  · obtain ⟨item, member, _, _, key⟩ := crossed'.turns
    exact absurd key (turning walked (same' ▸ Set.mem_union_right _ member))
  · obtain ⟨item, member, _, _, key⟩ := crossed.turns
    exact absurd key (turning walked' (same ▸ Set.mem_union_right _ member))
  · obtain ⟨item, member, dhEq, pnEq, i, key⟩ := crossed.turns
    obtain ⟨item', member', dhEq', pnEq', i', key'⟩ := crossed'.turns
    have place := keyAt_at (turnSeed_at placed dh) i
    have place' := keyAt_at (turnSeed_at placed dh') i'
    rw [← key] at place
    rw [← key'] at place'
    obtain ⟨dhs, pns⟩ := issued.stamped item (same ▸ Set.mem_union_right _ member) item'
      (same' ▸ Set.mem_union_right _ member') _ _ _ place place'
    obtain rfl : dh = dh' := dhEq.symm.trans (dhs.trans dhEq')
    obtain rfl : pn = pn' := pnEq.symm.trans (pns.trans pnEq')
    exact crossed.unique ideal session placed fresh crossed' (same.symm.trans same')

end

/-! Deliveries as calls of `decrypt`. -/

section
variable {S : Suite}

/-- The messages are delivered one after the other and all of them open. A call that turns
the ratchet draws `drawn`. -/
def deliver (drawn : Bytes32) (s : RatchetState S) : List Bytes → Option (RatchetState S × List Bytes)
  | [] => some (s, [])
  | message :: rest =>
    match s.decrypt drawn message with
    | (_, .error _) => none
    | (s, .ok plaintext) => (deliver drawn s rest).map (fun result => (result.1, plaintext :: result.2))

/-- The key is banked, or it comes further down the current receiving chain or in the chain
that a turn would start. -/
def Awaited (s : RatchetState S) (key : S.Key) : Prop :=
  (∃ slot, s.skipped.lookup slot = some key) ∨ (∃ ck i, s.ckr = some ck ∧ key = keyAt S ck i) ∨
    ∃ dh i, key = keyAt S (turnSeed s dh) i

def itemsOf (messages : List (Sent S)) : Set (Item S) :=
  { item | ∃ m ∈ messages, item.key = m.key ∧ ∃ ciphertext, parseMessage m.message = .ok (item.header, ciphertext) }

theorem itemsOf_perm {first second : List (Sent S)} (perm : first.Perm second) : itemsOf first = itemsOf second := by
  ext item
  constructor
  · rintro ⟨m, member, rest⟩
    exact ⟨m, perm.mem_iff.mp member, rest⟩
  · rintro ⟨m, member, rest⟩
    exact ⟨m, perm.mem_iff.mpr member, rest⟩

theorem itemsOf_cons {m : Sent S} {item : Item S} {ciphertext : Bytes} (key : item.key = m.key)
    (parsed : parseMessage m.message = .ok (item.header, ciphertext)) (rest : List (Sent S)) :
    itemsOf (m :: rest) = insert item (itemsOf rest) := by
  ext other
  constructor
  · rintro ⟨m', member, key', ciphertext', parsed'⟩
    rcases List.mem_cons.mp member with rfl | old
    · rw [parsed] at parsed'
      cases item
      cases other
      cases parsed'
      cases key
      cases key'
      exact Set.mem_insert _ _
    · exact Set.mem_insert_of_mem _ ⟨m', old, key', ciphertext', parsed'⟩
  · rintro (rfl | ⟨m', member, rest⟩)
    · exact ⟨m, List.mem_cons_self, key, ciphertext, parsed⟩
    · exact ⟨m', List.mem_cons_of_mem _ member, rest⟩

theorem deliver_cons {drawn : Bytes32} {s t : RatchetState S} {m : Sent S} {header : Header} {ciphertext : Bytes}
    (lawful : Lawful S) (parsed : parseMessage m.message = .ok (header, ciphertext))
    (sealed : sealMessage S m.key (toAad header) m.plaintext = .ok ciphertext)
    (looked : s.receiveKey header drawn = (t, .ok m.key)) (rest : List Bytes) :
    deliver drawn s (m.message :: rest) =
      (deliver drawn t rest).map (fun result => (result.1, m.plaintext :: result.2)) := by
  rw [deliver, RatchetState.decrypt_received parsed looked, openMessage_sealMessage lawful sealed]

/-- The first two messages of a session open in either order. -/
theorem first_two_open (lawful : Lawful S) {root : S.Key} {ratchetKey dh : Bytes32} (drawn : Bytes32) {w : World S}
    {m m' : Sent S} {header header' : Header} {ciphertext ciphertext' : Bytes}
    (numbered : Numbered w (kdfRk S root (S.diffieHellman ratchetKey dh)).2 dh 0 m header ciphertext)
    (numbered' : Numbered w (kdfRk S root (S.diffieHellman ratchetKey dh)).2 dh 1 m' header' ciphertext') :
    (∃ after answers, deliver drawn (.responder root ratchetKey) [m.message, m'.message] = some (after, answers)) ∧
      ∃ after answers, deliver drawn (.responder root ratchetKey) [m'.message, m.message] = some (after, answers) := by
  obtain rfl := numbered.dh
  have limit : maxSkip.toNat = 1000 := rfl
  have zero := numbered.n
  have one := numbered'.n
  constructor
  · obtain ⟨t, looked, remote, chain, number, keys, _⟩ :=
      responder_reaches root ratchetKey header.dh drawn header.pn (n := header.n) (by omega)
    rw [zero, ← numbered.key] at looked
    rw [zero] at chain
    have yields : Yields t header' m'.key := by
      refine .inr ⟨?_, .inl ⟨remote.trans (congrArg some numbered'.dh.symm), ⟨by omega, fun i small => ?_⟩, _, chain, ?_⟩⟩
      · rw [Finmap.lookup_eq_none, ← Finmap.mem_keys, keys, zero]
        exact Finset.notMem_empty _
      · omega
      · rw [numbered'.key, one, number, zero]
        rfl
    obtain ⟨u, looked'⟩ := (receiveKey_ok_iff drawn).mpr yields
    rw [deliver_cons lawful numbered.parsed numbered.sealed looked,
      deliver_cons lawful numbered'.parsed numbered'.sealed looked']
    exact ⟨_, _, rfl⟩
  · obtain ⟨t, looked, _, _, _, _, banked⟩ :=
      responder_reaches root ratchetKey header.dh drawn header'.pn (n := header'.n) (by omega)
    have whole : (⟨header.dh, header'.pn, header'.n⟩ : Header) = header' := by rw [← numbered'.dh]
    rw [whole, one, ← numbered'.key] at looked
    have found := banked header.n (by omega)
    rw [zero, ← numbered.key] at found
    obtain ⟨u, looked'⟩ := (receiveKey_ok_iff drawn).mpr (.inl found)
    rw [deliver_cons lawful numbered'.parsed numbered'.sealed looked,
      deliver_cons lawful numbered.parsed numbered.sealed looked']
    exact ⟨_, _, rfl⟩

/-- A genuine message is opened with its own key, to its own plaintext. -/
theorem deliver_receives (ideal : Ideal S) {drawn : Bytes32} {s t after : RatchetState S} {taken : Set (Item S)}
    {messages : List (Sent S)} {answers : List Bytes} (genuine : ∀ m ∈ messages, m.Genuine)
    (received : Receives drawn s taken t) (opens : deliver drawn t (messages.map Sent.message) = some (after, answers)) :
    Receives drawn s (taken ∪ itemsOf messages) after ∧ answers = messages.map Sent.plaintext := by
  induction messages generalizing t taken answers with
  | nil =>
    cases opens
    have none : itemsOf ([] : List (Sent S)) = ∅ := by
      apply Set.eq_empty_iff_forall_notMem.mpr
      rintro item ⟨m, member, _⟩
      exact List.not_mem_nil member
    rw [none, Set.union_empty]
    exact ⟨received, rfl⟩
  | cons m rest ih =>
    rw [List.map_cons, deliver] at opens
    split at opens
    · cases opens
    · next u plaintext call =>
      obtain ⟨⟨final, tail⟩, delivered, same⟩ := Option.map_eq_some_iff.mp opens
      cases same
      obtain ⟨header, ciphertext, key, parsed, looked, opened, _⟩ := RatchetState.decrypt_ok call
      obtain ⟨header', ciphertext', parsed', sealed⟩ := genuine m List.mem_cons_self
      rw [parsed] at parsed'
      cases parsed'
      have own := openMessage_sealMessage ideal.toLawful sealed
      obtain rfl := openMessage_key_unique ideal own opened
      rw [own] at opened
      cases opened
      have items : itemsOf (m :: rest) = insert ⟨header, m.key⟩ (itemsOf rest) := itemsOf_cons rfl parsed rest
      have further : Receives drawn s (insert ⟨header, m.key⟩ taken) u := received.next looked
      obtain ⟨through, tails⟩ := ih (fun other member => genuine other (List.mem_cons_of_mem _ member)) further delivered
      rw [items, Set.union_insert, ← Set.insert_union]
      exact ⟨through, congrArg _ tails⟩

end

section
variable {S : Suite} (ideal : Ideal S) {root : S.Key} (session : SessionRoot S root)
include ideal session

omit ideal session in
theorem Awaited.near {s : RatchetState S} {depth sendPos recvPos : Nat} (placed : Placed S root s depth sendPos recvPos)
    {key : S.Key} (awaited : Awaited s key) : ∃ d k, MessageAt S root d k key ∧ d ≤ depth + 1 := by
  rcases awaited with ⟨slot, banked⟩ | ⟨ck, i, current, rfl⟩ | ⟨dh, i, rfl⟩
  · obtain ⟨d, k, place, turns, total, _⟩ := placed.bank slot key banked
    exact ⟨d, k, place, by omega⟩
  · obtain ⟨below, under, place⟩ := placed.ckr ck current
    exact ⟨below, _, keyAt_at place i, by omega⟩
  · exact ⟨_, _, keyAt_at (turnSeed_at placed dh) i, le_rfl⟩

/-- The order of delivery does not matter. In whatever state calls on any bytes have left a
party, two orders of messages of the peer in which every call returns `Ok` return the same
plaintext for each message and end in the same state. -/
theorem delivery_order_irrelevant {env : Surroundings S} {signedPrekey generated : Bytes32} {w : World S}
    (run : Run env (World.start root signedPrekey generated) w) (p : Party) {first second : List (Sent S)}
    (perm : first.Perm second)
    (genuine : ∀ m ∈ first, m ∈ w.sent ∧ m.sender = p.peer ∧ Awaited (w.state p) m.key) {drawn : Bytes32}
    {after after' : RatchetState S} {answers answers' : List Bytes}
    (opens : deliver drawn (w.state p) (first.map Sent.message) = some (after, answers))
    (opens' : deliver drawn (w.state p) (second.map Sent.message) = some (after', answers')) :
    after = after' ∧ answers = first.map Sent.plaintext ∧ answers' = second.map Sent.plaintext := by
  have ledger := ledger_run ideal session (ledger_start signedPrekey generated) run
  have recorded := recorded_run ideal.toLawful run
  obtain ⟨depth, sendPos, recvPos, accounted⟩ := ledger.party p
  obtain ⟨stamp, stamped⟩ := stamped_run ideal session run p.peer
  have own : ∀ m ∈ first, m.Genuine := fun m member => recorded.sent m (genuine m member).1
  have own' : ∀ m ∈ second, m.Genuine := fun m member => own m (perm.mem_iff.mpr member)
  obtain ⟨received, plaintexts⟩ := deliver_receives ideal own .start opens
  obtain ⟨received', plaintexts'⟩ := deliver_receives ideal own' .start opens'
  rw [Set.empty_union] at received received'
  rw [← itemsOf_perm perm] at received'
  have issued : Issued S root depth (itemsOf first) := by
    refine ⟨?_, ?_⟩
    · rintro item ⟨m, member, key, _⟩
      rw [key]
      exact (genuine m member).2.2.near accounted.placed
    · rintro item ⟨m, member, key, ciphertext, parsed⟩ other ⟨m', member', key', ciphertext', parsed'⟩ d k k' place place'
      rw [key] at place
      rw [key'] at place'
      obtain ⟨sent, sender, _⟩ := genuine m member
      obtain ⟨sent', sender', _⟩ := genuine m' member'
      have here := stamped.sent m sent sender _ _ d k parsed place
      have there := stamped.sent m' sent' sender' _ _ d k' parsed' place'
      rw [here] at there
      exact ⟨congrArg Prod.fst there, congrArg Prod.snd there⟩
  exact ⟨received_unique ideal session accounted.placed issued received received', plaintexts, plaintexts'⟩

end

/-- Two messages that open in either order. -/
theorem delivery_order_irrelevant_sample : ∃ (w : World Symbolic.compact) (m m' : Sent Symbolic.compact)
    (after : RatchetState Symbolic.compact),
    Run (lossy Symbolic.compact) (World.start compactRoot samplePrekey sampleGenerated) w ∧
      deliver samplePrekey (w.state .responder) [m.message, m'.message] = some (after, [m.plaintext, m'.plaintext]) ∧
      deliver samplePrekey (w.state .responder) [m'.message, m.message] = some (after, [m'.plaintext, m.plaintext]) := by
  have seals (k : Nat) (low : k ≤ 2004) := fun header => compact_seals samplePrekey sampleGenerated low header
  have start : Sending (World.start compactRoot samplePrekey sampleGenerated)
      (firstSeed Symbolic.compact compactRoot samplePrekey sampleGenerated)
      (Symbolic.compact.publicKey sampleGenerated) 0 := ⟨rfl, rfl, rfl, rfl, rfl⟩
  obtain ⟨w₁, m, header, ciphertext, step, sending, numbered, state, _⟩ :=
    start.send Symbolic.compact_lawful (lossy Symbolic.compact) (by decide) (seals 0 (by decide))
  obtain ⟨w, m', header', ciphertext', step', _, numbered', state', _⟩ :=
    sending.send Symbolic.compact_lawful (lossy Symbolic.compact) (by decide) (seals 1 (by decide))
  have seed : firstSeed Symbolic.compact compactRoot samplePrekey sampleGenerated =
      (kdfRk Symbolic.compact compactRoot
        (Symbolic.compact.diffieHellman samplePrekey (Symbolic.compact.publicKey sampleGenerated))).2 := by
    rw [firstSeed, Symbolic.compact_lawful.dh_comm]
  have responder : w.state .responder = .responder compactRoot samplePrekey := state'.trans state
  have kept := numbered.member
  rw [seed] at numbered numbered'
  have numbered : Numbered w _ _ 0 m header ciphertext :=
    ⟨sent_subset step' kept, numbered.sender, numbered.key, numbered.parsed, numbered.dh, numbered.pn, numbered.n,
      numbered.sealed⟩
  have awaited (i : Nat) (other : Sent Symbolic.compact)
      (key : other.key = keyAt Symbolic.compact (turnSeed (.responder compactRoot samplePrekey)
        (Symbolic.compact.publicKey sampleGenerated)) i) : Awaited (w.state .responder) other.key := by
    rw [responder]
    exact .inr (.inr ⟨_, i, key⟩)
  obtain ⟨⟨after, answers, opens⟩, after', answers', opens'⟩ :=
    first_two_open Symbolic.compact_lawful samplePrekey numbered numbered'
  rw [← responder] at opens opens'
  have run : Run (lossy Symbolic.compact) (World.start compactRoot samplePrekey sampleGenerated) w :=
    (Relation.ReflTransGen.single step).tail step'
  have genuine : ∀ other ∈ [m, m'], other ∈ w.sent ∧ other.sender = Party.responder.peer ∧
      Awaited (w.state .responder) other.key := by
    intro other member
    rcases List.mem_cons.mp member with rfl | member
    · exact ⟨numbered.member, numbered.sender, awaited 0 other numbered.key⟩
    · rw [List.mem_singleton] at member
      subst member
      exact ⟨numbered'.member, numbered'.sender, awaited 1 other numbered'.key⟩
  obtain ⟨rfl, rfl, rfl⟩ := delivery_order_irrelevant Symbolic.compact_ideal compactRoot_session run .responder
    (List.Perm.swap m' m []) genuine opens opens'
  exact ⟨w, m, m', after, run, opens, opens'⟩

end Buh.Ratchet.Reordering
