import Buh.Library.Overlay
import Buh.Ratchet.Receiving

/-! What a state has become after messages were opened out of one receiving chain. How far
the chain has been walked and what is banked depends on which messages they were, not on
the order they came in. -/

namespace Buh.Ratchet.Coverage
open Buh.Library.Overlay Buh.Wire.Codec Buh.Crypto.Primitives Buh.Ratchet.Message Buh.Ratchet.Chain Buh.Ratchet.State
  Buh.Ratchet.Skipping Buh.Ratchet.Receiving

/-- A message by what its delivery turns on: its header and the key it was sealed with. -/
structure Item (S : Suite) where
  header : Header
  key : S.Key

section
variable {S : Suite}

def Item.slot (item : Item S) : Bytes32 × UInt32 := (item.header.dh, item.header.n)

/-- The message key so many steps down a chain, and the slot it is banked under. -/
def keyAt (S : Suite) (ck : S.Key) (i : Nat) : S.Key := (kdfCk S (chainIter S ck i)).2

def slotAt (dhr : Bytes32) (nr : UInt32) (i : Nat) : Bytes32 × UInt32 := (dhr, nr + UInt32.ofNat i)

/-- The key has been taken by a message of another slot, so that it was never banked. -/
def Astray (dhr : Bytes32) (nr : UInt32) (ck : S.Key) (taken : Set (Item S)) (i : Nat) : Prop :=
  ∃ item ∈ taken, item.key = keyAt S ck i ∧ item.slot ≠ slotAt dhr nr i

def Gone (taken : Set (Item S)) (key : S.Key) : Prop := ∃ item ∈ taken, item.key = key

/-- What the bank of `s` would be `count` steps on if nothing were ever taken from it. -/
noncomputable def covered (s : RatchetState S) (dhr : Bytes32) (ck : S.Key) (taken : Set (Item S)) (count : Nat) :
    Bytes32 × UInt32 → Option S.Key :=
  overlay s.skipped.lookup (slotAt dhr s.nr) (keyAt S ck) (Astray dhr s.nr ck taken) count

/-- No key comes twice, in the bank, in the chain or between them. -/
structure Fresh (s : RatchetState S) (ck : S.Key) : Prop where
  steps : Function.Injective (keyAt S ck)
  ahead : ∀ slot i, s.skipped.lookup slot ≠ some (keyAt S ck i)
  distinct : ∀ slot slot' key, s.skipped.lookup slot = some key → s.skipped.lookup slot' = some key → slot = slot'

/-- `t` is `s` with its receiving chain `count` steps on and the messages in `taken` opened. -/
structure Walked (s : RatchetState S) (dhr : Bytes32) (ck : S.Key) (taken : Set (Item S)) (t : RatchetState S)
    (count : Nat) : Prop where
  chain : 0 < count → s.dhr = some dhr ∧ s.ckr = some ck
  rest : t = { s with
    ckr := s.ckr.map (fun ck => chainIter S ck count), nr := s.nr + UInt32.ofNat count, skipped := t.skipped }
  bank : ∀ slot key, t.skipped.lookup slot = some key ↔ covered s dhr ck taken count slot = some key ∧ ¬Gone taken key
  source : ∀ item ∈ taken, s.skipped.lookup item.slot = some item.key ∨ ∃ i < count, item.key = keyAt S ck i

variable {s t u : RatchetState S} {dhr : Bytes32} {ck : S.Key} {taken : Set (Item S)} {count : Nat}

theorem Walked.refl : Walked s dhr ck ∅ s 0 where
  chain := fun moved => absurd moved (lt_irrefl 0)
  rest := by
    have stays : s.ckr.map (fun ck => chainIter S ck 0) = s.ckr := by cases s.ckr <;> rfl
    have same : s.nr + UInt32.ofNat 0 = s.nr := UInt32.add_zero s.nr
    rw [stays, same]
  bank := by
    intro slot key
    simp [covered, overlay, Gone]
  source := by
    intro item member
    exact absurd member (Set.notMem_empty item)

theorem Walked.dhr_eq (walked : Walked s dhr ck taken t count) : t.dhr = s.dhr := by rw [walked.rest]

theorem Walked.ckr_eq (walked : Walked s dhr ck taken t count) (current : s.ckr = some ck) :
    t.ckr = some (chainIter S ck count) := by
  rw [walked.rest]
  exact congrArg (Option.map _) current

theorem Walked.nr_eq (walked : Walked s dhr ck taken t count) : t.nr = s.nr + UInt32.ofNat count := by rw [walked.rest]

/-- A key further down the chain has not been taken. -/
theorem Walked.not_gone (walked : Walked s dhr ck taken t count) (fresh : Fresh s ck) {i : Nat} (beyond : count ≤ i) :
    ¬Gone taken (keyAt S ck i) := by
  rintro ⟨item, member, same⟩
  rcases walked.source item member with banked | ⟨j, small, key⟩
  · exact fresh.ahead item.slot i (same ▸ banked)
  · have := fresh.steps (same.symm.trans key)
    omega

theorem Walked.not_astray (walked : Walked s dhr ck taken t count) (fresh : Fresh s ck) {i : Nat} (beyond : count ≤ i)
    (nr : UInt32) : ¬Astray dhr nr ck taken i := by
  rintro ⟨item, member, same, _⟩
  exact walked.not_gone fresh beyond ⟨item, member, same⟩

/-- One turn of the loop in `skip_message_keys` that finds room. -/
theorem Walked.store (walked : Walked s dhr ck taken t count) (fresh : Fresh s ck) (remote : s.dhr = some dhr)
    (current : s.ckr = some ck) :
    Walked s dhr ck taken { t with
      ckr := some (chainIter S ck (count + 1)), skipped := t.skipped.insert (dhr, t.nr) (keyAt S ck count),
      nr := t.nr + 1 } (count + 1) where
  chain := fun _ => ⟨remote, current⟩
  rest := by
    rw [walked.rest, current, UInt32.ofNat_add, ← UInt32.add_assoc]
    rfl
  bank := by
    intro slot key
    have open_ := walked.not_astray fresh le_rfl s.nr
    have here : (dhr, t.nr) = slotAt dhr s.nr count := by rw [walked.nr_eq, slotAt]
    rw [covered, here]
    by_cases same : slot = slotAt dhr s.nr count
    · rw [overlay_write ⟨same, open_⟩, same, Finmap.lookup_insert, Option.some.injEq]
      constructor
      · rintro rfl
        exact ⟨rfl, walked.not_gone fresh le_rfl⟩
      · exact fun both => both.1
    · rw [overlay_pass (fun both => same both.1), Finmap.lookup_insert_of_ne _ same]
      exact walked.bank slot key
  source := by
    intro item member
    rcases walked.source item member with banked | ⟨i, small, key⟩
    · exact .inl banked
    · exact .inr ⟨i, Nat.lt_succ_of_lt small, key⟩

theorem Walked.skipLoop (walked : Walked s dhr ck taken t count) (fresh : Fresh s ck) (remote : s.dhr = some dhr)
    (current : s.ckr = some ck) {more : Nat}
    (done : (RatchetState.skipLoop dhr more (chainIter S ck count) t).2 = .ok ()) :
    Walked s dhr ck taken (RatchetState.skipLoop dhr more (chainIter S ck count) t).1 (count + more) := by
  induction more generalizing t count with
  | zero => exact walked
  | succ more ih =>
    rw [RatchetState.skipLoop] at done ⊢
    dsimp only at done ⊢
    split_ifs at done ⊢ with full
    have next := ih (walked.store fresh remote current) done
    rw [Nat.add_right_comm] at next
    exact next

/-- A skip that goes through walks the chain up to its number, where there is a chain. -/
theorem Walked.skip (walked : Walked s dhr ck taken t count) (fresh : Fresh s ck)
    (only : ∀ dhr' ck', s.dhr = some dhr' → s.ckr = some ck' → dhr' = dhr ∧ ck' = ck) {upto : UInt32}
    (call : t.skipMessageKeys upto = (u, .ok ())) :
    ∃ more, Walked s dhr ck taken u (count + more) ∧
      (s.dhr = some dhr → s.ckr = some ck → more = upto.toNat - t.nr.toNat) := by
  cases remote : s.dhr with
  | none =>
    rw [skipMessageKeys_idle upto (.inl (walked.dhr_eq.trans remote))] at call
    cases call
    exact ⟨0, walked, fun named => by cases named⟩
  | some dhr' =>
    cases current : s.ckr with
    | none =>
      have ended : t.ckr = none := by rw [walked.rest, current]; rfl
      rw [skipMessageKeys_idle upto (.inr ended)] at call
      cases call
      exact ⟨0, walked, fun _ named => by cases named⟩
    | some ck' =>
      obtain ⟨rfl, rfl⟩ := only dhr' ck' remote current
      rw [skipMessageKeys_loop (walked.dhr_eq.trans remote) (walked.ckr_eq current)] at call
      split_ifs at call with far
      · cases call
      · have loop := walked.skipLoop fresh remote current (congrArg Prod.snd call)
        rw [call] at loop
        exact ⟨_, loop, fun _ _ => rfl⟩

/-- A banked message is taken out. -/
theorem Walked.erase (walked : Walked s dhr ck taken t count) (fresh : Fresh s ck) {item : Item S}
    (found : t.skipped.lookup item.slot = some item.key) :
    Walked s dhr ck (insert item taken) { t with skipped := t.skipped.erase item.slot } count := by
  obtain ⟨read, _⟩ := (walked.bank item.slot item.key).mp found
  have place : s.skipped.lookup item.slot = some item.key ∨
      ∃ i < count, item.slot = slotAt dhr s.nr i ∧ item.key = keyAt S ck i := by
    rcases overlay_source read with old | ⟨i, small, slot, key, _⟩
    · exact .inl old
    · exact .inr ⟨i, small, slot, key⟩
  have same : covered s dhr ck (insert item taken) count = covered s dhr ck taken count := by
    apply overlay_congr
    intro i small
    constructor
    · rintro ⟨other, member, key, slot⟩
      rcases Set.mem_insert_iff.mp member with rfl | old
      · -- it was banked under the slot of its own number
        rcases place with banked | ⟨j, _, slot', key'⟩
        · exact absurd (key ▸ banked) (fresh.ahead _ i)
        · rw [fresh.steps (key'.symm.trans key)] at slot'
          exact absurd slot' slot
      · exact ⟨other, old, key, slot⟩
    · rintro ⟨other, member, key, slot⟩
      exact ⟨other, Set.mem_insert_of_mem _ member, key, slot⟩
  refine ⟨walked.chain, ?_, ?_, ?_⟩
  · rw [walked.rest]
  · intro slot key
    rw [same]
    dsimp only
    by_cases own : slot = item.slot
    · rw [own, Finmap.lookup_erase]
      constructor
      · intro none
        cases none
      · rintro ⟨again, left⟩
        rw [read, Option.some.injEq] at again
        exact absurd ⟨item, Set.mem_insert _ _, again⟩ left
    · rw [Finmap.lookup_erase_ne own, walked.bank slot key]
      constructor
      · rintro ⟨held, left⟩
        refine ⟨held, ?_⟩
        rintro ⟨other, member, rfl⟩
        rcases Set.mem_insert_iff.mp member with rfl | old
        · exact own (overlay_distinct fresh.distinct fresh.steps fresh.ahead held read)
        · exact left ⟨other, old, rfl⟩
      · rintro ⟨held, left⟩
        refine ⟨held, ?_⟩
        rintro ⟨other, member, rfl⟩
        exact left ⟨other, Set.mem_insert_of_mem _ member, rfl⟩
  · intro other member
    rcases Set.mem_insert_iff.mp member with rfl | old
    · rcases place with banked | ⟨i, small, _, key⟩
      · exact .inl banked
      · exact .inr ⟨i, small, key⟩
    · exact walked.source other old

/-- A message is opened with the next key of the chain, which is never banked. -/
theorem Walked.take (walked : Walked s dhr ck taken t count) (fresh : Fresh s ck) (remote : s.dhr = some dhr)
    (current : s.ckr = some ck) {item : Item S} (absent : t.skipped.lookup item.slot = none)
    (key : item.key = keyAt S ck count) :
    Walked s dhr ck (insert item taken) { t with ckr := some (chainIter S ck (count + 1)), nr := t.nr + 1 }
      (count + 1) := by
  have same : covered s dhr ck (insert item taken) count = covered s dhr ck taken count := by
    apply overlay_congr
    intro i small
    constructor
    · rintro ⟨other, member, named, slot⟩
      rcases Set.mem_insert_iff.mp member with rfl | old
      · have := fresh.steps (key.symm.trans named)
        omega
      · exact ⟨other, old, named, slot⟩
    · rintro ⟨other, member, named, slot⟩
      exact ⟨other, Set.mem_insert_of_mem _ member, named, slot⟩
  have unread (slot : Bytes32 × UInt32) : covered s dhr ck taken count slot ≠ some item.key := by
    rw [key]
    intro read
    rcases overlay_source read with banked | ⟨i, small, _, named, _⟩
    · exact fresh.ahead slot count banked
    · have := fresh.steps named
      omega
  have gone_iff (other : S.Key) : Gone (insert item taken) other ↔ item.key = other ∨ Gone taken other :=
    Set.exists_mem_insert
  refine ⟨fun _ => ⟨remote, current⟩, ?_, ?_, ?_⟩
  · rw [walked.rest, current, UInt32.ofNat_add, ← UInt32.add_assoc]
    rfl
  · intro slot other
    rw [gone_iff]
    dsimp only
    by_cases written : slot = slotAt dhr s.nr count ∧ ¬Astray dhr s.nr ck (insert item taken) count
    · -- the write that the overlay makes here is the key just taken
      rw [covered, overlay_write written]
      obtain ⟨own, named⟩ := written
      have slotEq : item.slot = slotAt dhr s.nr count := by
        by_contra other
        exact named ⟨item, Set.mem_insert _ _, key, other⟩
      rw [own, ← slotEq, absent, ← key]
      constructor
      · intro none
        cases none
      · rintro ⟨same, left⟩
        exact absurd (.inl (Option.some.inj same)) left
    · have passed : covered s dhr ck (insert item taken) (count + 1) slot = covered s dhr ck taken count slot :=
        (overlay_pass written).trans (congrFun same slot)
      rw [passed, walked.bank slot other]
      constructor
      · rintro ⟨held, left⟩
        refine ⟨held, ?_⟩
        rintro (rfl | old)
        · exact unread slot held
        · exact left old
      · rintro ⟨held, left⟩
        exact ⟨held, fun old => left (.inr old)⟩
  · intro other member
    rcases Set.mem_insert_iff.mp member with rfl | old
    · exact .inr ⟨count, Nat.lt_succ_self _, key⟩
    · rcases walked.source other old with banked | ⟨i, small, named⟩
      · exact .inl banked
      · exact .inr ⟨i, Nat.lt_succ_of_lt small, named⟩

/-- The chain has been walked no further than to the last of the messages opened from it. -/
def Led (ck : S.Key) (taken : Set (Item S)) (count : Nat) : Prop :=
  count = 0 ∨ Gone taken (keyAt S ck (count - 1))

theorem Led.insert {ck : S.Key} {taken : Set (Item S)} {count : Nat} (led : Led ck taken count) (item : Item S) :
    Led ck (insert item taken) count := by
  rcases led with zero | ⟨other, member, key⟩
  · exact .inl zero
  · exact .inr ⟨other, Set.mem_insert_of_mem _ member, key⟩

/-- A skip leaves the slot of the message it is for alone. -/
theorem skip_absent {header : Header} (call : t.skipMessageKeys header.n = (u, .ok ()))
    (absent : t.skipped.lookup (header.dh, header.n) = none) : u.skipped.lookup (header.dh, header.n) = none := by
  rcases skipMessageKeys_ok call with ⟨_, rfl⟩ | ⟨dhr, ck, _, _, skips⟩
  · exact absent
  · rw [skips.kept, absent]
    rintro ⟨_, low, high⟩
    dsimp only at low high
    omega

theorem Walked.chainKey (walked : Walked s dhr ck taken t count) (fresh : Fresh s ck)
    (only : ∀ dhr' ck', s.dhr = some dhr' → s.ckr = some ck' → dhr' = dhr ∧ ck' = ck) {item : Item S}
    (remote : t.dhr = some item.header.dh) (absent : t.skipped.lookup item.slot = none)
    (call : t.chainKey item.header.n = (u, .ok item.key)) :
    ∃ count', Walked s dhr ck (insert item taken) u count' ∧ Led ck (insert item taken) count' ∧
      ∃ i, item.key = keyAt S ck i := by
  obtain ⟨middle, ck', skipped, present, key, rfl⟩ := RatchetState.chainKey_ok call
  obtain ⟨more, further, _⟩ := walked.skip fresh only skipped
  have remote : s.dhr = some item.header.dh := walked.dhr_eq.symm.trans remote
  cases current : s.ckr with
  | none =>
    rw [further.rest, current] at present
    cases present
  | some seed =>
    obtain ⟨named, rfl⟩ := only _ _ remote current
    rw [named] at remote
    have reached := further.ckr_eq current
    rw [reached, Option.some.injEq] at present
    rw [← present] at key
    have taken := further.take fresh remote current (skip_absent skipped absent) key
    rw [← present]
    exact ⟨_, taken, .inr ⟨item, Set.mem_insert _ _, key⟩, _, key⟩

theorem Walked.led_le (walked : Walked s dhr ck taken t count) (fresh : Fresh s ck) {other : Nat}
    (led : Led ck taken other) : other ≤ count := by
  rcases led with rfl | gone
  · exact Nat.zero_le _
  · by_contra beyond
    exact walked.not_gone fresh (by omega) gone

/-- How far the chain has been walked settles the state. -/
theorem Walked.unique (walked : Walked s dhr ck taken t count) (walked' : Walked s dhr ck taken u count) : t = u := by
  have bank : t.skipped = u.skipped := by
    apply Finmap.ext_lookup
    intro slot
    apply Option.ext
    intro key
    exact (walked.bank slot key).trans (walked'.bank slot key).symm
  rw [walked.rest, walked'.rest, bank]

end

end Buh.Ratchet.Coverage
