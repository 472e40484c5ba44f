import Buh.Ratchet.State

/-! Where the keys of a session state sit in the key schedule. The counters of the
state say nothing here: a failed call may leave them behind its chain, so a place is
counted in KDF steps actually taken. -/

namespace Buh.Ratchet.Placement
open Buh.Wire.Codec Buh.Crypto.Primitives Buh.Ratchet.Message Buh.Ratchet.Chain Buh.Ratchet.State

/-- The receiving places a state at `depth` has already walked past. Its receiving
chains lie one, three, five, ... root steps under it. -/
def Past (depth recvPos d k : Nat) : Prop := ∃ turns, d + 1 + 2 * turns = depth ∧ (turns = 0 → k < recvPos)

structure Placed (S : Suite) (root : S.Key) (s : RatchetState S) (depth sendPos recvPos : Nat) :
    Prop where
  rk : RootAt S root depth s.rk
  cks : ∀ ck, s.cks = some ck → ChainAt S root depth sendPos ck
  ckr : ∀ ck, s.ckr = some ck → ∃ below, depth = below + 1 ∧ ChainAt S root below recvPos ck
  bank : ∀ slot mk, s.skipped.lookup slot = some mk →
    ∃ d k, MessageAt S root d k mk ∧ Past depth recvPos d k
  distinct : ∀ slot slot' mk, s.skipped.lookup slot = some mk → s.skipped.lookup slot' = some mk →
    slot = slot'

/-- A message key the state has not walked past yet. -/
def Later (S : Suite) (root : S.Key) (depth recvPos : Nat) (mk : S.Key) : Prop :=
  ∃ d k turns, MessageAt S root d k mk ∧ d + 1 = depth + 2 * turns ∧ (turns = 0 → recvPos ≤ k)

theorem Past.mono {depth recvPos recvPos' d k : Nat} (past : Past depth recvPos d k)
    (further : recvPos ≤ recvPos') : Past depth recvPos' d k := by
  obtain ⟨turns, total, inside⟩ := past
  exact ⟨turns, total, fun none => lt_of_lt_of_le (inside none) further⟩

theorem Past.turn {depth recvPos d k : Nat} (past : Past depth recvPos d k) (recvPos' : Nat) :
    Past (depth + 2) recvPos' d k := by
  obtain ⟨turns, total, _⟩ := past
  exact ⟨turns + 1, by omega, by omega⟩

/-- How the place of a state moves in one call: along its chain, or across turns of
the ratchet, which leave the sending chain at its seed. -/
def Moves (depth sendPos recvPos depth' sendPos' recvPos' : Nat) : Prop :=
  (depth' = depth ∧ sendPos' = sendPos ∧ recvPos ≤ recvPos') ∨
    (depth' = depth + 2 ∧ sendPos' = 0)

theorem Later.weaken {S : Suite} {root mk : S.Key} {depth sendPos recvPos depth' sendPos' recvPos' : Nat}
    (moves : Moves depth sendPos recvPos depth' sendPos' recvPos')
    (later : Later S root depth' recvPos' mk) : Later S root depth recvPos mk := by
  obtain ⟨d, k, turns, place, total, beyond⟩ := later
  rcases moves with ⟨rfl, _, further⟩ | ⟨rfl, _⟩
  · exact ⟨d, k, turns, place, total, fun none => further.trans (beyond none)⟩
  · exact ⟨d, k, turns + 1, place, by omega, by omega⟩

section
variable {S : Suite} (ideal : Ideal S) {root : S.Key} (session : SessionRoot S root)

theorem placed_initiator (root : S.Key) (remote generated : Bytes32) :
    Placed S root (RatchetState.initiator root remote generated) 1 0 0 where
  rk := .step .start _
  cks := by
    intro ck chain
    cases chain
    exact .seed .start _
  ckr := by intro ck chain; cases chain
  bank := by intro slot mk found; simp [RatchetState.initiator] at found
  distinct := by intro slot slot' mk found; simp [RatchetState.initiator] at found

theorem placed_responder (root : S.Key) (ratchetKey : Bytes32) :
    Placed S root (RatchetState.responder root ratchetKey) 0 0 0 where
  rk := .start
  cks := by intro ck chain; cases chain
  ckr := by intro ck chain; cases chain
  bank := by intro slot mk found; simp [RatchetState.responder] at found
  distinct := by intro slot slot' mk found; simp [RatchetState.responder] at found

variable {s : RatchetState S} {depth sendPos recvPos : Nat}

theorem Placed.send (placed : Placed S root s depth sendPos recvPos) {ck : S.Key}
    (chain : s.cks = some ck) (ns : UInt32) :
    Placed S root { s with cks := some (kdfCk S ck).1, ns := ns } depth (sendPos + 1) recvPos where
  rk := placed.rk
  cks := by
    intro next same
    cases same
    exact (placed.cks ck chain).next
  ckr := placed.ckr
  bank := placed.bank
  distinct := placed.distinct

theorem Placed.erase (placed : Placed S root s depth sendPos recvPos) (slot : Bytes32 × UInt32) :
    Placed S root { s with skipped := s.skipped.erase slot } depth sendPos recvPos := by
  have kept : ∀ other mk, (s.skipped.erase slot).lookup other = some mk →
      s.skipped.lookup other = some mk := by
    intro other mk found
    by_cases same : other = slot
    · rw [same, Finmap.lookup_erase] at found
      cases found
    · rwa [Finmap.lookup_erase_ne same] at found
  exact ⟨placed.rk, placed.cks, placed.ckr, fun other mk found => placed.bank other mk (kept _ _ found),
    fun first second mk left right => placed.distinct first second mk (kept _ _ left) (kept _ _ right)⟩

/-- Taking one step of the receiving chain without keeping its message key. -/
theorem Placed.advance (placed : Placed S root s depth sendPos recvPos) {ck : S.Key}
    (chain : s.ckr = some ck) (nr : UInt32) :
    Placed S root { s with ckr := some (kdfCk S ck).1, nr := nr } depth sendPos (recvPos + 1) where
  rk := placed.rk
  cks := placed.cks
  ckr := by
    intro next same
    cases same
    obtain ⟨below, total, place⟩ := placed.ckr ck chain
    exact ⟨below, total, place.next⟩
  bank := by
    intro slot mk found
    obtain ⟨d, k, place, past⟩ := placed.bank slot mk found
    exact ⟨d, k, place, past.mono (Nat.le_succ _)⟩
  distinct := placed.distinct

/-- The message key at the current receiving place. -/
theorem Placed.current (placed : Placed S root s depth sendPos recvPos) {ck : S.Key}
    (chain : s.ckr = some ck) :
    ∃ below, depth = below + 1 ∧ MessageAt S root below recvPos (kdfCk S ck).2 := by
  obtain ⟨below, total, place⟩ := placed.ckr ck chain
  exact ⟨below, total, ck, place, rfl⟩

include ideal session in
/-- It is not in the bank: everything banked lies behind the current place. -/
theorem Placed.current_not_banked (placed : Placed S root s depth sendPos recvPos) {ck : S.Key}
    (chain : s.ckr = some ck) (slot : Bytes32 × UInt32) :
    s.skipped.lookup slot ≠ some (kdfCk S ck).2 := by
  intro found
  obtain ⟨below, total, place⟩ := placed.current chain
  obtain ⟨d, k, other, turns, under, inside⟩ := placed.bank slot _ found
  obtain ⟨depths, positions⟩ := MessageAt.unique ideal session place other
  have := inside (by omega)
  omega

include ideal session in
theorem Placed.store (placed : Placed S root s depth sendPos recvPos) {ck : S.Key}
    (chain : s.ckr = some ck) (slot : Bytes32 × UInt32) (nr : UInt32) :
    Placed S root { s with
      ckr := some (kdfCk S ck).1, skipped := s.skipped.insert slot (kdfCk S ck).2, nr := nr }
      depth sendPos (recvPos + 1) where
  rk := placed.rk
  cks := placed.cks
  ckr := (placed.advance chain nr).ckr
  bank := by
    intro other mk found
    by_cases same : other = slot
    · rw [same, Finmap.lookup_insert] at found
      cases found
      obtain ⟨below, total, place⟩ := placed.current chain
      exact ⟨below, recvPos, place, 0, by omega, by omega⟩
    · rw [Finmap.lookup_insert_of_ne _ same] at found
      exact (placed.advance chain nr).bank other mk found
  distinct := by
    intro first second mk left right
    have fresh := fun other => placed.current_not_banked ideal session chain other
    by_cases firstNew : first = slot <;> by_cases secondNew : second = slot
    · rw [firstNew, secondNew]
    · rw [firstNew, Finmap.lookup_insert] at left
      rw [Finmap.lookup_insert_of_ne _ secondNew] at right
      cases left
      exact False.elim (fresh second right)
    · rw [Finmap.lookup_insert_of_ne _ firstNew] at left
      rw [secondNew, Finmap.lookup_insert] at right
      cases right
      exact False.elim (fresh first left)
    · rw [Finmap.lookup_insert_of_ne _ firstNew] at left
      rw [Finmap.lookup_insert_of_ne _ secondNew] at right
      exact placed.distinct first second mk left right

theorem Placed.turn (placed : Placed S root s depth sendPos recvPos) (header : Header)
    (generated : Bytes32) : Placed S root (s.dhRatchet header generated) (depth + 2) 0 0 where
  rk := .step (.step placed.rk _) _
  cks := by
    intro ck chain
    cases chain
    exact .seed (.step placed.rk _) _
  ckr := by
    intro ck chain
    cases chain
    exact ⟨depth + 1, rfl, .seed placed.rk _⟩
  bank := by
    intro slot mk found
    obtain ⟨d, k, place, past⟩ := placed.bank slot mk found
    exact ⟨d, k, place, past.turn 0⟩
  distinct := placed.distinct

end

/-- What a call may do to a placed state: it moves on, and every key it holds in its
bank was there before or lies ahead of where it started. -/
structure Evolves (S : Suite) (root : S.Key) (s : RatchetState S) (depth sendPos recvPos : Nat)
    (after : RatchetState S) (depth' sendPos' recvPos' : Nat) : Prop where
  placed : Placed S root after depth' sendPos' recvPos'
  moves : Moves depth sendPos recvPos depth' sendPos' recvPos'
  bank : ∀ slot mk, after.skipped.lookup slot = some mk →
    (∃ before, s.skipped.lookup before = some mk) ∨ Later S root depth recvPos mk

section
variable {S : Suite} {root : S.Key} {s middle after : RatchetState S}
  {depth sendPos recvPos depth' sendPos' recvPos' : Nat}

theorem Evolves.refl (placed : Placed S root s depth sendPos recvPos) :
    Evolves S root s depth sendPos recvPos s depth sendPos recvPos :=
  ⟨placed, Or.inl ⟨rfl, rfl, le_rfl⟩, fun slot _ found => Or.inl ⟨slot, found⟩⟩

/-- Chain moves compose on either side of one turn. -/
theorem Evolves.trans {recvPos₁ sendPos₂ depth₂ recvPos₂ : Nat}
    (first : Evolves S root s depth sendPos recvPos middle depth' sendPos' recvPos₁)
    (second : Evolves S root middle depth' sendPos' recvPos₁ after depth₂ sendPos₂ recvPos₂)
    (once : depth' = depth ∨ depth₂ = depth') :
    Evolves S root s depth sendPos recvPos after depth₂ sendPos₂ recvPos₂ where
  placed := second.placed
  moves := by
    rcases first.moves with ⟨a, b, c⟩ | ⟨a, b⟩ <;> rcases second.moves with ⟨d, e, f⟩ | ⟨d, e⟩
    · exact Or.inl ⟨by omega, by omega, by omega⟩
    · exact Or.inr ⟨by omega, by omega⟩
    · exact Or.inr ⟨by omega, by omega⟩
    · omega
  bank := by
    intro slot mk found
    rcases second.bank slot mk found with ⟨before, held⟩ | later
    · exact first.bank before mk held
    · exact Or.inr (later.weaken first.moves)

end

section
variable {S : Suite} (ideal : Ideal S) {root : S.Key} (session : SessionRoot S root)
include ideal session
variable {s : RatchetState S} {depth sendPos recvPos : Nat}

theorem skipLoop_evolves (dhr : Bytes32) (count : Nat) {ck : S.Key} (chain : s.ckr = some ck)
    (placed : Placed S root s depth sendPos recvPos) :
    ∃ recvPos', Evolves S root s depth sendPos recvPos
      (RatchetState.skipLoop dhr count ck s).1 depth sendPos recvPos' := by
  induction count generalizing s ck recvPos with
  | zero => exact ⟨recvPos, Evolves.refl placed⟩
  | succ count ih =>
    rw [RatchetState.skipLoop]
    dsimp only
    split_ifs with full
    · exact ⟨recvPos + 1, placed.advance chain s.nr, Or.inl ⟨rfl, rfl, Nat.le_succ _⟩,
        fun slot _ found => Or.inl ⟨slot, found⟩⟩
    · have stored := placed.store ideal session chain (dhr, s.nr) (s.nr + 1)
      have one : Evolves S root s depth sendPos recvPos _ depth sendPos (recvPos + 1) :=
        ⟨stored, Or.inl ⟨rfl, rfl, Nat.le_succ _⟩, by
          intro slot mk found
          by_cases same : slot = (dhr, s.nr)
          · rw [same, Finmap.lookup_insert] at found
            cases found
            obtain ⟨below, total, place⟩ := placed.current chain
            exact Or.inr ⟨below, recvPos, 0, place, by omega, fun _ => le_rfl⟩
          · rw [Finmap.lookup_insert_of_ne _ same] at found
            exact Or.inl ⟨slot, found⟩⟩
      obtain ⟨recvPos', rest⟩ := ih rfl stored
      exact ⟨recvPos', one.trans rest (Or.inl rfl)⟩

theorem skipMessageKeys_evolves (upto : UInt32) (placed : Placed S root s depth sendPos recvPos) :
    ∃ recvPos', Evolves S root s depth sendPos recvPos
      (s.skipMessageKeys upto).1 depth sendPos recvPos' := by
  unfold RatchetState.skipMessageKeys
  split
  · exact ⟨recvPos, Evolves.refl placed⟩
  · split
    · exact ⟨recvPos, Evolves.refl placed⟩
    · next ck chain =>
      split_ifs with tooFar
      · exact ⟨recvPos, Evolves.refl placed⟩
      · exact skipLoop_evolves ideal session _ _ chain placed

theorem turnIfNew_evolves (header : Header) (generated : Bytes32)
    (placed : Placed S root s depth sendPos recvPos) :
    ∃ depth' sendPos' recvPos', Evolves S root s depth sendPos recvPos
      (s.turnIfNew header generated).1 depth' sendPos' recvPos' := by
  unfold RatchetState.turnIfNew
  split_ifs with same
  · exact ⟨_, _, _, Evolves.refl placed⟩
  · obtain ⟨recvPos', skipped⟩ := skipMessageKeys_evolves ideal session header.pn placed
    split
    · next middle e failed =>
      rw [failed] at skipped
      exact ⟨_, _, _, skipped⟩
    · next middle done =>
      rw [done] at skipped
      have turned : Evolves S root middle depth sendPos recvPos' (middle.dhRatchet header generated)
          (depth + 2) 0 0 :=
        ⟨skipped.placed.turn header generated, Or.inr ⟨rfl, rfl⟩, fun slot _ found => Or.inl ⟨slot, found⟩⟩
      exact ⟨_, _, _, skipped.trans turned (Or.inl rfl)⟩

/-- What a call that returns a message key guarantees of it: the key was banked or lies
ahead, is behind the place the call moves to, and is not left in the bank. -/
def Returns (S : Suite) (root : S.Key) (s : RatchetState S) (depth recvPos : Nat) (after : RatchetState S)
    (depth' recvPos' : Nat) (mk : S.Key) : Prop :=
  (∀ slot, after.skipped.lookup slot ≠ some mk) ∧
    ((∃ slot, s.skipped.lookup slot = some mk) ∨ Later S root depth recvPos mk) ∧
    ∃ d k, MessageAt S root d k mk ∧ Past depth' recvPos' d k

theorem chainKey_evolves (n : UInt32) (placed : Placed S root s depth sendPos recvPos) :
    ∃ recvPos', Evolves S root s depth sendPos recvPos (s.chainKey n).1 depth sendPos recvPos' ∧
      ∀ mk, (s.chainKey n).2 = .ok mk → Returns S root s depth recvPos (s.chainKey n).1 depth recvPos' mk := by
  obtain ⟨recvPos₁, skipped⟩ := skipMessageKeys_evolves ideal session n placed
  unfold RatchetState.chainKey
  split
  · next last e failed =>
    rw [failed] at skipped
    exact ⟨_, skipped, fun mk same => by cases same⟩
  · next last done =>
    rw [done] at skipped
    split
    · exact ⟨_, skipped, fun mk same => by cases same⟩
    · next ck chain =>
      have advanced : Evolves S root last depth sendPos recvPos₁ _ depth sendPos (recvPos₁ + 1) :=
        ⟨skipped.placed.advance chain (last.nr + 1), Or.inl ⟨rfl, rfl, Nat.le_succ _⟩,
          fun slot _ found => Or.inl ⟨slot, found⟩⟩
      refine ⟨_, skipped.trans advanced (Or.inr rfl), ?_⟩
      intro mk same
      cases same
      obtain ⟨below, total, place⟩ := skipped.placed.current chain
      have ahead : Later S root depth recvPos₁ (kdfCk S ck).2 :=
        ⟨below, recvPos₁, 0, place, by omega, fun _ => le_rfl⟩
      exact ⟨skipped.placed.current_not_banked ideal session chain, Or.inr (ahead.weaken skipped.moves),
        below, recvPos₁, place, 0, by omega, by omega⟩

/-- The spec of everything `decrypt` does before it opens the ciphertext. -/
theorem receiveKey_evolves (header : Header) (generated : Bytes32)
    (placed : Placed S root s depth sendPos recvPos) :
    ∃ depth' sendPos' recvPos', Evolves S root s depth sendPos recvPos
      (s.receiveKey header generated).1 depth' sendPos' recvPos' ∧
      ∀ mk, (s.receiveKey header generated).2 = .ok mk →
        Returns S root s depth recvPos (s.receiveKey header generated).1 depth' recvPos' mk := by
  unfold RatchetState.receiveKey
  split
  · next mk found =>
    refine ⟨depth, sendPos, recvPos, ⟨placed.erase _, Or.inl ⟨rfl, rfl, le_rfl⟩, ?_⟩, ?_⟩
    · intro slot key held
      by_cases same : slot = (header.dh, header.n)
      · rw [same, Finmap.lookup_erase] at held
        cases held
      · rw [Finmap.lookup_erase_ne same] at held
        exact Or.inl ⟨slot, held⟩
    · intro key same
      cases same
      refine ⟨?_, Or.inl ⟨_, found⟩, placed.bank _ _ found⟩
      intro slot held
      by_cases same : slot = (header.dh, header.n)
      · rw [same, Finmap.lookup_erase] at held
        cases held
      · rw [Finmap.lookup_erase_ne same] at held
        exact same (placed.distinct _ _ _ held found)
  · obtain ⟨depth', sendPos', recvPos₁, turned⟩ := turnIfNew_evolves ideal session header generated placed
    split
    · next middle e failed =>
      rw [failed] at turned
      exact ⟨_, _, _, turned, fun mk same => by cases same⟩
    · next middle done =>
      rw [done] at turned
      obtain ⟨recvPos₂, taken, returns⟩ := chainKey_evolves ideal session header.n turned.placed
      refine ⟨_, _, _, turned.trans taken (Or.inr rfl), fun mk same => ?_⟩
      obtain ⟨gone, source, place⟩ := returns mk same
      refine ⟨gone, ?_, place⟩
      rcases source with ⟨slot, held⟩ | later
      · exact turned.bank slot mk held
      · exact Or.inr (later.weaken turned.moves)

end

end Buh.Ratchet.Placement
