import Mathlib.Data.List.DropRight

/-! A list without the elements of a kind at its two ends. -/

namespace Buh.Library.Trimming
open List

variable {α β : Type*} (p : α → Bool)

def trim (l : List α) : List α := (l.dropWhile p).rdropWhile p

/-- Neither end is of the kind. -/
def Clear (l : List α) : Prop := l.head?.any p = false ∧ l.getLast?.any p = false

variable {p}

theorem Clear.reverse {l : List α} (clear : Clear p l) : Clear p l.reverse := by
  rw [Clear, head?_reverse, getLast?_reverse]
  exact clear.symm

theorem dropWhile_of_head {l : List α} (head : l.head?.any p = false) : l.dropWhile p = l := by
  cases l with
  | nil => rfl
  | cons first rest => exact dropWhile_cons_of_neg (by simpa using head)

theorem head_dropWhile (l : List α) : (l.dropWhile p).head?.any p = false := by
  have first := head?_dropWhile_not p l
  cases found : (l.dropWhile p).head? with
  | none => rfl
  | some c =>
    rw [found] at first
    simpa using first

theorem split_first {l : List α} (other : ∃ c ∈ l, p c = false) :
    ∃ front first rest, l = front ++ first :: rest ∧ (∀ c ∈ front, p c) ∧ p first = false := by
  have head := head_dropWhile (p := p) l
  cases left : l.dropWhile p with
  | nil =>
    obtain ⟨c, member, unlike⟩ := other
    have all := dropWhile_eq_nil_iff.mp left c member
    rw [unlike] at all
    cases all
  | cons first rest =>
    refine ⟨l.takeWhile p, first, rest, ?_, fun _ => mem_takeWhile_imp, ?_⟩
    · rw [← left, takeWhile_append_dropWhile]
    · rw [left] at head
      exact head

theorem split_last {l : List α} (other : ∃ c ∈ l, p c = false) :
    ∃ rest last back, l = rest ++ last :: back ∧ (∀ c ∈ back, p c) ∧ p last = false := by
  obtain ⟨c, member, unlike⟩ := other
  obtain ⟨front, last, rest, whole, before, ends⟩ := split_first ⟨c, mem_reverse.mpr member, unlike⟩
  refine ⟨rest.reverse, last, front.reverse, ?_, fun c member => before c (mem_reverse.mp member), ends⟩
  rw [← reverse_reverse l, whole]
  simp only [reverse_append, reverse_cons, append_assoc, singleton_append]

/-- What is between two stretches of the kind is what trimming leaves. -/
theorem trim_surrounded {front core back : List α} (before : ∀ c ∈ front, p c) (behind : ∀ c ∈ back, p c)
    (clear : Clear p core) : trim p (front ++ core ++ back) = core := by
  rw [trim, append_assoc, dropWhile_append_of_pos before]
  cases core with
  | nil =>
    rw [nil_append, dropWhile_eq_nil_iff.mpr behind]
    rfl
  | cons first rest =>
    have outer : ((first :: rest) ++ back).dropWhile p = (first :: rest) ++ back := dropWhile_of_head clear.1
    have inner : (first :: rest).reverse.dropWhile p = (first :: rest).reverse := dropWhile_of_head clear.reverse.1
    have last : ∀ c ∈ back.reverse, p c := fun c member => behind c (mem_reverse.mp member)
    rw [outer, rdropWhile, reverse_append, dropWhile_append_of_pos last, inner, reverse_reverse]

theorem trim_spec (l : List α) :
    ∃ front back, l = front ++ trim p l ++ back ∧ (∀ c ∈ front, p c) ∧ (∀ c ∈ back, p c) ∧ Clear p (trim p l) := by
  refine ⟨l.takeWhile p, (l.dropWhile p).rtakeWhile p, ?_, fun _ => mem_takeWhile_imp, fun _ => mem_rtakeWhile_imp, ?_, ?_⟩
  · rw [trim, append_assoc, rdropWhile_append_rtakeWhile, takeWhile_append_dropWhile]
  · -- what is left of the rest begins as the rest does
    obtain ⟨back, whole⟩ := rdropWhile_prefix p (l.dropWhile p)
    have head := head_dropWhile (p := p) l
    rw [← whole] at head
    rw [trim]
    cases left : (l.dropWhile p).rdropWhile p with
    | nil => rfl
    | cons first rest =>
      rw [left] at head
      exact head
  · have head := head_dropWhile (p := p) (l.dropWhile p).reverse
    rw [← getLast?_reverse] at head
    exact head

theorem trim_eq_self_iff {l : List α} : trim p l = l ↔ Clear p l := by
  constructor
  · intro same
    obtain ⟨_, _, _, _, _, clear⟩ := trim_spec (p := p) l
    rwa [same] at clear
  · intro clear
    have trimmed : trim p ([] ++ l ++ []) = l := trim_surrounded (by simp) (by simp) clear
    rwa [nil_append, append_nil] at trimmed

theorem trim_reverse (l : List α) : trim p l.reverse = (trim p l).reverse := by
  obtain ⟨front, back, whole, before, behind, clear⟩ := trim_spec (p := p) l
  have parts : l.reverse = back.reverse ++ (trim p l).reverse ++ front.reverse := by
    conv_lhs => rw [whole]
    simp only [reverse_append, append_assoc]
  rw [parts]
  exact trim_surrounded (fun c member => behind c (mem_reverse.mp member))
    (fun c member => before c (mem_reverse.mp member)) clear.reverse

/-- A map to nonempty lists that keeps the kind keeps it at the head. -/
theorem head_flatMap {q : β → Bool} {f : α → List β} (nonempty : ∀ a, f a ≠ []) (kept : ∀ a, ∀ b ∈ f a, q b = p a)
    (l : List α) : (l.flatMap f).head?.any q = l.head?.any p := by
  cases l with
  | nil => rfl
  | cons first rest =>
    cases image : f first with
    | nil => exact absurd image (nonempty first)
    | cons b bs =>
      rw [flatMap_cons, image]
      exact kept first b (image ▸ mem_cons_self)

theorem clear_flatMap {q : β → Bool} {f : α → List β} (nonempty : ∀ a, f a ≠ []) (kept : ∀ a, ∀ b ∈ f a, q b = p a)
    (l : List α) : Clear q (l.flatMap f) ↔ Clear p l := by
  have last : (l.flatMap f).getLast?.any q = l.getLast?.any p := by
    rw [← head?_reverse, ← head?_reverse, reverse_flatMap]
    apply head_flatMap
    · intro a
      rw [Function.comp_apply, Ne, reverse_eq_nil_iff]
      exact nonempty a
    · intro a b member
      exact kept a b (mem_reverse.mp member)
  rw [Clear, Clear, head_flatMap nonempty kept, last]

end Buh.Library.Trimming
