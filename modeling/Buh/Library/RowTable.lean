import Mathlib.Tactic

/-! One SQL table with an integer primary key. Rows are kept in the order of their
rowids, a new row gets the largest rowid plus one, and a statement is one function. -/

namespace Buh.Library.RowTable

structure Row (α : Type) where
  rowid : Nat
  data : α

structure Table (α : Type) where
  rows : List (Row α)
  ascending : rows.Pairwise (fun first second => first.rowid < second.rowid)

namespace Table
variable {α : Type}

def empty : Table α := ⟨[], .nil⟩

/-- The rows without their rowids. -/
def contents (t : Table α) : List α := t.rows.map Row.data

def maxRowid (t : Table α) : Nat := (t.rows.map Row.rowid).foldr max 0

theorem rowid_le_max (t : Table α) : ∀ row ∈ t.rows, row.rowid ≤ t.maxRowid := by
  intro row member
  unfold maxRowid
  generalize t.rows = rows at member ⊢
  induction rows with
  | nil => cases member
  | cons first rest ih =>
    rw [List.map_cons, List.foldr_cons]
    rcases List.mem_cons.mp member with rfl | later
    · exact le_max_left _ _
    · exact (ih later).trans (le_max_right _ _)

/-- `INSERT INTO` -/
def insert (t : Table α) (data : α) : Table α where
  rows := t.rows ++ [⟨t.maxRowid + 1, data⟩]
  ascending := by
    rw [List.pairwise_append]
    refine ⟨t.ascending, List.pairwise_singleton _ _, ?_⟩
    intro row member last same
    rw [List.mem_singleton] at same
    subst same
    exact Nat.lt_succ_of_le (t.rowid_le_max row member)

/-- `UPDATE`, with the number of rows it affected. -/
def update (t : Table α) (affects : α → Bool) (change : α → α) : Table α × Nat :=
  (⟨t.rows.map (fun row => if affects row.data then { row with data := change row.data } else row), by
      rw [List.pairwise_map]
      refine t.ascending.imp ?_
      intro first second before
      split_ifs <;> exact before⟩,
    t.contents.countP affects)

/-- `DELETE FROM`, with the number of rows it removed. -/
def delete (t : Table α) (affects : α → Bool) : Table α × Nat :=
  (⟨t.rows.filter (fun row => !affects row.data), t.ascending.filter _⟩, t.contents.countP affects)

/-- `ORDER BY key ASC, id ASC` -/
def before (key : α → Int) (first second : Row α) : Bool :=
  decide (key first.data < key second.data ∨ key first.data = key second.data ∧ first.rowid ≤ second.rowid)

/-- `LIMIT`; a negative one is none. -/
def limited (limit : Int) (found : List α) : List α := if limit < 0 then found else found.take limit.toNat

/-- `SELECT … WHERE … ORDER BY … LIMIT` -/
def select (t : Table α) (matching : α → Bool) (key : α → Int) (limit : Int) : List α :=
  limited limit (((t.rows.filter (fun row => matching row.data)).mergeSort (before key)).map Row.data)

@[simp] theorem contents_insert (t : Table α) (data : α) : (t.insert data).contents = t.contents ++ [data] := by
  simp [contents, insert]

@[simp] theorem contents_update (t : Table α) (affects : α → Bool) (change : α → α) :
    (t.update affects change).1.contents =
      t.contents.map (fun data => if affects data then change data else data) := by
  simp only [contents, update, List.map_map]
  congr 1
  funext row
  simp only [Function.comp_apply]
  split_ifs <;> rfl

/-- A statement that affects no row leaves the table as it is. -/
theorem update_unaffected {t : Table α} {affects : α → Bool} {change : α → α}
    (none_ : (t.update affects change).2 = 0) : (t.update affects change).1 = t := by
  obtain ⟨rows, ascending⟩ := t
  have unmatched : ∀ row ∈ rows, ¬affects row.data = true := fun row member =>
    List.countP_eq_zero.mp none_ row.data (List.mem_map_of_mem member)
  simp only [update, mk.injEq]
  calc
    _ = rows.map id := List.map_congr_left (fun row member => if_neg (unmatched row member))
    _ = rows := List.map_id rows

@[simp] theorem contents_delete (t : Table α) (affects : α → Bool) :
    (t.delete affects).1.contents = t.contents.filter (fun data => !affects data) := by
  simp only [contents, delete, List.filter_map]
  rfl

/-- When the keys never decrease down the table, ordering changes nothing: rowids that
were handed out again after a deletion still follow those in use. -/
theorem select_ordered (t : Table α) (matching : α → Bool) {key : α → Int} (limit : Int)
    (ordered : t.contents.Pairwise (fun first second => key first ≤ key second)) :
    t.select matching key limit = limited limit (t.contents.filter matching) := by
  have keys : t.rows.Pairwise (fun first second => key first.data ≤ key second.data) := by
    rwa [contents, List.pairwise_map] at ordered
  have sorted : (t.rows.filter (fun row => matching row.data)).Pairwise
      (fun first second => before key first second) := by
    refine (keys.imp₂ ?_ t.ascending).filter _
    intro first second le lt
    rw [before, decide_eq_true_eq]
    omega
  rw [select, List.mergeSort_of_pairwise sorted, contents, List.filter_map]
  rfl

/-- A query with a limit of at least one is empty only when nothing matches. -/
theorem select_eq_nil_iff {t : Table α} {matching : α → Bool} {key : α → Int} {limit : Int} (positive : 1 ≤ limit) :
    t.select matching key limit = [] ↔ ∀ data ∈ t.contents, matching data = false := by
  have sorted : (t.rows.filter (fun row => matching row.data)).mergeSort (before key) = [] ↔
      t.rows.filter (fun row => matching row.data) = [] := by
    rw [← List.length_eq_zero_iff, List.length_mergeSort, List.length_eq_zero_iff]
  have some_ : ¬limit.toNat = 0 := by omega
  rw [select, limited, if_neg (by omega), List.take_eq_nil_iff, List.map_eq_nil_iff, or_iff_right some_, sorted,
    List.filter_eq_nil_iff, contents, List.forall_mem_map]
  simp only [Bool.not_eq_true]

theorem mem_of_mem_select {t : Table α} {matching : α → Bool} {key : α → Int} {limit : Int} {data : α}
    (member : data ∈ t.select matching key limit) : data ∈ t.contents ∧ matching data = true := by
  have found : data ∈ ((t.rows.filter (fun row => matching row.data)).mergeSort (before key)).map Row.data := by
    rw [select, limited] at member
    split_ifs at member
    · exact member
    · exact List.mem_of_mem_take member
  obtain ⟨row, sorted, rfl⟩ := List.mem_map.mp found
  obtain ⟨stored, matched⟩ := List.mem_filter.mp (List.mem_mergeSort.mp sorted)
  exact ⟨List.mem_map_of_mem stored, matched⟩

theorem mem_select_unlimited {t : Table α} {matching : α → Bool} {key : α → Int} {limit : Int} (unlimited : limit < 0)
    {data : α} : data ∈ t.select matching key limit ↔ data ∈ t.contents ∧ matching data = true := by
  rw [select, limited, if_pos unlimited, contents]
  simp only [List.mem_map, List.mem_mergeSort, List.mem_filter]
  constructor
  · rintro ⟨row, ⟨member, matched⟩, rfl⟩
    exact ⟨⟨row, member, rfl⟩, matched⟩
  · rintro ⟨⟨row, member, rfl⟩, matched⟩
    exact ⟨row, ⟨member, matched⟩, rfl⟩

end Table

end Buh.Library.RowTable
