import Mathlib.Data.List.Nodup

/-!
# Tables that gain columns

A `ColumnTable` keeps its rows as lists of cells under named columns, with `none` for NULL, so that
nothing is assumed of what the rows hold. `addColumn` appends a column without a default: every row
gets a NULL there. `upsert` writes cells by name, whatever other columns the table has.

`Extends` says what any number of added columns do to a table: the columns and the rows are kept as
they were, followed by the new columns and their NULLs.
-/

set_option autoImplicit false
set_option relaxedAutoImplicit false

namespace Gaudere.Library

variable {Cell : Type*}

/-- Rows of cells under named columns. -/
structure ColumnTable (Cell : Type*) where
  columns : List String
  rows : List (List (Option Cell))
  width : ∀ row ∈ rows, row.length = columns.length

namespace ColumnTable

/-- The cell of a row in a column; NULL when there is no such column. -/
def cell (columns : List String) (row : List (Option Cell)) (column : String) : Option Cell :=
  ((columns.zip row).lookup column).join

def hasColumn (t : ColumnTable Cell) (column : String) : Bool := t.columns.contains column

/-- `CREATE TABLE`: the columns, without rows. -/
def create (columns : List String) : ColumnTable Cell where
  columns := columns
  rows := []
  width := nofun

/-- `ALTER TABLE ... ADD COLUMN` without a default; `none` when the table has the column. -/
def addColumn (t : ColumnTable Cell) (column : String) : Option (ColumnTable Cell) :=
  if t.hasColumn column then none
  else some
    { columns := t.columns ++ [column]
      rows := t.rows.map (· ++ [none])
      width := by
        intro row hrow
        obtain ⟨old, hold, rfl⟩ := List.mem_map.mp hrow
        simp [t.width old hold] }

/-- A row of the table with the given cells written, the others as they are in another row. -/
def written (t : ColumnTable Cell) (columns : List String) (values : List (Option Cell))
    (row : List (Option Cell)) : List (Option Cell) :=
  t.columns.map fun column ↦
    if columns.contains column then cell columns values column else cell t.columns row column

section Upsert

variable [DecidableEq Cell]

/-- The row has the value that is written in the key column. -/
def conflicts (t : ColumnTable Cell) (key : String) (columns : List String)
    (values row : List (Option Cell)) : Bool :=
  cell t.columns row key = cell columns values key

/-- `INSERT ... ON CONFLICT(key) DO UPDATE SET` every written column. -/
def upsert (t : ColumnTable Cell) (key : String) (columns : List String)
    (values : List (Option Cell)) : ColumnTable Cell where
  columns := t.columns
  rows :=
    if t.rows.any (t.conflicts key columns values) then
      t.rows.map fun row ↦
        if t.conflicts key columns values row then t.written columns values row else row
    else t.rows ++ [t.written columns values []]
  width := by
    have hwritten : ∀ row, (t.written columns values row).length = t.columns.length :=
      fun _ ↦ List.length_map _
    intro row hrow
    split_ifs at hrow
    · obtain ⟨old, hold, rfl⟩ := List.mem_map.mp hrow
      split_ifs
      · exact hwritten old
      · exact t.width old hold
    · rcases List.mem_append.mp hrow with hold | hnew
      · exact t.width row hold
      · rw [List.mem_singleton.mp hnew]
        exact hwritten []

end Upsert

/-! ### Reading by name -/

theorem cell_cons_self (column : String) (columns : List String) (x : Option Cell)
    (row : List (Option Cell)) : cell (column :: columns) (x :: row) column = x := by
  simp [cell]

theorem cell_cons_of_ne {column other : String} (h : other ≠ column) (columns : List String)
    (x : Option Cell) (row : List (Option Cell)) :
    cell (column :: columns) (x :: row) other = cell columns row other := by
  have hother : (other == column) = false := beq_eq_false_iff_ne.mpr h
  simp [cell, List.lookup_cons, hother]

/-- Reading every column in order gives the row back. -/
theorem map_cell {columns : List String} {row : List (Option Cell)} (hnodup : columns.Nodup)
    (hwidth : row.length = columns.length) : columns.map (cell columns row) = row := by
  induction columns generalizing row with
  | nil => exact (List.length_eq_zero_iff.mp hwidth).symm
  | cons column columns ih =>
    cases row with
    | nil => simp at hwidth
    | cons x row =>
      obtain ⟨hfresh, hnodup⟩ := List.nodup_cons.mp hnodup
      have hrest : columns.map (cell (column :: columns) (x :: row)) =
          columns.map (cell columns row) := by
        refine List.map_congr_left fun other hother ↦ cell_cons_of_ne ?_ columns x row
        rintro rfl
        exact hfresh hother
      rw [List.map_cons, cell_cons_self, hrest, ih hnodup (Nat.succ.inj hwidth)]

/-- A row whose cells are all written. -/
theorem written_eq_self {t : ColumnTable Cell} {values : List (Option Cell)}
    (hnodup : t.columns.Nodup) (hwidth : values.length = t.columns.length)
    (row : List (Option Cell)) : t.written t.columns values row = values := by
  have hcells : t.written t.columns values row = t.columns.map (cell t.columns values) :=
    List.map_congr_left fun column hcolumn ↦ if_pos (List.contains_iff_mem.mpr hcolumn)
  rw [hcells, map_cell hnodup hwidth]

/-! ### Added columns -/

/-- The second table is the first one with columns added. -/
def Extends (t t' : ColumnTable Cell) : Prop :=
  ∃ added : List String, t'.columns = t.columns ++ added ∧
    t'.rows = t.rows.map (· ++ List.replicate added.length none)

theorem Extends.refl (t : ColumnTable Cell) : Extends t t := ⟨[], by simp, by simp⟩

theorem Extends.trans {first second third : ColumnTable Cell} (h : Extends first second)
    (h' : Extends second third) : Extends first third := by
  obtain ⟨added, hcolumns, hrows⟩ := h
  obtain ⟨more, hcolumns', hrows'⟩ := h'
  refine ⟨added ++ more, by rw [hcolumns', hcolumns, List.append_assoc], ?_⟩
  rw [hrows', hrows, List.map_map, List.length_append, List.replicate_add]
  simp only [Function.comp_def, List.append_assoc]

theorem Extends.hasColumn {t t' : ColumnTable Cell} (h : Extends t t') {column : String}
    (hcolumn : t.hasColumn column = true) : t'.hasColumn column = true := by
  obtain ⟨added, hcolumns, -⟩ := h
  simp only [ColumnTable.hasColumn, List.contains_iff_mem] at hcolumn ⊢
  rw [hcolumns]
  exact List.mem_append_left added hcolumn

theorem extends_addColumn {t t' : ColumnTable Cell} {column : String}
    (h : t.addColumn column = some t') :
    Extends t t' ∧ t'.columns = t.columns ++ [column] := by
  unfold addColumn at h
  split_ifs at h
  cases h
  exact ⟨⟨[column], rfl, rfl⟩, rfl⟩

end ColumnTable

end Gaudere.Library
