import Gaudere.Library.Columns
import Gaudere.Work.TaskStore

/-!
# The table of tasks across schema versions

Version 2 of the schema declares eighteen columns of `tasks`; version 3 adds the two of the result
metadata, at the end. A table created by an older release may declare other CHECKs and hold
anything, so a `TasksTable` is a table of arbitrary cells with arbitrary CHECKs.

On a table that the current release created, `TasksTable.save` is the save of the task store
(`save_represents`).
-/

set_option autoImplicit false
set_option relaxedAutoImplicit false

namespace Gaudere.Persistence

open Gaudere.Library Gaudere.Work

/-- A stored value that is not NULL. -/
inductive Cell where
  | integer (value : Int64)
  | real (bits : UInt64)
  | text (value : Bytes)
  | blob (value : Bytes)
deriving DecidableEq, Repr

/-- The columns of version 2. -/
def legacyColumns : List String :=
  ["id", "idempotency_key", "kind", "input_content_type", "input", "max_input_bytes",
    "max_output_bytes", "max_runtime_ms", "max_attempts", "attempts_started", "status",
    "lease_owner", "lease_expires_at_ms", "cancel_reason", "result_content_type", "result_output",
    "result_failure_code", "result_failure_message"]

def metadataColumns : List String := ["result_metadata_content_type", "result_metadata"]

/-- The columns that the task store reads and writes. -/
def taskColumns : List String := legacyColumns ++ metadataColumns

/-- The values that `save` binds, in the order of `taskColumns`. -/
def cells (row : TaskRow) : List (Option Cell) :=
  [some (.text row.id), some (.text row.idempotencyKey), some (.text row.kind),
    some (.text row.inputContentType), some (.text row.input), some (.integer row.maxInputBytes),
    some (.integer row.maxOutputBytes), some (.integer row.maxRuntimeMs),
    some (.integer row.maxAttempts), some (.integer row.attemptsStarted),
    some (.integer (Int64.ofInt row.status)), row.leaseOwner.map .text,
    row.leaseExpiresAtMs.map fun expires ↦ .integer expires.val, some (.text row.cancelReason),
    row.resultContentType.map .text, row.resultOutput.map .text, row.resultFailureCode.map .text,
    row.resultFailureMessage.map .text, row.resultMetadataContentType.map .text,
    row.resultMetadata.map .text]

/-- The table `tasks`, with the CHECKs it was created with as they apply to a row that `save`
writes. -/
structure TasksTable where
  table : ColumnTable Cell
  check : TaskRow → Bool

namespace TasksTable

/-- The table of `CREATE TABLE IF NOT EXISTS tasks` in the current release. -/
def create : TasksTable where
  table := .create taskColumns
  check := taskSchema.check

/-- `ALTER TABLE tasks ADD COLUMN`, unless `has_column`; `none` when the statement fails. -/
def ensureColumn (t : TasksTable) (column : String) : Option TasksTable :=
  if t.table.hasColumn column then some t
  else (t.table.addColumn column).map fun table ↦ { t with table := table }

/-- Another row has the idempotency key of the task. -/
def keyTaken (t : TasksTable) (row : TaskRow) : Bool :=
  t.table.rows.any fun other ↦
    t.table.conflicts "idempotency_key" taskColumns (cells row) other &&
      !t.table.conflicts "id" taskColumns (cells row) other

/-- The upsert of one task. It fails when the table misses a column it names, on a CHECK or on the
unique key. -/
def save (t : TasksTable) (task : Task) : Option TasksTable :=
  let row := TaskStore.bindTask task
  if taskColumns.all t.table.hasColumn && t.check row && !t.keyTaken row then
    some { t with table := t.table.upsert "id" taskColumns (cells row) }
  else none

/-! ### The task store on a table of the current release -/

/-- The table was created by the current release and holds the rows of the task store. -/
structure Represents (t : TasksTable) (s : TaskTable) : Prop where
  columns : t.table.columns = taskColumns
  check : t.check = taskSchema.check
  rows : t.table.rows = s.rows.map cells

theorem create_represents : create.Represents (.empty taskSchema) := ⟨rfl, rfl, rfl⟩

theorem nodup_taskColumns : taskColumns.Nodup := by decide

theorem cell_id (row : TaskRow) :
    ColumnTable.cell taskColumns (cells row) "id" = some (.text row.id) :=
  ColumnTable.cell_cons_self ..

theorem cell_idempotencyKey (row : TaskRow) :
    ColumnTable.cell taskColumns (cells row) "idempotency_key" =
      some (.text row.idempotencyKey) :=
  (ColumnTable.cell_cons_of_ne (by decide) ..).trans (ColumnTable.cell_cons_self ..)

section Represented

variable {t : TasksTable} {s : TaskTable} (h : t.Represents s)

include h

theorem Represents.conflicts_id (row other : TaskRow) :
    t.table.conflicts "id" taskColumns (cells row) (cells other) = decide (other.id = row.id) := by
  simp [ColumnTable.conflicts, h.columns, cell_id]

theorem Represents.conflicts_key (row other : TaskRow) :
    t.table.conflicts "idempotency_key" taskColumns (cells row) (cells other) =
      decide (other.idempotencyKey = row.idempotencyKey) := by
  simp [ColumnTable.conflicts, h.columns, cell_idempotencyKey]

theorem Represents.keyTaken_eq_false_iff (row : TaskRow) :
    t.keyTaken row = false ↔
      ∀ other ∈ s.rows, other.idempotencyKey = row.idempotencyKey → other.id = row.id := by
  simp [keyTaken, h.rows, h.conflicts_id, h.conflicts_key]

theorem Represents.rows_upsert (row : TaskRow) :
    (t.table.upsert "id" taskColumns (cells row)).rows =
      (Table.upsertRows taskSchema s.rows row).map cells := by
  have hwritten : ∀ old, t.table.written taskColumns (cells row) old = cells row := by
    rw [← h.columns]
    exact ColumnTable.written_eq_self (h.columns ▸ nodup_taskColumns) (by rw [h.columns]; rfl)
  have hany : t.table.rows.any (t.table.conflicts "id" taskColumns (cells row)) =
      s.rows.any fun other ↦ decide (other.id = row.id) := by
    rw [h.rows, List.any_map]
    exact congrArg _ (funext (h.conflicts_id row))
  simp only [ColumnTable.upsert, hwritten, hany, Table.upsertRows]
  change _ = (if s.rows.any (fun other ↦ decide (other.id = row.id)) then _ else _ : List _).map _
  split_ifs
  · rw [h.rows, List.map_map, List.map_map]
    refine List.map_congr_left fun other _ ↦ ?_
    simp only [Function.comp_apply, h.conflicts_id, decide_eq_true_eq]
    exact (apply_ite cells _ _ _).symm
  · rw [h.rows, List.map_append, List.map_singleton]

/-- On a table of the current release the save by column names is the save of the task store. -/
theorem save_represents (task : Task) :
    Option.Rel Represents (t.save task) (TaskStore.save s task) := by
  let row := TaskStore.bindTask task
  have hcolumns : taskColumns.all t.table.hasColumn = true := by
    simp [ColumnTable.hasColumn, h.columns]
  have hsaves : (taskColumns.all t.table.hasColumn && t.check row && !t.keyTaken row) = true ↔
      (s.upsert row).isSome = true := by
    rw [hcolumns, h.check, Bool.true_and, Bool.and_eq_true, Bool.not_eq_true',
      h.keyTaken_eq_false_iff, Table.upsert_isSome_iff]
    exact Iff.rfl
  cases hupsert : s.upsert row with
  | none =>
    have hfails : t.save task = none :=
      if_neg fun hcan ↦ Option.not_isSome_iff_eq_none.mpr hupsert (hsaves.mp hcan)
    have hthrows : TaskStore.save s task = none := hupsert
    rw [hfails, hthrows]
    exact .none
  | some s' =>
    have hsaved : t.save task =
        some { t with table := t.table.upsert "id" taskColumns (cells row) } :=
      if_pos (hsaves.mpr (by rw [hupsert]; rfl))
    have hstored : TaskStore.save s task = some s' := hupsert
    rw [hsaved, hstored]
    refine .some ⟨h.columns, h.check, ?_⟩
    rw [h.rows_upsert, ← Table.commit_eq_some_iff.mp hupsert]

end Represented

end TasksTable

end Gaudere.Persistence
