import Mathlib.Data.List.Find
import Gaudere.Library.Records
import Gaudere.Work.Task

/-!
# The SQLite store of tasks

The table `tasks` has twenty columns. `bindTask` is the row that `save` writes, with NULLs for an
absent lease, an absent result and absent metadata, and `readTask` decodes a row. Strings are bound
with their length, so all bytes are stored and compared; a lease expiry is stored in milliseconds,
which is all that reading back changes (`stored_eq`).

The CHECKs of the table are `Storable` of the task that is saved (`check_bindTask_iff`), and
conversely every record of the table is `Storable` (`storable_of_mem`).
-/

set_option autoImplicit false
set_option relaxedAutoImplicit false

namespace Gaudere.Work

open Gaudere.Library

/-! ### Columns -/

/-- The integer an enumerator converts to. -/
def TaskStatus.code : TaskStatus → ℤ
  | .pending => 0
  | .running => 1
  | .cancelRequested => 2
  | .succeeded => 3
  | .failed => 4
  | .cancelled => 5
  | .manualReview => 6

/-- The conversion of a stored integer to an enumerator. The CHECK on the column keeps it between
0 and 6. -/
def TaskStatus.ofCode : ℤ → TaskStatus
  | 0 => .pending
  | 1 => .running
  | 2 => .cancelRequested
  | 3 => .succeeded
  | 4 => .failed
  | 5 => .cancelled
  | _ => .manualReview

@[simp] theorem TaskStatus.ofCode_code (status : TaskStatus) :
    TaskStatus.ofCode status.code = status := by
  cases status <;> rfl

@[simp] theorem TaskStatus.code_inj {status status' : TaskStatus} :
    status.code = status'.code ↔ status = status' := by
  refine ⟨fun h ↦ ?_, congrArg _⟩
  rw [← TaskStatus.ofCode_code status, h, TaskStatus.ofCode_code]

/-- A row of the table `tasks`. -/
structure TaskRow where
  id : Bytes
  idempotencyKey : Bytes
  kind : Bytes
  inputContentType : Bytes
  input : Bytes
  maxInputBytes : Int64
  maxOutputBytes : Int64
  maxRuntimeMs : Int64
  maxAttempts : Int64
  attemptsStarted : Int64
  status : ℤ
  leaseOwner : Option Bytes
  leaseExpiresAtMs : Option ClockMilliseconds
  cancelReason : Bytes
  resultContentType : Option Bytes
  resultOutput : Option Bytes
  resultFailureCode : Option Bytes
  resultFailureMessage : Option Bytes
  resultMetadataContentType : Option Bytes
  resultMetadata : Option Bytes
deriving DecidableEq, Repr

/-- `status IN (1,2)`. -/
def activeRow (row : TaskRow) : Bool :=
  row.status == TaskStatus.running.code || row.status == TaskStatus.cancelRequested.code

/-- The constraints of the table `tasks`. -/
def taskSchema : Schema TaskRow Bytes Bytes where
  key := TaskRow.id
  alternate := TaskRow.idempotencyKey
  check row :=
    0 < row.maxInputBytes.toInt && 0 < row.maxOutputBytes.toInt && 0 < row.maxRuntimeMs.toInt &&
    (0 < row.maxAttempts.toInt && row.maxAttempts.toInt ≤ 4294967295) &&
    (0 ≤ row.attemptsStarted.toInt && row.attemptsStarted.toInt ≤ row.maxAttempts.toInt) &&
    (0 ≤ row.status && row.status ≤ 6) &&
    (row.leaseOwner.isNone == row.leaseExpiresAtMs.isNone) &&
    (activeRow row == row.leaseOwner.isSome) &&
    (row.resultContentType.isNone == row.resultOutput.isNone) &&
    (row.resultContentType.isNone == row.resultFailureCode.isNone) &&
    (row.resultContentType.isNone == row.resultFailureMessage.isNone) &&
    (row.resultMetadataContentType.isNone == row.resultMetadata.isNone) &&
    ((3 ≤ row.status && row.status ≤ 6) == row.resultContentType.isSome)

abbrev TaskTable := Table taskSchema

namespace TaskStore

def milliseconds (value : TimePoint) : ClockMilliseconds := toClockMilliseconds value

def timePoint (value : ClockMilliseconds) : TimePoint := ofMilliseconds value.val

/-- The metadata columns are NULL when both parts are empty. -/
def bindMetadata (result : TaskResult) (value : Bytes) : Option Bytes :=
  if result.metadataContentType ≠ [] ∨ result.metadata ≠ [] then some value else none

/-- The parameters that `save` binds. -/
def bindTask (task : Task) : TaskRow where
  id := task.id
  idempotencyKey := task.idempotencyKey
  kind := task.kind
  inputContentType := task.inputContentType
  input := task.input
  maxInputBytes := task.limits.maxInputBytes.toInt64
  maxOutputBytes := task.limits.maxOutputBytes.toInt64
  maxRuntimeMs := task.limits.maxRuntime
  maxAttempts := task.limits.maxAttempts.toUInt64.toInt64
  attemptsStarted := task.attemptsStarted.toUInt64.toInt64
  status := task.status.code
  leaseOwner := task.lease.map Lease.owner
  leaseExpiresAtMs := task.lease.map fun lease ↦ milliseconds lease.expiresAt
  cancelReason := task.cancelReason
  resultContentType := task.result.map TaskResult.contentType
  resultOutput := task.result.map TaskResult.output
  resultFailureCode := task.result.map TaskResult.failureCode
  resultFailureMessage := task.result.map TaskResult.failureMessage
  resultMetadataContentType :=
    task.result.bind fun result ↦ bindMetadata result result.metadataContentType
  resultMetadata := task.result.bind fun result ↦ bindMetadata result result.metadata

/-- `text` of a column: NULL reads as the empty string. -/
def text (column : Option Bytes) : Bytes := column.getD []

def readTask (row : TaskRow) : Task where
  id := row.id
  idempotencyKey := row.idempotencyKey
  kind := row.kind
  inputContentType := row.inputContentType
  input := row.input
  limits :=
    { maxInputBytes := row.maxInputBytes.toUInt64
      maxOutputBytes := row.maxOutputBytes.toUInt64
      maxRuntime := row.maxRuntimeMs
      maxAttempts := row.maxAttempts.toUInt64.toUInt32 }
  attemptsStarted := row.attemptsStarted.toUInt64.toUInt32
  status := .ofCode row.status
  lease := row.leaseOwner.map fun owner ↦
    { owner := owner, expiresAt := timePoint (row.leaseExpiresAtMs.getD default) }
  cancelReason := row.cancelReason
  result := row.resultContentType.map fun contentType ↦
    { contentType := contentType
      output := text row.resultOutput
      failureCode := text row.resultFailureCode
      failureMessage := text row.resultFailureMessage
      metadataContentType := text row.resultMetadataContentType
      metadata := text row.resultMetadata }

/-- Tasks as rows of the table. -/
def taskEncoding : Encoding taskSchema Task where
  bind := bindTask
  read := readTask
  key := Task.id
  alternate := Task.idempotencyKey
  key_bind _ := rfl
  key_read _ := rfl
  alternate_bind _ := rfl
  alternate_read _ := rfl

/-! ### Operations -/

def find (t : TaskTable) (id : Bytes) : Option Task := taskEncoding.find t id

def findByIdempotencyKey (t : TaskTable) (key : Bytes) : Option Task :=
  taskEncoding.findAlternate t key

/-- `status=? AND kind IN (...) ORDER BY rowid ASC LIMIT 1`. -/
def findPendingFor (t : TaskTable) (acceptedKinds : List Bytes) : Option Task :=
  if acceptedKinds.isEmpty then none
  else
    (t.rows.find? fun row ↦
      row.status == TaskStatus.pending.code && acceptedKinds.contains row.kind).map readTask

/-- `status IN (?1,?2) AND lease_expires_at_ms<=?3`; a comparison with NULL selects nothing. -/
def expiredRow (now : TimePoint) (row : TaskRow) : Bool :=
  activeRow row && row.leaseExpiresAtMs.any fun expires ↦ expires.val ≤ (milliseconds now).val

/-- The query names no order; the tasks come in row order here. -/
def leasedWithExpiredLease (t : TaskTable) (now : TimePoint) : List Task :=
  (t.rows.filter (expiredRow now)).map readTask

/-- `SELECT MIN(lease_expires_at_ms) ... WHERE status IN (?1,?2)`; NULLs are left out. -/
def nextLeaseExpiry (t : TaskTable) : Option TimePoint :=
  (((t.rows.filter activeRow).filterMap TaskRow.leaseExpiresAtMs).map Subtype.val).min?.map
    ofMilliseconds

def hasActive (t : TaskTable) : Bool := t.rows.any activeRow

/-- The upsert of one task; `none` when the statement fails on a constraint and `save` throws. -/
def save (t : TaskTable) (task : Task) : Option TaskTable := taskEncoding.save t task

/-- A loop of saves, which stops at the first one that throws; the flag says whether it got
through. -/
def saveAll (t : TaskTable) (tasks : List Task) : TaskTable × Bool :=
  t.upsertAll (tasks.map bindTask)

/-- The tasks of the table, in row order. -/
def records (t : TaskTable) : List Task := taskEncoding.records t

/-! ### What is read back -/

theorem milliseconds_timePoint (ms : ClockMilliseconds) : milliseconds (timePoint ms) = ms :=
  toClockMilliseconds_ofMilliseconds ms

/-- The task that reading back a saved task gives. -/
def stored (task : Task) : Task := taskEncoding.stored task

/-- A lease as it is stored. -/
def storedLease (lease : Lease) : Lease :=
  { lease with expiresAt := timePoint (milliseconds lease.expiresAt) }

/-- The result columns of a bound result read as the result. -/
theorem readTask_result (task : Task) : (readTask (bindTask task)).result = task.result := by
  cases hresult : task.result with
  | none => simp only [readTask, bindTask, hresult, Option.map_none]
  | some result =>
    simp only [readTask, bindTask, hresult, Option.map_some, Option.bind_some, text,
      Option.getD_some, bindMetadata]
    split_ifs with hmetadata
    · rfl
    · rw [not_or, not_not, not_not] at hmetadata
      obtain ⟨hcontentType, hmetadata⟩ := hmetadata
      cases result
      subst hcontentType hmetadata
      rfl

/-- Reading back truncates the expiry of the lease to milliseconds and changes nothing else. -/
theorem stored_eq (task : Task) :
    stored task = { task with lease := task.lease.map storedLease } := by
  have hlease : (readTask (bindTask task)).lease = task.lease.map storedLease := by
    cases hlease : task.lease <;> simp [readTask, bindTask, hlease, storedLease]
  have hresult := readTask_result task
  have hread : stored task = { readTask (bindTask task) with
      lease := task.lease.map storedLease
      result := task.result } := by
    rw [← hlease, ← hresult]
    rfl
  rw [hread]
  simp [readTask, bindTask]

theorem stored_eq_self {task : Task} (h : task.lease = none) : stored task = task := by
  rw [stored_eq, h, Option.map_none, ← h]

/-! ### Constraints -/

theorem activeRow_code {row : TaskRow} (status : TaskStatus) (h : row.status = status.code) :
    activeRow row = active status := by
  rw [activeRow, h]
  cases status <;> rfl

theorem terminal_code (status : TaskStatus) :
    (decide (3 ≤ status.code) && decide (status.code ≤ 6)) = isTerminal status := by
  cases status <;> rfl

theorem code_range (status : TaskStatus) : 0 ≤ status.code ∧ status.code ≤ 6 := by
  cases status <;> decide

/-- The two metadata columns are NULL together. -/
theorem metadata_isNone (result : Option TaskResult) :
    (result.bind fun result ↦ bindMetadata result result.metadataContentType).isNone =
      (result.bind fun result ↦ bindMetadata result result.metadata).isNone := by
  cases result with
  | none => rfl
  | some result =>
    simp only [Option.bind_some, bindMetadata]
    split_ifs <;> rfl

/-- A task is saved under the constraints of the table exactly when it is storable. -/
theorem check_bindTask_iff {task : Task} :
    taskSchema.check (bindTask task) = true ↔ task.Storable := by
  have hactive : activeRow (bindTask task) = active task.status := activeRow_code task.status rfl
  have hmaxLt := task.limits.maxAttempts.toNat_lt
  have hrange := code_range task.status
  have hterminal := terminal_code task.status
  simp only [taskSchema, hactive, Bool.and_eq_true, decide_eq_true_eq, beq_iff_eq]
  simp only [bindTask, toInt_toInt64_of_uint32, toInt_toInt64_pos_iff, Option.isSome_map,
    Option.isNone_map, metadata_isNone, and_true]
  constructor
  · rintro ⟨⟨⟨⟨⟨⟨⟨hin, hout⟩, hruntime⟩, hmax⟩, hattempts⟩, _⟩, hlease⟩, hresult⟩
    exact ⟨hin, hout, hruntime, by omega, by omega, hlease.symm, hresult.symm.trans hterminal⟩
  · rintro ⟨hin, hout, hruntime, hmax, hattempts, hlease, hresult⟩
    exact ⟨⟨⟨⟨⟨⟨⟨hin, hout⟩, hruntime⟩, by omega⟩, by omega⟩, hrange⟩, hlease.symm⟩,
      hterminal.trans hresult.symm⟩

/-- The code of a status is in the range of the column. -/
theorem code_ofCode {code : ℤ} (h : 0 ≤ code ∧ code ≤ 6) :
    (TaskStatus.ofCode code).code = code := by
  have hcases : code = 0 ∨ code = 1 ∨ code = 2 ∨ code = 3 ∨ code = 4 ∨ code = 5 ∨ code = 6 := by
    omega
  rcases hcases with rfl | rfl | rfl | rfl | rfl | rfl | rfl <;> rfl

/-- A row that passes the checks reads back with its status. -/
theorem status_eq_code {row : TaskRow} (h : taskSchema.check row = true) :
    row.status = (readTask row).status.code := by
  simp only [taskSchema, Bool.and_eq_true, decide_eq_true_eq] at h
  obtain ⟨⟨⟨⟨⟨⟨⟨⟨_, hstatus⟩, _⟩, _⟩, _⟩, _⟩, _⟩, _⟩, _⟩ := h
  exact (code_ofCode hstatus).symm

theorem storable_readTask {row : TaskRow} (h : taskSchema.check row = true) :
    (readTask row).Storable := by
  have hcode := status_eq_code h
  simp only [taskSchema, Bool.and_eq_true, decide_eq_true_eq, beq_iff_eq] at h
  obtain ⟨⟨⟨⟨⟨⟨⟨⟨⟨⟨⟨⟨hin, hout⟩, hruntime⟩, hmax⟩, hattempts⟩, _⟩, _⟩, hlease⟩, _⟩, _⟩, _⟩, _⟩,
    hresult⟩ := h
  have hmaxCast := toNat_toUInt32_of_range hmax.1.le hmax.2
  have hattemptsCast := toNat_toUInt32_of_range hattempts.1 (hattempts.2.trans hmax.2)
  rw [activeRow_code _ hcode] at hlease
  rw [hcode, terminal_code] at hresult
  refine ⟨?_, ?_, hruntime, ?_, ?_, ?_, ?_⟩ <;> simp only [readTask, Option.isSome_map]
  · rwa [← toInt_toInt64_pos_iff, Int64.toInt64_toUInt64]
  · rwa [← toInt_toInt64_pos_iff, Int64.toInt64_toUInt64]
  · omega
  · omega
  · exact hlease.symm
  · exact hresult.symm

theorem storable_of_mem {t : TaskTable} {task : Task} (h : task ∈ records t) :
    task.Storable := by
  obtain ⟨row, hrow, rfl⟩ := List.mem_map.mp h
  exact storable_readTask (t.consistent.checked row hrow)

/-- `has_active` asks for the tasks whose status is active. -/
theorem hasActive_eq_false_iff {t : TaskTable} :
    hasActive t = false ↔ ∀ task ∈ records t, active task.status = false := by
  rw [hasActive, List.any_eq_false, records, Encoding.records, List.forall_mem_map]
  refine forall₂_congr fun row hrow ↦ ?_
  rw [activeRow_code _ (status_eq_code (t.consistent.checked row hrow)), Bool.not_eq_true]
  rfl

/-! ### Lookups -/

theorem find_eq_some_iff {t : TaskTable} {id : Bytes} {a : Task} :
    find t id = some a ↔ a ∈ records t ∧ a.id = id :=
  Encoding.find_eq_some_iff

theorem find_save {t t' : TaskTable} {a : Task} (h : save t a = some t') (id : Bytes) :
    find t' id = if a.id = id then some (stored a) else find t id :=
  Encoding.find_save h id

/-! ### Pending tasks -/

/-- A worker for the given kinds can take the task. -/
def Dispatchable (acceptedKinds : List Bytes) (task : Task) : Prop :=
  task.status = .pending ∧ task.kind ∈ acceptedKinds

instance (acceptedKinds : List Bytes) : DecidablePred (Dispatchable acceptedKinds) := fun task ↦
  inferInstanceAs (Decidable (task.status = .pending ∧ task.kind ∈ acceptedKinds))

/-- The pending query selects the first task, in row order, that can be taken. -/
theorem findPendingFor_eq (t : TaskTable) (acceptedKinds : List Bytes) :
    findPendingFor t acceptedKinds =
      (records t).find? fun task ↦ Dispatchable acceptedKinds task := by
  unfold findPendingFor
  split_ifs with hempty
  · rw [List.isEmpty_iff] at hempty
    subst hempty
    exact (List.find?_eq_none.mpr fun task _ ↦ by simp [Dispatchable]).symm
  · rw [records, Encoding.records, List.find?_map]
    refine congrArg (Option.map readTask) (List.find?_congr fun row hrow ↦ ?_)
    rw [status_eq_code (t.consistent.checked row hrow), Bool.eq_iff_iff, Bool.and_eq_true,
      beq_iff_eq, List.contains_iff_mem, TaskStatus.code_inj, Function.comp_apply,
      decide_eq_true_eq]
    exact Iff.rfl

/-! ### Expired leases -/

/-- The stored lease of an active task has expired at a clock value. -/
def expired (now : TimePoint) (task : Task) : Bool :=
  active task.status &&
    task.lease.any fun lease ↦ (milliseconds lease.expiresAt).val ≤ (milliseconds now).val

theorem active_of_expired {now : TimePoint} {task : Task} (h : expired now task = true) :
    active task.status = true := by
  rw [expired, Bool.and_eq_true] at h
  exact h.1

/-- The expiry column of a row that passes the checks reads as the expiry of the lease. -/
theorem expiry_readTask {row : TaskRow} (h : taskSchema.check row = true) :
    (readTask row).lease.map Lease.expiresAt = row.leaseExpiresAtMs.map timePoint := by
  simp only [taskSchema, Bool.and_eq_true, beq_iff_eq] at h
  obtain ⟨⟨⟨⟨⟨⟨⟨_, hnull⟩, _⟩, _⟩, _⟩, _⟩, _⟩, _⟩ := h
  cases howner : row.leaseOwner with
  | none =>
    rw [howner, Option.isNone_none, eq_comm, Option.isNone_iff_eq_none] at hnull
    simp only [readTask, howner, hnull, Option.map_none]
  | some owner =>
    rw [howner, Option.isNone_some, eq_comm, Option.isNone_eq_false_iff] at hnull
    obtain ⟨expires, hexpires⟩ := Option.isSome_iff_exists.mp hnull
    simp only [readTask, howner, hexpires, Option.map_some, Option.getD_some]

/-- The recovery query selects the rows of the tasks whose lease has expired. -/
theorem expiredRow_eq {row : TaskRow} (h : taskSchema.check row = true) (now : TimePoint) :
    expiredRow now row = expired now (readTask row) := by
  have hexpiry : (row.leaseExpiresAtMs.any fun expires ↦ expires.val ≤ (milliseconds now).val) =
      ((readTask row).lease.map Lease.expiresAt).any fun expires ↦
        (milliseconds expires).val ≤ (milliseconds now).val := by
    rw [expiry_readTask h, Option.any_map]
    simp only [milliseconds_timePoint]
  rw [expiredRow, expired, activeRow_code _ (status_eq_code h), hexpiry, Option.any_map]

theorem leasedWithExpiredLease_eq (t : TaskTable) (now : TimePoint) :
    leasedWithExpiredLease t now = (records t).filter (expired now) := by
  rw [leasedWithExpiredLease, records, Encoding.records, List.filter_map]
  refine congrArg _ (List.filter_congr fun row hrow ↦ ?_)
  exact expiredRow_eq (t.consistent.checked row hrow) now

end TaskStore

end Gaudere.Work
