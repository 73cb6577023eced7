import Gaudere.Library.Table
import Gaudere.WakeIntents.Schema
import Gaudere.WakeIntents.WakeIntent

/-!
# The wake-intent store

The store keeps one row for each accepted intent. `accept` decides and inserts in one transaction,
`reconcile` moves the due intents of a scope by two set-wise updates, `revoke` reads one intent and
updates it, and the rest only read. An exception inside a transaction rolls it back
(`transaction`), and every statement passes the CHECK constraints and triggers of the table.

Strings are bound with their length, so all bytes are stored and compared. Calls of any number of
connections and reopenings are serialised by their transactions, so a run is a list of calls.
-/

set_option autoImplicit false
set_option relaxedAutoImplicit false

namespace Gaudere.WakeIntents

open Gaudere.Library

/-- A row of the table `wake_intents` as the store writes it. -/
structure IntentRow where
  scope : Bytes
  id : Bytes
  sourceId : Bytes
  acceptedAtMs : Int64
  dueAtMs : Int64
  status : Int32
  terminalAtMs : Option Int64
  terminalReason : Bytes
deriving DecidableEq, Repr

/-- The values of the columns. -/
def IntentRow.cells (row : IntentRow) : IntentCells where
  scope := .text row.scope
  id := .text row.id
  sourceId := .text row.sourceId
  acceptedAtMs := .ofInt row.acceptedAtMs.toInt
  dueAtMs := .ofInt row.dueAtMs.toInt
  status := .ofInt row.status.toInt
  terminalAtMs := row.terminalAtMs.elim .null fun ms ↦ .ofInt ms.toInt
  terminalReason := .text row.terminalReason

/-- The constraints of the table on rows of the store. -/
def intentSchema : Schema IntentRow (Bytes × Bytes) (Bytes × Bytes) where
  key row := (row.scope, row.id)
  alternate row := (row.scope, row.sourceId)
  check row := wakeIntents.check row.cells

abbrev IntentTable := Table intentSchema

/-- The exceptions of the store. -/
inductive Failure
  | invalidArgument (what : String)
  | runtimeError (what : String)
  | sqlite
deriving DecidableEq, Repr

inductive WakeIntentScopeResult
  | empty
  | one
  | ambiguous
deriving DecidableEq, Repr

structure WakeIntentScopeInspection where
  result : WakeIntentScopeResult
  intent : Option WakeIntent
deriving DecidableEq, Repr

namespace WakeIntentStore

def milliseconds (value : TimePoint) : Int64 := toMilliseconds value

def timePoint (value : Int64) : TimePoint := ofMilliseconds value

def readIntent (row : IntentRow) : Except Failure WakeIntent :=
  match WakeIntentStatus.ofCode? row.status with
  | none => .error (.runtimeError "invalid persisted wake-intent status")
  | some status =>
    let intent : WakeIntent :=
      { scope := row.scope
        id := row.id
        sourceId := row.sourceId
        acceptedAt := timePoint row.acceptedAtMs
        dueAt := timePoint row.dueAtMs
        status := status
        terminalAt := row.terminalAtMs.map timePoint
        terminalReason := row.terminalReason }
    if validWakeIntent intent then .ok intent
    else .error (.runtimeError "invalid persisted wake-intent record")

/-- What a statement selected, read as an intent. -/
def readSelected : Option IntentRow → Except Failure (Option WakeIntent)
  | none => .ok none
  | some row => (readIntent row).map some

def find (t : IntentTable) (scope id : Bytes) : Except Failure (Option WakeIntent) :=
  readSelected (t.lookup (scope, id))

def findBySource (t : IntentTable) (scope sourceId : Bytes) :
    Except Failure (Option WakeIntent) :=
  readSelected (t.lookupAlternate (scope, sourceId))

/-- `SELECT COUNT(*) ... WHERE scope=?1`. -/
def countScope (t : IntentTable) (scope : Bytes) : ℕ :=
  t.rows.countP fun row ↦ row.scope = scope

/-- The row that `accept` inserts. -/
def insertedRow (intent : WakeIntent) : IntentRow where
  scope := intent.scope
  id := intent.id
  sourceId := intent.sourceId
  acceptedAtMs := milliseconds intent.acceptedAt
  dueAtMs := milliseconds intent.dueAt
  status := WakeIntentStatus.scheduled.code
  terminalAtMs := none
  terminalReason := []

/-- `INSERT`, through the trigger. -/
def insertRow (t : IntentTable) (row : IntentRow) : Except Failure IntentTable :=
  if wakeIntents.insertAborts row.cells then .error .sqlite
  else
    match t.insert row with
    | some t' => .ok t'
    | none => .error .sqlite

/-- `UPDATE ... WHERE`, through the trigger, with the number of rows changed. -/
def updateRows (t : IntentTable) (selected : IntentRow → Bool) (rewrite : IntentRow → IntentRow) :
    Except Failure (IntentTable × ℕ) :=
  if t.rows.any fun row ↦
      selected row && wakeIntents.updateAborts row.cells (rewrite row).cells then .error .sqlite
  else
    match t.updateWhere selected rewrite with
    | some t' => .ok (t', t.rows.countP selected)
    | none => .error .sqlite

/-- `scope=?1 AND id=?2 AND status=?6`. -/
def scheduledAs (scope id : Bytes) (row : IntentRow) : Bool :=
  row.scope = scope && row.id = id && row.status = WakeIntentStatus.scheduled.code

/-- `scope=?1 AND status=?4 AND accepted_at_ms>?2`. -/
def acceptedAfter (scope : Bytes) (nowMs : Int64) (row : IntentRow) : Bool :=
  row.scope = scope && row.status = WakeIntentStatus.scheduled.code && nowMs < row.acceptedAtMs

/-- `scope=?1 AND status=?4 AND due_at_ms<=?2`. -/
def dueBy (scope : Bytes) (nowMs : Int64) (row : IntentRow) : Bool :=
  row.scope = scope && row.status = WakeIntentStatus.scheduled.code && row.dueAtMs ≤ nowMs

/-- `SET status=?,terminal_at_ms=?,terminal_reason=?`. -/
def setTerminal (status : WakeIntentStatus) (terminalAtMs : Int64) (reason : Bytes)
    (row : IntentRow) : IntentRow :=
  { row with
    status := status.code
    terminalAtMs := some terminalAtMs
    terminalReason := reason }

def transition (t : IntentTable) (scope id : Bytes) (status : WakeIntentStatus)
    (terminalAt : TimePoint) (reason : Bytes) : Except Failure IntentTable := do
  let (t', changes) ← updateRows t (scheduledAs scope id)
    (setTerminal status (milliseconds terminalAt) reason)
  if changes ≠ 1 then
    .error (.runtimeError "wake-intent terminal transition conflict")
  else .ok t'

/-- A transaction commits its last table, or is rolled back by an exception. -/
def transaction {α : Type} (t : IntentTable) (body : Except Failure (IntentTable × α)) :
    IntentTable × Except Failure α :=
  match body with
  | .ok (t', result) => (t', .ok result)
  | .error failure => (t, .error failure)

def accept (t : IntentTable) (intent : WakeIntent) (policy : WakeIntentPolicy) :
    IntentTable × Except Failure WakeIntentAcceptResult :=
  if ¬ validNewWakeIntent intent ∨ ¬ validWakeIntentPolicy policy then (t, .ok .invalid)
  else transaction t do
    let bySource ← findBySource t intent.scope intent.sourceId
    if bySource.isSome then .ok (t, .duplicate)
    else
      let byId ← find t intent.scope intent.id
      if byId.isSome then .ok (t, .conflict)
      else if policy.maxTotal.toNat ≤ countScope t intent.scope then .ok (t, .totalExhausted)
      else
        let t' ← insertRow t (insertedRow intent)
        .ok (t', .accepted)

def reconcile (t : IntentTable) (scope : Bytes) (now : TimePoint) :
    IntentTable × Except Failure WakeIntentReconcileResult :=
  if ¬ validObservation scope now then
    (t, .error (.invalidArgument "invalid wake-intent reconciliation input"))
  else transaction t do
    let (rolledBack, manualReview) ← updateRows t (acceptedAfter scope (milliseconds now))
      (setTerminal .manualReview (milliseconds now) (ascii "clock_rollback"))
    let (due, fired) ← updateRows rolledBack (dueBy scope (milliseconds now))
      (setTerminal .fired (milliseconds now) [])
    .ok (due, { fired := fired, manualReview := manualReview })

def revoke (t : IntentTable) (scope id : Bytes) (now : TimePoint) (reason : Bytes) :
    IntentTable × Except Failure WakeIntentRevokeResult :=
  if ¬ validObservation scope now ∨ ¬ validWakeIntentIdentifier id ∨ reason = [] ∨
      wakeIntentReasonMaxBytes < reason.length then (t, .ok .invalid)
  else transaction t do
    match ← find t scope id with
    | none => .ok (t, .notFound)
    | some intent =>
      if isTerminal intent.status then .ok (t, .terminal)
      else if now < intent.acceptedAt then
        let t' ← transition t scope id .manualReview now (ascii "clock_rollback")
        .ok (t', .manualReview)
      else if intent.dueAt ≤ now then
        let t' ← transition t scope id .fired now []
        .ok (t', .fired)
      else
        let t' ← transition t scope id .revoked now reason
        .ok (t', .revoked)

def nextScheduledAt (t : IntentTable) (scope : Bytes) : Except Failure (Option TimePoint) :=
  if ¬ validWakeIntentIdentifier scope then
    .error (.invalidArgument "invalid wake-intent scope")
  else
    .ok (((t.rows.filter fun row ↦
      row.scope = scope && row.status = WakeIntentStatus.scheduled.code).map
        IntentRow.dueAtMs).min?.map timePoint)

/-- `SELECT id ... WHERE scope=?1 ORDER BY id ASC LIMIT 2`. -/
def firstIds (t : IntentTable) (scope : Bytes) : List Bytes :=
  (((t.rows.filter fun row ↦ row.scope = scope).map IntentRow.id).mergeSort
    fun a b ↦ decide (¬ b < a)).take 2

def inspectScope (t : IntentTable) (scope : Bytes) : Except Failure WakeIntentScopeInspection :=
  if ¬ validWakeIntentIdentifier scope then
    .error (.invalidArgument "invalid wake-intent scope")
  else
    match firstIds t scope with
    | [] => .ok { result := .empty, intent := none }
    | firstId :: rest => do
      match ← find t scope firstId with
      | none => .error (.runtimeError "wake-intent scope inspection lost first record")
      | some first =>
        match rest with
        | [] => .ok { result := .one, intent := some first }
        | secondId :: _ =>
          match ← find t scope secondId with
          | none => .error (.runtimeError "wake-intent scope inspection lost second record")
          | some _ => .ok { result := .ambiguous, intent := none }

end WakeIntentStore

/-! ### Runs -/

/-- An operation with its arguments; `reopen` is a constructor run on a database that has the
table. -/
inductive Call
  | accept (intent : WakeIntent) (policy : WakeIntentPolicy)
  | reconcile (scope : Bytes) (now : TimePoint)
  | revoke (scope id : Bytes) (now : TimePoint) (reason : Bytes)
  | find (scope id : Bytes)
  | findBySource (scope sourceId : Bytes)
  | nextScheduledAt (scope : Bytes)
  | inspectScope (scope : Bytes)
  | reopen
deriving DecidableEq, Repr

/-- What an operation returns or throws. -/
inductive Reply
  | accepted (result : WakeIntentAcceptResult)
  | reconciled (result : WakeIntentReconcileResult)
  | revoked (result : WakeIntentRevokeResult)
  | found (intent : Option WakeIntent)
  | scheduledAt (next : Option TimePoint)
  | inspected (inspection : WakeIntentScopeInspection)
  | threw (failure : Failure)
  | opened
deriving DecidableEq, Repr

/-- The reply of an operation that returned a value or threw. -/
def reply {α : Type} (answer : α → Reply) : Except Failure α → Reply
  | .ok value => answer value
  | .error failure => .threw failure

/-- The store, as a machine over its operations. -/
def machine : Machine IntentTable Call Reply where
  step t
    | .accept intent policy =>
      let result := WakeIntentStore.accept t intent policy
      (result.1, reply .accepted result.2)
    | .reconcile scope now =>
      let result := WakeIntentStore.reconcile t scope now
      (result.1, reply .reconciled result.2)
    | .revoke scope id now reason =>
      let result := WakeIntentStore.revoke t scope id now reason
      (result.1, reply .revoked result.2)
    | .find scope id => (t, reply .found (WakeIntentStore.find t scope id))
    | .findBySource scope sourceId =>
      (t, reply .found (WakeIntentStore.findBySource t scope sourceId))
    | .nextScheduledAt scope => (t, reply .scheduledAt (WakeIntentStore.nextScheduledAt t scope))
    | .inspectScope scope => (t, reply .inspected (WakeIntentStore.inspectScope t scope))
    | .reopen => (t, .opened)

end Gaudere.WakeIntents
