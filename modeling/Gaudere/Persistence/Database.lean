import Gaudere.Budget.Store
import Gaudere.Persistence.TasksTable
import Gaudere.Wake.ActionStore
import Gaudere.WakeIntents.Store

/-!
# One database under four stores

The four stores keep their tables in one file and share its `user_version`. Each constructor is one
immediate transaction that creates what is missing, and the three versioned ones refuse a version
above 4 and raise a lower one to their own. `machine` runs constructions and the operations of the
stores, in any order and any number of times; an operation on a table that no construction created
throws.

The indexes and triggers of a table are created with it, in the same transaction, so a table stands
for all of them here.
-/

set_option autoImplicit false
set_option relaxedAutoImplicit false

namespace Gaudere.Persistence

open Gaudere.Library

/-- What the file holds; a table is absent until a construction creates it. -/
structure Database where
  userVersion : ℤ := 0
  actions : Option Wake.ActionTable := none
  consumptions : Option Budget.BudgetTable := none
  tasks : Option TasksTable := none
  wakeIntents : Option WakeIntents.IntentTable := none

namespace Database

/-! ### Constructors

The database after the transaction; `none` when it throws and is rolled back. -/

def openActionStore (db : Database) : Option Database :=
  if 4 < db.userVersion then none
  else some
    { db with
      actions := some (db.actions.getD (.empty Wake.actionSchema))
      userVersion := if db.userVersion = 0 then 1 else db.userVersion }

def openBudgetStore (db : Database) : Option Database :=
  some { db with consumptions := some (db.consumptions.getD (.empty Budget.budgetSchema)) }

def openTaskStore (db : Database) : Option Database :=
  if 4 < db.userVersion then none
  else do
    let tasks ← (db.tasks.getD .create).ensureColumn "result_metadata_content_type"
    let tasks ← tasks.ensureColumn "result_metadata"
    return { db with
      tasks := some tasks
      userVersion := if db.userVersion < 3 then 3 else db.userVersion }

def openWakeIntentStore (db : Database) : Option Database :=
  if 4 < db.userVersion then none
  else some
    { db with
      wakeIntents := some (db.wakeIntents.getD (.empty WakeIntents.intentSchema))
      userVersion := if db.userVersion < 4 then 4 else db.userVersion }

end Database

/-! ### Runs -/

/-- A construction of a store or an operation of one. -/
inductive Call
  | openActionStore
  | openBudgetStore
  | openTaskStore
  | openWakeIntentStore
  | saveAction (action : Wake.Action)
  | consume (scope idempotencyKey : Bytes) (now : TimePoint) (policy : Budget.Policy)
  | saveTask (task : Work.Task)
  | wakeIntents (call : WakeIntents.Call)
deriving DecidableEq, Repr

inductive Reply
  | opened
  | saved
  | consumed (result : Budget.ConsumeResult)
  | wakeIntents (reply : WakeIntents.Reply)
  | threw
deriving DecidableEq, Repr

namespace Database

/-- The result of a statement or transaction that gave a new database or threw. -/
def reply (db : Database) (done : Reply) : Option Database → Database × Reply
  | some db' => (db', done)
  | none => (db, .threw)

def saveAction (db : Database) (action : Wake.Action) : Option Database := do
  let actions ← Wake.ActionStore.save (← db.actions) action
  return { db with actions := some actions }

def saveTask (db : Database) (task : Work.Task) : Option Database := do
  let tasks ← TasksTable.save (← db.tasks) task
  return { db with tasks := some tasks }

def step (db : Database) : Call → Database × Reply
  | .openActionStore => db.reply .opened db.openActionStore
  | .openBudgetStore => db.reply .opened db.openBudgetStore
  | .openTaskStore => db.reply .opened db.openTaskStore
  | .openWakeIntentStore => db.reply .opened db.openWakeIntentStore
  | .saveAction action => db.reply .saved (db.saveAction action)
  | .saveTask task => db.reply .saved (db.saveTask task)
  | .consume scope idempotencyKey now policy =>
    match db.consumptions with
    | none => (db, .threw)
    | some consumptions =>
      match Budget.BudgetStore.consume consumptions scope idempotencyKey now policy with
      | (consumptions, .ok result) =>
        ({ db with consumptions := some consumptions }, .consumed result)
      | (consumptions, .error _) => ({ db with consumptions := some consumptions }, .threw)
  | .wakeIntents call =>
    match db.wakeIntents with
    | none => (db, .threw)
    | some intents =>
      let result := WakeIntents.machine.step intents call
      ({ db with wakeIntents := some result.1 }, .wakeIntents result.2)

end Database

def machine : Machine Database Call Reply where
  step := Database.step

end Gaudere.Persistence
