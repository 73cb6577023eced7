import Gaudere.Budget.Transactions
import Gaudere.Persistence.Migration
import Gaudere.WakeIntents.Transactions

/-!
# The four stores on one file, statement by statement

Every store has its own connection to the file, and several processes may open it. A construction is
one immediate transaction that reads the version and creates, alters and sets what is missing, a
save is one statement, and the budget and wake-intent stores run their own transactions on their
tables. `client` gives each call its statements; run by themselves they are the call
(`client_implements`).

`stores_open_concurrently` says that stores may be constructed and used by any number of connections
at once: no construction throws, the version never ends below that of a store that was opened, and
the tasks have the columns of the metadata once a task store was opened.
-/

set_option autoImplicit false
set_option relaxedAutoImplicit false

namespace Gaudere.Persistence

open Gaudere.Library

namespace Database

abbrev Statements := Transaction Database Reply

/-! ### Statements of the constructors -/

/-- `PRAGMA user_version`, and the refusal of a version above 4. -/
def versionStatement (next : ℤ → Statements) : Statements :=
  .select Database.userVersion fun version ↦
    if 4 < version then .rollback .threw else next version

/-- `PRAGMA user_version=...` and the commit, or just the commit. -/
def finishStatements (raise : Bool) (version : ℤ) : Statements :=
  if raise then
    .statement (fun db ↦ { db with userVersion := version }) fun _ ↦ .commit .opened
  else .commit .opened

def openActionStatements : Statements :=
  versionStatement fun version ↦
  .statement (fun db ↦ { db with
    actions := some (db.actions.getD (.empty Wake.actionSchema)) }) fun _ ↦
  finishStatements (version = 0) 1

/-- The table and its index. -/
def openBudgetStatements : Statements :=
  .statement (fun db ↦ { db with
    consumptions := some (db.consumptions.getD (.empty Budget.budgetSchema)) }) fun _ ↦
  .statement id fun _ ↦ .commit .opened

/-- `has_column`, and `ALTER TABLE` when there is none. -/
def ensureColumnStatements (column : String) (next : Statements) : Statements :=
  .select (fun db ↦ db.tasks.any fun tasks ↦ tasks.table.hasColumn column) fun present ↦
    if present then next
    else .attempt (fun db ↦
      match db.tasks.bind fun tasks ↦ tasks.ensureColumn column with
      | some tasks => .ok ({ db with tasks := some tasks }, ())
      | none => .error ()) (fun _ ↦ .threw) fun _ ↦ next

def openTaskStatements : Statements :=
  versionStatement fun version ↦
  .statement (fun db ↦ { db with tasks := some (db.tasks.getD .create) }) fun _ ↦
  ensureColumnStatements "result_metadata_content_type" <|
  ensureColumnStatements "result_metadata" <|
  finishStatements (version < 3) 3

/-- The table, its index and its three triggers. -/
def openWakeIntentStatements : Statements :=
  versionStatement fun version ↦
  .statement (fun db ↦ { db with
    wakeIntents := some (db.wakeIntents.getD (.empty WakeIntents.intentSchema)) }) fun _ ↦
  .statement id fun _ ↦ .statement id fun _ ↦ .statement id fun _ ↦ .statement id fun _ ↦
  finishStatements (version < 4) 4

/-! ### Statements of the operations -/

/-- One statement that writes. -/
def saveStatement (save : Database → Option Database) : Statements :=
  .attempt (fun db ↦
    match save db with
    | some db' => .ok (db', ())
    | none => .error ()) (fun _ ↦ .threw) fun _ ↦ .commit .saved

def viewConsumptions (db : Database) : Budget.BudgetTable :=
  db.consumptions.getD (.empty Budget.budgetSchema)

def putConsumptions (db : Database) (consumptions : Budget.BudgetTable) : Database :=
  { db with consumptions := some consumptions }

def viewWakeIntents (db : Database) : WakeIntents.IntentTable :=
  db.wakeIntents.getD (.empty WakeIntents.intentSchema)

def putWakeIntents (db : Database) (intents : WakeIntents.IntentTable) : Database :=
  { db with wakeIntents := some intents }

def consumed : Budget.Answer → Reply
  | .replied (.consumed result) => .consumed result
  | _ => .threw

/-- The transaction on the table of the consumptions; without the table its first statement
throws. -/
def onConsumptions (transaction : Transaction Budget.BudgetTable Budget.Answer) : Statements :=
  .select (fun db ↦ db.consumptions.isSome) fun present ↦
    if present then transaction.embed viewConsumptions putConsumptions consumed
    else .rollback .threw

/-- The transaction on the table of the wake intents. -/
def onWakeIntents (transaction : Transaction WakeIntents.IntentTable WakeIntents.Reply) :
    Statements :=
  .select (fun db ↦ db.wakeIntents.isSome) fun present ↦
    if present then transaction.embed viewWakeIntents putWakeIntents .wakeIntents
    else .rollback .threw

end Database

open Database

/-- The statements of every call. A save outside a transaction takes the lock for itself. -/
def client : Client Database Call Reply where
  locks
    | .consume scope idempotencyKey now policy =>
      Budget.client.locks (.call (.consume scope idempotencyKey now policy))
    | .wakeIntents call => WakeIntents.client.locks call
    | _ => true
  body
    | .openActionStore => openActionStatements
    | .openBudgetStore => openBudgetStatements
    | .openTaskStore => openTaskStatements
    | .openWakeIntentStore => openWakeIntentStatements
    | .saveAction action => saveStatement fun db ↦ db.saveAction action
    | .saveTask task => saveStatement fun db ↦ db.saveTask task
    | .consume scope idempotencyKey now policy =>
      onConsumptions (Budget.client.body (.call (.consume scope idempotencyKey now policy)))
    | .wakeIntents call => onWakeIntents (WakeIntents.client.body call)

/-! ### The statements are the call -/

theorem outcome_finishStatements (base work : Database) (raise : Bool) (version : ℤ) :
    (finishStatements raise version).outcome base work =
      ({ work with userVersion := if raise then version else work.userVersion }, .opened) := by
  cases raise <;> rfl

theorem alone_openActionStatements (db : Database) :
    openActionStatements.alone db = db.reply .opened db.openActionStore := by
  simp only [Transaction.alone, openActionStatements, versionStatement, Transaction.outcome_select,
    Transaction.outcome_ite, Transaction.outcome_statement, outcome_finishStatements,
    openActionStore]
  by_cases hversion : 4 < db.userVersion
  · simp only [hversion, ↓reduceIte]
    rfl
  · simp [hversion, Database.reply]

theorem alone_openWakeIntentStatements (db : Database) :
    openWakeIntentStatements.alone db = db.reply .opened db.openWakeIntentStore := by
  simp only [Transaction.alone, openWakeIntentStatements, versionStatement,
    Transaction.outcome_select, Transaction.outcome_ite, Transaction.outcome_statement,
    outcome_finishStatements, openWakeIntentStore]
  by_cases hversion : 4 < db.userVersion
  · simp only [hversion, ↓reduceIte]
    rfl
  · simp [hversion, Database.reply]

/-- Ensuring a column by its statements. -/
theorem outcome_ensureColumnStatements (base : Database) {work : Database} {tasks : TasksTable}
    (htasks : work.tasks = some tasks) (column : String) (next : Statements) :
    (ensureColumnStatements column next).outcome base work =
      match tasks.ensureColumn column with
      | some tasks' => next.outcome base { work with tasks := some tasks' }
      | none => (base, .threw) := by
  simp only [ensureColumnStatements, Transaction.outcome_select, Transaction.outcome_ite,
    Transaction.outcome_attempt, htasks, Option.any_some, Option.bind_some]
  split_ifs with hpresent
  · have hsame : tasks.ensureColumn column = some tasks := if_pos hpresent
    rw [hsame]
    simp only [← htasks]
  · cases tasks.ensureColumn column <;> rfl

theorem alone_openTaskStatements (db : Database) :
    openTaskStatements.alone db = db.reply .opened db.openTaskStore := by
  simp only [Transaction.alone, openTaskStatements, versionStatement, Transaction.outcome_select,
    Transaction.outcome_ite, Transaction.outcome_statement, openTaskStore]
  by_cases hversion : 4 < db.userVersion
  · simp only [hversion, ↓reduceIte]
    rfl
  · simp only [hversion, ↓reduceIte]
    let created := db.tasks.getD .create
    have hcreated : ({ db with tasks := some created } : Database).tasks = some created := rfl
    rw [outcome_ensureColumnStatements db hcreated]
    cases hfirst : created.ensureColumn "result_metadata_content_type" with
    | none => simp [Database.reply]
    | some tasks =>
      have htasks : ({ db with tasks := some tasks } : Database).tasks = some tasks := rfl
      simp only
      rw [outcome_ensureColumnStatements db htasks]
      cases hsecond : tasks.ensureColumn "result_metadata" with
      | none => simp [hsecond, Database.reply]
      | some tasks' =>
        simp [hsecond, Database.reply, outcome_finishStatements]

theorem alone_saveStatement (db : Database) (save : Database → Option Database) :
    (saveStatement save).alone db = db.reply .saved (save db) := by
  rw [Transaction.alone, saveStatement, Transaction.outcome_attempt]
  cases save db <;> rfl

theorem alone_onConsumptions (db : Database)
    (transaction : Transaction Budget.BudgetTable Budget.Answer) :
    (onConsumptions transaction).alone db =
      match db.consumptions with
      | none => (db, .threw)
      | some t =>
        ({ db with consumptions := some (transaction.alone t).1 },
          consumed (transaction.alone t).2) := by
  cases hpresent : db.consumptions with
  | none => simp [Transaction.alone, onConsumptions, hpresent]
  | some t =>
    have hwhole : putConsumptions db (viewConsumptions db) = db := by
      cases db
      cases hpresent
      rfl
    have hview : viewConsumptions db = t := by rw [viewConsumptions, hpresent, Option.getD_some]
    have halone := Transaction.alone_embed viewConsumptions putConsumptions consumed
      (fun _ _ ↦ rfl) (fun _ _ _ ↦ rfl) hwhole transaction
    rw [hview] at halone
    simpa [Transaction.alone, onConsumptions, hpresent, putConsumptions] using halone

theorem alone_onWakeIntents (db : Database)
    (transaction : Transaction WakeIntents.IntentTable WakeIntents.Reply) :
    (onWakeIntents transaction).alone db =
      match db.wakeIntents with
      | none => (db, .threw)
      | some t =>
        ({ db with wakeIntents := some (transaction.alone t).1 },
          .wakeIntents (transaction.alone t).2) := by
  cases hpresent : db.wakeIntents with
  | none => simp [Transaction.alone, onWakeIntents, hpresent]
  | some t =>
    have hwhole : putWakeIntents db (viewWakeIntents db) = db := by
      cases db
      cases hpresent
      rfl
    have hview : viewWakeIntents db = t := by rw [viewWakeIntents, hpresent, Option.getD_some]
    have halone := Transaction.alone_embed viewWakeIntents putWakeIntents Reply.wakeIntents
      (fun _ _ ↦ rfl) (fun _ _ _ ↦ rfl) hwhole transaction
    rw [hview] at halone
    simpa [Transaction.alone, onWakeIntents, hpresent, putWakeIntents] using halone

theorem client_implements : client.Implements machine where
  alone call db := by
    cases call with
    | openActionStore => exact alone_openActionStatements db
    | openBudgetStore => rfl
    | openTaskStore => exact alone_openTaskStatements db
    | openWakeIntentStore => exact alone_openWakeIntentStatements db
    | saveAction action => exact alone_saveStatement db _
    | saveTask task => exact alone_saveStatement db _
    | consume scope idempotencyKey now policy =>
      simp only [client, alone_onConsumptions, machine, Database.step]
      cases db.consumptions with
      | none => rfl
      | some t =>
        simp only [Budget.client_implements.alone, Budget.operations, Budget.machine]
        rcases Budget.BudgetStore.consume t scope idempotencyKey now policy with
          ⟨t', failure | result⟩ <;> rfl
    | wakeIntents call =>
      simp only [client, alone_onWakeIntents, machine, Database.step]
      cases db.wakeIntents with
      | none => rfl
      | some t => simp only [WakeIntents.client_implements.alone]
  reads call db hlocks := by
    cases call with
    | consume scope idempotencyKey now policy =>
      simp only [machine, Database.step]
      cases hpresent : db.consumptions with
      | none => rfl
      | some t =>
        have hsame := Budget.client_implements.reads
          (.call (.consume scope idempotencyKey now policy)) t hlocks
        simp only [Budget.operations, Budget.machine] at hsame
        rcases hconsume : Budget.BudgetStore.consume t scope idempotencyKey now policy with
          ⟨t', failure | result⟩ <;> rw [hconsume] at hsame <;> cases hsame <;> cases db <;>
          cases hpresent <;> simp only [hconsume]
    | wakeIntents call =>
      simp only [machine, Database.step]
      cases hpresent : db.wakeIntents with
      | none => rfl
      | some t =>
        simp only [WakeIntents.client_implements.reads call t hlocks]
        cases db
        cases hpresent
        rfl
    | _ => cases hlocks

/-! ### Interleavings -/

/-- What a run keeps of a supported database: it stays supported, and the tasks have the columns of
the metadata once the run has constructed a task store. -/
theorem supported_run {db : Database} (hs : Supported db) (calls : List Call) :
    Supported (machine.run db calls) ∧
      (Call.openTaskStore ∈ calls → HasMetadata (machine.run db calls)) := by
  induction calls generalizing db with
  | nil => exact ⟨hs, fun h ↦ absurd h List.not_mem_nil⟩
  | cons call calls ih =>
    have hnext := supported_event db call hs
    obtain ⟨hend, hlater⟩ := ih hnext
    refine ⟨hend, fun hmem ↦ ?_⟩
    rcases List.mem_cons.mp hmem with hcall | hmem
    · have hmetadata : HasMetadata (machine.event db call).after :=
        (constructed hs (by rw [← hcall]; rfl)).2.2 hcall.symm
      exact (Machine.run_invariant (P := fun s ↦ Supported s ∧ HasMetadata s)
        (fun s other _ h ↦ ⟨supported_event s other h.1, hasMetadata_event h.1 other h.2⟩)
        (machine.unrestricted _ calls) ⟨hnext, hmetadata⟩).2
    · exact hlater hmem

/-- A construction in a run is answered `opened`. -/
theorem opened_of_traces {Conn : Type} {db : Database} (hs : Supported db)
    (calls : List (Conn × Call)) :
    ∀ answer ∈ machine.traces db calls, answer.2.1.constructs = true → answer.2.2 = .opened := by
  induction calls generalizing db with
  | nil => exact fun answer h ↦ absurd h List.not_mem_nil
  | cons call calls ih =>
    refine List.forall_mem_cons.mpr ⟨fun hcall ↦ (constructed hs hcall).1, ?_⟩
    exact ih (supported_event db call.2 hs)

/-- Any number of connections may construct the four stores on one file and use them at the same
time, with failures and crashes anywhere, from any database that the stores produced or a legacy
one. The file is that of a run of whole calls, in which each connection's calls took effect at most
once and in their order, and the answers come from it; no construction that is answered threw; the
version ends as the maximum of where it started and the versions of the stores that were
constructed; and once a task store was constructed the tasks have both metadata columns. -/
theorem stores_open_concurrently {Conn : Type} [DecidableEq Conn] {db : Database}
    (hstart : Produced db ∨ Legacy db) (acts : List (Conn × Act Call)) :
    let events := client.server.history (.start db) acts
    let committed := (client.server.run (.start db) acts).committed
    committed = machine.run db ((serialised events).map Prod.snd) ∧
      (∀ c, (answersOf c events).Sublist (machine.traceOf db c (serialised events))) ∧
      (∀ c, (callsOf c (serialised events)).Sublist (invocationsOf c events)) ∧
      (∀ answer ∈ answers events, answer.2.1.constructs = true → answer.2.2 = .opened) ∧
      committed.userVersion = (((serialised events).map Prod.snd).filterMap Call.version).foldl max
        db.userVersion ∧
      ((∃ answer ∈ answers events, answer.2.1 = .openTaskStore) → HasMetadata committed) := by
  intro events committed
  have hs := supported_of_start hstart
  obtain ⟨hcommitted, hanswers, hcalls⟩ := Client.serializable client_implements db acts
  have hsubperm := Client.answers_subperm client_implements db acts
  refine ⟨hcommitted, hanswers, hcalls, fun answer hanswer ↦ ?_, ?_, ?_⟩
  · exact opened_of_traces hs _ answer (hsubperm.subset hanswer)
  · rw [← userVersion_run hs]
    exact congrArg Database.userVersion hcommitted
  · rintro ⟨⟨c, call, reply⟩, hanswer, rfl⟩
    -- The construction is one of the calls of the run.
    obtain ⟨e, he, heq⟩ := List.mem_map.mp (hsubperm.subset hanswer)
    have hmem := (machine.tagged Conn).call_mem_of_mem_history he
    have hcall : Call.openTaskStore ∈ (serialised events).map Prod.snd :=
      List.mem_map.mpr ⟨e.call, hmem, congrArg (fun answer ↦ answer.2.1) heq⟩
    have hmetadata := (supported_run hs ((serialised events).map Prod.snd)).2 hcall
    rw [← hcommitted] at hmetadata
    exact hmetadata

/-- Two processes open a legacy file at once: one its wake intents, the other, which waits for it,
the tasks. -/
def openings : List (ℕ × Act Call) :=
  [(0, .invoke .openWakeIntentStore), (1, .invoke .openTaskStore), (0, .begin), (1, .begin),
    (0, .execute), (0, .execute), (0, .execute), (0, .execute), (0, .execute), (0, .execute),
    (0, .execute), (0, .close), (1, .begin), (1, .execute), (1, .execute), (1, .execute),
    (1, .execute), (1, .execute), (1, .execute), (1, .close), (1, .answer), (0, .answer)]

theorem stores_open_concurrently_legacy :
    (client.server.run (.start legacyDatabase) openings).committed.userVersion = 4 ∧
      HasMetadata (client.server.run (.start legacyDatabase) openings).committed :=
  have h := stores_open_concurrently
    (Or.inr ⟨rfl, _, rfl, by decide⟩ : Produced legacyDatabase ∨ Legacy legacyDatabase) openings
  ⟨h.2.2.2.2.1.trans (by decide), h.2.2.2.2.2 (by decide)⟩

end Gaudere.Persistence
