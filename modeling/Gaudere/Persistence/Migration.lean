import Gaudere.Persistence.Database

/-!
# Constructing the stores in any order

The four constructors share one version number but own different tables, so a store may find the
version raised past its own migration. `stores_open_in_any_order` says that this does no harm: from
any database that the stores produced, and from one of version 2 whose tasks lack the metadata
columns, every construction succeeds, the version is the maximum of those constructed, a task store
leaves both columns, and what is stored stays.

The reason is in `ensureColumn_spec`: the migration of the tasks asks the table for its columns and
never the version.
-/

set_option autoImplicit false
set_option relaxedAutoImplicit false

namespace Gaudere.Persistence

open Gaudere.Library

/-! ### One construction -/

/-- The version of the store that a call constructs. -/
def Call.version : Call → Option ℤ
  | .openActionStore => some 1
  | .openTaskStore => some 3
  | .openWakeIntentStore => some 4
  | _ => none

def Call.constructs : Call → Bool
  | .openActionStore | .openBudgetStore | .openTaskStore | .openWakeIntentStore => true
  | _ => false

/-- The version is one that every store supports. -/
def Supported (db : Database) : Prop := 0 ≤ db.userVersion ∧ db.userVersion ≤ 4

/-- The tasks have the two columns of the result metadata. -/
def HasMetadata (db : Database) : Prop :=
  ∃ t, db.tasks = some t ∧ ∀ column ∈ metadataColumns, t.table.hasColumn column = true

/-- Every stored row is kept; a task gets a NULL in each column its table gained. -/
structure Keeps (db db' : Database) : Prop where
  actions : ∀ t, db.actions = some t → db'.actions = some t
  consumptions : ∀ t, db.consumptions = some t → db'.consumptions = some t
  tasks : ∀ t, db.tasks = some t → ∃ t', db'.tasks = some t' ∧ t'.check = t.check ∧
    t.table.Extends t'.table
  wakeIntents : ∀ t, db.wakeIntents = some t → db'.wakeIntents = some t

/-- Ensuring a column never fails: it is added only to a table that lacks it. -/
theorem ensureColumn_spec (t : TasksTable) (column : String) :
    ∃ t', t.ensureColumn column = some t' ∧ t'.check = t.check ∧ t.table.Extends t'.table ∧
      t'.table.hasColumn column = true := by
  unfold TasksTable.ensureColumn
  by_cases hcolumn : t.table.hasColumn column = true
  · exact ⟨t, if_pos hcolumn, rfl, ColumnTable.Extends.refl _, hcolumn⟩
  · obtain ⟨table, htable⟩ : ∃ table, t.table.addColumn column = some table :=
      ⟨_, if_neg hcolumn⟩
    obtain ⟨hextends, hcolumns⟩ := ColumnTable.extends_addColumn htable
    refine ⟨{ t with table := table }, ?_, rfl, hextends, ?_⟩
    · rw [if_neg hcolumn, htable, Option.map_some]
    · simp [ColumnTable.hasColumn, hcolumns]

theorem Keeps.of_tasks_eq {db db' : Database}
    (hactions : ∀ t, db.actions = some t → db'.actions = some t)
    (hconsumptions : ∀ t, db.consumptions = some t → db'.consumptions = some t)
    (htasks : db'.tasks = db.tasks)
    (hwakeIntents : ∀ t, db.wakeIntents = some t → db'.wakeIntents = some t) : Keeps db db' where
  actions := hactions
  consumptions := hconsumptions
  tasks t ht := ⟨t, htasks.trans ht, rfl, ColumnTable.Extends.refl _⟩
  wakeIntents := hwakeIntents

/-- What a construction does to a supported database. -/
structure Constructed (db : Database) (version : Option ℤ) (db' : Database) : Prop where
  keeps : Keeps db db'
  userVersion : db'.userVersion = version.elim db.userVersion (max db.userVersion)

theorem openActionStore_spec {db : Database} (hs : Supported db) :
    ∃ db', db.openActionStore = some db' ∧ Constructed db (some 1) db' := by
  obtain ⟨hlow, hhigh⟩ := hs
  refine ⟨_, if_neg (by omega), ?_, ?_⟩
  · exact .of_tasks_eq (fun t ht ↦ by simp [ht]) (fun _ ↦ id) rfl (fun _ ↦ id)
  · simp only [Option.elim]
    split_ifs <;> omega

theorem openBudgetStore_spec (db : Database) :
    ∃ db', db.openBudgetStore = some db' ∧ Constructed db none db' := by
  refine ⟨_, rfl, ?_, rfl⟩
  exact .of_tasks_eq (fun _ ↦ id) (fun t ht ↦ by simp [ht]) rfl (fun _ ↦ id)

theorem openWakeIntentStore_spec {db : Database} (hs : Supported db) :
    ∃ db', db.openWakeIntentStore = some db' ∧ Constructed db (some 4) db' := by
  obtain ⟨hlow, hhigh⟩ := hs
  refine ⟨_, if_neg (by omega), ?_, ?_⟩
  · exact .of_tasks_eq (fun _ ↦ id) (fun _ ↦ id) rfl (fun t ht ↦ by simp [ht])
  · simp only [Option.elim]
    split_ifs <;> omega

/-- The migration asks the table for its columns, so it does not matter which version it finds. -/
theorem openTaskStore_spec {db : Database} (hs : Supported db) :
    ∃ db', db.openTaskStore = some db' ∧ Constructed db (some 3) db' ∧ HasMetadata db' := by
  obtain ⟨hlow, hhigh⟩ := hs
  obtain ⟨first, hfirst, hcheck, hextends, hcontentType⟩ :=
    ensureColumn_spec (db.tasks.getD .create) "result_metadata_content_type"
  obtain ⟨second, hsecond, hcheck', hextends', hmetadata⟩ :=
    ensureColumn_spec first "result_metadata"
  refine ⟨{ db with
    tasks := some second
    userVersion := if db.userVersion < 3 then 3 else db.userVersion }, ?_, ⟨?_, ?_⟩, ?_⟩
  · have hsupported : ¬ 4 < db.userVersion := by omega
    simp [Database.openTaskStore, hsupported, hfirst, hsecond]
  · refine ⟨fun _ ↦ id, fun _ ↦ id, fun t ht ↦ ?_, fun _ ↦ id⟩
    rw [ht, Option.getD_some] at hcheck hextends
    exact ⟨second, rfl, hcheck'.trans hcheck, hextends.trans hextends'⟩
  · simp only [Option.elim]
    split_ifs <;> omega
  · refine ⟨second, rfl, fun column hcolumn ↦ ?_⟩
    rcases List.mem_pair.mp hcolumn with rfl | rfl
    · exact hextends'.hasColumn hcontentType
    · exact hmetadata

/-! ### One call -/

theorem constructed {db : Database} (hs : Supported db) {call : Call}
    (hcall : call.constructs = true) :
    (machine.event db call).reply = .opened ∧
      Constructed db call.version (machine.event db call).after ∧
      (call = .openTaskStore → HasMetadata (machine.event db call).after) := by
  cases call with
  | openActionStore =>
    obtain ⟨db', hopen, hconstructed⟩ := openActionStore_spec hs
    simp only [Machine.event, machine, Database.step, hopen, Database.reply]
    exact ⟨trivial, hconstructed, fun hcall ↦ by cases hcall⟩
  | openBudgetStore =>
    obtain ⟨db', hopen, hconstructed⟩ := openBudgetStore_spec db
    simp only [Machine.event, machine, Database.step, hopen, Database.reply]
    exact ⟨trivial, hconstructed, fun hcall ↦ by cases hcall⟩
  | openTaskStore =>
    obtain ⟨db', hopen, hconstructed, hmetadata⟩ := openTaskStore_spec hs
    simp only [Machine.event, machine, Database.step, hopen, Database.reply]
    exact ⟨trivial, hconstructed, fun _ ↦ hmetadata⟩
  | openWakeIntentStore =>
    obtain ⟨db', hopen, hconstructed⟩ := openWakeIntentStore_spec hs
    simp only [Machine.event, machine, Database.step, hopen, Database.reply]
    exact ⟨trivial, hconstructed, fun hcall ↦ by cases hcall⟩
  | _ => cases hcall

theorem columns_save {t t' : TasksTable} {task : Work.Task} (h : t.save task = some t') :
    t'.table.columns = t.table.columns := by
  simp only [TasksTable.save] at h
  split_ifs at h
  cases h
  rfl

theorem saveAction_eq_some {db db' : Database} {action : Wake.Action}
    (h : db.saveAction action = some db') :
    ∃ actions, db' = { db with actions := some actions } := by
  simp only [Database.saveAction, Option.bind_eq_bind, Option.bind_eq_some_iff] at h
  obtain ⟨_, _, actions, _, hdb'⟩ := h
  exact ⟨actions, (Option.some.inj hdb').symm⟩

theorem saveTask_eq_some {db db' : Database} {task : Work.Task} (h : db.saveTask task = some db') :
    ∃ t t', db.tasks = some t ∧ t.save task = some t' ∧ db' = { db with tasks := some t' } := by
  simp only [Database.saveTask, Option.bind_eq_bind, Option.bind_eq_some_iff] at h
  obtain ⟨t, ht, t', hsave, hdb'⟩ := h
  exact ⟨t, t', ht, hsave, (Option.some.inj hdb').symm⟩

/-- An operation of a store leaves the version and the columns of the tasks. -/
theorem operated (db : Database) {call : Call} (hcall : call.constructs = false) :
    (machine.event db call).after.userVersion = db.userVersion ∧
      ∀ t, db.tasks = some t → ∃ t', (machine.event db call).after.tasks = some t' ∧
        t'.table.columns = t.table.columns := by
  simp only [Machine.event, machine]
  cases call with
  | saveAction action =>
    simp only [Database.step]
    cases hsave : db.saveAction action with
    | none => exact ⟨rfl, fun t ht ↦ ⟨t, ht, rfl⟩⟩
    | some db' =>
      obtain ⟨actions, rfl⟩ := saveAction_eq_some hsave
      exact ⟨rfl, fun t ht ↦ ⟨t, ht, rfl⟩⟩
  | saveTask task =>
    simp only [Database.step]
    cases hsave : db.saveTask task with
    | none => exact ⟨rfl, fun t ht ↦ ⟨t, ht, rfl⟩⟩
    | some db' =>
      obtain ⟨t, t', ht, hsaved, rfl⟩ := saveTask_eq_some hsave
      refine ⟨rfl, fun other hother ↦ ⟨t', rfl, ?_⟩⟩
      obtain rfl : t = other := Option.some.inj (ht.symm.trans hother)
      exact columns_save hsaved
  | consume scope idempotencyKey now policy =>
    simp only [Database.step]
    cases db.consumptions with
    | none => exact ⟨rfl, fun t ht ↦ ⟨t, ht, rfl⟩⟩
    | some consumptions =>
      rcases hconsume : Budget.BudgetStore.consume consumptions scope idempotencyKey now policy with
        ⟨_, _ | _⟩ <;> simp only [hconsume]
      · exact ⟨trivial, fun t ht ↦ ⟨t, ht, rfl⟩⟩
      · exact ⟨trivial, fun t ht ↦ ⟨t, ht, rfl⟩⟩
  | wakeIntents call =>
    simp only [Database.step]
    cases db.wakeIntents with
    | none => exact ⟨rfl, fun t ht ↦ ⟨t, ht, rfl⟩⟩
    | some intents => exact ⟨rfl, fun t ht ↦ ⟨t, ht, rfl⟩⟩
  | _ => cases hcall

/-! ### Over every run -/

theorem userVersion_event {db : Database} (hs : Supported db) (call : Call) :
    (machine.event db call).after.userVersion =
      call.version.elim db.userVersion (max db.userVersion) := by
  cases hcall : call.constructs with
  | true => exact (constructed hs hcall).2.1.userVersion
  | false =>
    rw [(operated db hcall).1]
    cases call <;> first | rfl | cases hcall

theorem supported_event (db : Database) (call : Call) (hs : Supported db) :
    Supported (machine.event db call).after := by
  have hversion := userVersion_event hs call
  obtain ⟨hlow, hhigh⟩ := hs
  rw [Supported, hversion]
  cases call <;> simp only [Call.version, Option.elim] <;> omega

theorem hasMetadata_event {db : Database} (hs : Supported db) (call : Call) (h : HasMetadata db) :
    HasMetadata (machine.event db call).after := by
  obtain ⟨t, ht, hcolumns⟩ := h
  cases hcall : call.constructs with
  | true =>
    obtain ⟨t', ht', -, hextends⟩ := (constructed hs hcall).2.1.keeps.tasks t ht
    exact ⟨t', ht', fun column hcolumn ↦ hextends.hasColumn (hcolumns column hcolumn)⟩
  | false =>
    obtain ⟨t', ht', hsame⟩ := (operated db hcall).2 t ht
    refine ⟨t', ht', fun column hcolumn ↦ ?_⟩
    rw [ColumnTable.hasColumn, hsame]
    exact hcolumns column hcolumn

theorem userVersion_run {db : Database} (hs : Supported db) (calls : List Call) :
    (machine.run db calls).userVersion =
      (calls.filterMap Call.version).foldl max db.userVersion := by
  induction calls generalizing db with
  | nil => rfl
  | cons call calls ih =>
    rw [Machine.run_cons, ih (supported_event db call hs), userVersion_event hs]
    cases hversion : call.version with
    | none => rw [List.filterMap_cons_none hversion]; rfl
    | some version => rw [List.filterMap_cons_some hversion]; rfl

/-- Constructions and operations of the stores on an empty file led to the database. -/
def Produced (db : Database) : Prop := ∃ earlier, db = machine.run {} earlier

/-- A database of version 2: the tasks, whatever they hold, lack the columns of the metadata. -/
def Legacy (db : Database) : Prop :=
  db.userVersion = 2 ∧
    ∃ t, db.tasks = some t ∧ ∀ column ∈ metadataColumns, t.table.hasColumn column = false

theorem supported_of_start {db : Database} (h : Produced db ∨ Legacy db) : Supported db := by
  rcases h with ⟨earlier, rfl⟩ | ⟨hversion, -⟩
  · exact Machine.run_invariant (fun s call _ ↦ supported_event s call)
      (machine.unrestricted _ earlier) ⟨by decide, by decide⟩
  · exact ⟨by omega, by omega⟩

/-- From any database the stores produced, or a legacy one, over any constructions and operations of
the stores: no construction throws; the version never decreases and ends as the maximum of where it
started and the versions constructed; from a construction of the task store on, the tasks have both
metadata columns; and a construction keeps every row, with NULL in the columns it added. -/
theorem stores_open_in_any_order {db : Database} (hstart : Produced db ∨ Legacy db)
    (calls : List Call) :
    (∀ e ∈ machine.history db calls, e.call.constructs = true → e.reply = .opened) ∧
    (∀ e ∈ machine.history db calls, e.before.userVersion ≤ e.after.userVersion) ∧
    (machine.run db calls).userVersion =
      (calls.filterMap Call.version).foldl max db.userVersion ∧
    (∀ past e later, machine.history db calls = past ++ e :: later → e.call = .openTaskStore →
      ∀ s ∈ e.after :: later.map Event.after, HasMetadata s) ∧
    (∀ e ∈ machine.history db calls, e.call.constructs = true → Keeps e.before e.after) := by
  have hs := supported_of_start hstart
  have hevent : ∀ e ∈ machine.history db calls, e = machine.event e.before e.call ∧
      Supported e.before := fun e he ↦
    let h := Machine.history_invariant (fun s call _ ↦ supported_event s call)
      (machine.unrestricted _ calls) hs he
    ⟨h.1, h.2.1⟩
  refine ⟨fun e he hcall ↦ ?_, fun e he ↦ ?_, userVersion_run hs calls, ?_, fun e he hcall ↦ ?_⟩
  · obtain ⟨heq, hbefore⟩ := hevent e he
    rw [heq]
    exact (constructed hbefore hcall).1
  · obtain ⟨heq, hbefore⟩ := hevent e he
    rw [heq, userVersion_event hbefore]
    cases e.call.version with
    | none => exact le_refl _
    | some version => exact le_max_left _ _
  · intro past e later hsplit hcall
    obtain ⟨heq, hbefore⟩ := hevent e (Machine.mem_of_split hsplit)
    have hmetadata : HasMetadata e.after := by
      rw [heq]
      exact (constructed hbefore (by rw [hcall]; rfl)).2.2 hcall
    have hafter : Supported e.after := by
      rw [heq]
      exact supported_event e.before e.call hbefore
    have hlater := (Machine.invariant_after (P := fun s ↦ Supported s ∧ HasMetadata s)
      (fun s call _ h ↦ ⟨supported_event s call h.1, hasMetadata_event h.1 call h.2⟩)
      (machine.unrestricted _ calls) hsplit ⟨hafter, hmetadata⟩).1
    exact List.forall_mem_cons.mpr
      ⟨hmetadata, List.forall_mem_map.mpr fun e' he' ↦ (hlater e' he').2.2.2⟩
  · obtain ⟨heq, hbefore⟩ := hevent e he
    rw [heq]
    exact (constructed hbefore hcall).2.1.keeps

/-- A pending task of an older release. -/
def legacyReport : List (Option Cell) :=
  [some (.text (ascii "report")), some (.text (ascii "monday")), some (.text (ascii "summary")),
    some (.text (ascii "text/plain")), some (.text []), some (.integer 100), some (.integer 100),
    some (.integer 1000), some (.integer 2), some (.integer 0), some (.integer 0), none, none,
    some (.text []), none, none, none, none]

/-- A database of version 2 that holds it, in a table without CHECKs. -/
def legacyDatabase : Database where
  userVersion := 2
  tasks := some
    { table := { columns := legacyColumns, rows := [legacyReport], width := by decide }
      check := fun _ ↦ true }

/-- The wake intents come first and raise the version to 4; the tasks are migrated all the same. -/
theorem stores_open_in_any_order_legacy :
    (machine.run legacyDatabase [.openWakeIntentStore, .openTaskStore]).userVersion = 4 ∧
    HasMetadata (machine.run legacyDatabase [.openWakeIntentStore, .openTaskStore]) :=
  have h := stores_open_in_any_order
    (Or.inr ⟨rfl, _, rfl, by decide⟩ : Produced legacyDatabase ∨ Legacy legacyDatabase)
    [.openWakeIntentStore, .openTaskStore]
  ⟨h.2.2.1, h.2.2.2.1 [machine.event legacyDatabase .openWakeIntentStore] _ [] rfl rfl _
    List.mem_cons_self⟩

end Gaudere.Persistence
