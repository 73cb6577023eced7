import Gaudere.Library.Sql
import Gaudere.Library.Writer

/-!
# The schema of the wake intents

`wakeIntents` is the definition of the table `wake_intents`: its NOT NULL and CHECK constraints,
its primary key and second unique key, and its three BEFORE triggers, as expressions over any
values the columns can hold. Any writer goes through them, also one that is not the store.

The triggers guard a row against updates and deletes, and `accepted_rows_protected` says so for
whole runs of statements. They do not see the rows that OR REPLACE removes to make room for
another, so the runs are those in which no OR REPLACE displaces a row.
-/

set_option autoImplicit false
set_option relaxedAutoImplicit false

namespace Gaudere.WakeIntents

open Gaudere.Library Sql

/-- A row of the table `wake_intents`. -/
structure IntentCells where
  scope : TextCell
  id : TextCell
  sourceId : TextCell
  acceptedAtMs : IntegerCell
  dueAtMs : IntegerCell
  status : IntegerCell
  terminalAtMs : IntegerCell
  terminalReason : TextCell
deriving DecidableEq

namespace IntentCells

open IntegerCell

def notNull (row : IntentCells) : Bool :=
  row.scope ≠ .null && row.id ≠ .null && row.sourceId ≠ .null && row.acceptedAtMs ≠ .null &&
    row.dueAtMs ≠ .null && row.status ≠ .null && row.terminalReason ≠ .null

/-- The CHECK constraints, in the order of the definition. -/
def checks (row : IntentCells) : List Truth :=
  [between row.status (ofInt 0) (ofInt 3),
    lengthBetween row.scope.byteLength 1 128,
    lengthBetween row.id.byteLength 1 128,
    lengthBetween row.sourceId.byteLength 1 128,
    lt row.acceptedAtMs row.dueAtMs,
    Truth.eq (eq row.status (ofInt 0)) (isNull row.terminalAtMs),
    Truth.or (eq row.status (ofInt 1)).not (le row.dueAtMs row.terminalAtMs),
    Truth.or (eq row.status (ofInt 2)).not
      (Truth.and (le row.acceptedAtMs row.terminalAtMs) (lt row.terminalAtMs row.dueAtMs)),
    Truth.eq (Truth.or (eq row.status (ofInt 0)) (eq row.status (ofInt 1)))
      (lengthEq row.terminalReason.byteLength 0),
    lengthLe row.terminalReason.byteLength 1024]

def admitted (row : IntentCells) : Bool := row.notNull && row.checks.all Truth.passes

/-- `PRIMARY KEY(scope,id)` and `UNIQUE(scope,source_id)`. -/
def sharesKey (a b : IntentCells) : Bool :=
  (a.scope = b.scope && a.id = b.id) || (a.scope = b.scope && a.sourceId = b.sourceId)

/-- The WHEN clause of `wake_intents_require_scheduled_insert`. -/
def notScheduled (new : IntentCells) : Truth :=
  Truth.or (Truth.or (eq new.status (ofInt 0)).not (isNull new.terminalAtMs).not)
    (lengthEq new.terminalReason.byteLength 0).not

/-- The WHEN clause of `wake_intents_single_transition`. -/
def notTransition (old new : IntentCells) : Truth :=
  Truth.or (Truth.or (Truth.or (Truth.or (Truth.or (Truth.or
    (eq old.status (ofInt 0)).not (eq new.status (ofInt 0)))
    (TextCell.isNot new.scope old.scope)) (TextCell.isNot new.id old.id))
    (TextCell.isNot new.sourceId old.sourceId))
    (isNot new.acceptedAtMs old.acceptedAtMs)) (isNot new.dueAtMs old.dueAtMs)

end IntentCells

/-- The definition of the table. `wake_intents_prevent_delete` has no WHEN clause. -/
def wakeIntents : TableDefinition IntentCells where
  check := IntentCells.admitted
  sharesKey := IntentCells.sharesKey
  insertAborts new := new.notScheduled.holds
  updateAborts old new := (old.notTransition new).holds
  deleteAborts _ := true

/-! ### Protection of accepted rows -/

/-- The columns of an accepted intent that no transition changes are the same. -/
structure SameIntent (a b : IntentCells) : Prop where
  scope : b.scope = a.scope
  id : b.id = a.id
  sourceId : b.sourceId = a.sourceId
  acceptedAtMs : b.acceptedAtMs = a.acceptedAtMs
  dueAtMs : b.dueAtMs = a.dueAtMs

instance (a b : IntentCells) : Decidable (SameIntent a b) :=
  decidable_of_iff (b.scope = a.scope ∧ b.id = a.id ∧ b.sourceId = a.sourceId ∧
      b.acceptedAtMs = a.acceptedAtMs ∧ b.dueAtMs = a.dueAtMs)
    ⟨fun ⟨hscope, hid, hsource, haccepted, hdue⟩ ↦ ⟨hscope, hid, hsource, haccepted, hdue⟩,
      fun h ↦ ⟨h.scope, h.id, h.sourceId, h.acceptedAtMs, h.dueAtMs⟩⟩

/-- The later row is the same intent, and the same row once the intent has left status 0. -/
def KeepsIntent (old new : IntentCells) : Prop :=
  SameIntent old new ∧ (old.status ≠ .ofInt 0 → new = old)

/-- An update that passes the trigger is a transition of a scheduled intent. -/
theorem scheduled_of_transition {old new : IntentCells} (hchecked : wakeIntents.check old = true)
    (htrigger : wakeIntents.updateAborts old new = false) :
    SameIntent old new ∧ old.status = .ofInt 0 := by
  have hnull : old.status ≠ .null := by
    simp only [wakeIntents, IntentCells.admitted, IntentCells.notNull, Bool.and_eq_true,
      decide_eq_true_eq] at hchecked
    exact hchecked.1.1.2
  simp only [wakeIntents, IntentCells.notTransition, Truth.holds_or, Bool.or_eq_false_iff,
    IntegerCell.holds_not_eq hnull (IntegerCell.ofInt_ne_null 0), TextCell.isNot,
    IntegerCell.isNot, Truth.holds_some, decide_eq_false_iff_not, not_not] at htrigger
  obtain ⟨⟨⟨⟨⟨⟨hstatus, -⟩, hscope⟩, hid⟩, hsource⟩, haccepted⟩, hdue⟩ := htrigger
  exact ⟨⟨hscope, hid, hsource, haccepted, hdue⟩, hstatus⟩

theorem sharesKey_iff {a b : IntentCells} : wakeIntents.sharesKey a b = true ↔
    a.scope = b.scope ∧ (a.id = b.id ∨ a.sourceId = b.sourceId) := by
  simp only [wakeIntents, IntentCells.sharesKey, Bool.or_eq_true, Bool.and_eq_true,
    decide_eq_true_eq, and_or_left]

theorem wakeIntents_guards : wakeIntents.Guards KeepsIntent where
  refl _ := ⟨⟨rfl, rfl, rfl, rfl, rfl⟩, fun _ ↦ rfl⟩
  trans := by
    rintro first second third ⟨hsame, hterminal⟩ ⟨hsame', hterminal'⟩
    refine ⟨⟨hsame'.scope.trans hsame.scope, hsame'.id.trans hsame.id,
      hsame'.sourceId.trans hsame.sourceId, hsame'.acceptedAtMs.trans hsame.acceptedAtMs,
      hsame'.dueAtMs.trans hsame.dueAtMs⟩, fun hstatus ↦ ?_⟩
    obtain rfl := hterminal hstatus
    exact hterminal' hstatus
  update := by
    intro old new hchecked htrigger
    obtain ⟨hsame, hstatus⟩ := scheduled_of_transition hchecked htrigger
    exact ⟨hsame, fun hne ↦ absurd hstatus hne⟩
  symm := by
    intro a b hshares
    rw [sharesKey_iff] at hshares ⊢
    exact ⟨hshares.1.symm, hshares.2.imp Eq.symm Eq.symm⟩
  keys := by
    intro old new other hchecked htrigger hshares
    obtain ⟨hsame, -⟩ := scheduled_of_transition hchecked htrigger
    rw [sharesKey_iff] at hshares ⊢
    rwa [hsame.scope, hsame.id, hsame.sourceId] at hshares
  delete _ := rfl

/-- What is stored at one time and what is stored later: every row is still there, with the same
scope, id, source id and times, and unchanged if it had left status 0. -/
def Protected (t t' : Contents wakeIntents) : Prop :=
  ∀ e ∈ t.entries, ∃ e' ∈ t'.entries,
    SameIntent e.row e'.row ∧ (e.row.status ≠ .ofInt 0 → e'.row = e.row)

instance (t t' : Contents wakeIntents) : Decidable (Protected t t') :=
  inferInstanceAs (Decidable (∀ e ∈ t.entries, ∃ e' ∈ t'.entries,
    SameIntent e.row e'.row ∧ (e.row.status ≠ .ofInt 0 → e'.row = e.row)))

/-- In every run of statements in which no OR REPLACE displaces a row, what is stored at any time
is protected ever after. -/
theorem accepted_rows_protected (statements : List (Statement IntentCells))
    (hsafe : ∀ e ∈ (writer wakeIntents).history (Contents.empty wakeIntents) statements,
      ¬ Displaces e.before e.call) :
    ∀ earlier later, statements = earlier ++ later →
      Protected ((writer wakeIntents).run (Contents.empty wakeIntents) earlier)
        ((writer wakeIntents).run (Contents.empty wakeIntents) statements) := by
  rintro earlier later rfl
  rw [Machine.run_append]
  rw [Machine.history_append] at hsafe
  exact kept_run wakeIntents_guards fun e he ↦ hsafe e (List.mem_append_right _ he)

/-- A scheduled intent. -/
def reminder : IntentCells where
  scope := .text (ascii "agent")
  id := .text (ascii "reminder")
  sourceId := .text (ascii "request")
  acceptedAtMs := .ofInt 1000
  dueAtMs := .ofInt 2000
  status := .ofInt 0
  terminalAtMs := .null
  terminalReason := .text []

/-- The reminder after it fired at its deadline. -/
def firedReminder : IntentCells :=
  { reminder with status := .ofInt 1, terminalAtMs := .ofInt 2000 }

/-- The reminder is inserted, fires, and another intent takes a free place under OR REPLACE; a
delete is aborted. -/
def reminderRun : List (Statement IntentCells) :=
  [.insert .abort [⟨1, reminder⟩],
    .update .abort [(1, ⟨1, firedReminder⟩)],
    .insert .replace
      [⟨2, { reminder with id := .text (ascii "second"), sourceId := .text (ascii "other") }⟩],
    .delete [1]]

theorem accepted_rows_protected_reminder :
    Protected ((writer wakeIntents).run (Contents.empty wakeIntents) (reminderRun.take 2))
      ((writer wakeIntents).run (Contents.empty wakeIntents) reminderRun) :=
  accepted_rows_protected reminderRun (by decide) (reminderRun.take 2) (reminderRun.drop 2) rfl

/-- The reminder is inserted, fires, and is inserted again under OR REPLACE with a later
deadline. -/
def replacingRun : List (Statement IntentCells) :=
  [.insert .abort [⟨1, reminder⟩],
    .update .abort [(1, ⟨1, firedReminder⟩)],
    .insert .replace [⟨2, { reminder with dueAtMs := .ofInt 9000 }⟩]]

/-- The fired row is gone after the replacement: the intent is scheduled again, with another
deadline. -/
theorem replacement_revives_fired_intent :
    (¬ ∀ earlier later, replacingRun = earlier ++ later →
      Protected ((writer wakeIntents).run (Contents.empty wakeIntents) earlier)
        ((writer wakeIntents).run (Contents.empty wakeIntents) replacingRun)) ∧
    ((writer wakeIntents).run (Contents.empty wakeIntents) (replacingRun.take 2)).entries =
      [⟨1, firedReminder⟩] ∧
    ((writer wakeIntents).run (Contents.empty wakeIntents) replacingRun).entries =
      [⟨2, { reminder with dueAtMs := .ofInt 9000 }⟩] := by
  refine ⟨fun h ↦ ?_, by decide, by decide⟩
  exact absurd (h (replacingRun.take 2) (replacingRun.drop 2) rfl) (by decide)

end Gaudere.WakeIntents
