import Gaudere.Work.Attempts
import Gaudere.Work.Invariant
import Gaudere.Work.Isolation

/-!
# Pending tasks are dispatched in the order of their submission

The rows of the task table stand in the order of their rowids: a new row comes last, and an upsert
of a stored task leaves its row where it is. `records_order` says that, over any run from an empty
store, the tasks stand in the order in which their submissions were accepted, and
`storedIds_rowid_order` that this is the order of any rowids assigned in that way. So the pending
query gives the task that was submitted first of those a worker can take, whatever has happened to
it since.

The query does not look at the attempts of a task, and `start` does. A task that recovery returned
to pending has attempts left, so the task that the query gives can be started, and never blocks
those behind it: `dispatch_first_submitted`.
-/

set_option autoImplicit false
set_option relaxedAutoImplicit false

namespace Gaudere.Work

open Gaudere.Library TaskStore

/-! ### Places -/

/-- The ids of the stored tasks, in row order. -/
def storedIds (t : TaskTable) : List Bytes := (records t).map Task.id

/-- One call keeps every stored task in its place, and puts an accepted one last. -/
theorem storedIds_step (s : System) (call : Call) :
    storedIds (machine.event s call).after.store =
      storedIds s.store ++ ((submittedBy (machine.event s call)).map Task.id).toList := by
  have hkept : (∀ task, call = .submit task →
      (machine.event s call).reply ≠ .submitted .accepted) →
        storedIds s.store ++ ((submittedBy (machine.event s call)).map Task.id).toList =
          storedIds s.store := by
    intro hsubmit
    rw [submittedBy_eq_none hsubmit, Option.map_none, Option.toList_none, List.append_nil]
  have hstep := storeStep s call
  generalize hreply : (machine.event s call).reply = reply at hstep
  generalize (machine.event s call).after.store = store at hstep ⊢
  cases hstep with
  | kept _ _ hsubmit _ _ => exact (hkept fun _ _ ↦ hreply ▸ hsubmit).symm
  | submitted task _ hcall _ hfind _ hsave =>
    rw [submittedBy_eq_some_iff.mpr ⟨hcall, hreply⟩]
    exact Encoding.keys_save_fresh hsave hfind
  | edited id a b _ _ htarget hfind hedited hsave =>
    rw [hkept (by rintro task rfl; cases htarget)]
    exact Encoding.keys_save_stored hsave (find_eq_some_iff.mp hfind).1 hedited.sameDefinition.id
  | recovered now _ hcall _ =>
    rw [hkept (by rintro task rfl; cases hcall), recoverExpired_eq]
    exact Encoding.keys_reviseAll (e := taskEncoding) fun a ↦ (sameDefinition_recovered a).id

/-- The stored tasks stand in the order in which they were accepted. -/
theorem storedIds_run (calls : List Call) :
    storedIds (machine.run System.initial calls).store =
      (acceptedTasks (machine.history System.initial calls)).map Task.id := by
  refine Machine.history_induction
    (motive := fun past s ↦ storedIds s.store = (acceptedTasks past).map Task.id) rfl
    (fun past s call _ h ↦ ?_) (machine.unrestricted _ _)
  rw [storedIds_step, h, acceptedTasks_concat, List.map_append]
  cases submittedBy (machine.event s call) <;> rfl

/-- The table at the end of a run is read off the accepted submissions, one by one. -/
theorem records_order (calls : List Call) :
    records (machine.run System.initial calls).store =
      (acceptedTasks (machine.history System.initial calls)).filterMap fun task ↦
        find (machine.run System.initial calls).store task.id := by
  have hids : ((records (machine.run System.initial calls).store).map Task.id) =
      (acceptedTasks (machine.history System.initial calls)).map Task.id := storedIds_run calls
  calc records (machine.run System.initial calls).store
    _ = ((records (machine.run System.initial calls).store).map Task.id).filterMap
          (find (machine.run System.initial calls).store) :=
        Encoding.records_eq_filterMap_find _
    _ = _ := by
      rw [hids, List.filterMap_map]
      rfl

/-! ### Rowids -/

/-- The rowid of every stored id, as the rows of a run get them: a new row one above all others, and
a row that is saved again keeps its own. -/
def RowidsAssigned (rowid : Bytes → ℤ) (events : List (Event System Call Reply)) : Prop :=
  ∀ e ∈ events, ∀ task, submittedBy e = some task →
    ∀ id ∈ storedIds e.before.store, rowid id < rowid task.id

/-- The rows stand in the order of their rowids. -/
theorem storedIds_rowid_order {rowid : Bytes → ℤ} {calls : List Call}
    (hrowid : RowidsAssigned rowid (machine.history System.initial calls)) :
    (storedIds (machine.run System.initial calls).store).Pairwise
      fun first second ↦ rowid first < rowid second := by
  refine Machine.run_invariant
    (P := fun s : System ↦ (storedIds s.store).Pairwise fun first second ↦
      rowid first < rowid second)
    (fun s call hassigned hs ↦ ?_) hrowid List.Pairwise.nil
  rw [storedIds_step]
  cases hsubmitted : submittedBy (machine.event s call) with
  | none => rwa [Option.map_none, Option.toList_none, List.append_nil]
  | some task =>
    rw [Option.map_some, Option.toList_some, List.pairwise_append]
    refine ⟨hs, List.pairwise_singleton _ _, fun id hid other hother ↦ ?_⟩
    rw [List.mem_singleton.mp hother]
    exact hassigned task hsubmitted id hid

/-! ### Selection -/

/-- The pending query gives the stored task of the earliest accepted submission whose stored task
can be taken. -/
theorem findPendingFor_eq_some_iff {calls : List Call} {acceptedKinds : List Bytes} {task : Task} :
    findPendingFor (machine.run System.initial calls).store acceptedKinds = some task ↔
      ∃ earlier submitted later,
        acceptedTasks (machine.history System.initial calls) = earlier ++ submitted :: later ∧
        find (machine.run System.initial calls).store submitted.id = some task ∧
        Dispatchable acceptedKinds task ∧
        ∀ other ∈ earlier, ∀ record,
          find (machine.run System.initial calls).store other.id = some record →
            ¬ Dispatchable acceptedKinds record := by
  rw [findPendingFor_eq, records_order, List.find?_filterMap, Option.bind_eq_some_iff]
  constructor
  · rintro ⟨submitted, hfirst, hfind⟩
    obtain ⟨htaken, earlier, later, hsplit, hearlier⟩ := List.find?_eq_some_iff_append.mp hfirst
    rw [hfind, Option.any_some, decide_eq_true_eq] at htaken
    refine ⟨earlier, submitted, later, hsplit, hfind, htaken, fun other hother record hrecord ↦ ?_⟩
    have hpassed := hearlier other hother
    rw [hrecord, Option.any_some, Bool.not_eq_true', decide_eq_false_iff_not] at hpassed
    exact hpassed
  · rintro ⟨earlier, submitted, later, hsplit, hfind, htaken, hearlier⟩
    refine ⟨submitted, List.find?_eq_some_iff_append.mpr ⟨?_, earlier, later, hsplit, ?_⟩, hfind⟩
    · rw [hfind, Option.any_some]
      exact decide_eq_true htaken
    · intro other hother
      cases hrecord : find (machine.run System.initial calls).store other.id with
      | none => rfl
      | some record =>
        rw [Option.any_some, Bool.not_eq_true', decide_eq_false_iff_not]
        exact hearlier other hother record hrecord

theorem findPendingFor_eq_none_iff {t : TaskTable} {acceptedKinds : List Bytes} :
    findPendingFor t acceptedKinds = none ↔
      ∀ task ∈ records t, ¬ Dispatchable acceptedKinds task := by
  rw [findPendingFor_eq, List.find?_eq_none]
  simp only [decide_eq_true_eq]

/-- The pending query gives a stored task that can be taken. -/
theorem findPendingFor_sound {t : TaskTable} {acceptedKinds : List Bytes} {task : Task}
    (h : findPendingFor t acceptedKinds = some task) :
    find t task.id = some task ∧ Dispatchable acceptedKinds task := by
  rw [findPendingFor_eq] at h
  refine ⟨find_eq_some_iff.mpr ⟨List.mem_of_find?_eq_some h, rfl⟩, ?_⟩
  simpa only [decide_eq_true_eq] using List.find?_some h

/-- The task that is selected has the least rowid of those that can be taken. -/
theorem findPendingFor_least_rowid {rowid : Bytes → ℤ} {calls : List Call}
    (hrowid : RowidsAssigned rowid (machine.history System.initial calls))
    {acceptedKinds : List Bytes} {task other : Task}
    (hselected : findPendingFor (machine.run System.initial calls).store acceptedKinds = some task)
    (hother : other ∈ records (machine.run System.initial calls).store)
    (htaken : Dispatchable acceptedKinds other) :
    other = task ∨ rowid task.id < rowid other.id := by
  have horder := storedIds_rowid_order hrowid
  rw [findPendingFor_eq] at hselected
  obtain ⟨_, earlier, later, hsplit, hearlier⟩ := List.find?_eq_some_iff_append.mp hselected
  rw [storedIds, hsplit, List.map_append, List.map_cons, List.pairwise_append,
    List.pairwise_cons] at horder
  rw [hsplit, List.mem_append, List.mem_cons] at hother
  rcases hother with hbefore | rfl | hafter
  · have hpassed := hearlier other hbefore
    rw [decide_eq_true htaken] at hpassed
    cases hpassed
  · exact Or.inl rfl
  · exact Or.inr (horder.2.1.1 other.id (List.mem_map_of_mem hafter))

/-! ### Starting the selected task -/

/-- A running runtime starts a pending task that has attempts left. -/
theorem start_of_pending {s : System} {id leaseOwner : Bytes} {a : Task} (now : TimePoint)
    (hstate : s.state = .running) (howner : leaseOwner ≠ []) (hfind : find s.store id = some a)
    (hstatus : a.status = .pending) (hattempts : a.attemptsStarted < a.limits.maxAttempts) :
    (machine.event s (.start id leaseOwner now)).reply = .flag true := by
  have hedit : Call.edit s.state (.start id leaseOwner now) a =
      Runtime.startEdit leaseOwner now a := by
    refine if_neg ?_
    rw [not_or, not_not, List.isEmpty_iff]
    exact ⟨hstate, howner⟩
  have hguard : ¬ (a.status ≠ .pending ∨ a.limits.maxAttempts ≤ a.attemptsStarted) := by
    rw [not_or, not_not, UInt32.not_le]
    exact ⟨hstatus, hattempts⟩
  rw [Runtime.startEdit, if_neg hguard] at hedit
  obtain ⟨_, _, hstep⟩ := step_of_edit rfl hfind hedit
  exact congrArg Prod.snd hstep

/-- A task that was started is not selected next. -/
theorem findPendingFor_after_start {s : System} {id leaseOwner : Bytes} {now : TimePoint}
    (hreply : (machine.event s (.start id leaseOwner now)).reply = .flag true)
    {acceptedKinds : List Bytes} {other : Task}
    (hselected : findPendingFor (machine.event s (.start id leaseOwner now)).after.store
      acceptedKinds = some other) : other.id ≠ id := by
  rintro rfl
  obtain ⟨hfind, hpending, _⟩ := findPendingFor_sound hselected
  obtain ⟨a, _, _, hafter⟩ := start_cases hreply
  obtain rfl := Option.some.inj (hafter.symm.trans hfind)
  rw [stored_eq] at hpending
  cases hpending

/-! ### Over every run -/

/-- Over any run from an empty store and for any list of kinds: the pending query gives the task of
the earliest accepted submission among the stored tasks that are pending and of an accepted kind,
which is the one of the least rowid, and none exactly when there is none; no call moves a stored
task, so a recovered one keeps its place; and while the runtime is running, a start of the task by
any owner succeeds, after which no query gives that task. -/
theorem dispatch_first_submitted (calls : List Call) (acceptedKinds : List Bytes) :
    (∀ task, findPendingFor (machine.run System.initial calls).store acceptedKinds = some task ↔
      ∃ earlier submitted later,
        acceptedTasks (machine.history System.initial calls) = earlier ++ submitted :: later ∧
        find (machine.run System.initial calls).store submitted.id = some task ∧
        Dispatchable acceptedKinds task ∧
        ∀ other ∈ earlier, ∀ record,
          find (machine.run System.initial calls).store other.id = some record →
            ¬ Dispatchable acceptedKinds record) ∧
    (∀ rowid, RowidsAssigned rowid (machine.history System.initial calls) → ∀ task other,
      findPendingFor (machine.run System.initial calls).store acceptedKinds = some task →
        other ∈ records (machine.run System.initial calls).store →
          Dispatchable acceptedKinds other → other = task ∨ rowid task.id < rowid other.id) ∧
    (findPendingFor (machine.run System.initial calls).store acceptedKinds = none ↔
      ∀ task ∈ records (machine.run System.initial calls).store,
        ¬ Dispatchable acceptedKinds task) ∧
    (∀ e ∈ machine.history System.initial calls,
      storedIds e.before.store <+: storedIds e.after.store ∧
        ∀ now, e.call.recoveryAt = some now →
          storedIds e.after.store = storedIds e.before.store) ∧
    ∀ task, findPendingFor (machine.run System.initial calls).store acceptedKinds = some task →
      (machine.run System.initial calls).state = .running → ∀ leaseOwner now, leaseOwner ≠ [] →
        (machine.event (machine.run System.initial calls) (.start task.id leaseOwner now)).reply =
          .flag true ∧
        ∀ otherKinds other, findPendingFor (machine.event (machine.run System.initial calls)
          (.start task.id leaseOwner now)).after.store otherKinds = some other →
            other.id ≠ task.id := by
  refine ⟨fun task ↦ findPendingFor_eq_some_iff,
    fun rowid hrowid task other hselected ↦ findPendingFor_least_rowid hrowid hselected,
    findPendingFor_eq_none_iff, fun e he ↦ ?_, ?_⟩
  · have hstep := storedIds_step e.before e.call
    rw [← machine.eq_event_of_mem_history he] at hstep
    refine ⟨hstep ▸ List.prefix_append _ _, fun now hcall ↦ ?_⟩
    have hnone : submittedBy e = none := by
      refine submittedBy_eq_none fun task hsubmit ↦ ?_
      rw [hsubmit] at hcall
      cases hcall
    rw [hstep, hnone, Option.map_none, Option.toList_none, List.append_nil]
  · intro task hselected hstate leaseOwner now howner
    obtain ⟨hfind, hpending, _⟩ := findPendingFor_sound hselected
    have hattempts := (tasksConsistent_run calls _ _ hfind).pending hpending
    have hreply := start_of_pending now hstate howner hfind hpending hattempts
    exact ⟨hreply, fun _ _ hnext ↦ findPendingFor_after_start hreply hnext⟩

end Gaudere.Work
