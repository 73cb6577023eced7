import Gaudere.Library.Programs
import Gaudere.Persistence.Recovery

/-!
# The operations of the task runtime as programs

The runtime reaches its store through the abstract class `TaskStore` only. Here its operations are
programs over the member functions of that class, call by call in the order of the source, and
`process` is the runtime for any implementation of them. `serve_sqlite` says that over the SQLite
store this is the machine of the other modules, and that no call throws.

No operation is a transaction. `find_cut` says what the store holds of a task when the process dies
within one: what it held before, or what the completed operation would have left.
-/

set_option autoImplicit false
set_option relaxedAutoImplicit false

namespace Gaudere.Work

open Gaudere.Library TaskStore

/-! ### The interface -/

/-- A call of a member function of `TaskStore`. -/
inductive StoreRequest
  | find (id : Bytes)
  | findByIdempotencyKey (key : Bytes)
  | leasedWithExpiredLease (now : TimePoint)
  | nextLeaseExpiry
  | hasActive
  | save (task : Task)
deriving DecidableEq, Repr

/-- What the member function returns. -/
abbrev StoreRequest.Answer : StoreRequest → Type
  | .find _ => Option Task
  | .findByIdempotencyKey _ => Option Task
  | .leasedWithExpiredLease _ => List Task
  | .nextLeaseExpiry => Option TimePoint
  | .hasActive => Bool
  | .save _ => Unit

abbrev StoreProgram := Program StoreRequest.Answer

/-- The SQLite store as an implementation of the class. -/
def sqlite : Implementation StoreRequest.Answer TaskTable where
  serve t
    | .find id => (t, some (TaskStore.find t id))
    | .findByIdempotencyKey key => (t, some (TaskStore.findByIdempotencyKey t key))
    | .leasedWithExpiredLease now => (t, some (TaskStore.leasedWithExpiredLease t now))
    | .nextLeaseExpiry => (t, some (TaskStore.nextLeaseExpiry t))
    | .hasActive => (t, some (TaskStore.hasActive t))
    | .save task =>
      match TaskStore.save t task with
      | some t' => (t', some ())
      | none => (t, none)

/-! ### The operations -/

namespace Operations

/-- The operations on one task: look it up, and save its edit where the guard lets it pass. -/
def modify (state : RuntimeState) (id : Bytes) (refusal : Reply)
    (edit : Task → Option (Task × Reply)) : StoreProgram (RuntimeState × Reply) :=
  .ask (.find id) fun (found : Option Task) ↦
    match found.bind edit with
    | none => .done (state, refusal)
    | some (edited, reply) => .ask (.save edited) fun _ ↦ .done (state, reply)

def submit (state : RuntimeState) (task : Task) : StoreProgram (RuntimeState × Reply) :=
  if state ≠ .running then .done (state, .submitted .unavailable)
  else if ¬ validDefinition task then .done (state, .submitted .invalid)
  else
    .ask (.find task.id) fun (found : Option Task) ↦
      if found.isSome then .done (state, .submitted .duplicate)
      else
        .ask (.findByIdempotencyKey task.idempotencyKey) fun (found : Option Task) ↦
          if found.isSome then .done (state, .submitted .duplicate)
          else .ask (.save task) fun _ ↦ .done (state, .submitted .accepted)

def start (state : RuntimeState) (id leaseOwner : Bytes) (now : TimePoint) :
    StoreProgram (RuntimeState × Reply) :=
  if state ≠ .running ∨ leaseOwner.isEmpty then .done (state, .flag false)
  else modify state id (.flag false) (Runtime.startEdit leaseOwner now)

/-- The loop of a recovery, and what the operation ends with. -/
def recoverExpired (now : TimePoint) (finish : ℕ → RuntimeState × Reply) :
    StoreProgram (RuntimeState × Reply) :=
  .ask (.leasedWithExpiredLease now) fun (tasks : List Task) ↦
    .each .save (tasks.map Runtime.recovered) (.done (finish tasks.length))

def tryMarkSafe (state : RuntimeState) : StoreProgram (RuntimeState × Reply) :=
  if state ≠ .draining then .done (state, .flag false)
  else
    .ask .hasActive fun (active : Bool) ↦
      if active then .done (state, .flag false) else .done (.safe, .flag true)

end Operations

open Operations

/-- The runtime, for any store: its state in memory, and its operations. -/
def process : Process StoreRequest.Answer RuntimeState Call Reply where
  boot := .recovering
  operation state
    | .recover now => recoverExpired now fun _ ↦ (.running, .done)
    | .recoverExpired now => recoverExpired now fun count ↦ (state, .recovered count)
    | .nextRecoveryAt =>
      .ask .nextLeaseExpiry fun (expiry : Option TimePoint) ↦ .done (state, .recoveryAt expiry)
    | .submit task => submit state task
    | .start id leaseOwner now => start state id leaseOwner now
    | .succeed id output contentType metadataContentType metadata =>
      modify state id (.finished .unavailable)
        (Runtime.succeedEdit output contentType metadataContentType metadata)
    | .fail id failureCode failureMessage metadataContentType metadata =>
      modify state id (.flag false) (Runtime.finishFailureEdit .failed failureCode failureMessage
        metadataContentType metadata)
    | .requireManualReview id failureCode failureMessage metadataContentType metadata =>
      modify state id (.flag false) (Runtime.finishFailureEdit .manualReview failureCode
        failureMessage metadataContentType metadata)
    | .requestCancel id reason => modify state id (.flag false) (Runtime.requestCancelEdit reason)
    | .markCancelled id => modify state id (.flag false) Runtime.markCancelledEdit
    | .requestShutdown =>
      if state = .running then .done (.draining, .done) else .done (state, .done)
    | .tryMarkSafe => tryMarkSafe state
    | .restart => .done (.recovering, .done)

/-- A call on one task looks the task up and saves the edit of the call. -/
theorem operation_of_target (state : RuntimeState) {call : Call} {id : Bytes}
    (htarget : call.target = some id) :
    process.operation state call = modify state id call.refusal (call.edit state) ∨
      process.operation state call = .done (state, call.refusal) ∧
        ∀ a, call.edit state a = none := by
  cases call <;> simp only [Call.target, Option.some.injEq, reduceCtorEq] at htarget <;>
    subst htarget
  case start argument leaseOwner now =>
    by_cases hblocked : state ≠ .running ∨ leaseOwner.isEmpty = true
    · exact Or.inr ⟨if_pos hblocked, fun _ ↦ if_pos hblocked⟩
    · refine Or.inl ((if_neg hblocked).trans (congrArg (modify state argument _) ?_))
      exact funext fun _ ↦ (if_neg hblocked).symm
  all_goals exact Or.inl rfl

/-! ### Over SQLite -/

/-- The state of a runtime over the SQLite store. -/
def System.parts (s : System) : RuntimeState × TaskTable := (s.state, s.store)

theorem serve_save {t t' : TaskTable} {task : Task} (h : TaskStore.save t task = some t') :
    sqlite.serve t (.save task) = (t', some ()) := by
  simp only [sqlite, h]

/-- Saving a record as it was read changes nothing. -/
theorem stored_of_find {t : TaskTable} {id : Bytes} {a : Task} (h : find t id = some a) :
    stored a = a := by
  obtain ⟨row, _, rfl⟩ := List.mem_map.mp (find_eq_some_iff.mp h).1
  have hlease : (readTask row).lease.map storedLease = (readTask row).lease := by
    rw [readTask, Option.map_map]
    refine Option.map_congr fun owner _ ↦ ?_
    rw [Function.comp_apply, storedLease, milliseconds_timePoint]
  change stored (readTask row) = readTask row
  rw [stored_eq, hlease]

/-- A loop of saves over the SQLite store. -/
theorem serveEach_save (t : TaskTable) (tasks : List Task) :
    Program.serveEach sqlite t (tasks.map StoreRequest.save) = saveAll t tasks := by
  induction tasks generalizing t with
  | nil => rfl
  | cons task tasks ih =>
    rw [List.map_cons, Program.serveEach, saveAll, List.map_cons, Table.upsertAll]
    cases hsave : TaskStore.save t task with
    | none =>
      have hupsert : t.upsert (bindTask task) = none := hsave
      simp only [sqlite, hsave, hupsert]
    | some t' =>
      have hupsert : t.upsert (bindTask task) = some t' := hsave
      simp only [serve_save hsave, hupsert]
      exact ih t'

/-- The program of a call on one task does over SQLite what the machine does. -/
theorem atomic_modify (s : System) {call : Call} {id : Bytes} (htarget : call.target = some id) :
    (Operations.modify s.state id call.refusal (call.edit s.state)).Atomic sqlite s.store
      (machine.step s call).1.store
      (some ((machine.step s call).1.state, (machine.step s call).2)) := by
  refine .read rfl ?_
  rw [step_eq_modify s htarget, Runtime.modify]
  cases hfind : TaskStore.find s.store id with
  | none => exact .done _
  | some a =>
    rw [Option.bind_some]
    cases hedit : call.edit s.state a with
    | none =>
      simp only [hedit]
      exact .done _
    | some result =>
      obtain ⟨b, reply⟩ := result
      obtain ⟨store, hstore, _⟩ := step_of_edit htarget hfind hedit
      simp only [hedit, Runtime.saveThen, hstore]
      exact .write (serve_save hstore) rfl

theorem atomic_submit (s : System) (task : Task) :
    (submit s.state task).Atomic sqlite s.store (machine.step s (.submit task)).1.store
      (some ((machine.step s (.submit task)).1.state, (machine.step s (.submit task)).2)) := by
  have hstep : machine.step s (.submit task) = Runtime.submit s task := rfl
  rw [hstep, submit, Runtime.submit]
  split_ifs with hstate hvalid hduplicate
  · exact .done _
  · refine .read rfl ?_
    by_cases hfound : (find s.store task.id).isSome = true
    · exact (if_pos hfound).symm ▸ .done _
    · refine (if_neg hfound).symm ▸ .read rfl ?_
      exact (if_pos (hduplicate.resolve_left hfound)).symm ▸ .done _
  · rw [not_or] at hduplicate
    obtain ⟨store, hstore⟩ := Encoding.save_fresh
      (check_bindTask_iff.mpr (fresh_of_validDefinition hvalid).storable)
      (Option.not_isSome_iff_eq_none.mp hduplicate.2)
    have hsave : TaskStore.save s.store task = some store := hstore
    simp only [Runtime.saveThen, hsave]
    refine .read rfl ((if_neg hduplicate.1).symm ▸ .read rfl ?_)
    exact (if_neg hduplicate.2).symm ▸ .write (serve_save hsave) rfl
  · exact .done _

/-- The saves of a recovery, interrupted or not. -/
theorem recoverExpired_run (s : System) (now : TimePoint) (finish : ℕ → RuntimeState × Reply) :
    (recoverExpired now finish).run sqlite s.store =
      ((Runtime.recoverExpired s now).1.store,
        some (finish (leasedWithExpiredLease s.store now).length)) := by
  have hsaved := recovery_done s.store now
  have heach : Program.serveEach sqlite s.store (((leasedWithExpiredLease s.store now).map
      Runtime.recovered).map StoreRequest.save) =
      taskEncoding.reviseAll s.store (expiredRow now) Runtime.recovered := serveEach_save _ _
  refine (Program.run_ask_of_answer rfl).trans ((Program.run_each (heach ▸ hsaved)).trans ?_)
  rw [heach, recoverExpired_eq]
  rfl

theorem recoverExpired_cut (t : TaskTable) (now : TimePoint) (finish : ℕ → RuntimeState × Reply)
    (n : ℕ) : Interrupted now t ((recoverExpired now finish).cut sqlite n t) := by
  refine ⟨leasedWithExpiredLease t now, n - 1, .refl _, ?_⟩
  cases n with
  | zero =>
    rw [Program.cut_zero]
    rfl
  | succ n =>
    refine ((Program.cut_ask_of_answer rfl n).trans ?_).symm
    rw [Program.cut_each, ← List.map_take, serveEach_save]
    rfl

/-- Every operation but recovery is atomic. -/
theorem atomic_operation (s : System) {call : Call} (hcall : call.recoveryAt = none) :
    (process.operation s.state call).Atomic sqlite s.store (machine.event s call).after.store
      (some ((machine.event s call).after.state, (machine.event s call).reply)) := by
  change (process.operation s.state call).Atomic sqlite s.store (machine.step s call).1.store
    (some ((machine.step s call).1.state, (machine.step s call).2))
  cases htarget : call.target with
  | some id =>
    rcases operation_of_target s.state htarget with hmodify | ⟨hdone, hnone⟩
    · rw [hmodify]
      exact atomic_modify s htarget
    · rw [hdone, step_eq_modify s htarget, Runtime.modify]
      cases find s.store id with
      | none => exact .done _
      | some a =>
        simp only [hnone a]
        exact .done _
  | none =>
    cases call with
    | submit task => exact atomic_submit s task
    | nextRecoveryAt => exact .read rfl (.done _)
    | requestShutdown =>
      simp only [process, machine, Runtime.requestShutdown]
      split_ifs <;> exact .done _
    | tryMarkSafe =>
      simp only [process, tryMarkSafe, machine, Runtime.tryMarkSafe]
      by_cases hstate : s.state = .draining
      · simp only [hstate, ne_eq, not_true_eq_false, ↓reduceIte, false_or]
        refine .read rfl ?_
        split_ifs
        · exact hstate ▸ .done _
        · exact .done _
      · simp only [hstate, ne_eq, not_false_eq_true, ↓reduceIte, true_or]
        exact .done _
    | restart => exact .done _
    | recover now => cases hcall
    | recoverExpired now => cases hcall
    | _ => cases htarget

/-- Over SQLite the program of a call does what the machine does, and does not throw. -/
theorem run_operation (s : System) (call : Call) :
    (process.operation s.state call).run sqlite s.store = ((machine.event s call).after.store,
      some ((machine.event s call).after.state, (machine.event s call).reply)) := by
  cases hcall : call.recoveryAt with
  | none => exact (atomic_operation s hcall).run
  | some now =>
    cases call with
    | recover now =>
      have hafter : machine.step s (.recover now) = _ := recover_eq s now
      rw [Machine.event, hafter]
      exact recoverExpired_run s now fun _ ↦ (.running, .done)
    | recoverExpired now =>
      have hafter : machine.step s (.recoverExpired now) = _ := recoverExpired_eq s now
      refine (recoverExpired_run s now fun count ↦ (s.state, .recovered count)).trans ?_
      rw [Machine.event, hafter, recoverExpired_eq]
    | _ => cases hcall

/-- The runtime over the SQLite store is the machine of the other modules. -/
theorem event_sqlite (s : System) (call : Call) :
    ((process.machine sqlite).event s.parts call).after = (machine.event s call).after.parts ∧
      ((process.machine sqlite).event s.parts call).reply = some (machine.event s call).reply := by
  simp only [Machine.event, Process.machine, System.parts, run_operation, and_self]

/-- A process that dies within an operation has left the store as it was or as the operation leaves
it, or has recovered some of the expired tasks. -/
theorem cut_operation (s : System) (call : Call) (n : ℕ) :
    (process.operation s.state call).cut sqlite n s.store = s.store ∨
    (process.operation s.state call).cut sqlite n s.store = (machine.event s call).after.store ∨
    ∃ now, call.recoveryAt = some now ∧
      Interrupted now s.store ((process.operation s.state call).cut sqlite n s.store) := by
  cases hcall : call.recoveryAt with
  | none => exact ((atomic_operation s hcall).cut n).imp_right Or.inl
  | some now =>
    refine Or.inr (Or.inr ⟨now, rfl, ?_⟩)
    cases call <;> cases hcall
    · exact recoverExpired_cut s.store now (fun _ ↦ (.running, .done)) n
    · exact recoverExpired_cut s.store now (fun count ↦ (s.state, .recovered count)) n

/-- What the store holds of a task when the process dies within an operation: what it held before,
or what the whole operation leaves of it. -/
theorem find_cut (s : System) (call : Call) (n : ℕ) (id : Bytes) :
    find ((process.operation s.state call).cut sqlite n s.store) id = find s.store id ∨
      find ((process.operation s.state call).cut sqlite n s.store) id =
        find (machine.event s call).after.store id := by
  rcases cut_operation s call n with hbefore | hafter | ⟨now, hcall, hinterrupted⟩
  · exact Or.inl (congrArg (find · id) hbefore)
  · exact Or.inr (congrArg (find · id) hafter)
  · rw [store_after_recovery s hcall]
    exact (hinterrupted.partly (Int64.le_refl now)).find_or id

end Gaudere.Work
