import Gaudere.Work.Transitions

/-!
# What every stored task satisfies

`tasks_wellFormed` is the representation invariant of the task runtime, over any run from an empty
store: lease, result and attempt count of a stored task go with its status, a cancelled task
reports the reason of the first accepted request for it, and no call of the run throws.

The table itself keeps every record `Storable`. `Consistent` is what the edits have to keep beyond
that, and `CancelRecorded` ties a record to the requests of the run so far.
-/

set_option autoImplicit false
set_option relaxedAutoImplicit false

namespace Gaudere.Work

open Gaudere.Library TaskStore

/-! ### The invariant -/

/-- The representation invariant of a task. -/
structure Task.WellFormed (task : Task) : Prop where
  lease : task.lease.isSome = true ↔ task.status = .running ∨ task.status = .cancelRequested
  result : task.result.isSome = true ↔ isTerminal task.status = true
  attempts : task.attemptsStarted.toNat ≤ task.limits.maxAttempts.toNat
  pending : task.status = .pending → task.attemptsStarted.toNat < task.limits.maxAttempts.toNat
  input : task.input.length ≤ task.limits.maxInputBytes.toNat
  succeeded : task.status = .succeeded → ∃ result, task.result = some result ∧
    result.contentType ≠ [] ∧ result.failureCode = [] ∧
      result.output.length ≤ task.limits.maxOutputBytes.toNat
  unsuccessful : isTerminal task.status = true → task.status ≠ .succeeded →
    ∃ result, task.result = some result ∧ result.failureCode ≠ []
  metadata : ∀ result, task.result = some result →
    (result.metadataContentType = [] ↔ result.metadata = [])

/-- What the table does not check of a task. -/
structure Task.Consistent (task : Task) : Prop where
  pending : task.status = .pending → task.attemptsStarted < task.limits.maxAttempts
  input : task.input.length ≤ task.limits.maxInputBytes.toNat
  succeeded : ∀ result, task.result = some result → task.status = .succeeded →
    result.contentType ≠ [] ∧ result.failureCode = [] ∧
      result.output.length ≤ task.limits.maxOutputBytes.toNat
  unsuccessful : ∀ result, task.result = some result → task.status ≠ .succeeded →
    result.failureCode ≠ []
  metadata : ∀ result, task.result = some result →
    (result.metadataContentType = [] ↔ result.metadata = [])

theorem Task.Consistent.wellFormed {task : Task} (h : task.Consistent) (hstorable : task.Storable) :
    task.WellFormed where
  lease := by rw [hstorable.lease, active, Bool.or_eq_true, beq_iff_eq, beq_iff_eq]
  result := by rw [hstorable.result]
  attempts := hstorable.attempts
  pending hstatus := UInt32.lt_iff_toNat_lt.mp (h.pending hstatus)
  input := h.input
  succeeded hstatus := by
    have hresult := hstorable.result
    rw [hstatus] at hresult
    obtain ⟨result, hsome⟩ := Option.isSome_iff_exists.mp hresult
    exact ⟨result, hsome, h.succeeded result hsome hstatus⟩
  unsuccessful hterminal hstatus := by
    obtain ⟨result, hsome⟩ := Option.isSome_iff_exists.mp (hstorable.result.trans hterminal)
    exact ⟨result, hsome, h.unsuccessful result hsome hstatus⟩
  metadata := h.metadata

/-! ### Every edit keeps it -/

/-- A task without a result has nothing to be consistent about but its attempts and its input. -/
theorem Task.Consistent.of_no_result {task : Task} (hresult : task.result = none)
    (hpending : task.status = .pending → task.attemptsStarted < task.limits.maxAttempts)
    (hinput : task.input.length ≤ task.limits.maxInputBytes.toNat) : task.Consistent := by
  refine ⟨hpending, hinput, ?_, ?_, ?_⟩ <;> intro result hsome <;> rw [hresult] at hsome <;>
    cases hsome

theorem Task.Storable.result_eq_none {task : Task} (h : task.Storable)
    (hstatus : isTerminal task.status = false) : task.result = none :=
  Option.not_isSome_iff_eq_none.mp (by rw [h.result, hstatus]; decide)

theorem Task.Consistent.stored {task : Task} (h : task.Consistent) : (stored task).Consistent := by
  rw [stored_eq]
  exact ⟨h.pending, h.input, h.succeeded, h.unsuccessful, h.metadata⟩

theorem Task.Fresh.consistent {task : Task} (h : task.Fresh) : task.Consistent := by
  refine .of_no_result (h.storable.result_eq_none (by rw [h.status]; rfl)) (fun _ ↦ ?_) h.input
  rw [h.attempts, UInt32.lt_iff_toNat_lt]
  exact h.storable.maxAttempts

theorem Task.Consistent.finished {task : Task} {status : TaskStatus} {result : TaskResult}
    (h : task.Consistent) (hresult : ResultFor task status result) :
    (task.finished status result).Consistent := by
  have hnotPending : status ≠ .pending := by
    rintro rfl
    exact absurd hresult.terminal (by decide)
  refine ⟨fun hstatus ↦ absurd hstatus hnotPending, h.input, ?_, ?_, ?_⟩ <;>
    rintro _ ⟨⟩
  · exact hresult.succeeded
  · exact hresult.unsuccessful
  · exact hresult.metadata

theorem Edited.consistent {state : RuntimeState} {call : Call} {a b : Task} {reply : Reply}
    (h : Edited state call a b reply) (ha : a.Consistent) (hstorable : a.Storable) :
    b.Consistent := by
  cases h with
  | started id leaseOwner now hcall hstate howner hstatus hattempts =>
    exact .of_no_result (hstorable.result_eq_none (by rw [hstatus]; rfl)) nofun
      ha.input
  | finished status result _ hstart hcancel hactive hresult hreply => exact ha.finished hresult
  | cancelledPending id reason hcall hstatus =>
    refine ⟨nofun, ha.input, ?_, ?_, ?_⟩ <;> rintro _ ⟨⟩
    · exact nofun
    · intro _
      show ascii "cancelled" ≠ []
      decide
    · exact Iff.rfl
  | cancelRequested id reason hcall hstatus =>
    exact .of_no_result (hstorable.result_eq_none (by rw [hstatus]; rfl)) nofun
      ha.input
  | cancelRepeated id reason hcall hstatus => exact ha

theorem Task.Consistent.recovered {task : Task} (h : task.Consistent) (hstorable : task.Storable)
    (hactive : active task.status = true) : (Runtime.recovered task).Consistent := by
  rcases recovered_cases hactive with ⟨hrunning, hattempts, heq⟩ | ⟨status, result, hresult, _, heq⟩
  · rw [heq]
    exact .of_no_result (hstorable.result_eq_none (by rw [hrunning]; rfl)) (fun _ ↦ hattempts)
      h.input
  · rw [heq]
    exact h.finished hresult

/-- The tasks of a store are consistent. -/
def TasksConsistent (s : System) : Prop := ∀ id task, find s.store id = some task → task.Consistent

theorem storable_of_find {t : TaskTable} {id : Bytes} {task : Task} (h : find t id = some task) :
    task.Storable :=
  storable_of_mem (find_eq_some_iff.mp h).1

theorem tasksConsistent_step {s : System} (h : TasksConsistent s) (call : Call) :
    TasksConsistent (machine.event s call).after := by
  intro id task hfind
  have hstep := recordStep s call id
  rw [hfind] at hstep
  generalize hafter : some task = after at hstep
  cases hstep with
  | kept _ _ _ => exact h id task hafter.symm
  | submitted task' _ _ hfresh _ _ _ =>
    cases hafter
    exact hfresh.consistent
  | edited a b reply _ ha hedited _ =>
    cases hafter
    exact (hedited.consistent (h id a ha) (storable_of_find ha)).stored
  | recovered a now _ ha hexpired =>
    cases hafter
    exact (h id a ha).recovered (storable_of_find ha) (active_of_expired hexpired)

theorem tasksConsistent_run (calls : List Call) :
    TasksConsistent (machine.run System.initial calls) := by
  refine Machine.run_invariant (P := TasksConsistent)
    (fun _ call _ h ↦ tasksConsistent_step h call) (machine.unrestricted _ _)
    fun id task hfind ↦ ?_
  rw [find_initial] at hfind
  cases hfind

/-! ### Cancellation reasons -/

/-- The reason of an accepted request to cancel the task of an id. -/
def cancelReasonOf (id : Bytes) (e : Event System Call Reply) : Option Bytes :=
  match e.call with
  | .requestCancel argument reason =>
    if argument = id ∧ e.reply = .flag true then some reason else none
  | _ => none

/-- The reason of the first accepted request of a run to cancel the task of an id. -/
def firstCancelReason (id : Bytes) (events : List (Event System Call Reply)) : Option Bytes :=
  events.findSome? (cancelReasonOf id)

/-- What a record says of the first accepted request to cancel it. -/
structure CancelRecorded (first : Option Bytes) (task : Task) : Prop where
  untouched : task.status = .pending ∨ task.status = .running → first = none
  requested : task.status = .cancelRequested → first = some task.cancelReason
  cancelled : task.status = .cancelled →
    ∃ result, task.result = some result ∧ first = some result.failureMessage

theorem CancelRecorded.stored {first : Option Bytes} {task : Task} (h : CancelRecorded first task) :
    CancelRecorded first (stored task) := by
  rw [stored_eq]
  exact ⟨h.untouched, h.requested, h.cancelled⟩

theorem CancelRecorded.finished {first : Option Bytes} {task : Task} {status : TaskStatus}
    {result : TaskResult} (h : CancelRecorded first task) (hresult : ResultFor task status result) :
    CancelRecorded first (task.finished status result) := by
  have hterminal := hresult.terminal
  refine ⟨fun (hstatus : status = .pending ∨ status = .running) ↦ ?_,
    fun (hstatus : status = .cancelRequested) ↦ ?_, fun (hstatus : status = .cancelled) ↦ ?_⟩
  · rcases hstatus with rfl | rfl <;> exact absurd hterminal (by decide)
  · subst hstatus
    exact absurd hterminal (by decide)
  · obtain ⟨hrequested, hmessage⟩ := hresult.cancelled hstatus
    exact ⟨result, rfl, by rw [h.requested hrequested, hmessage]⟩

theorem CancelRecorded.recovered {first : Option Bytes} {task : Task}
    (h : CancelRecorded first task) (hactive : active task.status = true) :
    CancelRecorded first (Runtime.recovered task) := by
  rcases recovered_cases hactive with ⟨hrunning, _, heq⟩ | ⟨status, result, hresult, _, heq⟩
  · rw [heq]
    exact ⟨fun _ ↦ h.untouched (Or.inr hrunning), nofun, nofun⟩
  · rw [heq]
    exact h.finished hresult

theorem cancelReasonOf_of_accepted {s : System} {call : Call} {id reason argument : Bytes}
    (hcall : call = .requestCancel argument reason) (htarget : call.target = some id)
    (hreply : (machine.event s call).reply = .flag true) :
    cancelReasonOf id (machine.event s call) = some reason := by
  subst hcall
  exact if_pos ⟨Option.some.inj htarget, hreply⟩

theorem cancelReasonOf_of_other {s : System} {call : Call} {id : Bytes}
    (h : ∀ argument reason, call ≠ .requestCancel argument reason) :
    cancelReasonOf id (machine.event s call) = none := by
  unfold cancelReasonOf
  split
  · exact absurd ‹_› (h _ _)
  · rfl

/-- An edit goes with the request of its call, when it is the first one. -/
theorem Edited.cancelRecorded {s : System} {call : Call} {id : Bytes} {a b : Task} {reply : Reply}
    {first : Option Bytes} (h : Edited s.state call a b reply) (htarget : call.target = some id)
    (hreply : (machine.event s call).reply = reply) (ha : CancelRecorded first a) :
    CancelRecorded (first.or (cancelReasonOf id (machine.event s call))) b := by
  cases h with
  | started argument leaseOwner now hcall hstate howner hstatus hattempts =>
    rw [cancelReasonOf_of_other (by rw [hcall]; simp), Option.or_none]
    exact ⟨fun _ ↦ ha.untouched (Or.inl hstatus), nofun, nofun⟩
  | finished status result _ hstart hcancel hactive hresult hacted =>
    rw [cancelReasonOf_of_other hcancel, Option.or_none]
    exact ha.finished hresult
  | cancelledPending argument reason hcall hstatus =>
    rw [cancelReasonOf_of_accepted hcall htarget hreply, ha.untouched (Or.inl hstatus)]
    exact ⟨nofun, nofun, fun _ ↦ ⟨_, rfl, rfl⟩⟩
  | cancelRequested argument reason hcall hstatus =>
    rw [cancelReasonOf_of_accepted hcall htarget hreply, ha.untouched (Or.inr hstatus)]
    exact ⟨nofun, fun _ ↦ rfl, nofun⟩
  | cancelRepeated argument reason hcall hstatus =>
    rw [ha.requested hstatus, Option.some_or, ← ha.requested hstatus]
    exact ha

/-- The requests of a run and the records at its end go together. -/
def CancelsRecorded (past : List (Event System Call Reply)) (s : System) : Prop :=
  ∀ id, (find s.store id = none → firstCancelReason id past = none) ∧
    ∀ task, find s.store id = some task → CancelRecorded (firstCancelReason id past) task

theorem firstCancelReason_append (id : Bytes) (past : List (Event System Call Reply))
    (e : Event System Call Reply) :
    firstCancelReason id (past ++ [e]) = (firstCancelReason id past).or (cancelReasonOf id e) := by
  rw [firstCancelReason, List.findSome?_append, List.findSome?_singleton, firstCancelReason]

theorem cancelsRecorded_step {past : List (Event System Call Reply)} {s : System}
    (h : CancelsRecorded past s) (call : Call) :
    CancelsRecorded (past ++ [machine.event s call]) (machine.event s call).after := by
  intro id
  obtain ⟨hnone, hsome⟩ := h id
  rw [firstCancelReason_append]
  have hstep := recordStep s call id
  generalize find (machine.event s call).after.store id = after at hstep ⊢
  cases hstep with
  | kept hrefused _ _ =>
    have hquiet : cancelReasonOf id (machine.event s call) = none := by
      unfold cancelReasonOf
      split
      · rename_i argument reason hcall
        refine if_neg fun ⟨hid, hreply⟩ ↦ ?_
        rw [Machine.event_call] at hcall
        rw [hrefused (by rw [hcall, Call.target, hid]), hcall] at hreply
        cases hreply
      · rfl
    rw [hquiet, Option.or_none]
    exact ⟨hnone, hsome⟩
  | submitted task hcall _ hfresh hfind _ _ =>
    rw [hnone hfind, cancelReasonOf_of_other (by rw [hcall]; simp)]
    refine ⟨fun hnone ↦ absurd hnone (Option.some_ne_none _), ?_⟩
    rintro _ ⟨⟩
    refine ⟨fun _ ↦ rfl, ?_, ?_⟩ <;> intro hstatus <;> rw [hfresh.status] at hstatus <;>
      cases hstatus
  | edited a b reply htarget hfind hedited hreply =>
    refine ⟨fun hnone ↦ absurd hnone (Option.some_ne_none _), ?_⟩
    rintro _ ⟨⟩
    exact (hedited.cancelRecorded htarget hreply (hsome a hfind)).stored
  | recovered a now hcall hfind hexpired =>
    refine ⟨fun hnone ↦ absurd hnone (Option.some_ne_none _), ?_⟩
    rintro _ ⟨⟩
    rw [cancelReasonOf_of_other (by rintro _ _ rfl; cases hcall), Option.or_none]
    exact (hsome a hfind).recovered (active_of_expired hexpired)

theorem cancelsRecorded_run (calls : List Call) :
    CancelsRecorded (machine.history System.initial calls) (machine.run System.initial calls) := by
  refine Machine.history_induction (motive := CancelsRecorded) ?_
    (fun _ _ call _ h ↦ cancelsRecorded_step h call) (machine.unrestricted _ _)
  intro id
  rw [find_initial]
  exact ⟨fun _ ↦ rfl, nofun⟩

/-! ### Over every run -/

/-- Over any run from an empty store: every stored task is well formed, a cancelled one reports
the reason of the first accepted request to cancel it, and no call throws, so every save passed
the constraints of the table. -/
theorem tasks_wellFormed (calls : List Call) :
    (∀ task ∈ records (machine.run System.initial calls).store, task.WellFormed ∧
      (task.status = .cancelled → ∃ reason result,
        firstCancelReason task.id (machine.history System.initial calls) = some reason ∧
          task.result = some result ∧ result.failureMessage = reason)) ∧
    ∀ e ∈ machine.history System.initial calls, e.reply ≠ .threw := by
  refine ⟨fun task htask ↦ ?_, fun e he ↦ ?_⟩
  · have hfind := find_eq_some_iff.mpr ⟨htask, rfl⟩
    refine ⟨(tasksConsistent_run calls _ _ hfind).wellFormed (storable_of_mem htask), ?_⟩
    intro hstatus
    obtain ⟨result, hresult, hfirst⟩ :=
      ((cancelsRecorded_run calls task.id).2 task hfind).cancelled hstatus
    exact ⟨_, result, hfirst, hresult, rfl⟩
  · rw [machine.eq_event_of_mem_history he]
    exact reply_ne_threw _ _

end Gaudere.Work
