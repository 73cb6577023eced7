import Gaudere.Work.Transitions

/-!
# Draining the task runtime

A runtime that was asked to shut down drains: it accepts no submission and starts no task, its
active tasks only get fewer, and it is safe once none is left. `draining_is_safe` says so for the
runs of one runtime, on any store, that recover only a runtime that is still recovering.

Outside the state `running` a call can make no task active (`active_before`), and with no active
task left the only edit is the cancellation of a pending task (`store_after_of_idle`).
-/

set_option autoImplicit false
set_option relaxedAutoImplicit false

namespace Gaudere.Work

open Gaudere.Library TaskStore

/-! ### One call outside the state `running` -/

/-- The number of stored tasks that are running or asked to cancel. -/
def activeCount (t : TaskTable) : ℕ := (records t).countP fun task ↦ active task.status

theorem Edited.active_before {state : RuntimeState} {call : Call} {a b : Task} {reply : Reply}
    (h : Edited state call a b reply) (hstate : state ≠ .running)
    (hactive : active b.status = true) : active a.status = true := by
  cases h with
  | started _ _ _ _ hrunning _ _ _ => exact absurd hrunning hstate
  | finished _ _ _ _ _ hbefore _ _ => exact hbefore
  | cancelledPending _ _ _ _ => cases hactive
  | cancelRequested _ _ _ hstatus => rw [hstatus]; rfl
  | cancelRepeated _ _ _ _ => exact hactive

theorem active_stored (task : Task) : active (stored task).status = active task.status := by
  rw [stored_eq]

/-- A task that is active after a call of a runtime that is not running was active before it. -/
theorem active_before {s : System} (hstate : s.state ≠ .running) (call : Call) {id : Bytes}
    {b : Task} (hfind : find (machine.event s call).after.store id = some b)
    (hactive : active b.status = true) :
    ∃ a, find s.store id = some a ∧ active a.status = true := by
  have hstep := recordStep s call id
  rw [hfind] at hstep
  generalize hafter : some b = after at hstep
  cases hstep with
  | kept _ _ _ => exact ⟨b, hafter.symm, hactive⟩
  | submitted task _ _ hfresh _ _ _ =>
    cases hafter
    rw [hfresh.status] at hactive
    cases hactive
  | edited a b' reply _ ha hedited _ =>
    cases hafter
    rw [active_stored] at hactive
    exact ⟨a, ha, hedited.active_before hstate hactive⟩
  | recovered a now _ ha hexpired =>
    cases hafter
    rw [active_recovered (active_of_expired hexpired)] at hactive
    cases hactive

theorem activeCount_after_le {s : System} (hstate : s.state ≠ .running) (call : Call) :
    activeCount (machine.event s call).after.store ≤ activeCount s.store :=
  Encoding.countP_records_le fun _ _ hfind hactive ↦ active_before hstate call hfind hactive

/-- No stored task is active. -/
def Idle (t : TaskTable) : Prop := ∀ task ∈ records t, active task.status = false

theorem idle_after {s : System} (hstate : s.state ≠ .running) (hidle : Idle s.store)
    (call : Call) : Idle (machine.event s call).after.store := by
  intro task htask
  by_contra hactive
  obtain ⟨a, ha, ha'⟩ := active_before hstate call (find_eq_some_iff.mpr ⟨htask, rfl⟩)
    (eq_true_of_ne_false hactive)
  rw [hidle a (find_eq_some_iff.mp ha).1] at ha'
  cases ha'

theorem step_submit_of_not_running {s : System} (hstate : s.state ≠ .running) (task : Task) :
    machine.step s (.submit task) = (s, .submitted .unavailable) :=
  if_pos hstate

theorem step_start_of_not_running {s : System} (hstate : s.state ≠ .running)
    (id leaseOwner : Bytes) (now : TimePoint) :
    machine.step s (.start id leaseOwner now) = (s, .flag false) :=
  if_pos (Or.inl hstate)

/-- With no active task there is nothing to recover. -/
theorem recoverExpired_of_idle {s : System} (hidle : Idle s.store) (now : TimePoint) :
    Runtime.recoverExpired s now = (s, .recovered 0) := by
  have hnone : leasedWithExpiredLease s.store now = [] := by
    rw [leasedWithExpiredLease_eq, List.filter_eq_nil_iff]
    intro task htask hexpired
    exact absurd (active_of_expired hexpired) (by rw [hidle task htask]; decide)
  rw [Runtime.recoverExpired, hnone]
  rfl

/-- With no active task, a runtime that is not running only edits pending tasks, to cancel them. -/
theorem store_after_of_idle {s : System} (hstate : s.state ≠ .running) (hidle : Idle s.store)
    (call : Call) :
    (machine.event s call).after.store = s.store ∨ ∃ id reason task,
      call = .requestCancel id reason ∧ find s.store id = some task ∧ task.status = .pending := by
  have hstep := storeStep s call
  generalize hreply : (machine.event s call).reply = reply at hstep
  generalize (machine.event s call).after.store = store at hstep ⊢
  cases hstep with
  | kept _ _ _ _ _ => exact Or.inl rfl
  | submitted task _ hcall _ _ _ _ =>
    have hrefused : (machine.event s call).reply = .submitted .unavailable := by
      rw [hcall]
      exact congrArg Prod.snd (step_submit_of_not_running hstate task)
    rw [hreply] at hrefused
    cases hrefused
  | edited id a b _ _ htarget hfind hedited _ =>
    have hquiet := hidle a (find_eq_some_iff.mp hfind).1
    cases hedited with
    | started _ _ _ _ hrunning _ _ _ => exact absurd hrunning hstate
    | finished _ _ _ _ _ hactive _ _ => rw [hquiet] at hactive; cases hactive
    | cancelledPending argument reason hcall hstatus =>
      refine Or.inr ⟨argument, reason, a, hcall, ?_, hstatus⟩
      rw [hcall] at htarget
      exact Option.some.inj htarget ▸ hfind
    | cancelRequested _ _ _ hstatus => rw [hstatus] at hquiet; cases hquiet
    | cancelRepeated _ _ _ hstatus => rw [hstatus] at hquiet; cases hquiet
  | recovered now _ _ _ =>
    rw [recoverExpired_of_idle hidle]
    exact Or.inl rfl

/-! ### The state of the runtime -/

/-- What one call can make of the state of a runtime. -/
inductive StateStep (s : System) (call : Call) : RuntimeState → Prop
  | kept (hmark : call = .tryMarkSafe → (machine.event s call).reply = .flag false) :
      StateStep s call s.state
  | recovered (now : TimePoint) (hcall : call = .recover now) : StateStep s call .running
  | drained (hcall : call = .requestShutdown) (hstate : s.state = .running) :
      StateStep s call .draining
  | madeSafe (hcall : call = .tryMarkSafe) (hstate : s.state = .draining) (hidle : Idle s.store)
      (hstore : (machine.event s call).after.store = s.store) : StateStep s call .safe
  | restarted (hcall : call = .restart) : StateStep s call .recovering

theorem stateStep (s : System) (call : Call) :
    StateStep s call (machine.event s call).after.state := by
  have hkept : call ≠ .tryMarkSafe → (machine.event s call).after.state = s.state →
      StateStep s call (machine.event s call).after.state := by
    intro hcall hstate
    rw [hstate]
    exact .kept fun h ↦ absurd h hcall
  have htargeted : ∀ id, call.target = some id →
      (machine.event s call).after.state = s.state := by
    intro id htarget
    rcases modify_cases s htarget with hstep | ⟨_, _, _, _, _, _, _, hstep⟩ <;>
      exact congrArg (fun result ↦ System.state result.1) hstep
  cases call with
  | recover now =>
    have hstate : (machine.event s (.recover now)).after.state = .running := by
      simp only [Machine.event, machine, recover_eq]
    rw [hstate]
    exact .recovered now rfl
  | recoverExpired now =>
    refine hkept (by simp) ?_
    simp only [Machine.event, machine, recoverExpired_eq]
  | nextRecoveryAt => exact hkept (by simp) rfl
  | submit task =>
    refine hkept (by simp) ?_
    rcases submit_cases s task with ⟨_, _, hstep⟩ | ⟨_, _, _, _, _, hstep⟩ <;>
      exact congrArg (fun result ↦ System.state result.1) hstep
  | requestShutdown =>
    simp only [Machine.event, machine, Runtime.requestShutdown]
    split_ifs with hstate
    · exact .drained rfl hstate
    · exact .kept fun hcall ↦ by cases hcall
  | tryMarkSafe =>
    by_cases hblocked : s.state ≠ .draining ∨ hasActive s.store = true
    · have hstep : machine.step s .tryMarkSafe = (s, .flag false) := if_pos hblocked
      have hkeeps : (machine.event s .tryMarkSafe).after.state = s.state :=
        congrArg (fun result ↦ System.state result.1) hstep
      rw [hkeeps]
      exact .kept fun _ ↦ congrArg Prod.snd hstep
    · have hstep : machine.step s .tryMarkSafe = ({ s with state := .safe }, .flag true) :=
        if_neg hblocked
      rw [not_or, not_not, Bool.not_eq_true, hasActive_eq_false_iff] at hblocked
      have hsafe : (machine.event s .tryMarkSafe).after.state = .safe :=
        congrArg (fun result ↦ System.state result.1) hstep
      rw [hsafe]
      exact .madeSafe rfl hblocked.1 hblocked.2
        (congrArg (fun result ↦ System.store result.1) hstep)
  | restart => exact .restarted rfl
  | start id => exact hkept (by simp) (htargeted id rfl)
  | succeed id => exact hkept (by simp) (htargeted id rfl)
  | fail id => exact hkept (by simp) (htargeted id rfl)
  | requireManualReview id => exact hkept (by simp) (htargeted id rfl)
  | requestCancel id => exact hkept (by simp) (htargeted id rfl)
  | markCancelled id => exact hkept (by simp) (htargeted id rfl)

/-! ### Runs of one runtime -/

/-- A call in the run of one runtime, which recovers only while it is recovering. -/
def OneRuntime (e : Event System Call Reply) : Prop :=
  match e.call with
  | .restart => False
  | .recover _ => e.before.state = .recovering
  | _ => True

instance : DecidablePred OneRuntime := fun e ↦ by
  unfold OneRuntime
  split <;> infer_instance

theorem OneRuntime.of_recover {s : System} {call : Call} {now : TimePoint}
    (h : OneRuntime (machine.event s call)) (hcall : call = .recover now) :
    s.state = .recovering := by
  subst hcall
  exact h

theorem OneRuntime.not_restart {s : System} {call : Call}
    (h : OneRuntime (machine.event s call)) : call ≠ .restart := by
  rintro rfl
  exact h

/-- A runtime that was asked to shut down. -/
def ShuttingDown (s : System) : Prop := s.state = .draining ∨ s.state = .safe

theorem ShuttingDown.not_running {s : System} (h : ShuttingDown s) : s.state ≠ .running := by
  rcases h with hstate | hstate <;> rw [hstate] <;> decide

theorem state_after_of_shuttingDown {s : System} (h : ShuttingDown s) {call : Call}
    (hone : OneRuntime (machine.event s call)) :
    (machine.event s call).after.state = s.state ∨
      s.state = .draining ∧ (machine.event s call).after.state = .safe := by
  have hstep := stateStep s call
  generalize (machine.event s call).after.state = after at hstep
  cases hstep with
  | kept _ => exact Or.inl rfl
  | recovered now hcall =>
    have hrecovering := hone.of_recover hcall
    rcases h with hstate | hstate <;> rw [hstate] at hrecovering <;> cases hrecovering
  | drained _ hstate => exact absurd hstate h.not_running
  | madeSafe _ hstate _ _ => exact Or.inr ⟨hstate, rfl⟩
  | restarted hcall => exact absurd hcall hone.not_restart

theorem shuttingDown_after (s : System) (call : Call) (hone : OneRuntime (machine.event s call))
    (h : ShuttingDown s) : ShuttingDown (machine.event s call).after := by
  rcases state_after_of_shuttingDown h hone with hstate | ⟨_, hstate⟩
  · exact h.imp hstate.trans hstate.trans
  · exact Or.inr hstate

/-- A runtime marked safe. -/
structure MarkedSafe (s : System) : Prop where
  state : s.state = .safe
  idle : Idle s.store

theorem markedSafe_after (s : System) (call : Call) (hone : OneRuntime (machine.event s call))
    (h : MarkedSafe s) : MarkedSafe (machine.event s call).after := by
  have hclosing : ShuttingDown s := Or.inr h.state
  refine ⟨?_, idle_after hclosing.not_running h.idle call⟩
  rcases state_after_of_shuttingDown hclosing hone with hstate | ⟨_, hstate⟩
  · exact hstate.trans h.state
  · exact hstate

theorem markedSafe_of_marked {s : System} (h : (machine.event s .tryMarkSafe).reply = .flag true) :
    MarkedSafe (machine.event s .tryMarkSafe).after := by
  have hstep := stateStep s .tryMarkSafe
  generalize hstate : (machine.event s .tryMarkSafe).after.state = state at hstep
  cases hstep with
  | kept hmark =>
    rw [hmark rfl] at h
    cases h
  | recovered _ hcall => cases hcall
  | drained hcall _ => cases hcall
  | madeSafe _ _ hidle hstore => exact ⟨hstate, by rwa [hstore]⟩
  | restarted hcall => cases hcall

/-- In a run of one runtime, on any store, that recovers only while the runtime is recovering:
after a shutdown request that made it drain, no submission is accepted, no task starts, the active
tasks do not get more, and the state stays or moves on to safe; after it was marked safe, no stored
task is ever active, and only the cancellation of a pending task changes the store. -/
theorem draining_is_safe {store : TaskTable} {calls : List Call}
    (hone : ∀ e ∈ machine.history { state := .recovering, store := store } calls, OneRuntime e)
    {earlier later : List (Event System Call Reply)} {e : Event System Call Reply}
    (hsplit : machine.history { state := .recovering, store := store } calls =
      earlier ++ e :: later) :
    (e.call = .requestShutdown → e.after.state = .draining → ∀ e' ∈ later,
      (∀ task, e'.call = .submit task → e'.reply = .submitted .unavailable) ∧
      (∀ id leaseOwner now, e'.call = .start id leaseOwner now → e'.reply = .flag false) ∧
      activeCount e'.after.store ≤ activeCount e'.before.store ∧
      (e'.before.state = .draining ∧ (e'.after.state = .draining ∨ e'.after.state = .safe) ∨
        e'.before.state = .safe ∧ e'.after.state = .safe)) ∧
    (e.call = .tryMarkSafe → e.reply = .flag true →
      (∀ task ∈ records e.after.store, active task.status = false) ∧ ∀ e' ∈ later,
        (∀ task ∈ records e'.after.store, active task.status = false) ∧
        (e'.after.store = e'.before.store ∨ ∃ id reason task, e'.call = .requestCancel id reason ∧
          find e'.before.store id = some task ∧ task.status = .pending)) := by
  have he : e = machine.event e.before e.call :=
    machine.eq_event_of_mem_history (Machine.mem_of_split hsplit)
  refine ⟨fun _ hdraining e' hlater ↦ ?_, fun hcall hreply ↦ ?_⟩
  · have hallowed := hone e' (Machine.later_mem_of_split hsplit hlater)
    obtain ⟨hevent, hbefore, hafter⟩ := (Machine.invariant_after shuttingDown_after hone hsplit
      (Or.inl hdraining)).1 e' hlater
    rw [hevent] at hallowed
    have hstate := state_after_of_shuttingDown hbefore hallowed
    rw [← hevent] at hstate
    refine ⟨?_, ?_, ?_, ?_⟩
    · intro task hsubmit
      rw [hevent, hsubmit]
      exact congrArg Prod.snd (step_submit_of_not_running hbefore.not_running task)
    · intro id leaseOwner now hstart
      rw [hevent, hstart]
      exact congrArg Prod.snd (step_start_of_not_running hbefore.not_running id leaseOwner now)
    · rw [hevent]
      exact activeCount_after_le hbefore.not_running e'.call
    · rcases hbefore with hbefore | hbefore <;> rw [hbefore] at hstate ⊢
      · exact Or.inl ⟨rfl, hstate.imp id And.right⟩
      · exact Or.inr ⟨rfl, hstate.elim id fun h ↦ absurd h.1 (by decide)⟩
  · rw [he, hcall] at hreply
    have hmarked : MarkedSafe e.after := by
      rw [he, hcall]
      exact markedSafe_of_marked hreply
    refine ⟨hmarked.idle, fun e' hlater ↦ ?_⟩
    obtain ⟨hevent, hbefore, hafter⟩ := (Machine.invariant_after markedSafe_after hone hsplit
      hmarked).1 e' hlater
    refine ⟨hafter.idle, ?_⟩
    have hclosing : ShuttingDown e'.before := Or.inr hbefore.state
    have hstore := store_after_of_idle hclosing.not_running hbefore.idle e'.call
    rwa [← hevent] at hstore

/-- A task to submit. -/
def report : Task where
  id := ascii "report"
  idempotencyKey := ascii "monday"
  kind := ascii "report"
  inputContentType := ascii "text/plain"
  input := []
  limits :=
    { maxInputBytes := 16
      maxOutputBytes := 16
      maxRuntime := 1000
      maxAttempts := 2 }

/-- A worker holds `report`. -/
def reportStarted : List Call :=
  [.recover 0, .submit report, .start (ascii "report") (ascii "worker") 0]

/-- It gives the task up, and a second one is offered too late. -/
def reportReturned : List Call :=
  [.requestCancel (ascii "report") (ascii "shutdown"), .markCancelled (ascii "report"),
    .tryMarkSafe, .submit { report with id := ascii "other", idempotencyKey := ascii "tuesday" }]

theorem draining_is_safe_report :
    (machine.event (machine.run .initial reportStarted) .requestShutdown).after.state = .draining ∧
    ∀ e ∈ machine.history
      (machine.event (machine.run .initial reportStarted) .requestShutdown).after reportReturned,
        activeCount e.after.store ≤ activeCount e.before.store :=
  ⟨by decide, fun e he ↦ ((draining_is_safe (by decide) (machine.history_append .initial
    reportStarted (.requestShutdown :: reportReturned))).1 rfl (by decide) e he).2.2.1⟩

end Gaudere.Work
