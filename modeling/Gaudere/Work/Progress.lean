import Gaudere.Work.Dispatch
import Gaudere.Work.Interruptions
import Gaudere.Work.Leases

/-!
# Every task comes to an end

A task has a budget of changes: two for each attempt it has left, to start it and to end it, and a
few for what its status still allows (`Task.remaining`). Every change of its record uses some of the
budget and nothing refills it, whatever the calls are and wherever the process dies. So a record
changes a bounded number of times. A task is attended to when it is started while it is pending, or
when a recovery comes past its lease; how often that can still happen is a budget of its own
(`Task.outstanding`), and a task that has used it up is finished. `tasks_finish` says so, and that
an unfinished task is never out of reach of such a call.
-/

set_option autoImplicit false
set_option relaxedAutoImplicit false

namespace Gaudere.Work

open Gaudere.Library TaskStore

/-! ### The budget -/

/-- What is left of the budget of a task. -/
def Task.remaining (task : Task) : ℕ :=
  match task.status with
  | .pending => 2 * (task.limits.maxAttempts.toNat - task.attemptsStarted.toNat) + 1
  | .running => 2 * (task.limits.maxAttempts.toNat - task.attemptsStarted.toNat) + 2
  | .cancelRequested => 1
  | _ => 0

/-- How often a task can still be attended to: twice for each attempt it has left, and once more
when it is running. -/
def Task.outstanding (task : Task) : ℕ :=
  match task.status with
  | .pending => 2 * (task.limits.maxAttempts.toNat - task.attemptsStarted.toNat)
  | .running => 2 * (task.limits.maxAttempts.toNat - task.attemptsStarted.toNat) + 1
  | .cancelRequested => 1
  | _ => 0

theorem remaining_of_terminal {task : Task} (h : isTerminal task.status = true) :
    task.remaining = 0 := by
  unfold Task.remaining
  cases hstatus : task.status <;> first | rfl | (rw [hstatus] at h; cases h)

theorem remaining_pos {task : Task} (h : isTerminal task.status = false) : 0 < task.remaining := by
  unfold Task.remaining
  cases hstatus : task.status <;> first | exact Nat.succ_pos _ | (rw [hstatus] at h; cases h)

theorem remaining_stored (task : Task) : (stored task).remaining = task.remaining := by
  rw [stored_eq]
  rfl

theorem remaining_of_pending {task : Task} (h : task.status = .pending) :
    task.remaining = 2 * (task.limits.maxAttempts.toNat - task.attemptsStarted.toNat) + 1 := by
  rw [Task.remaining, h]

theorem remaining_of_running {task : Task} (h : task.status = .running) :
    task.remaining = 2 * (task.limits.maxAttempts.toNat - task.attemptsStarted.toNat) + 2 := by
  rw [Task.remaining, h]

theorem outstanding_of_terminal {task : Task} (h : isTerminal task.status = true) :
    task.outstanding = 0 := by
  unfold Task.outstanding
  cases hstatus : task.status <;> first | rfl | (rw [hstatus] at h; cases h)

theorem outstanding_stored (task : Task) : (stored task).outstanding = task.outstanding := by
  rw [stored_eq]
  rfl

theorem outstanding_of_pending {task : Task} (h : task.status = .pending) :
    task.outstanding = 2 * (task.limits.maxAttempts.toNat - task.attemptsStarted.toNat) := by
  rw [Task.outstanding, h]

theorem outstanding_of_running {task : Task} (h : task.status = .running) :
    task.outstanding = 2 * (task.limits.maxAttempts.toNat - task.attemptsStarted.toNat) + 1 := by
  rw [Task.outstanding, h]

theorem outstanding_pos_of_active {task : Task} (h : active task.status = true) :
    0 < task.outstanding := by
  unfold Task.outstanding
  cases hstatus : task.status <;>
    first | exact Nat.succ_pos _ | exact Nat.one_pos | (rw [hstatus] at h; cases h)

/-- An unfinished task can be attended to; a pending one has attempts left. -/
theorem outstanding_pos {s : System} (hs : TasksConsistent s) {id : Bytes} {task : Task}
    (hfind : find s.store id = some task) (h : isTerminal task.status = false) :
    0 < task.outstanding := by
  cases hstatus : task.status with
  | pending =>
    have hattempts := UInt32.lt_iff_toNat_lt.mp ((hs id task hfind).pending hstatus)
    rw [outstanding_of_pending hstatus]
    omega
  | running | cancelRequested => exact outstanding_pos_of_active (by rw [hstatus]; rfl)
  | _ => rw [hstatus] at h; cases h

/-- A change of a task by the call that names it uses some of the budget. -/
theorem Edited.remaining {state : RuntimeState} {call : Call} {a b : Task} {reply : Reply}
    (h : Edited state call a b reply) : b = a ∨ b.remaining < a.remaining := by
  cases h with
  | started id leaseOwner now hcall hstate howner hstatus hattempts =>
    have hlt := UInt32.lt_iff_toNat_lt.mp hattempts
    have hcounted := toNat_succ_of_lt hattempts
    rw [remaining_of_pending hstatus, remaining_of_running rfl, hcounted]
    dsimp only
    omega
  | finished status result _ hstart hcancel hactive hresult hreply =>
    have hspent : (a.finished status result).remaining = 0 :=
      remaining_of_terminal hresult.terminal
    rw [hspent]
    exact Or.inr (remaining_pos (isTerminal_eq_false_of_active hactive))
  | cancelledPending id reason hcall hstatus =>
    rw [remaining_of_pending hstatus]
    exact Or.inr (Nat.succ_pos _)
  | cancelRequested id reason hcall hstatus =>
    rw [remaining_of_running hstatus]
    exact Or.inr (Nat.succ_lt_succ (Nat.succ_pos _))
  | cancelRepeated id reason hcall hstatus => exact Or.inl rfl

theorem remaining_recovered {task : Task} (h : active task.status = true) :
    (Runtime.recovered task).remaining < task.remaining := by
  rcases recovered_cases h with ⟨hrunning, _, heq⟩ | ⟨status, result, hresult, _, heq⟩ <;> rw [heq]
  · rw [remaining_of_running hrunning]
    exact Nat.lt_succ_self _
  · have hspent : (task.finished status result).remaining = 0 :=
      remaining_of_terminal hresult.terminal
    rw [hspent]
    exact remaining_pos (isTerminal_eq_false_of_active h)

/-- A change of a task by the call that names it gives it no more to be attended to, and a start
less. -/
theorem Edited.outstanding {state : RuntimeState} {call : Call} {a b : Task} {reply : Reply}
    (h : Edited state call a b reply) : b.outstanding ≤ a.outstanding ∧
      ∀ id leaseOwner now, call = .start id leaseOwner now → b.outstanding < a.outstanding := by
  cases h with
  | started id leaseOwner now hcall hstate howner hstatus hattempts =>
    have hlt := UInt32.lt_iff_toNat_lt.mp hattempts
    have hcounted := toNat_succ_of_lt hattempts
    rw [outstanding_of_pending hstatus, outstanding_of_running rfl, hcounted]
    dsimp only
    have hless : 2 * (a.limits.maxAttempts.toNat - (a.attemptsStarted.toNat + 1)) + 1 <
        2 * (a.limits.maxAttempts.toNat - a.attemptsStarted.toNat) := by
      omega
    exact ⟨hless.le, fun _ _ _ _ ↦ hless⟩
  | finished status result _ hstart hcancel hactive hresult hreply =>
    have hspent : (a.finished status result).outstanding = 0 :=
      outstanding_of_terminal hresult.terminal
    rw [hspent]
    exact ⟨Nat.zero_le _, fun id leaseOwner now hcall ↦ absurd hcall (hstart id leaseOwner now)⟩
  | cancelledPending id reason hcall hstatus =>
    exact ⟨Nat.zero_le _, fun _ _ _ hother ↦ by cases hcall.symm.trans hother⟩
  | cancelRequested id reason hcall hstatus =>
    rw [outstanding_of_running hstatus]
    exact ⟨Nat.succ_le_succ (Nat.zero_le _), fun _ _ _ hother ↦ by cases hcall.symm.trans hother⟩
  | cancelRepeated id reason hcall hstatus =>
    exact ⟨le_rfl, fun _ _ _ hother ↦ by cases hcall.symm.trans hother⟩

theorem outstanding_recovered {task : Task} (h : active task.status = true) :
    (Runtime.recovered task).outstanding < task.outstanding := by
  rcases recovered_cases h with ⟨hrunning, _, heq⟩ | ⟨status, result, hresult, _, heq⟩ <;> rw [heq]
  · rw [outstanding_of_running hrunning]
    exact Nat.lt_succ_self _
  · have hspent : (task.finished status result).outstanding = 0 :=
      outstanding_of_terminal hresult.terminal
    rw [hspent]
    exact outstanding_pos_of_active h

/-! ### What an attempt uses up -/

/-- The attempt changes the record of an id. -/
def changes (id : Bytes)
    (e : Event (RuntimeState × TaskTable) (Attempt Call) (Option Reply)) : Bool :=
  find e.before.2 id ≠ find e.after.2 id

/-- The attempt moves the task of an id on: it is a start that finds the task pending in a running
runtime, or a recovery that finds its lease expired. -/
def attends (id : Bytes)
    (e : Event (RuntimeState × TaskTable) (Attempt Call) (Option Reply)) : Bool :=
  match e.call with
  | .served (.start argument leaseOwner _) =>
    argument = id && !leaseOwner.isEmpty && e.before.1 = .running &&
      (find e.before.2 id).any fun a ↦ a.status = .pending
  | .served call =>
    call.recoveryAt.any fun now ↦ (find e.before.2 id).any (expired now)
  | .died _ _ => false

/-- A call leaves a record as it is, or uses some of its budget. -/
theorem remaining_after {s : System} {id : Bytes} {a : Task} (h : find s.store id = some a)
    (call : Call) : ∃ b, find (machine.event s call).after.store id = some b ∧
      (b = a ∨ b.remaining < a.remaining) := by
  rcases found_after h call with ⟨hkept, _, _⟩ | ⟨b, _, _, hedited, _, hafter⟩ |
    ⟨now, _, hexpired, hafter⟩
  · exact ⟨a, hkept, Or.inl rfl⟩
  · refine ⟨stored b, hafter, ?_⟩
    rcases hedited.remaining with rfl | hless
    · exact Or.inl (stored_of_find h)
    · exact Or.inr (by rwa [remaining_stored])
  · exact ⟨_, hafter, Or.inr (remaining_recovered (active_of_expired hexpired))⟩

theorem remaining_event {s : RuntimeState × TaskTable} {id : Bytes} {a : Task}
    (h : find s.2 id = some a) (attempt : Attempt Call) :
    ∃ b, find (mortal.event s attempt).after.2 id = some b ∧
      (if changes id (mortal.event s attempt) then 1 else 0) + b.remaining ≤ a.remaining := by
  have hkeep : ∃ b, find (mortal.event s attempt).after.2 id = some b ∧
      (b = a ∨ b.remaining < a.remaining) := by
    rcases find_event s attempt id with hkept | hdone
    · exact ⟨a, hkept.trans h, Or.inl rfl⟩
    · rw [hdone]
      exact remaining_after (s := .of s) h attempt.call
  obtain ⟨b, hb, hsame | hless⟩ := hkeep
  · subst hsame
    have hquiet : changes id (mortal.event s attempt) = false := by
      rw [changes, Machine.event_before, h, hb]
      exact decide_eq_false fun hne ↦ hne rfl
    exact ⟨b, hb, by rw [hquiet]; exact (Nat.zero_add _).le⟩
  · refine ⟨b, hb, ?_⟩
    split_ifs <;> omega

/-- The call moves the task `a`, stored under `id`, on. -/
inductive MovesOn (state : RuntimeState) (id : Bytes) (call : Call) (a : Task) : Prop
  | start (leaseOwner : Bytes) (now : TimePoint) (hcall : call = .start id leaseOwner now)
      (howner : leaseOwner ≠ []) (hstate : state = .running) (hstatus : a.status = .pending)
  | recovery (now : TimePoint) (hcall : call.recoveryAt = some now)
      (hexpired : expired now a = true)

theorem movesOn_of_attends {id : Bytes}
    {e : Event (RuntimeState × TaskTable) (Attempt Call) (Option Reply)} (h : attends id e = true) :
    ∃ call a, e.call = .served call ∧ find e.before.2 id = some a ∧
      MovesOn e.before.1 id call a := by
  unfold attends at h
  split at h
  next argument leaseOwner now hcall =>
    simp only [Bool.and_eq_true, decide_eq_true_eq, Bool.not_eq_true', List.isEmpty_eq_false_iff,
      Option.any_eq_true] at h
    obtain ⟨⟨⟨rfl, howner⟩, hstate⟩, a, ha, hstatus⟩ := h
    exact ⟨_, a, hcall, ha, .start leaseOwner now rfl howner hstate hstatus⟩
  next call _ hcall =>
    simp only [Option.any_eq_true] at h
    obtain ⟨now, hnow, a, ha, hexpired⟩ := h
    exact ⟨call, a, hcall, ha, .recovery now hnow hexpired⟩
  next => cases h

/-- A call that leaves the record as it is did not move the task on: a start of a pending task
returns true, and a recovery past the lease finds the task. -/
theorem not_movesOn_of_kept {s : System} (hs : TasksConsistent s) {id : Bytes} {a : Task}
    (hfind : find s.store id = some a) {call : Call}
    (hrefused : call.target = some id → (machine.event s call).reply = call.refusal)
    (hquiet : ∀ now, call.recoveryAt = some now → expired now a = false) :
    ¬ MovesOn s.state id call a := by
  intro hmoves
  cases hmoves with
  | start leaseOwner now hcall howner hstate hstatus =>
    subst hcall
    have hstarted :=
      start_of_pending now hstate howner hfind hstatus ((hs id a hfind).pending hstatus)
    cases (hrefused rfl).symm.trans hstarted
  | recovery now hcall hexpired => cases (hquiet now hcall).symm.trans hexpired

/-- No call gives a task more to be attended to, and one that moves it on gives it less. -/
theorem outstanding_after {s : System} (hs : TasksConsistent s) {id : Bytes} {a : Task}
    (hfind : find s.store id = some a) (call : Call) :
    ∃ b, find (machine.event s call).after.store id = some b ∧ b.outstanding ≤ a.outstanding ∧
      (MovesOn s.state id call a → b.outstanding < a.outstanding) := by
  rcases found_after hfind call with ⟨hkept, hrefused, hquiet⟩ |
    ⟨b, _, htarget, hedited, _, hafter⟩ | ⟨now, _, hexpired, hafter⟩
  · exact ⟨a, hkept, le_rfl,
      fun hmoves ↦ absurd hmoves (not_movesOn_of_kept hs hfind hrefused hquiet)⟩
  · refine ⟨stored b, hafter, ?_⟩
    obtain ⟨hmore, hless⟩ := hedited.outstanding
    rw [outstanding_stored]
    refine ⟨hmore, fun hmoves ↦ ?_⟩
    cases hmoves with
    | start leaseOwner now hcall _ _ _ => exact hless _ _ _ hcall
    | recovery now hcall _ => cases (recoveryAt_of_target htarget).symm.trans hcall
  · have hless := outstanding_recovered (active_of_expired hexpired)
    exact ⟨_, hafter, hless.le, fun _ ↦ hless⟩

/-- An attempt that attends to a task uses some of what is outstanding, and none gives it back. -/
theorem outstanding_event {s : RuntimeState × TaskTable} (hs : TasksConsistent (.of s)) {id : Bytes}
    {a : Task} (hfind : find s.2 id = some a) (attempt : Attempt Call) :
    ∃ b, find (mortal.event s attempt).after.2 id = some b ∧
      (if attends id (mortal.event s attempt) then 1 else 0) + b.outstanding ≤ a.outstanding := by
  obtain ⟨b, hb, hmore, hless⟩ := outstanding_after hs hfind attempt.call
  cases hattends : attends id (mortal.event s attempt) with
  | false =>
    simp only [Bool.false_eq_true, if_false, Nat.zero_add]
    rcases find_event s attempt id with hkept | hdone
    · exact ⟨a, hkept.trans hfind, le_rfl⟩
    · exact ⟨b, hdone.trans hb, hmore⟩
  | true =>
    obtain ⟨call, c, hcall, hfound, hmoves⟩ := movesOn_of_attends hattends
    rw [Machine.event_call] at hcall
    subst hcall
    cases hfind.symm.trans hfound
    refine ⟨b, by rw [(event_served s call).1]; exact hb, ?_⟩
    have := hless hmoves
    simp only [if_true]
    omega

/-! ### Over every run -/

/-- The lease of an active task has expired at the last clock value. -/
theorem expired_at_last {task : Task} (hstorable : task.Storable)
    (hactive : active task.status = true) : expired Int64.maxValue task = true := by
  have hlease := hstorable.lease
  rw [hactive, Option.isSome_iff_exists] at hlease
  obtain ⟨lease, hlease⟩ := hlease
  rw [expired, hactive, hlease, Bool.true_and, Option.any_some, decide_eq_true_eq]
  exact toMilliseconds_le_of_le (Int64.le_maxValue _)

/-- An unfinished task can be attended to: by a start when it is pending, or by a recovery at a
late clock value. -/
theorem exists_attends {t : TaskTable} {id : Bytes} {a : Task} (hfind : find t id = some a)
    (hstatus : isTerminal a.status = false) :
    ∃ call, attends id (mortal.event (.running, t) (.served call)) = true := by
  have hrecovery : active a.status = true →
      attends id (mortal.event (.running, t) (.served (.recoverExpired Int64.maxValue))) =
        true := by
    intro hactive
    simp only [attends, Machine.event_call, Machine.event_before, hfind, Call.recoveryAt,
      Option.any_some, expired_at_last (storable_of_find hfind) hactive]
  cases hcase : a.status with
  | pending =>
    refine ⟨.start id (ascii "worker") 0, ?_⟩
    simp [attends, hfind, hcase, ascii]
  | running => exact ⟨_, hrecovery (by rw [hcase]; rfl)⟩
  | cancelRequested => exact ⟨_, hrecovery (by rw [hcase]; rfl)⟩
  | succeeded => rw [hcase] at hstatus; cases hstatus
  | failed => rw [hcase] at hstatus; cases hstatus
  | cancelled => rw [hcase] at hstatus; cases hstatus
  | manualReview => rw [hcase] at hstatus; cases hstatus

/-- A run spends no more of a stored task than the task has, if no attempt does. -/
theorem spent_le {id : Bytes} (budget : Task → ℕ)
    {spends : Event (RuntimeState × TaskTable) (Attempt Call) (Option Reply) → Bool}
    (hspends : ∀ s b, TasksConsistent (.of s) → find s.2 id = some b → ∀ attempt,
      ∃ c, find (mortal.event s attempt).after.2 id = some c ∧
        (if spends (mortal.event s attempt) then 1 else 0) + budget c ≤ budget b)
    {s : RuntimeState × TaskTable} {a : Task} (hs : TasksConsistent (.of s))
    (hfind : find s.2 id = some a) (attempts : List (Attempt Call)) :
    ∃ final, find (mortal.run s attempts).2 id = some final ∧
      (mortal.history s attempts).countP spends + budget final ≤ budget a := by
  have hkeep : ∀ s attempt, Machine.Unrestricted (mortal.event s attempt) →
      (TasksConsistent (.of s) ∧ ∃ b, find s.2 id = some b) →
      TasksConsistent (.of (mortal.event s attempt).after) ∧
        ∃ b, find (mortal.event s attempt).after.2 id = some b := by
    rintro s attempt _ ⟨hs, b, hb⟩
    obtain ⟨c, hc, -⟩ := hspends s b hs hb attempt
    exact ⟨tasksConsistent_event hs attempt, c, hc⟩
  obtain ⟨-, final, hfinal⟩ := Machine.run_invariant (m := mortal) hkeep
    (mortal.unrestricted s attempts) ⟨hs, a, hfind⟩
  have hspent : (mortal.history s attempts).countP spends +
      (find (mortal.run s attempts).2 id).elim 0 budget ≤ (find s.2 id).elim 0 budget := by
    refine Machine.countP_add_potential_le (m := mortal) (fun s ↦ (find s.2 id).elim 0 budget)
      hkeep ?_ (mortal.unrestricted s attempts) ⟨hs, a, hfind⟩
    rintro s attempt _ ⟨hs, b, hb⟩
    obtain ⟨c, hc, hless⟩ := hspends s b hs hb attempt
    rw [hb, hc]
    exact hless
  simp only [hfind, hfinal, Option.elim_some] at hspent
  exact ⟨final, hfinal, hspent⟩

/-- Over any run from an empty store in which the process may die after any request of an operation:
the record of an accepted task changes at most once for each unit of its budget, which is twice its
attempts and one more; a task that was attended to twice for each of its attempts is finished; and
in a running runtime some call attends to every unfinished task. -/
theorem tasks_finish (attempts : List (Attempt Call)) :
    let history := mortal.history System.initial.parts attempts
    let s := mortal.run System.initial.parts attempts
    (∀ earlier e later task, history = earlier ++ e :: later →
      e.call = .served (.submit task) → e.reply = some (.submitted .accepted) →
        ∃ final, find s.2 task.id = some final ∧ SameDefinition task final ∧
          later.countP (changes task.id) + final.remaining ≤
            2 * task.limits.maxAttempts.toNat + 1 ∧
          (2 * task.limits.maxAttempts.toNat ≤ later.countP (attends task.id) →
            isTerminal final.status = true)) ∧
    ∀ id task, find s.2 id = some task → isTerminal task.status = false →
      ∃ call, attends id (mortal.event (.running, s.2) (.served call)) = true := by
  refine ⟨fun earlier e later task hsplit hcall hreply ↦ ?_,
    fun id task hfind hstatus ↦ exists_attends hfind hstatus⟩
  obtain ⟨final, hfinal, hsame⟩ :=
    accepted_survives (hsplit ▸ List.mem_append_right _ List.mem_cons_self) hcall hreply
  refine ⟨final, hfinal, hsame, ?_⟩
  have hend := tasksConsistent_deaths attempts
  obtain ⟨past, attempt, future, rfl, rfl, rfl, rfl⟩ := mortal.history_split hsplit
  rw [Machine.event_call] at hcall
  subst hcall
  obtain ⟨hfresh, hstored⟩ := stored_of_accepted hreply
  have hconsistent := tasksConsistent_event (tasksConsistent_deaths past) (.served (.submit task))
  obtain ⟨changed, hchanged, hchanges⟩ := spent_le Task.remaining
    (fun _ _ _ hb attempt ↦ remaining_event hb attempt) hconsistent hstored future
  obtain ⟨attended, hattended, hattends⟩ := spent_le Task.outstanding
    (fun _ _ hs hb attempt ↦ outstanding_event hs hb attempt) hconsistent hstored future
  rw [mortal.run_append, mortal.run_cons] at hfinal hend
  cases hfinal.symm.trans hchanged
  cases hfinal.symm.trans hattended
  rw [remaining_of_pending hfresh.status, hfresh.attempts] at hchanges
  rw [outstanding_of_pending hfresh.status, hfresh.attempts] at hattends
  refine ⟨hchanges, fun hoften ↦ ?_⟩
  -- Nothing is outstanding any more, and an unfinished task has something outstanding.
  by_contra hunfinished
  have hleft := outstanding_pos hend hfinal (Bool.not_eq_true _ ▸ hunfinished)
  have hnone : 2 * (task.limits.maxAttempts.toNat - (0 : UInt32).toNat) =
      2 * task.limits.maxAttempts.toNat := rfl
  omega

/-- The task is started twice, and a recovery comes past each lease. -/
def crawlAbandoned : List (Attempt Call) :=
  [.served (.start (ascii "crawl") (ascii "worker") 0), .served (.recoverExpired 1000000),
    .served (.start (ascii "crawl") (ascii "worker") 1000000), .served (.recoverExpired 2000000)]

theorem tasks_finish_crawl :
    ∃ final, find (mortal.run System.initial.parts
        (.served (.recover 0) :: .served (.submit (crawl 1)) :: crawlAbandoned)).2
          (ascii "crawl") = some final ∧
      SameDefinition (crawl 1) final ∧ isTerminal final.status = true := by
  let recovered := mortal.run System.initial.parts [.served (.recover 0)]
  let submitted := mortal.event recovered (.served (.submit (crawl 1)))
  obtain ⟨final, hfinal, hsame, -, hfinished⟩ :=
    (tasks_finish (.served (.recover 0) :: .served (.submit (crawl 1)) :: crawlAbandoned)).1
      [mortal.event System.initial.parts (.served (.recover 0))] submitted
      (mortal.history submitted.after crawlAbandoned) (crawl 1) rfl rfl (by decide)
  exact ⟨final, hfinal, hsame, hfinished (by decide)⟩

end Gaudere.Work
