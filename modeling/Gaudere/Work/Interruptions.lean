import Gaudere.Work.Attempts
import Gaudere.Work.Invariant
import Gaudere.Work.Leases
import Gaudere.Work.Operations

/-!
# Tasks when the process dies within an operation

The runs of the other modules crash between operations. Here the process may die after any request
that an operation makes to the store, also within the loop of a recovery, and the next runtime
starts from what is then stored. `tasks_survive_deaths` says what no such run can break.

Each record is changed as a whole or not at all (`find_event`), so what every call keeps of one
record survives deaths. Only the count of the attempts is less exact: a start whose process died
may have been counted.
-/

set_option autoImplicit false
set_option relaxedAutoImplicit false

namespace Gaudere.Work

open Gaudere.Library TaskStore

/-- The runtime over the SQLite store, with deaths. -/
abbrev mortal : Machine (RuntimeState × TaskTable) (Attempt Call) (Option Reply) :=
  process.mortal sqlite

/-- The state and the store of a runtime. -/
def System.of (s : RuntimeState × TaskTable) : System := { state := s.1, store := s.2 }

/-- A call that is served does what the machine does. -/
theorem event_served (s : RuntimeState × TaskTable) (call : Call) :
    (mortal.event s (.served call)).after = (machine.event (.of s) call).after.parts ∧
      (mortal.event s (.served call)).reply = some (machine.event (.of s) call).reply :=
  event_sqlite (.of s) call

/-- What an attempt leaves of a record: the record before, or what the call makes of it. -/
theorem find_event (s : RuntimeState × TaskTable) (attempt : Attempt Call) (id : Bytes) :
    find (mortal.event s attempt).after.2 id = find s.2 id ∨
      find (mortal.event s attempt).after.2 id =
        find (machine.event (.of s) attempt.call).after.store id := by
  cases attempt with
  | served call =>
    rw [(event_served s call).1]
    exact Or.inr rfl
  | died call requests => exact find_cut (.of s) call requests id

/-- What every call keeps of one record, a run with deaths keeps. -/
theorem record_kept {P : Option Task → Prop} {id : Bytes}
    (hkeep : ∀ s call, P (find s.store id) → P (find (machine.event s call).after.store id))
    (s : RuntimeState × TaskTable) (attempt : Attempt Call) (h : P (find s.2 id)) :
    P (find (mortal.event s attempt).after.2 id) := by
  rcases find_event s attempt id with hkept | hdone
  · rw [hkept]
    exact h
  · rw [hdone]
    exact hkeep (.of s) attempt.call h

/-! ### The representation -/

theorem tasksConsistent_event {s : RuntimeState × TaskTable} (h : TasksConsistent (.of s))
    (attempt : Attempt Call) : TasksConsistent (.of (mortal.event s attempt).after) := by
  intro id task hfind
  rcases find_event s attempt id with hkept | hdone
  · exact h id task (hkept.symm.trans hfind)
  · exact tasksConsistent_step h attempt.call id task (hdone.symm.trans hfind)

theorem tasksConsistent_deaths (attempts : List (Attempt Call)) :
    TasksConsistent (.of (mortal.run System.initial.parts attempts)) := by
  refine Machine.run_invariant (P := fun s ↦ TasksConsistent (.of s))
    (fun _ attempt _ h ↦ tasksConsistent_event h attempt) (mortal.unrestricted _ _)
    fun id task hfind ↦ ?_
  cases (find_initial id).symm.trans hfind

/-! ### Attempts -/

/-- A call that refuses is no start that returned true. -/
theorem not_started_of_refused {s : System} {call : Call} {id : Bytes}
    (hrefused : call.target = some id → (machine.event s call).reply = call.refusal) :
    returnedTrue Call.start? id (machine.event s call) = false := by
  rw [Bool.eq_false_iff]
  intro hstarted
  obtain ⟨hstart, hreply⟩ := returnedTrue_iff.mp hstarted
  obtain ⟨_, _, rfl⟩ := start?_eq_some hstart
  cases hreply.symm.trans (hrefused rfl)

/-- A call adds to the attempts of a record exactly when it is a start that returns true. -/
theorem attempts_after {s : System} {id : Bytes} {a : Task} (h : find s.store id = some a)
    (call : Call) : ∃ b, find (machine.event s call).after.store id = some b ∧
      b.attemptsStarted.toNat = a.attemptsStarted.toNat +
        if returnedTrue Call.start? id (machine.event s call) then 1 else 0 := by
  rcases found_after h call with ⟨hkept, hrefused, _⟩ | ⟨b, _, htarget, hedited, rfl, hafter⟩ |
    ⟨now, hcall, _, hafter⟩
  · exact ⟨a, hkept, by rw [not_started_of_refused hrefused]; rfl⟩
  · refine ⟨_, hafter, ?_⟩
    rw [stored_eq]
    exact hedited.attempts htarget
  · refine ⟨_, hafter, ?_⟩
    have hother : call.target ≠ some id := by
      intro htarget
      rw [recoveryAt_of_target htarget] at hcall
      cases hcall
    rw [recovered_attempts, not_started_of_refused fun htarget ↦ absurd htarget hother]
    rfl

/-- A record that a call brings counts no attempt. -/
theorem attempts_fresh {s : System} {id : Bytes} (h : find s.store id = none) {call : Call}
    {b : Task} (hb : find (machine.event s call).after.store id = some b) :
    b.attemptsStarted.toNat = 0 := by
  have hstep := recordStep s call id
  rw [hb] at hstep
  generalize hafter : some b = after at hstep
  cases hstep with
  | kept _ _ _ => cases hafter.trans h
  | submitted task _ _ hfresh _ _ _ =>
    cases hafter
    rw [hfresh.attempts]
    rfl
  | edited a _ _ _ hfind _ _ => cases h.symm.trans hfind
  | recovered a _ _ hfind _ => cases h.symm.trans hfind

/-- A start of the task of an id returned true. -/
def startReturned (id : Bytes)
    (e : Event (RuntimeState × TaskTable) (Attempt Call) (Option Reply)) : Bool :=
  match e.call with
  | .served call => call.start? == some id && e.reply == some (.flag true)
  | .died _ _ => false

/-- The process died within a start of the task of an id. -/
def startDied (id : Bytes)
    (e : Event (RuntimeState × TaskTable) (Attempt Call) (Option Reply)) : Bool :=
  match e.call with
  | .served _ => false
  | .died call _ => call.start? == some id

theorem startReturned_served (s : RuntimeState × TaskTable) (call : Call) (id : Bytes) :
    startReturned id (mortal.event s (.served call)) =
      returnedTrue Call.start? id (machine.event (.of s) call) := by
  rw [startReturned, Machine.event_call, (event_served s call).2]
  rfl

/-- What an attempt adds to the attempts of a record. -/
theorem attempts_event {s : RuntimeState × TaskTable} {id : Bytes} {a : Task}
    (h : find s.2 id = some a) (attempt : Attempt Call) :
    ∃ b, find (mortal.event s attempt).after.2 id = some b ∧
      a.attemptsStarted.toNat +
          (if startReturned id (mortal.event s attempt) then 1 else 0) ≤
        b.attemptsStarted.toNat ∧
      b.attemptsStarted.toNat ≤ a.attemptsStarted.toNat +
        (if startReturned id (mortal.event s attempt) then 1 else 0) +
        if startDied id (mortal.event s attempt) then 1 else 0 := by
  obtain ⟨b, hb, hattempts⟩ := attempts_after (s := .of s) h attempt.call
  cases attempt with
  | served call =>
    refine ⟨b, ?_, ?_⟩
    · rw [(event_served s call).1]
      exact hb
    · rw [startReturned_served]
      exact ⟨hattempts.ge, hattempts.le.trans (Nat.le_add_right _ _)⟩
  | died call requests =>
    have hreturned : startReturned id (mortal.event s (.died call requests)) = false := rfl
    rw [hreturned]
    rcases find_event s (.died call requests) id with hkept | hdone
    · exact ⟨a, hkept.trans h, le_rfl, Nat.le_add_right _ _⟩
    · refine ⟨b, hdone.trans hb, hattempts.ge.trans' (Nat.le_add_right _ _), ?_⟩
      rw [hattempts]
      refine Nat.add_le_add_left ?_ _
      split_ifs with hstarted hdied
      · exact le_rfl
      · exact absurd (beq_iff_eq.mpr (returnedTrue_iff.mp hstarted).1) hdied
      · exact Nat.zero_le _
      · exact le_rfl

/-- Over a run, the starts that returned true number at most the attempts of the record, and those
are at most the starts that returned true or were not survived. -/
def AttemptsBounded
    (past : List (Event (RuntimeState × TaskTable) (Attempt Call) (Option Reply)))
    (s : RuntimeState × TaskTable) : Prop :=
  ∀ id, (find s.2 id = none → past.countP (startReturned id) = 0) ∧
    ∀ task, find s.2 id = some task →
      past.countP (startReturned id) ≤ task.attemptsStarted.toNat ∧
        task.attemptsStarted.toNat ≤
          past.countP (startReturned id) + past.countP (startDied id)

theorem attemptsBounded_event
    {past : List (Event (RuntimeState × TaskTable) (Attempt Call) (Option Reply))}
    {s : RuntimeState × TaskTable} (h : AttemptsBounded past s) (attempt : Attempt Call) :
    AttemptsBounded (past ++ [mortal.event s attempt]) (mortal.event s attempt).after := by
  intro id
  obtain ⟨hnone, hsome⟩ := h id
  rw [List.countP_append, List.countP_singleton, List.countP_append, List.countP_singleton]
  cases hfind : find s.2 id with
  | none =>
    have hquiet : startReturned id (mortal.event s attempt) = false := by
      rw [Bool.eq_false_iff]
      intro hreturned
      cases attempt with
      | served call =>
        rw [startReturned_served] at hreturned
        obtain ⟨a, _, ha, _⟩ := started_cases hreturned
        cases hfind.symm.trans ha
      | died call requests => cases hreturned
    rw [hquiet, hnone hfind]
    refine ⟨fun _ ↦ rfl, fun task htask ↦ ?_⟩
    have hfresh : task.attemptsStarted.toNat = 0 := by
      rcases find_event s attempt id with hkept | hdone
      · cases (hkept.symm.trans htask).symm.trans hfind
      · exact attempts_fresh (s := .of s) hfind (hdone.symm.trans htask)
    rw [hfresh]
    exact ⟨le_rfl, Nat.zero_le _⟩
  | some a =>
    obtain ⟨hlower, hupper⟩ := hsome a hfind
    obtain ⟨b, hb, hlower', hupper'⟩ := attempts_event hfind attempt
    rw [hb]
    refine ⟨nofun, ?_⟩
    rintro _ ⟨⟩
    constructor <;> omega

theorem attemptsBounded_deaths (attempts : List (Attempt Call)) :
    AttemptsBounded (mortal.history System.initial.parts attempts)
      (mortal.run System.initial.parts attempts) := by
  refine Machine.history_induction (motive := AttemptsBounded) ?_
    (fun _ _ attempt _ h ↦ attemptsBounded_event h attempt) (mortal.unrestricted _ _)
  intro id
  have hnone : find System.initial.parts.2 id = none := find_initial id
  rw [hnone]
  exact ⟨fun _ ↦ rfl, nofun⟩

/-! ### Over every run -/

/-- What holds of a record after an attempt and is kept by every call holds at the end of the run
and on both sides of every later attempt. -/
theorem record_after {P : Option Task → Prop} {id : Bytes}
    (hkeep : ∀ s call, P (find s.store id) → P (find (machine.event s call).after.store id))
    {attempts : List (Attempt Call)}
    {earlier later : List (Event (RuntimeState × TaskTable) (Attempt Call) (Option Reply))}
    {e : Event (RuntimeState × TaskTable) (Attempt Call) (Option Reply)}
    (hsplit : mortal.history System.initial.parts attempts = earlier ++ e :: later)
    (he : P (find e.after.2 id)) :
    (∀ e' ∈ later, e' = mortal.event e'.before e'.call ∧ P (find e'.before.2 id)) ∧
      P (find (mortal.run System.initial.parts attempts).2 id) := by
  obtain ⟨hlater, hend⟩ := Machine.invariant_after (m := mortal)
    (P := fun s : RuntimeState × TaskTable ↦ P (find s.2 id))
    (fun s attempt _ h ↦ record_kept hkeep s attempt h) (mortal.unrestricted _ _) hsplit he
  exact ⟨fun e' he' ↦ ⟨(hlater e' he').1, (hlater e' he').2.1⟩, hend⟩

/-- A submission that is accepted stores its definition, which is a fresh one. -/
theorem stored_of_accepted {s : RuntimeState × TaskTable} {task : Task}
    (hreply : (mortal.event s (.served (.submit task))).reply = some (.submitted .accepted)) :
    task.Fresh ∧ find (mortal.event s (.served (.submit task))).after.2 task.id = some task := by
  obtain ⟨hafter, hreply'⟩ := event_served s (.submit task)
  rw [hreply', Option.some.injEq] at hreply
  refine ⟨?_, by rw [hafter]; exact (accepted_cases hreply).2.2⟩
  rcases submit_cases (.of s) task with ⟨result, hrefused, hstep⟩ | ⟨hfresh, _⟩
  · have hresult : Reply.submitted result = .submitted .accepted :=
      (congrArg Prod.snd hstep).symm.trans hreply
    exact absurd (Reply.submitted.inj hresult) hrefused
  · exact hfresh

theorem accepted_survives {attempts : List (Attempt Call)}
    {e : Event (RuntimeState × TaskTable) (Attempt Call) (Option Reply)}
    (he : e ∈ mortal.history System.initial.parts attempts) {task : Task}
    (hcall : e.call = .served (.submit task)) (hreply : e.reply = some (.submitted .accepted)) :
    ∃ final, find (mortal.run System.initial.parts attempts).2 task.id = some final ∧
      SameDefinition task final := by
  obtain ⟨earlier, later, hsplit⟩ := List.append_of_mem he
  have hevent := mortal.eq_event_of_mem_history he
  rw [hcall] at hevent
  have hstored : find e.after.2 task.id = some task := by
    rw [hevent] at hreply ⊢
    exact (stored_of_accepted hreply).2
  refine (record_after (P := fun found ↦ ∃ final, found = some final ∧ SameDefinition task final)
    ?_ hsplit ⟨task, hstored, .refl task⟩).2
  rintro s call ⟨a, ha, hsame⟩
  obtain ⟨b, hb, hsame'⟩ := sameDefinition_after ha call
  exact ⟨b, hb, hsame.trans hsame'⟩

theorem cancel_survives {attempts : List (Attempt Call)}
    {earlier later : List (Event (RuntimeState × TaskTable) (Attempt Call) (Option Reply))}
    {e : Event (RuntimeState × TaskTable) (Attempt Call) (Option Reply)}
    (hsplit : mortal.history System.initial.parts attempts = earlier ++ e :: later)
    {id reason : Bytes} (hcall : e.call = .served (.requestCancel id reason))
    (hreply : e.reply = some (.flag true)) :
    ∀ e' ∈ later, startReturned id e' = false := by
  have hevent := mortal.eq_event_of_mem_history (Machine.mem_of_split hsplit)
  rw [hcall] at hevent
  obtain ⟨hafter, hreply'⟩ := event_served e.before (.requestCancel id reason)
  rw [hevent, hreply', Option.some.injEq] at hreply
  have hclosed : Closed id (.of e.after) := by
    rw [hevent, hafter]
    exact closed_of_cancel (returnedTrue_iff.mpr ⟨rfl, hreply⟩)
  obtain ⟨hlater, _⟩ := record_after
    (P := fun found ↦ ∃ a, found = some a ∧ a.status ≠ .pending ∧ a.status ≠ .running)
    (fun s call h ↦ closed_step h call) hsplit hclosed
  intro e' he'
  obtain ⟨heq, a, ha, hpending, _⟩ := hlater e' he'
  rw [Bool.eq_false_iff]
  intro hreturned
  rw [heq] at hreturned
  cases hcall' : e'.call with
  | served call =>
    rw [hcall', startReturned_served] at hreturned
    obtain ⟨b, _, hb, hstatus, _⟩ := started_cases hreturned
    obtain rfl : a = b := Option.some.inj (ha.symm.trans hb)
    exact hpending hstatus
  | died call requests =>
    rw [hcall'] at hreturned
    cases hreturned

/-- A served recovery gets through, and leaves no task active whose lease has expired. -/
theorem recover_served (s : RuntimeState × TaskTable) (now : TimePoint) :
    (mortal.event s (.served (.recover now))).reply = some .done ∧
      (mortal.event s (.served (.recover now))).after.1 = .running ∧
      ∀ task ∈ records (mortal.event s (.served (.recover now))).after.2,
        expired now task = false := by
  obtain ⟨hafter, hreply⟩ := event_served s (.recover now)
  have hstep : machine.step (.of s) (.recover now) = _ := recover_eq (.of s) now
  rw [hafter, hreply, Machine.event, hstep]
  refine ⟨rfl, rfl, fun task htask ↦ ?_⟩
  have hfind := find_eq_some_iff.mpr ⟨htask, rfl⟩
  rcases find_recovered (.of s) now task.id with ⟨a, _, _, hrecovered⟩ | ⟨hquiet, hkept⟩
  · rw [Option.some.inj (hfind.symm.trans hrecovered), expired, recovered_lease, Option.any_none,
      Bool.and_false]
  · exact hquiet task (hkept.symm.trans hfind)

/-- Over any run from an empty store in which the process may die after any request of an
operation: every stored task is well formed, and no served call throws; an accepted submission
stays stored under its definition, and counts at least the starts that returned true, at most those
and the starts within which the process died, and never more than its limit; after an accepted
request to cancel no start returns true; a finished task stays as it is; and the next recovery
always gets through and leaves no active task with an expired lease. -/
theorem tasks_survive_deaths (attempts : List (Attempt Call)) :
    let history := mortal.history System.initial.parts attempts
    let s := mortal.run System.initial.parts attempts
    (∀ task ∈ records s.2, task.WellFormed) ∧
    (∀ e ∈ history, ∀ call, e.call = .served call →
      ∃ reply, e.reply = some reply ∧ reply ≠ .threw) ∧
    (∀ e ∈ history, ∀ task, e.call = .served (.submit task) →
      e.reply = some (.submitted .accepted) →
        ∃ final, find s.2 task.id = some final ∧ SameDefinition task final ∧
          history.countP (startReturned task.id) ≤ final.attemptsStarted.toNat ∧
          final.attemptsStarted.toNat ≤
            history.countP (startReturned task.id) + history.countP (startDied task.id) ∧
          final.attemptsStarted.toNat ≤ task.limits.maxAttempts.toNat) ∧
    (∀ earlier e later, history = earlier ++ e :: later →
      (∀ id reason, e.call = .served (.requestCancel id reason) → e.reply = some (.flag true) →
        ∀ e' ∈ later, startReturned id e' = false) ∧
      ∀ id task, find e.after.2 id = some task → isTerminal task.status = true →
        find s.2 id = some task) ∧
    ∀ now, (mortal.event s (.served (.recover now))).reply = some .done ∧
      (mortal.event s (.served (.recover now))).after.1 = .running ∧
      ∀ task ∈ records (mortal.event s (.served (.recover now))).after.2,
        expired now task = false := by
  intro history s
  refine ⟨fun task htask ↦ ?_, fun e he call hcall ↦ ?_, fun e he task hcall hreply ↦ ?_,
    fun earlier e later hsplit ↦
      ⟨fun id reason hcall hreply ↦ ?_, fun id task hfind hterminal ↦ ?_⟩,
    recover_served s⟩
  · have hfind := find_eq_some_iff.mpr ⟨htask, rfl⟩
    exact (tasksConsistent_deaths attempts _ _ hfind).wellFormed (storable_of_mem htask)
  · rw [mortal.eq_event_of_mem_history he, hcall, (event_served e.before call).2]
    exact ⟨_, rfl, reply_ne_threw _ _⟩
  · obtain ⟨final, hfinal, hsame⟩ := accepted_survives he hcall hreply
    obtain ⟨hlower, hupper⟩ := (attemptsBounded_deaths attempts task.id).2 final hfinal
    refine ⟨final, hfinal, hsame, hlower, hupper, ?_⟩
    rw [← hsame.limits]
    exact (storable_of_mem (find_eq_some_iff.mp hfinal).1).attempts
  · exact cancel_survives hsplit hcall hreply
  · refine (record_after (P := fun found ↦ found = some task) ?_ hsplit hfind).2
    exact fun s call h ↦ (terminal_after h hterminal call).1

/-- The process dies within the first start of the task, after its save, and the next runtime
recovers the task and starts it again. -/
def crawlDeaths : List (Attempt Call) :=
  [.served (.recover 0), .served (.submit (crawl 1)),
    .died (.start (ascii "crawl") (ascii "worker") 0) 2, .served (.recover 1000000),
    .served (.start (ascii "crawl") (ascii "worker") 1000000)]

theorem tasks_survive_deaths_crawl :
    ∃ final, find (mortal.run System.initial.parts crawlDeaths).2 (ascii "crawl") = some final ∧
      SameDefinition (crawl 1) final ∧ 1 ≤ final.attemptsStarted.toNat ∧
      final.attemptsStarted.toNat ≤ 2 := by
  have hmem : mortal.event (mortal.run System.initial.parts [.served (.recover 0)])
      (.served (.submit (crawl 1))) ∈ mortal.history System.initial.parts crawlDeaths :=
    List.mem_cons_of_mem _ List.mem_cons_self
  obtain ⟨final, hfinal, hsame, hlower, hupper, -⟩ :=
    (tasks_survive_deaths crawlDeaths).2.2.1 _ hmem (crawl 1) rfl (by decide)
  have hreturned : (mortal.history System.initial.parts crawlDeaths).countP
      (startReturned (crawl 1).id) = 1 := by decide
  have hdied : (mortal.history System.initial.parts crawlDeaths).countP
      (startDied (crawl 1).id) = 1 := by decide
  rw [hreturned] at hlower hupper
  rw [hdied] at hupper
  exact ⟨final, hfinal, hsame, hlower, hupper⟩

end Gaudere.Work
