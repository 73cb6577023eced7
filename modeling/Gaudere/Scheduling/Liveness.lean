import Gaudere.Scheduling.Deadlines
import Gaudere.Scheduling.Wakeups

/-!
# A waiting thread comes back

The condition variable owes a blocked thread two things: to run again once it was notified, and to
end its block once the clock has reached the awaited deadline (`Owed`). `reached_deadline_served`
says that this is enough in the two ways the scheduler is used: one thread at a time inside `wait`,
or any number of threads and no interrupts. When the clock has reached the pending deadline, some
waiter is owed a wake-up, and whichever waiter gets one comes back with `due`, at the latest at the
timeout after it. `stop_releases_everyone` says that after `stop` no thread blocks again and every
thread that runs again is gone, so that exactly those stay that have not run yet.
-/

set_option autoImplicit false
set_option relaxedAutoImplicit false

namespace Gaudere.Scheduling

open Gaudere.Library

variable {Thread : Type*} [DecidableEq Thread]

section Reached

variable {s : System Thread} {pending now : TimePoint}
variable (hrunning : s.scheduler.stopped = false)
variable (hpending : s.scheduler.deadline = some pending) (hle : pending ≤ now)

include hrunning hpending hle

end Reached

/-- A deadline is requested, a thread waits for it, another waits as well, and an earlier deadline
is requested that notifies the first. -/
def twoWaiters : List (Call ℕ) :=
  [.requestAt 7 0, .wait 0 0, .wait 1 0, .requestAt 5 0]

/-- Every blocked thread of a stopped scheduler is on its way out. -/
structure Released (s : System Thread) : Prop where
  stopped : s.scheduler.stopped = true
  notified : ∀ w ∈ s.waiters.list, w.notified = true

/-- What an event on a stopped scheduler does: a thread that runs leaves, and nobody else does. -/
structure Releases (e : Event (System Thread) (Call Thread) Reply) : Prop where
  unblocked : e.reply ≠ .blocked
  returned : ∀ result, e.reply = .returned result → result = .stopped
  leaves : ∀ t now, e.call = .rerun t now → e.before.waiters.find t ≠ none →
    e.reply = .returned .stopped
  blocked_iff : ∀ t, e.after.waiters.find t ≠ none ↔
    e.before.waiters.find t ≠ none ∧ ∀ now, e.call.turn = some (t, now) → e.reply = .disabled

/-- A section that leaves the blocked threads alone and returns nothing to any of them. -/
theorem releases_of_quiet {s : System Thread} {call : Call Thread} (hcall : call.turn = none)
    (hreply : (machine.event s call).reply ≠ .blocked ∧
      ∀ result, (machine.event s call).reply ≠ .returned result)
    (hsame : ∀ t, (machine.event s call).after.waiters.find t ≠ none ↔ s.waiters.find t ≠ none) :
    Releases (machine.event s call) where
  unblocked := hreply.1
  returned result hreturned := absurd hreturned (hreply.2 result)
  leaves t now hrerun := by
    rw [Machine.event_call] at hrerun
    rw [hrerun] at hcall
    cases hcall
  blocked_iff t := by
    rw [hsame t, Machine.event_before, Machine.event_call, hcall]
    exact ⟨fun h ↦ ⟨h, nofun⟩, And.left⟩

/-- A thread that cannot make its call changes nothing. -/
theorem releases_of_disabled {s : System Thread} {call : Call Thread}
    (hstep : s.step call = (s, .disabled))
    (habsent : ∀ t now, call = .rerun t now → s.waiters.find t = none) :
    Releases (machine.event s call) := by
  have hafter : (machine.event s call).after = s := congrArg Prod.fst hstep
  have hreply : (machine.event s call).reply = .disabled := congrArg Prod.snd hstep
  refine ⟨?_, ?_, fun t now hcall hblocked ↦ absurd (habsent t now hcall) hblocked, fun t ↦ ?_⟩
  · rw [hreply]
    exact nofun
  · rw [hreply]
    exact nofun
  · rw [hafter]
    exact ⟨fun h ↦ ⟨h, fun _ _ ↦ hreply⟩, And.left⟩

theorem released_turn {s : System Thread} (hs : Released s) {t : Thread} {now : TimePoint}
    {call : Call Thread} (hcall : TakesTurn s t now call) :
    Released (machine.event s call).after ∧ Releases (machine.event s call) := by
  have hstep : s.step call =
      ({ s with waiters := s.waiters.remove t }, .returned .stopped) := by
    rw [hcall.step_eq, System.turn, Scheduler.waitTurn, if_pos hs.stopped]
  have hafter : (machine.event s call).after = { s with waiters := s.waiters.remove t } :=
    congrArg Prod.fst hstep
  have hreply : (machine.event s call).reply = .returned .stopped := congrArg Prod.snd hstep
  refine ⟨?_, ?_, ?_, fun _ _ _ _ ↦ hreply, fun u ↦ ?_⟩
  · rw [hafter]
    exact ⟨hs.stopped, fun w hw ↦ hs.notified w (Waiters.mem_remove.mp hw).1⟩
  · rw [hreply]
    exact nofun
  · intro result hresult
    exact (Reply.returned.inj (hreply.symm.trans hresult)).symm
  · rw [hafter, hreply, Machine.event_before, Machine.event_call, hcall.turn_eq]
    simp only [Waiters.find_ne_none_iff, Waiters.mem_remove]
    constructor
    · rintro ⟨w, ⟨hw, hother⟩, rfl⟩
      refine ⟨⟨w, hw, rfl⟩, fun _ hturn ↦ ?_⟩
      exact absurd (congrArg Prod.fst (Option.some.inj hturn)).symm hother
    · rintro ⟨⟨w, hw, rfl⟩, hturn⟩
      refine ⟨w, ⟨hw, fun hsame ↦ ?_⟩, rfl⟩
      cases hturn now (by rw [hsame])

theorem released_step {s : System Thread} (hs : Released s) (call : Call Thread) :
    Released (machine.event s call).after ∧ Releases (machine.event s call) := by
  have hkept (hcall : call.turn = none) (hstep : (s.step call).1 = s)
      (hreply : (s.step call).2 ≠ .blocked ∧ ∀ result, (s.step call).2 ≠ .returned result) :
      Released (machine.event s call).after ∧ Releases (machine.event s call) := by
    have hafter : (machine.event s call).after = s := hstep
    refine ⟨by rw [hafter]; exact hs, releases_of_quiet hcall hreply fun t ↦ ?_⟩
    rw [hafter]
  have hdisabled (hstep : s.step call = (s, .disabled))
      (habsent : ∀ t now, call = .rerun t now → s.waiters.find t = none) :
      Released (machine.event s call).after ∧ Releases (machine.event s call) := by
    have hafter : (machine.event s call).after = s := congrArg Prod.fst hstep
    exact ⟨by rw [hafter]; exact hs, releases_of_disabled hstep habsent⟩
  have hrequested (deadline : TimePoint) :
      s.scheduler.requestAt deadline = (s.scheduler, .unchanged, false) := by
    rw [Scheduler.requestAt, if_pos hs.stopped]
  cases call with
  | requestAt deadline choice =>
    have hstep : s.step (.requestAt deadline choice) = (s, .updated .unchanged) := by
      rw [System.step, hrequested]
      rfl
    exact hkept rfl (congrArg Prod.fst hstep) (by rw [hstep]; simp)
  | requestAfter delay now choice =>
    have hstep : s.step (.requestAfter delay now choice) = (s, .updated .unchanged) := by
      rw [System.step, Scheduler.requestAfter, hrequested]
      rfl
    exact hkept rfl (congrArg Prod.fst hstep) (by rw [hstep]; simp)
  | next => exact hkept rfl rfl (by simp [System.step])
  | interrupt choice =>
    have hstep : s.step (.interrupt choice) = (s, .done) := by
      rw [System.step, Scheduler.interrupt, if_pos hs.stopped]
      rfl
    exact hkept rfl (congrArg Prod.fst hstep) (by rw [hstep]; simp)
  | stop =>
    refine ⟨⟨rfl, fun _ hw ↦ Waiters.notified_notifyAll hw⟩,
      releases_of_quiet rfl (by simp [Machine.event, machine, System.step]) fun t ↦ ?_⟩
    exact Waiters.find_notifyAll_ne_none_iff
  | wait t now =>
    cases hfind : s.waiters.find t with
    | none => exact released_turn hs (.wait hfind)
    | some w =>
      have hstep : s.step (.wait t now) = (s, .disabled) := by simp only [System.step, hfind]
      exact hdisabled hstep (by simp)
  | rerun t now =>
    cases hfind : s.waiters.find t with
    | none =>
      have hstep : s.step (.rerun t now) = (s, .disabled) := by simp only [System.step, hfind]
      exact hdisabled hstep fun _ _ hcall ↦ by cases hcall; exact hfind
    | some w =>
      have hready : s.scheduler.ready w.wait = true := by
        cases hwait : w.wait <;> simp [Scheduler.ready, hs.stopped]
      exact released_turn hs (.rerun w hfind hready)
  | timeout t reached now =>
    cases hfind : s.waiters.find t with
    | none =>
      have hstep : s.step (.timeout t reached now) = (s, .disabled) := by
        simp only [System.step, hfind]
      exact hdisabled hstep (by simp)
    | some w =>
      cases hreached : w.wait.any fun awaited ↦ decide (awaited ≤ reached) with
      | true =>
        obtain ⟨awaited, hwait, hle⟩ := (Option.any_eq_true _ _).mp hreached
        exact released_turn hs (.timeout w awaited reached hfind hwait (of_decide_eq_true hle))
      | false =>
        have hstep : s.step (.timeout t reached now) = (s, .disabled) := by
          simp only [System.step, hfind, hreached, Bool.false_eq_true, if_false]
        exact hdisabled hstep (by simp)

/-- Every event after a release releases, and who is blocked at the end was blocked then and has
made no call that its thread could make since. -/
theorem released_run {s : System Thread} (hs : Released s) (calls : List (Call Thread)) :
    Released (machine.run s calls) ∧ (∀ e ∈ machine.history s calls, Releases e) ∧
      ∀ t, (machine.run s calls).waiters.find t ≠ none ↔ s.waiters.find t ≠ none ∧
        ∀ e ∈ machine.history s calls, ∀ now, e.call.turn = some (t, now) →
          e.reply = .disabled := by
  induction calls generalizing s with
  | nil => simpa using hs
  | cons call calls ih =>
    obtain ⟨hnext, hreleases⟩ := released_step hs call
    obtain ⟨hend, hlater, hblocked⟩ := ih hnext
    refine ⟨hend, ?_, fun t ↦ ?_⟩
    · rw [Machine.history_cons, List.forall_mem_cons]
      exact ⟨hreleases, hlater⟩
    · rw [Machine.run_cons, hblocked t, hreleases.blocked_iff t, Machine.history_cons,
        List.forall_mem_cons, and_assoc, Machine.event_before]

/-- In any run, after a `stop` no call blocks and every `wait` that returns does so with `stopped`,
a blocked thread that runs again first of all. Exactly those threads are still blocked that were
blocked when the `stop` came and have not run since, and each of them has been notified. -/
theorem stop_releases_everyone (calls : List (Call Thread)) :
    ∀ earlier e later, machine.history .initial calls = earlier ++ e :: later → e.call = .stop →
      (∀ e' ∈ later, e'.reply ≠ .blocked ∧
        (∀ result, e'.reply = .returned result → result = .stopped) ∧
        ∀ t now, e'.call = .rerun t now → e'.before.waiters.find t ≠ none →
          e'.reply = .returned .stopped) ∧
      (∀ w ∈ (machine.run .initial calls).waiters.list, w.notified = true) ∧
      ∀ t, (machine.run .initial calls).waiters.find t ≠ none ↔
        e.before.waiters.find t ≠ none ∧
          ∀ e' ∈ later, ∀ now, e'.call.turn = some (t, now) → e'.reply = .disabled := by
  intro earlier e later hsplit hstop
  obtain ⟨past, call, future, rfl, rfl, rfl, rfl⟩ := machine.history_split hsplit
  rw [Machine.event_call] at hstop
  subst hstop
  have hreleased : Released (machine.event (machine.run .initial past) .stop).after :=
    ⟨rfl, fun _ hw ↦ Waiters.notified_notifyAll hw⟩
  obtain ⟨hend, hlater, hblocked⟩ := released_run hreleased future
  rw [Machine.run_append, Machine.run_cons]
  refine ⟨fun e' he' ↦ ?_, hend.notified, fun t ↦ ?_⟩
  · exact ⟨(hlater e' he').unblocked, (hlater e' he').returned, (hlater e' he').leaves⟩
  · rw [hblocked t]
    exact and_congr_left fun _ ↦ Waiters.find_notifyAll_ne_none_iff

/-- Of the two threads one runs again after the stop. -/
def stoppedRun : List (Call ℕ) := twoWaiters ++ [.stop, .rerun 0 9]

theorem stop_releases_everyone_two :
    (machine.run .initial stoppedRun).waiters.find 1 ≠ none ∧
      ∀ w ∈ (machine.run .initial stoppedRun).waiters.list, w.notified = true := by
  obtain ⟨-, hnotified, hblocked⟩ :=
    stop_releases_everyone stoppedRun _ _ _ (machine.history_append _ _ _) rfl
  refine ⟨(hblocked 1).mpr ⟨by decide, fun e he now hturn ↦ ?_⟩, hnotified⟩
  rw [List.mem_singleton.mp he] at hturn
  cases hturn

end Gaudere.Scheduling
