import Gaudere.Library.ConditionVariable
import Gaudere.Library.Cpp
import Gaudere.Library.Machine

/-!
# The wake-up scheduler

`Scheduler` owns one wake-up deadline behind a mutex and a condition variable. Its members run
under the mutex, `wait` between two of its blocks, so what threads can observe is the sequence of
these critical sections. `machine` takes one of them per call, made by any thread at any clock
reading: `requestAt`, `requestAfter`, `next`, `interrupt` and `stop` are one section each, and a
`wait` is its first turn of the loop followed by one turn per time it runs again.

A blocked thread runs again when it was notified, when its awaited deadline was reached, or for no
reason at all, as a condition variable allows; unless a timeout ended the block it tests its
predicate first and blocks again if that fails. `outcome` says once what a call can do.
-/

set_option autoImplicit false
set_option relaxedAutoImplicit false

namespace Gaudere.Scheduling

open Gaudere.Library

inductive Update where
  | scheduled
  | advanced
  | unchanged
deriving DecidableEq, Repr

inductive WaitResult where
  | due
  | interrupted
  | stopped
deriving DecidableEq, Repr

structure Scheduler where
  deadline : Option TimePoint := none
  interrupted : Bool := false
  stopped : Bool := false
deriving DecidableEq, Repr

/-- How one turn of the loop of `wait` ends: it returns, or it blocks, until the awaited deadline
if there is one. -/
inductive Turn where
  | returns (result : WaitResult)
  | blocks (awaited : Option TimePoint)
deriving DecidableEq, Repr

namespace Scheduler

/-- The state after the request, the reply, and whether `notify_one` is called. -/
def requestAt (s : Scheduler) (deadline : TimePoint) : Scheduler × Update × Bool :=
  if s.stopped then
    (s, .unchanged, false)
  else
    match s.deadline with
    | none => ({ s with deadline := some deadline }, .scheduled, true)
    | some pending =>
      if deadline < pending then
        ({ s with deadline := some deadline }, .advanced, true)
      else
        (s, .unchanged, false)

/-- The clock is read before the mutex is taken. The sum is the source's: past the range of the
clock it is undefined there and wraps here. -/
def requestAfter (s : Scheduler) (delay now : TimePoint) : Scheduler × Update × Bool :=
  s.requestAt (now + delay)

def next (s : Scheduler) : Option TimePoint := s.deadline

/-- One turn of the loop of `wait`, at a reading of the clock. -/
def waitTurn (s : Scheduler) (now : TimePoint) : Scheduler × Turn :=
  if s.stopped then
    (s, .returns .stopped)
  else if s.deadline.any (fun deadline ↦ deadline ≤ now) then
    ({ s with deadline := none, interrupted := false }, .returns .due)
  else if s.interrupted then
    ({ s with interrupted := false }, .returns .interrupted)
  else
    (s, .blocks s.deadline)

/-- The predicate a blocked thread tests before it goes on. -/
def ready (s : Scheduler) : Option TimePoint → Bool
  | none => s.stopped || s.interrupted || s.deadline.isSome
  | some awaited =>
    s.stopped || s.interrupted || s.deadline.isNone ||
      s.deadline.any (fun deadline ↦ deadline < awaited)

/-- The state after the interrupt, and whether `notify_one` is called. -/
def interrupt (s : Scheduler) : Scheduler × Bool :=
  if s.stopped then
    (s, false)
  else
    ({ s with interrupted := true }, true)

def stop (_ : Scheduler) : Scheduler where
  deadline := none
  interrupted := false
  stopped := true

/-- A turn that blocks does so with its predicate false: the test that the condition variable
makes before it blocks does not return at once. -/
theorem not_ready_of_blocks {s : Scheduler} (hstopped : s.stopped = false)
    (hinterrupted : s.interrupted = false) : s.ready s.deadline = false := by
  cases hdeadline : s.deadline with
  | none => simp [ready, hstopped, hinterrupted, hdeadline]
  | some pending => simp [ready, hstopped, hinterrupted, hdeadline]

end Scheduler

/-! ### Threads -/

/-- The scheduler and the threads blocked inside `wait`, each until its awaited deadline. -/
structure System (Thread : Type*) where
  scheduler : Scheduler := {}
  waiters : Waiters Thread (Option TimePoint) := .empty
deriving DecidableEq

/-- One critical section. A `choice` names the waiter that `notify_one` is to pick, and `now` is
the reading of the clock. `rerun` is a blocked thread that runs again, and `timeout` one whose
block ended because the clock had reached the awaited deadline. -/
inductive Call (Thread : Type*) where
  | requestAt (deadline : TimePoint) (choice : Thread)
  | requestAfter (delay now : TimePoint) (choice : Thread)
  | next
  | interrupt (choice : Thread)
  | stop
  | wait (thread : Thread) (now : TimePoint)
  | rerun (thread : Thread) (now : TimePoint)
  | timeout (thread : Thread) (reached now : TimePoint)
deriving DecidableEq

/-- The result of a member that returned, or `blocked` for a `wait` that has not. A call that its
thread cannot make in this state is `disabled`. -/
inductive Reply where
  | updated (update : Update)
  | nextAt (deadline : Option TimePoint)
  | done
  | returned (result : WaitResult)
  | blocked
  | disabled
deriving DecidableEq, Repr

variable {Thread : Type*} [DecidableEq Thread]

namespace System

def initial : System Thread := {}

/-- The waiters after a section that called `notify_one` or did not. -/
def notified (s : System Thread) (notifies : Bool) (choice : Thread) :
    Waiters Thread (Option TimePoint) :=
  if notifies then s.waiters.notifyOne choice else s.waiters

def request (s : System Thread) (result : Scheduler × Update × Bool) (choice : Thread) :
    System Thread × Reply :=
  ({ scheduler := result.1, waiters := s.notified result.2.2 choice }, .updated result.2.1)

/-- A thread takes a turn of the loop of `wait`. -/
def turn (s : System Thread) (t : Thread) (now : TimePoint) : System Thread × Reply :=
  match s.scheduler.waitTurn now with
  | (scheduler, .returns result) =>
    ({ scheduler := scheduler, waiters := s.waiters.remove t }, .returned result)
  | (scheduler, .blocks awaited) =>
    ({ scheduler := scheduler, waiters := s.waiters.park t awaited }, .blocked)

def step (s : System Thread) : Call Thread → System Thread × Reply
  | .requestAt deadline choice => s.request (s.scheduler.requestAt deadline) choice
  | .requestAfter delay now choice => s.request (s.scheduler.requestAfter delay now) choice
  | .next => (s, .nextAt s.scheduler.next)
  | .interrupt choice =>
    ({ scheduler := s.scheduler.interrupt.1
       waiters := s.notified s.scheduler.interrupt.2 choice }, .done)
  | .stop => ({ scheduler := s.scheduler.stop, waiters := s.waiters.notifyAll }, .done)
  | .wait t now =>
    match s.waiters.find t with
    | none => s.turn t now
    | some _ => (s, .disabled)
  | .rerun t now =>
    match s.waiters.find t with
    | none => (s, .disabled)
    | some w =>
      if s.scheduler.ready w.wait then s.turn t now
      else ({ s with waiters := s.waiters.park t w.wait }, .blocked)
  | .timeout t reached now =>
    match s.waiters.find t with
    | none => (s, .disabled)
    | some w =>
      if w.wait.any (fun awaited ↦ awaited ≤ reached) then s.turn t now else (s, .disabled)

end System

def machine : Machine (System Thread) (Call Thread) Reply where
  step := System.step

/-! ### What a section can do -/

/-- What a request does: nothing, or a new deadline and a notification. -/
inductive Requested (s : Scheduler) (deadline : TimePoint) : Scheduler × Update × Bool → Prop
  | stopped (hstopped : s.stopped = true) : Requested s deadline (s, .unchanged, false)
  | scheduled (hstopped : s.stopped = false) (hnone : s.deadline = none) :
    Requested s deadline ({ s with deadline := some deadline }, .scheduled, true)
  | advanced (pending : TimePoint) (hstopped : s.stopped = false)
    (hpending : s.deadline = some pending) (hlt : deadline < pending) :
    Requested s deadline ({ s with deadline := some deadline }, .advanced, true)
  | kept (pending : TimePoint) (hstopped : s.stopped = false)
    (hpending : s.deadline = some pending) (hle : pending ≤ deadline) :
    Requested s deadline (s, .unchanged, false)

theorem requested (s : Scheduler) (deadline : TimePoint) :
    Requested s deadline (s.requestAt deadline) := by
  unfold Scheduler.requestAt
  split_ifs with hstopped
  · exact .stopped hstopped
  · have hrunning := Bool.not_eq_true _ ▸ hstopped
    split
    · rename_i hnone
      exact .scheduled hrunning hnone
    · rename_i pending hpending
      split_ifs with hlt
      · exact .advanced pending hrunning hpending hlt
      · exact .kept pending hrunning hpending (Int64.not_lt.mp hlt)

/-- What a turn of the loop does, by the first of its tests that holds. -/
inductive Turned (s : System Thread) (t : Thread) (now : TimePoint) : System Thread × Reply → Prop
  | stopped (hstopped : s.scheduler.stopped = true) :
    Turned s t now ({ s with waiters := s.waiters.remove t }, .returned .stopped)
  | due (pending : TimePoint) (hstopped : s.scheduler.stopped = false)
    (hpending : s.scheduler.deadline = some pending) (hle : pending ≤ now) :
    Turned s t now
      ({ scheduler := { s.scheduler with deadline := none, interrupted := false }
         waiters := s.waiters.remove t }, .returned .due)
  | interrupted (hstopped : s.scheduler.stopped = false)
    (hearly : ∀ pending, s.scheduler.deadline = some pending → now < pending)
    (hinterrupted : s.scheduler.interrupted = true) :
    Turned s t now
      ({ scheduler := { s.scheduler with interrupted := false }
         waiters := s.waiters.remove t }, .returned .interrupted)
  | blocked (hstopped : s.scheduler.stopped = false)
    (hearly : ∀ pending, s.scheduler.deadline = some pending → now < pending)
    (hinterrupted : s.scheduler.interrupted = false) :
    Turned s t now ({ s with waiters := s.waiters.park t s.scheduler.deadline }, .blocked)

theorem turned (s : System Thread) (t : Thread) (now : TimePoint) :
    Turned s t now (s.turn t now) := by
  unfold System.turn Scheduler.waitTurn
  split_ifs with hstopped hdue hinterrupted
  · exact .stopped hstopped
  · obtain ⟨pending, hpending, hle⟩ := (Option.any_eq_true _ _).mp hdue
    exact .due pending (Bool.not_eq_true _ ▸ hstopped) hpending (of_decide_eq_true hle)
  all_goals
    have hrunning := Bool.not_eq_true _ ▸ hstopped
    have hearly : ∀ pending, s.scheduler.deadline = some pending → now < pending := by
      intro pending hpending
      refine Int64.not_le.mp fun hle ↦ hdue ?_
      rw [hpending, Option.any_some]
      exact decide_eq_true hle
  · exact .interrupted hrunning hearly hinterrupted
  · exact .blocked hrunning hearly (Bool.not_eq_true _ ▸ hinterrupted)

/-- The calls by which a thread takes a turn: its `wait`, a run with its predicate true, and a
timeout of its block. -/
inductive TakesTurn (s : System Thread) (t : Thread) (now : TimePoint) : Call Thread → Prop
  | wait (hfind : s.waiters.find t = none) : TakesTurn s t now (.wait t now)
  | rerun (w : Waiter Thread (Option TimePoint)) (hfind : s.waiters.find t = some w)
    (hready : s.scheduler.ready w.wait = true) : TakesTurn s t now (.rerun t now)
  | timeout (w : Waiter Thread (Option TimePoint)) (awaited reached : TimePoint)
    (hfind : s.waiters.find t = some w) (hwait : w.wait = some awaited) (hle : awaited ≤ reached) :
    TakesTurn s t now (.timeout t reached now)

/-- The deadline a call requests. -/
def Call.deadline : Call Thread → Option TimePoint
  | .requestAt deadline _ => some deadline
  | .requestAfter delay now _ => some (now + delay)
  | _ => none

/-- The thread and the clock reading of a call that goes through the loop of `wait`. -/
def Call.turn : Call Thread → Option (Thread × TimePoint)
  | .wait t now => some (t, now)
  | .rerun t now => some (t, now)
  | .timeout t _ now => some (t, now)
  | _ => none

/-- What a call can do. -/
inductive Outcome (s : System Thread) : Call Thread → System Thread × Reply → Prop
  | request (call : Call Thread) (deadline : TimePoint) (choice : Thread)
    (hcall : call.deadline = some deadline) :
    Outcome s call (s.request (s.scheduler.requestAt deadline) choice)
  | next : Outcome s .next (s, .nextAt s.scheduler.next)
  | interruptStopped (choice : Thread) (hstopped : s.scheduler.stopped = true) :
    Outcome s (.interrupt choice) (s, .done)
  | interrupt (choice : Thread) (hstopped : s.scheduler.stopped = false) :
    Outcome s (.interrupt choice)
      ({ scheduler := { s.scheduler with interrupted := true }
         waiters := s.waiters.notifyOne choice }, .done)
  | stop :
    Outcome s .stop ({ scheduler := s.scheduler.stop, waiters := s.waiters.notifyAll }, .done)
  | turn (call : Call Thread) (t : Thread) (now : TimePoint) (hcall : TakesTurn s t now call) :
    Outcome s call (s.turn t now)
  | reparked (t : Thread) (now : TimePoint) (w : Waiter Thread (Option TimePoint))
    (hfind : s.waiters.find t = some w) (hready : s.scheduler.ready w.wait = false) :
    Outcome s (.rerun t now) ({ s with waiters := s.waiters.park t w.wait }, .blocked)
  | disabled (call : Call Thread) (t : Thread) (now : TimePoint)
    (hcall : call.turn = some (t, now)) : Outcome s call (s, .disabled)

theorem outcome (s : System Thread) (call : Call Thread) : Outcome s call (s.step call) := by
  cases call with
  | requestAt deadline choice => exact .request _ deadline choice rfl
  | requestAfter delay now choice => exact .request _ (now + delay) choice rfl
  | next => exact .next
  | interrupt choice =>
    simp only [System.step, Scheduler.interrupt]
    split_ifs with hstopped
    · exact .interruptStopped choice hstopped
    · exact .interrupt choice (Bool.not_eq_true _ ▸ hstopped)
  | stop => exact .stop
  | wait t now =>
    simp only [System.step]
    cases hfind : s.waiters.find t with
    | none => exact .turn _ t now (.wait hfind)
    | some w => exact .disabled _ t now rfl
  | rerun t now =>
    simp only [System.step]
    cases hfind : s.waiters.find t with
    | none => exact .disabled _ t now rfl
    | some w =>
      simp only
      split_ifs with hready
      · exact .turn _ t now (.rerun w hfind hready)
      · exact .reparked t now w hfind (Bool.not_eq_true _ ▸ hready)
  | timeout t reached now =>
    simp only [System.step]
    cases hfind : s.waiters.find t with
    | none => exact .disabled _ t now rfl
    | some w =>
      simp only
      split_ifs with hreached
      · obtain ⟨awaited, hwait, hle⟩ := (Option.any_eq_true _ _).mp hreached
        exact .turn _ t now (.timeout w awaited reached hfind hwait (of_decide_eq_true hle))
      · exact .disabled _ t now rfl

/-- What a call can do to the scheduler itself, whoever is blocked. -/
inductive Effect (s : Scheduler) : Call Thread → Scheduler → Reply → Prop
  | requested (call : Call Thread) (deadline : TimePoint) (hcall : call.deadline = some deadline)
    (result : Scheduler × Update × Bool) (hresult : Requested s deadline result) :
    Effect s call result.1 (.updated result.2.1)
  | next : Effect s .next s (.nextAt s.deadline)
  | interruptStopped (choice : Thread) (hstopped : s.stopped = true) :
    Effect s (.interrupt choice) s .done
  | interrupt (choice : Thread) (hstopped : s.stopped = false) :
    Effect s (.interrupt choice) { s with interrupted := true } .done
  | stop : Effect s .stop s.stop .done
  | returnedStopped (call : Call Thread) (t : Thread) (now : TimePoint)
    (hcall : call.turn = some (t, now)) (hstopped : s.stopped = true) :
    Effect s call s (.returned .stopped)
  | returnedDue (call : Call Thread) (t : Thread) (now : TimePoint)
    (hcall : call.turn = some (t, now)) (pending : TimePoint) (hstopped : s.stopped = false)
    (hpending : s.deadline = some pending) (hle : pending ≤ now) :
    Effect s call { s with deadline := none, interrupted := false } (.returned .due)
  | returnedInterrupted (call : Call Thread) (t : Thread) (now : TimePoint)
    (hcall : call.turn = some (t, now)) (hstopped : s.stopped = false)
    (hearly : ∀ pending, s.deadline = some pending → now < pending)
    (hinterrupted : s.interrupted = true) :
    Effect s call { s with interrupted := false } (.returned .interrupted)
  | waiting (call : Call Thread) (t : Thread) (now : TimePoint)
    (hcall : call.turn = some (t, now)) (reply : Reply)
    (hreply : reply = .blocked ∨ reply = .disabled) : Effect s call s reply

theorem TakesTurn.turn_eq {s : System Thread} {t : Thread} {now : TimePoint} {call : Call Thread}
    (h : TakesTurn s t now call) : call.turn = some (t, now) := by
  cases h <;> rfl

theorem effect (s : System Thread) (call : Call Thread) :
    Effect s.scheduler call (s.step call).1.scheduler (s.step call).2 := by
  have houtcome := outcome s call
  generalize s.step call = result at houtcome
  cases houtcome with
  | request _ deadline _ hcall => exact .requested call deadline hcall _ (requested _ deadline)
  | next => exact .next
  | interruptStopped choice hstopped => exact .interruptStopped choice hstopped
  | interrupt choice hstopped => exact .interrupt choice hstopped
  | stop => exact .stop
  | turn _ t now hcall =>
    have hturned := turned s t now
    generalize s.turn t now = result at hturned
    cases hturned with
    | stopped hstopped => exact .returnedStopped call t now hcall.turn_eq hstopped
    | due pending hstopped hpending hle =>
      exact .returnedDue call t now hcall.turn_eq pending hstopped hpending hle
    | interrupted hstopped hearly hinterrupted =>
      exact .returnedInterrupted call t now hcall.turn_eq hstopped hearly hinterrupted
    | blocked _ _ _ => exact .waiting call t now hcall.turn_eq .blocked (Or.inl rfl)
  | reparked t now _ _ _ => exact .waiting _ t now rfl .blocked (Or.inl rfl)
  | disabled _ t now hcall => exact .waiting call t now hcall .disabled (Or.inr rfl)

/-- A stopped scheduler has nothing left to wake a thread for. -/
def Discarded (s : Scheduler) : Prop :=
  s.stopped = true → s.deadline = none ∧ s.interrupted = false

omit [DecidableEq Thread] in
theorem Discarded.effect {s s' : Scheduler} {call : Call Thread} {reply : Reply}
    (hs : Discarded s) (h : Effect s call s' reply) : Discarded s' := by
  cases h with
  | requested _ _ _ _ hresult =>
    cases hresult with
    | stopped _ => exact hs
    | scheduled hrunning _ => exact fun hstopped ↦ absurd hstopped (by simp [hrunning])
    | advanced _ hrunning _ _ => exact fun hstopped ↦ absurd hstopped (by simp [hrunning])
    | kept _ _ _ _ => exact hs
  | interrupt choice hrunning => exact fun hstopped ↦ absurd hstopped (by simp [hrunning])
  | stop => exact fun _ ↦ ⟨rfl, rfl⟩
  | returnedDue _ _ _ _ _ _ _ => exact fun _ ↦ ⟨rfl, rfl⟩
  | returnedInterrupted _ _ _ _ _ _ => exact fun hstopped ↦ ⟨(hs hstopped).1, rfl⟩
  | next => exact hs
  | interruptStopped _ _ => exact hs
  | returnedStopped _ _ _ _ => exact hs
  | waiting _ _ _ _ _ => exact hs

end Gaudere.Scheduling
