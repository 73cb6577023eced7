import Gaudere.Scheduling.Scheduler

/-!
# Wake-ups reach a waiter

`Delivered` says that no wake-up is lost on the blocked threads: while a deadline is pending some
waiter attends to it, an interrupt and a stop have notified whom they are for. Interrupts and stops
always keep this (`signalled_step`). The deadline is lost in one way only (`Strands`): the waiter
that alone attended to it takes an interrupt on its way and leaves, and nobody tells the others.
`wakeups_delivered_iff` is the equivalence over every run.
-/

set_option autoImplicit false
set_option relaxedAutoImplicit false

namespace Gaudere.Scheduling

open Gaudere.Library

variable {Thread : Type*} [DecidableEq Thread]

/-- The waiter runs again by the deadline: it has been notified, or its block ends by then. -/
def Attends (deadline : TimePoint) (w : Waiter Thread (Option TimePoint)) : Prop :=
  w.notified = true ∨ ∃ awaited, w.wait = some awaited ∧ awaited ≤ deadline

/-- No wake-up is lost on the blocked threads. -/
structure Delivered (s : System Thread) : Prop where
  deadline : ∀ pending, s.scheduler.deadline = some pending → s.waiters.list ≠ [] →
    ∃ w ∈ s.waiters.list, Attends pending w
  interrupted : s.scheduler.interrupted = true → s.waiters.list ≠ [] →
    ∃ w ∈ s.waiters.list, w.notified = true
  stopped : s.scheduler.stopped = true → ∀ w ∈ s.waiters.list, w.notified = true

/-- A blocked thread takes a turn that finds an interrupt and the pending deadline not due, while
other threads are blocked and none of them attends to that deadline. -/
def Strands (e : Event (System Thread) (Call Thread) Reply) : Prop :=
  ∃ t now pending, TakesTurn e.before t now e.call ∧ e.before.waiters.find t ≠ none ∧
    e.before.scheduler.stopped = false ∧ e.before.scheduler.interrupted = true ∧
    e.before.scheduler.deadline = some pending ∧ now < pending ∧
    (e.before.waiters.remove t).list ≠ [] ∧
    ∀ w ∈ (e.before.waiters.remove t).list, ¬ Attends pending w

/-! ### One section -/

/-- A waiter whose predicate fails awaits a deadline no later than the pending one. -/
theorem of_not_ready {s : Scheduler} {wait : Option TimePoint} (h : s.ready wait = false) :
    s.stopped = false ∧ s.interrupted = false ∧ ∀ pending,
      s.deadline = some pending → ∃ awaited, wait = some awaited ∧ awaited ≤ pending := by
  cases wait with
  | none =>
    simp only [Scheduler.ready, Bool.or_eq_false_iff, Option.isSome_eq_false_iff,
      Option.isNone_iff_eq_none] at h
    obtain ⟨⟨hstopped, hinterrupted⟩, hnone⟩ := h
    refine ⟨hstopped, hinterrupted, fun pending hpending ↦ ?_⟩
    rw [hnone] at hpending
    cases hpending
  | some awaited =>
    simp only [Scheduler.ready, Bool.or_eq_false_iff] at h
    obtain ⟨⟨⟨hstopped, hinterrupted⟩, _⟩, hearlier⟩ := h
    refine ⟨hstopped, hinterrupted, fun pending hpending ↦ ⟨awaited, rfl, ?_⟩⟩
    rw [hpending, Option.any_some, decide_eq_false_iff_not] at hearlier
    exact Int64.not_lt.mp hearlier

/-- A section that calls `notify_one` delivers whatever it leaves pending. -/
theorem delivered_notifyOne {scheduler : Scheduler} (ws : Waiters Thread (Option TimePoint))
    (choice : Thread) (hrunning : scheduler.stopped = false) :
    Delivered { scheduler := scheduler, waiters := ws.notifyOne choice } := by
  have hnotified (hblocked : (ws.notifyOne choice).list ≠ []) :
      ∃ w ∈ (ws.notifyOne choice).list, w.notified = true :=
    Waiters.exists_notified_notifyOne choice (hblocked ∘ Waiters.list_notifyOne_eq_nil.mpr)
  constructor
  · intro _ _ hblocked
    obtain ⟨w, hw, hreached⟩ := hnotified hblocked
    exact ⟨w, hw, Or.inl hreached⟩
  · exact fun _ ↦ hnotified
  · exact fun hstopped ↦ absurd hstopped (by simp [hrunning])

/-- A waiter that blocks with its predicate false attends to the pending deadline. -/
theorem delivered_repark {s : System Thread} (t : Thread) {wait : Option TimePoint}
    (hready : s.scheduler.ready wait = false) :
    Delivered { s with waiters := s.waiters.park t wait } := by
  obtain ⟨hrunning, hquiet, hawaits⟩ := of_not_ready hready
  constructor
  · intro pending hpending _
    exact ⟨_, Waiters.mem_park.mpr (Or.inr rfl), Or.inr (hawaits pending hpending)⟩
  · exact fun hinterrupted ↦ absurd hinterrupted (by simp [hquiet])
  · exact fun hstopped ↦ absurd hstopped (by simp [hrunning])

/-- A turn delivers what it leaves pending, provided the threads that stay blocked when it takes an
interrupt attend to the deadline. -/
theorem Delivered.turn {s : System Thread} (hs : Delivered s) (hdiscarded : Discarded s.scheduler)
    {t : Thread} {now : TimePoint}
    (hleaves : s.scheduler.stopped = false → s.scheduler.interrupted = true → ∀ pending,
      s.scheduler.deadline = some pending → now < pending → (s.waiters.remove t).list ≠ [] →
        ∃ w ∈ (s.waiters.remove t).list, Attends pending w) : Delivered (s.turn t now).1 := by
  have hturned := turned s t now
  generalize s.turn t now = result at hturned
  cases hturned with
  | stopped hstopped =>
    obtain ⟨hnone, hquiet⟩ := hdiscarded hstopped
    constructor
    · intro pending hpending
      exact absurd (hnone.symm.trans hpending) nofun
    · exact fun hinterrupted ↦ absurd hinterrupted (by simp [hquiet])
    · exact fun _ w hw ↦ hs.stopped hstopped w (Waiters.mem_remove.mp hw).1
  | due _ hrunning _ _ =>
    exact ⟨nofun, nofun, fun hstopped ↦ absurd hstopped (by simp [hrunning])⟩
  | interrupted hrunning hearly hinterrupted =>
    refine ⟨?_, nofun, fun hstopped ↦ absurd hstopped (by simp [hrunning])⟩
    exact fun pending hpending ↦ hleaves hrunning hinterrupted pending hpending
      (hearly pending hpending)
  | blocked hrunning _ hquiet =>
    exact delivered_repark t (Scheduler.not_ready_of_blocks hrunning hquiet)

theorem delivered_step {s : System Thread} {call : Call Thread} (hs : Delivered s)
    (hdiscarded : Discarded s.scheduler) (hkept : ¬ Strands (machine.event s call)) :
    Delivered (machine.event s call).after := by
  have houtcome := outcome s call
  show Delivered (s.step call).1
  generalize s.step call = result at houtcome
  cases houtcome with
  | request _ deadline choice _ =>
    have hrequested := requested s.scheduler deadline
    generalize s.scheduler.requestAt deadline = result at hrequested
    cases hrequested with
    | stopped _ => exact hs
    | scheduled hrunning _ => exact delivered_notifyOne s.waiters choice hrunning
    | advanced _ hrunning _ _ => exact delivered_notifyOne s.waiters choice hrunning
    | kept _ _ _ _ => exact hs
  | next => exact hs
  | interruptStopped _ _ => exact hs
  | interrupt choice hrunning => exact delivered_notifyOne s.waiters choice hrunning
  | stop => exact ⟨nofun, nofun, fun _ _ hw ↦ Waiters.notified_notifyAll hw⟩
  | turn _ t now hcall =>
    refine hs.turn hdiscarded fun hrunning hinterrupted pending hpending hearly hblocked ↦ ?_
    by_cases hfind : s.waiters.find t = none
    · rw [Waiters.remove_of_find_eq_none hfind] at hblocked ⊢
      exact hs.deadline pending hpending hblocked
    · by_contra hnone
      exact hkept ⟨t, now, pending, hcall, hfind, hrunning, hinterrupted, hpending, hearly,
        hblocked, fun w hw hattends ↦ hnone ⟨w, hw, hattends⟩⟩
  | reparked t _ _ _ hready => exact delivered_repark t hready
  | disabled _ _ _ _ => exact hs

theorem TakesTurn.step_eq {s : System Thread} {t : Thread} {now : TimePoint} {call : Call Thread}
    (h : TakesTurn s t now call) : s.step call = s.turn t now := by
  cases h with
  | wait hfind => simp only [System.step, hfind]
  | rerun w hfind hready => simp only [System.step, hfind, hready, if_true]
  | timeout w awaited reached hfind hwait hle =>
    simp only [System.step, hfind, hwait, Option.any_some, hle, decide_true, if_true]

theorem not_delivered_of_strands {s : System Thread} {call : Call Thread}
    (h : Strands (machine.event s call)) : ¬ Delivered (machine.event s call).after := by
  obtain ⟨t, now, pending, hcall, -, hrunning, hinterrupted, hpending, hearly, hblocked, hnone⟩ := h
  simp only [Machine.event_before, Machine.event_call] at *
  intro hafter
  have hstep : (machine.event s call).after = (s.turn t now).1 := congrArg Prod.fst hcall.step_eq
  rw [hstep] at hafter
  have hturned := turned s t now
  generalize s.turn t now = result at hturned hafter
  cases hturned with
  | stopped hstopped => exact absurd hstopped (by simp [hrunning])
  | due other _ hother hle =>
    obtain rfl : pending = other := Option.some.inj (hpending.symm.trans hother)
    exact absurd hle (Int64.not_le.mpr hearly)
  | interrupted _ _ _ =>
    obtain ⟨w, hw, hattends⟩ := hafter.deadline pending hpending hblocked
    exact hnone w hw hattends
  | blocked _ _ hquiet => exact absurd hinterrupted (by simp [hquiet])

/-! ### Over every run -/

/-- Over any run, by any number of threads, at any clock readings and with any choice of the
notified waiters: every state reached has lost no wake-up exactly when no call of the run is the
turn of a blocked thread that takes an interrupt away from the only attention to the deadline. -/
theorem wakeups_delivered_iff (calls : List (Call Thread)) :
    (∀ e ∈ machine.history .initial calls, Delivered e.after) ↔
      ∀ e ∈ machine.history .initial calls, ¬ Strands e := by
  refine Machine.forall_event_iff (P := fun s ↦ Discarded s.scheduler ∧ Delivered s) ?_ ?_
    (machine.unrestricted _ calls) ?_
  · intro s call _ ⟨hdiscarded, hs⟩
    exact ⟨fun hafter hstrands ↦ not_delivered_of_strands hstrands hafter,
      delivered_step hs hdiscarded⟩
  · intro s call _ ⟨hdiscarded, _⟩ hafter
    exact ⟨hdiscarded.effect (effect s call), hafter⟩
  · exact ⟨nofun, nofun, nofun, nofun⟩

/-- Two threads wait, a deadline is requested and the first of them wakes for it. It is notified
again for an interrupt and leaves with that. -/
def interruptedRun : List (Call ℕ) :=
  [.wait 0 0, .wait 1 0, .requestAt 5000 0, .rerun 0 1000, .interrupt 0, .rerun 0 2000]

/-- The second thread stays blocked without a deadline of its own and without a notification, and
the requested deadline is still pending. -/
theorem interrupt_strands_deadline :
    (machine.run .initial interruptedRun).scheduler.deadline = some 5000 ∧
    (machine.run .initial interruptedRun).waiters.list = [⟨1, none, false⟩] ∧
    ¬ Delivered (machine.run .initial interruptedRun) := by
  have hpending : (machine.run .initial interruptedRun).scheduler.deadline = some 5000 := by decide
  have hblocked : (machine.run .initial interruptedRun).waiters.list = [⟨1, none, false⟩] := by
    decide
  refine ⟨hpending, hblocked, fun h ↦ ?_⟩
  obtain ⟨w, hw, hattends⟩ := h.deadline 5000 hpending (by rw [hblocked]; exact nofun)
  rw [hblocked, List.mem_singleton] at hw
  subst hw
  rcases hattends with hnotified | ⟨_, hwait, _⟩
  · cases hnotified
  · cases hwait

end Gaudere.Scheduling
