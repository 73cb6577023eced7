import Mathlib.Data.List.Basic
import Mathlib.Data.List.Nodup

/-!
# Threads blocked on a condition variable

`Waiters` lists the threads blocked on one condition variable, each with what it waits for and
whether a notification has reached it. A thread blocks at most once, which the structure carries.
`notifyOne` marks one waiter that no notification has reached yet: which one is not the notifier's
choice, so it is an argument: naming a waiter not yet notified picks it.

A notified waiter stays in the list until it runs again. `park` and `remove` say what its run
does: block again, with the notification spent, or leave.
-/

set_option autoImplicit false
set_option relaxedAutoImplicit false

namespace Gaudere.Library

/-- One blocked thread. -/
structure Waiter (Thread Wait : Type*) where
  thread : Thread
  wait : Wait
  notified : Bool
deriving DecidableEq

/-- The threads blocked on a condition variable, none of them twice. -/
structure Waiters (Thread Wait : Type*) where
  list : List (Waiter Thread Wait)
  nodup : (list.map Waiter.thread).Nodup
deriving DecidableEq

namespace Waiters

variable {Thread Wait : Type*} [DecidableEq Thread]

/-- No thread is blocked. -/
def empty : Waiters Thread Wait := ⟨[], List.nodup_nil⟩

/-- How a thread is blocked, if it is. -/
def find (ws : Waiters Thread Wait) (t : Thread) : Option (Waiter Thread Wait) :=
  ws.list.find? fun w ↦ w.thread = t

theorem mem_of_find {ws : Waiters Thread Wait} {t : Thread} {w : Waiter Thread Wait}
    (h : ws.find t = some w) : w ∈ ws.list ∧ w.thread = t :=
  ⟨List.mem_of_find?_eq_some h, by simpa using List.find?_some h⟩

theorem find_eq_none_iff {ws : Waiters Thread Wait} {t : Thread} :
    ws.find t = none ↔ ∀ w ∈ ws.list, w.thread ≠ t := by
  simp [find, List.find?_eq_none]

theorem find_ne_none_iff {ws : Waiters Thread Wait} {t : Thread} :
    ws.find t ≠ none ↔ ∃ w ∈ ws.list, w.thread = t := by
  simp [find_eq_none_iff]

/-- A thread leaves. -/
def remove (ws : Waiters Thread Wait) (t : Thread) : Waiters Thread Wait where
  list := ws.list.filter fun w ↦ w.thread ≠ t
  nodup := ws.nodup.sublist (List.filter_sublist.map _)

@[simp] theorem mem_remove {ws : Waiters Thread Wait} {t : Thread} {w : Waiter Thread Wait} :
    w ∈ (ws.remove t).list ↔ w ∈ ws.list ∧ w.thread ≠ t := by
  simp [remove]

/-- A thread that is not blocked has nothing to leave. -/
theorem remove_of_find_eq_none {ws : Waiters Thread Wait} {t : Thread} (h : ws.find t = none) :
    ws.remove t = ws := by
  have hlist : (ws.remove t).list = ws.list :=
    List.filter_eq_self.mpr fun w hw ↦ decide_eq_true (find_eq_none_iff.mp h w hw)
  cases ws
  simpa only [remove, mk.injEq] using hlist

/-- A thread blocks, or blocks again: no notification has reached it. -/
def park (ws : Waiters Thread Wait) (t : Thread) (x : Wait) : Waiters Thread Wait where
  list := (ws.remove t).list ++ [⟨t, x, false⟩]
  nodup := by
    rw [List.map_append, List.map_singleton]
    refine (ws.remove t).nodup.append (List.nodup_singleton t) ?_
    rintro u hu hut
    obtain ⟨w, hw, rfl⟩ := List.mem_map.mp hu
    exact (mem_remove.mp hw).2 (List.mem_singleton.mp hut)

@[simp] theorem mem_park {ws : Waiters Thread Wait} {t : Thread} {x : Wait}
    {w : Waiter Thread Wait} :
    w ∈ (ws.park t x).list ↔ (w ∈ ws.list ∧ w.thread ≠ t) ∨ w = ⟨t, x, false⟩ := by
  simp [park]

/-! ### Notifications -/

/-- The waiter a single notification reaches: the chosen one if no notification has reached it
yet, else the first such waiter. -/
def pick (ws : Waiters Thread Wait) (choice : Thread) : Option Thread :=
  let waiting := ws.list.filter fun w ↦ !w.notified
  ((waiting.find? fun w ↦ w.thread = choice).or waiting.head?).map Waiter.thread

/-- A waiter with the notification that reaches it. -/
def mark (reached : Waiter Thread Wait → Bool) (w : Waiter Thread Wait) : Waiter Thread Wait :=
  if reached w then { w with notified := true } else w

omit [DecidableEq Thread] in
@[simp] theorem mark_thread (reached : Waiter Thread Wait → Bool) (w : Waiter Thread Wait) :
    (mark reached w).thread = w.thread := by
  unfold mark
  split <;> rfl

/-- The waiters with a notification that reaches some of them. -/
def notify (reached : Waiter Thread Wait → Bool) (ws : Waiters Thread Wait) :
    Waiters Thread Wait where
  list := ws.list.map (mark reached)
  nodup := by
    have hthreads : Waiter.thread ∘ mark reached = (Waiter.thread : Waiter Thread Wait → Thread) :=
      funext (mark_thread reached)
    rw [List.map_map, hthreads]
    exact ws.nodup

/-- One waiter is notified, if there is one that is not yet. -/
def notifyOne (ws : Waiters Thread Wait) (choice : Thread) : Waiters Thread Wait :=
  notify (fun w ↦ ws.pick choice = some w.thread) ws

/-- Every waiter is notified. -/
def notifyAll (ws : Waiters Thread Wait) : Waiters Thread Wait :=
  notify (fun _ ↦ true) ws

theorem list_notifyOne_eq_nil {ws : Waiters Thread Wait} {choice : Thread} :
    (ws.notifyOne choice).list = [] ↔ ws.list = [] :=
  List.map_eq_nil_iff

theorem pick_eq_none_iff {ws : Waiters Thread Wait} {choice : Thread} :
    ws.pick choice = none ↔ ∀ w ∈ ws.list, w.notified = true := by
  rw [pick, Option.map_eq_none_iff, Option.or_eq_none_iff, List.head?_eq_none_iff]
  constructor
  · rintro ⟨-, hnone⟩ w hw
    simpa using List.filter_eq_nil_iff.mp hnone w hw
  · intro hall
    have hnil : ws.list.filter (fun w ↦ !w.notified) = [] :=
      List.filter_eq_nil_iff.mpr fun w hw ↦ by simp [hall w hw]
    simp [hnil]

/-- The waiter picked is blocked. -/
theorem mem_of_pick {ws : Waiters Thread Wait} {choice t : Thread}
    (h : ws.pick choice = some t) : ∃ w ∈ ws.list, w.thread = t := by
  obtain ⟨w, hw, rfl⟩ := Option.map_eq_some_iff.mp h
  refine ⟨w, ?_, rfl⟩
  rcases Option.or_eq_some_iff.mp hw with hfind | ⟨-, hhead⟩
  · exact (List.mem_filter.mp (List.mem_of_find?_eq_some hfind)).1
  · exact (List.mem_filter.mp (List.mem_of_mem_head? hhead)).1

/-- After a notification some waiter is notified, unless none is blocked: either one was picked,
or every one had been notified before. -/
theorem exists_notified_notifyOne {ws : Waiters Thread Wait} (choice : Thread)
    (h : ws.list ≠ []) : ∃ w ∈ (ws.notifyOne choice).list, w.notified = true := by
  cases hpick : ws.pick choice with
  | none =>
    obtain ⟨w, hw⟩ := List.exists_mem_of_ne_nil _ h
    refine ⟨_, List.mem_map_of_mem hw, ?_⟩
    simp [mark, hpick, pick_eq_none_iff.mp hpick w hw]
  | some t =>
    obtain ⟨w, hw, rfl⟩ := mem_of_pick hpick
    refine ⟨_, List.mem_map_of_mem hw, ?_⟩
    simp [mark, hpick]

/-- A notification changes nothing about who is blocked. -/
theorem find_notifyAll_ne_none_iff {ws : Waiters Thread Wait} {t : Thread} :
    ws.notifyAll.find t ≠ none ↔ ws.find t ≠ none := by
  simp [find_ne_none_iff, notifyAll, notify]

omit [DecidableEq Thread] in
theorem notified_notifyAll {ws : Waiters Thread Wait} {w : Waiter Thread Wait}
    (h : w ∈ ws.notifyAll.list) : w.notified = true := by
  obtain ⟨v, -, rfl⟩ := List.mem_map.mp h
  rfl

end Waiters

end Gaudere.Library
