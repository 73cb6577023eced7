import Mathlib.Data.List.Basic
import Mathlib.Algebra.BigOperators.Group.List.Basic
import Mathlib.Algebra.Order.Ring.Nat

/-!
# Deterministic machines and their histories

A machine answers one call at a time: `Machine.step` takes a state and a call to the next state
and a reply. `Machine.run` is the state after a list of calls and `Machine.history` the list of
its events, oldest first, each with the states on both sides of the call.

The rules below carry a fact about one event to a fact about a whole run. `run_invariant` and
`history_invariant` are induction along a run, `history_split` opens a run at one of its events,
`invariant_after` propagates a fact established by an event to everything later,
`forall_event_iff` turns an equivalence at every event into one over runs, `countP_le_one` bounds
how often an event fires when firing spends something that is never restored, `exists_cause` finds
the event that brought a fact about, `measure_run` adds up what the events contribute to a measure
of the state, `countP_add_potential_le` bounds the events that use a potential up, and
`countP_any_le` those that match one of some keys. `simulate` compares the runs of two machines,
`replies_erase` a run with the one from which some calls were erased, and `Forwards` a machine with
the one it passes calls on to.

Every rule is relative to a predicate `Allowed` on events, which holds the assumptions a run
makes about its own calls; `unrestricted` says that a run makes none.
-/

set_option autoImplicit false
set_option relaxedAutoImplicit false

namespace Gaudere.Library

/-- A deterministic machine with replies. -/
structure Machine (State Call Reply : Type*) where
  /-- One call: the next state and the reply. -/
  step : State → Call → State × Reply

/-- One call of a run, with the states before and after it. -/
structure Event (State Call Reply : Type*) where
  before : State
  call : Call
  reply : Reply
  after : State
deriving DecidableEq

namespace Machine

variable {State Call Reply : Type*} (m : Machine State Call Reply)

/-- The event of a call in a state. -/
def event (s : State) (call : Call) : Event State Call Reply where
  before := s
  call := call
  reply := (m.step s call).2
  after := (m.step s call).1

/-- The state after a list of calls. -/
def run : State → List Call → State
  | s, [] => s
  | s, call :: calls => run (m.event s call).after calls

/-- The events of a list of calls, oldest first. -/
def history : State → List Call → List (Event State Call Reply)
  | _, [] => []
  | s, call :: calls => m.event s call :: history (m.event s call).after calls

@[simp] theorem event_before (s : State) (call : Call) : (m.event s call).before = s := rfl

@[simp] theorem event_call (s : State) (call : Call) : (m.event s call).call = call := rfl

@[simp] theorem run_nil (s : State) : m.run s [] = s := rfl

@[simp] theorem run_cons (s : State) (call : Call) (calls : List Call) :
    m.run s (call :: calls) = m.run (m.event s call).after calls := rfl

@[simp] theorem history_nil (s : State) : m.history s [] = [] := rfl

@[simp] theorem history_cons (s : State) (call : Call) (calls : List Call) :
    m.history s (call :: calls) =
      m.event s call :: m.history (m.event s call).after calls := rfl

theorem run_append (s : State) (first second : List Call) :
    m.run s (first ++ second) = m.run (m.run s first) second := by
  induction first generalizing s with
  | nil => rfl
  | cons call calls ih => exact ih _

theorem history_append (s : State) (first second : List Call) :
    m.history s (first ++ second) = m.history s first ++ m.history (m.run s first) second := by
  induction first generalizing s with
  | nil => rfl
  | cons call calls ih => simp only [List.cons_append, history_cons, run_cons, ih]

theorem map_call_history (s : State) (calls : List Call) :
    (m.history s calls).map Event.call = calls := by
  induction calls generalizing s with
  | nil => rfl
  | cons call calls ih => simp only [history_cons, List.map_cons, event_call, ih]

theorem call_mem_of_mem_history {s : State} {calls : List Call} {e : Event State Call Reply}
    (he : e ∈ m.history s calls) : e.call ∈ calls := by
  rw [← m.map_call_history s calls]
  exact List.mem_map_of_mem he

/-- Every event of a run is the machine's answer to its call in the state before it. -/
theorem eq_event_of_mem_history {s : State} {calls : List Call} {e : Event State Call Reply}
    (he : e ∈ m.history s calls) : e = m.event e.before e.call := by
  induction calls generalizing s with
  | nil => simp at he
  | cons call calls ih =>
    rcases List.mem_cons.mp he with rfl | he
    · rfl
    · exact ih he

/-- A run opens at any of its events: the calls split there, and what precedes and follows the
event are the histories of the two parts. -/
theorem history_split {s : State} {calls : List Call}
    {earlier later : List (Event State Call Reply)} {e : Event State Call Reply}
    (h : m.history s calls = earlier ++ e :: later) :
    ∃ past call future, calls = past ++ call :: future ∧ earlier = m.history s past ∧
      e = m.event (m.run s past) call ∧ later = m.history e.after future := by
  induction calls generalizing s earlier with
  | nil => simp at h
  | cons call calls ih =>
    cases earlier with
    | nil =>
      simp only [history_cons, List.nil_append, List.cons.injEq] at h
      obtain ⟨he, hlater⟩ := h
      exact ⟨[], call, calls, rfl, rfl, he.symm, by rw [← he]; exact hlater.symm⟩
    | cons first earlier =>
      simp only [history_cons, List.cons_append, List.cons.injEq] at h
      obtain ⟨hfirst, hrest⟩ := h
      obtain ⟨past, other, future, hcalls, hearlier, he, hlater⟩ := ih hrest
      exact ⟨call :: past, other, future, by rw [hcalls, List.cons_append],
        by rw [history_cons, ← hfirst, hearlier], he, hlater⟩

section Split

variable {m} {s : State} {calls : List Call} {earlier later : List (Event State Call Reply)}
  {e e' : Event State Call Reply} (h : m.history s calls = earlier ++ e :: later)

include h

theorem mem_of_split : e ∈ m.history s calls := by
  rw [h]
  exact List.mem_append_right _ List.mem_cons_self

theorem later_mem_of_split (he' : e' ∈ later) : e' ∈ m.history s calls := by
  rw [h]
  exact List.mem_append_right _ (List.mem_cons_of_mem _ he')

end Split

/-- No assumption on an event. -/
def Unrestricted (_ : Event State Call Reply) : Prop := True

theorem unrestricted (s : State) (calls : List Call) : ∀ e ∈ m.history s calls, Unrestricted e :=
  fun _ _ ↦ trivial

/-! ### Induction along a run -/

section Rules

variable {m}
variable {Allowed : Event State Call Reply → Prop} {P : State → Prop}

/-- An invariant kept by every allowed event holds after every allowed run. -/
theorem run_invariant (hkeep : ∀ s call, Allowed (m.event s call) → P s → P (m.event s call).after)
    {s : State} {calls : List Call} (hallowed : ∀ e ∈ m.history s calls, Allowed e) (hs : P s) :
    P (m.run s calls) := by
  induction calls generalizing s with
  | nil => exact hs
  | cons call calls ih =>
    simp only [history_cons, List.forall_mem_cons] at hallowed
    exact ih hallowed.2 (hkeep s call hallowed.1 hs)

/-- Every event of an allowed run is a step of the machine from a state with the invariant. -/
theorem history_invariant
    (hkeep : ∀ s call, Allowed (m.event s call) → P s → P (m.event s call).after)
    {s : State} {calls : List Call} (hallowed : ∀ e ∈ m.history s calls, Allowed e) (hs : P s)
    {e : Event State Call Reply} (he : e ∈ m.history s calls) :
    e = m.event e.before e.call ∧ P e.before ∧ P e.after := by
  induction calls generalizing s with
  | nil => simp at he
  | cons call calls ih =>
    simp only [history_cons, List.forall_mem_cons] at hallowed
    rcases List.mem_cons.mp he with rfl | he
    · exact ⟨rfl, hs, hkeep s call hallowed.1 hs⟩
    · exact ih hallowed.2 (hkeep s call hallowed.1 hs) he

/-- What holds after an event of an allowed run and is kept by every allowed event holds on both
sides of every later event, and at the end of the run. -/
theorem invariant_after
    (hkeep : ∀ s call, Allowed (m.event s call) → P s → P (m.event s call).after)
    {s : State} {calls : List Call} (hallowed : ∀ e ∈ m.history s calls, Allowed e)
    {earlier later : List (Event State Call Reply)} {e : Event State Call Reply}
    (h : m.history s calls = earlier ++ e :: later) (he : P e.after) :
    (∀ e' ∈ later, e' = m.event e'.before e'.call ∧ P e'.before ∧ P e'.after) ∧
      P (m.run s calls) := by
  obtain ⟨past, call, future, rfl, rfl, he', rfl⟩ := m.history_split h
  have hfuture : ∀ e' ∈ m.history e.after future, Allowed e' := fun e' hmem ↦
    hallowed e' (later_mem_of_split h hmem)
  refine ⟨fun e' hmem ↦ history_invariant hkeep hfuture he hmem, ?_⟩
  rw [run_append, run_cons, ← he']
  exact run_invariant hkeep hfuture he

/-- Induction along a run on what the events so far and the state reached have to do with each
other: the motive holds of the empty history and is kept by every allowed event. -/
theorem history_induction {motive : List (Event State Call Reply) → State → Prop} {s : State}
    (hnil : motive [] s)
    (hstep : ∀ past s call, Allowed (m.event s call) → motive past s →
      motive (past ++ [m.event s call]) (m.event s call).after)
    {calls : List Call} (hallowed : ∀ e ∈ m.history s calls, Allowed e) :
    motive (m.history s calls) (m.run s calls) := by
  have hgeneral : ∀ (calls : List Call) (past : List (Event State Call Reply)) (s : State),
      (∀ e ∈ m.history s calls, Allowed e) → motive past s →
        motive (past ++ m.history s calls) (m.run s calls) := by
    intro calls
    induction calls with
    | nil =>
      intro past s _ hpast
      rw [history_nil, List.append_nil]
      exact hpast
    | cons call calls ih =>
      intro past s hallowed hpast
      simp only [history_cons, List.forall_mem_cons] at hallowed
      rw [history_cons, List.append_cons]
      exact ih _ _ hallowed.2 (hstep past s call hallowed.1 hpast)
  exact hgeneral calls [] s hallowed hnil

/-- When, under an invariant that good events keep, the good events are exactly the harmless ones,
every event of a run is good exactly when every event of it is harmless. -/
theorem forall_event_iff {Good Harmless : Event State Call Reply → Prop}
    (hstep : ∀ s call, Allowed (m.event s call) → P s →
      (Good (m.event s call) ↔ Harmless (m.event s call)))
    (hkeep : ∀ s call, Allowed (m.event s call) → P s → Good (m.event s call) →
      P (m.event s call).after)
    {s : State} {calls : List Call} (hallowed : ∀ e ∈ m.history s calls, Allowed e) (hs : P s) :
    (∀ e ∈ m.history s calls, Good e) ↔ ∀ e ∈ m.history s calls, Harmless e := by
  induction calls generalizing s with
  | nil => simp
  | cons call calls ih =>
    simp only [history_cons, List.forall_mem_cons] at hallowed ⊢
    have hiff := hstep s call hallowed.1 hs
    rw [hiff]
    refine and_congr_right fun hharmless ↦ ?_
    exact ih hallowed.2 (hkeep s call hallowed.1 hs (hiff.mpr hharmless))

/-- An event that spends something never restored fires at most once. -/
theorem countP_le_one (Spent : State → Prop) {fires : Event State Call Reply → Bool}
    (hkeep : ∀ s call, Allowed (m.event s call) → P s → P (m.event s call).after)
    (hfires : ∀ s call, Allowed (m.event s call) → P s → fires (m.event s call) = true →
      ¬ Spent s ∧ Spent (m.event s call).after)
    (hspent : ∀ s call, Allowed (m.event s call) → P s → Spent s → Spent (m.event s call).after)
    {s : State} {calls : List Call} (hallowed : ∀ e ∈ m.history s calls, Allowed e) (hs : P s) :
    (m.history s calls).countP fires ≤ 1 := by
  have hnone : ∀ (calls : List Call) (s : State), (∀ e ∈ m.history s calls, Allowed e) → P s →
      Spent s → (m.history s calls).countP fires = 0 := by
    intro calls
    induction calls with
    | nil => intro s _ _ _; rfl
    | cons call calls ih =>
      intro s hallowed hs hsp
      simp only [history_cons, List.forall_mem_cons] at hallowed
      have hrest := ih _ hallowed.2 (hkeep s call hallowed.1 hs) (hspent s call hallowed.1 hs hsp)
      have hquiet : ¬ fires (m.event s call) = true := fun hf ↦
        (hfires s call hallowed.1 hs hf).1 hsp
      rw [history_cons, List.countP_cons_of_neg hquiet, hrest]
  induction calls generalizing s with
  | nil => exact Nat.zero_le 1
  | cons call calls ih =>
    simp only [history_cons, List.forall_mem_cons] at hallowed
    have hnext := hkeep s call hallowed.1 hs
    by_cases hf : fires (m.event s call) = true
    · have hrest := hnone calls _ hallowed.2 hnext (hfires s call hallowed.1 hs hf).2
      rw [history_cons, List.countP_cons_of_pos hf]
      omega
    · rw [history_cons, List.countP_cons_of_neg hf]
      exact ih hallowed.2 hnext

/-- A fact that is false at the start and true at the end was brought about by some event. -/
theorem exists_cause {Q : State → Prop} {Cause : Event State Call Reply → Prop}
    (hkeep : ∀ s call, Allowed (m.event s call) → P s → P (m.event s call).after)
    (hcause : ∀ s call, Allowed (m.event s call) → P s → Q (m.event s call).after →
      Q s ∨ Cause (m.event s call))
    {s : State} {calls : List Call} (hallowed : ∀ e ∈ m.history s calls, Allowed e) (hs : P s)
    (hstart : ¬ Q s) (hend : Q (m.run s calls)) : ∃ e ∈ m.history s calls, Cause e := by
  induction calls generalizing s with
  | nil => exact absurd hend hstart
  | cons call calls ih =>
    simp only [history_cons, List.forall_mem_cons] at hallowed
    by_cases hq : Q (m.event s call).after
    · rcases hcause s call hallowed.1 hs hq with hbefore | hnow
      · exact absurd hbefore hstart
      · exact ⟨_, List.mem_cons_self, hnow⟩
    · obtain ⟨e, he, hc⟩ := ih hallowed.2 (hkeep s call hallowed.1 hs) hq hend
      exact ⟨e, List.mem_cons_of_mem _ he, hc⟩

/-- A measure that every allowed event raises by its own weight ends at its start plus the total
weight of the run. -/
theorem measure_run (measure : State → ℕ) (weight : Event State Call Reply → ℕ)
    (hkeep : ∀ s call, Allowed (m.event s call) → P s → P (m.event s call).after)
    (hweight : ∀ s call, Allowed (m.event s call) → P s →
      measure (m.event s call).after = measure s + weight (m.event s call))
    {s : State} {calls : List Call} (hallowed : ∀ e ∈ m.history s calls, Allowed e) (hs : P s) :
    measure (m.run s calls) = measure s + ((m.history s calls).map weight).sum := by
  induction calls generalizing s with
  | nil => rfl
  | cons call calls ih =>
    simp only [history_cons, List.forall_mem_cons] at hallowed
    rw [run_cons, ih hallowed.2 (hkeep s call hallowed.1 hs), hweight s call hallowed.1 hs,
      history_cons, List.map_cons, List.sum_cons, Nat.add_assoc]

/-- A potential that no allowed event raises and that some events lower bounds how many of those a
run has. -/
theorem countP_add_potential_le (potential : State → ℕ)
    {spends : Event State Call Reply → Bool}
    (hkeep : ∀ s call, Allowed (m.event s call) → P s → P (m.event s call).after)
    (hspends : ∀ s call, Allowed (m.event s call) → P s →
      (if spends (m.event s call) then 1 else 0) + potential (m.event s call).after ≤ potential s)
    {s : State} {calls : List Call} (hallowed : ∀ e ∈ m.history s calls, Allowed e) (hs : P s) :
    (m.history s calls).countP spends + potential (m.run s calls) ≤ potential s := by
  induction calls generalizing s with
  | nil => exact (Nat.zero_add _).le
  | cons call calls ih =>
    simp only [history_cons, List.forall_mem_cons] at hallowed
    have hrest := ih hallowed.2 (hkeep s call hallowed.1 hs)
    have hfirst := hspends s call hallowed.1 hs
    rw [history_cons, run_cons, List.countP_cons]
    omega

end Rules

/-- The events that match one of some keys are no more than those that match each, added up. -/
theorem countP_any_le {Key : Type*} (isOf : Key → Event State Call Reply → Bool) (keys : List Key)
    (events : List (Event State Call Reply)) :
    events.countP (fun e ↦ keys.any fun k ↦ isOf k e) ≤
      (keys.map fun k ↦ events.countP (isOf k)).sum := by
  induction keys with
  | nil => simp
  | cons k keys ih =>
    have hor : events.countP (fun e ↦ isOf k e || keys.any fun k ↦ isOf k e) ≤
        events.countP (isOf k) + events.countP fun e ↦ keys.any fun k ↦ isOf k e := by
      clear ih
      induction events with
      | nil => exact le_rfl
      | cons e events ih =>
        simp only [List.countP_cons]
        cases isOf k e <;> cases keys.any (fun k ↦ isOf k e) <;> simp <;> omega
    simp only [List.any_cons, List.map_cons, List.sum_cons]
    exact hor.trans (Nat.add_le_add_left ih _)

/-! ### Simulation -/

/-- What the caller of a run sees: the calls and their replies. -/
def trace (events : List (Event State Call Reply)) : List (Call × Reply) :=
  events.map fun e ↦ (e.call, e.reply)

theorem map_reply_congr {State' : Type*} {events : List (Event State Call Reply)}
    {events' : List (Event State' Call Reply)} (h : trace events = trace events') :
    events.map Event.reply = events'.map Event.reply := by
  have hreplies := congrArg (List.map Prod.snd) h
  simpa only [trace, List.map_map, Function.comp_def] using hreplies

/-- Two machines over the same calls that reply alike from related states, and stay related, have
the same traces. -/
theorem simulate {State' : Type*} {m' : Machine State' Call Reply} {R : State → State' → Prop}
    (hstep : ∀ s s' call, R s s' → (m.event s call).reply = (m'.event s' call).reply ∧
      R (m.event s call).after (m'.event s' call).after)
    (calls : List Call) {s : State} {s' : State'} (h : R s s') :
    trace (m.history s calls) = trace (m'.history s' calls) ∧
      R (m.run s calls) (m'.run s' calls) := by
  induction calls generalizing s s' with
  | nil => exact ⟨rfl, h⟩
  | cons call calls ih =>
    obtain ⟨hreply, hnext⟩ := hstep s s' call h
    obtain ⟨htrace, hend⟩ := ih hnext
    refine ⟨?_, hend⟩
    simp only [trace, history_cons, List.map_cons, event_call, hreply] at htrace ⊢
    rw [htrace]

/-- The same for a run of the second machine that keeps to allowed events. -/
theorem simulate_allowed {State' : Type*} {m' : Machine State' Call Reply}
    {R : State → State' → Prop} {Allowed : Event State' Call Reply → Prop}
    (hstep : ∀ s s' call, Allowed (m'.event s' call) → R s s' →
      (m.event s call).reply = (m'.event s' call).reply ∧
        R (m.event s call).after (m'.event s' call).after)
    {calls : List Call} {s : State} {s' : State'}
    (hallowed : ∀ e ∈ m'.history s' calls, Allowed e) (h : R s s') :
    trace (m.history s calls) = trace (m'.history s' calls) ∧
      R (m.run s calls) (m'.run s' calls) := by
  induction calls generalizing s s' with
  | nil => exact ⟨rfl, h⟩
  | cons call calls ih =>
    simp only [history_cons, List.forall_mem_cons] at hallowed
    obtain ⟨hreply, hnext⟩ := hstep s s' call hallowed.1 h
    obtain ⟨htrace, hend⟩ := ih hallowed.2 hnext
    refine ⟨?_, hend⟩
    simp only [trace, history_cons, List.map_cons, event_call, hreply] at htrace ⊢
    rw [htrace]

/-! ### Erasing calls -/

/-- The replies to the observed calls of a run, in order. -/
def replies (observed : Call → Bool) (events : List (Event State Call Reply)) : List Reply :=
  (events.filter fun e ↦ observed e.call).map Event.reply

@[simp] theorem replies_nil (observed : Call → Bool) :
    replies observed ([] : List (Event State Call Reply)) = [] := rfl

theorem replies_cons (observed : Call → Bool) (e : Event State Call Reply)
    (events : List (Event State Call Reply)) :
    replies observed (e :: events) =
      (if observed e.call then [e.reply] else []) ++ replies observed events := by
  unfold replies
  rw [List.filter_cons]
  split_ifs with h <;> simp

/-- Machines with the same trace gave the same replies. -/
theorem replies_congr {State' : Type*} {observed : Call → Bool}
    {events : List (Event State Call Reply)} {events' : List (Event State' Call Reply)}
    (h : trace events = trace events') : replies observed events = replies observed events' := by
  have hfilter := congrArg (fun steps ↦ (steps.filter fun step : Call × Reply ↦
    observed step.1).map Prod.snd) h
  unfold replies
  simpa only [trace, List.filter_map, List.map_map, Function.comp_def] using hfilter

/-- Calls can be erased from a run without changing the replies to the observed ones, when some
relation between the states of the two runs makes observed replies agree, is kept by a call made
on both sides and is kept by an erased call made on one side. -/
theorem replies_erase {R : State → State → Prop} {Allowed : Call → Prop}
    {kept observed : Call → Bool} (hobserved : ∀ call, observed call = true → kept call = true)
    (hkept : ∀ s s' call, Allowed call → kept call = true → R s s' →
      (observed call = true → (m.event s call).reply = (m.event s' call).reply) ∧
        R (m.event s call).after (m.event s' call).after)
    (herased : ∀ s s' call, Allowed call → kept call = false → R s s' →
      R (m.event s call).after s')
    {calls : List Call} (hallowed : ∀ call ∈ calls, Allowed call) {s s' : State} (h : R s s') :
    replies observed (m.history s calls) = replies observed (m.history s' (calls.filter kept)) ∧
      R (m.run s calls) (m.run s' (calls.filter kept)) := by
  induction calls generalizing s s' with
  | nil => exact ⟨rfl, h⟩
  | cons call calls ih =>
    rw [List.forall_mem_cons] at hallowed
    rw [history_cons, run_cons, replies_cons, event_call]
    by_cases hk : kept call = true
    · obtain ⟨hreply, hnext⟩ := hkept s s' call hallowed.1 hk h
      obtain ⟨hreplies, hend⟩ := ih hallowed.2 hnext
      rw [List.filter_cons_of_pos hk, history_cons, run_cons, replies_cons, event_call, hreplies]
      refine ⟨?_, hend⟩
      split_ifs with hobs
      · rw [hreply hobs]
      · rfl
    · have hquiet : ¬ observed call = true := fun hobs ↦ hk (hobserved call hobs)
      rw [List.filter_cons_of_neg hk, if_neg hquiet, List.nil_append]
      exact ih hallowed.2 (herased s s' call hallowed.1 (Bool.not_eq_true _ ▸ hk) h)

/-! ### Forwarding -/

section Forwarding

variable {Call' Reply' : Type*}

/-- A machine in front of another: it passes some of its calls on, in other words, and answers the
rest from itself, without a change of the state. -/
structure Forwards (front : Machine State Call' Reply') (m : Machine State Call Reply)
    (forward : Call' → Option Call) : Prop where
  forwarded : ∀ s call' call, forward call' = some call →
    (front.event s call').after = (m.event s call).after
  kept : ∀ s call', forward call' = none → (front.event s call').after = s

/-- The event behind an event of the front machine. -/
def forwardedEvent (forward : Call' → Option Call) (e : Event State Call' Reply') :
    Option (Event State Call Reply) :=
  (forward e.call).map (m.event e.before)

variable {m} {front : Machine State Call' Reply'} {forward : Call' → Option Call}

/-- A run of the front machine is the run of the machine behind it on the calls passed on. -/
theorem Forwards.run (h : Forwards front m forward) (s : State) (calls : List Call') :
    front.run s calls = m.run s (calls.filterMap forward) := by
  induction calls generalizing s with
  | nil => rfl
  | cons call' calls ih =>
    rw [run_cons, ih]
    cases hforward : forward call' with
    | none => rw [h.kept s call' hforward, List.filterMap_cons_none hforward]
    | some call =>
      rw [h.forwarded s call' call hforward, List.filterMap_cons_some hforward, run_cons]

theorem Forwards.history (h : Forwards front m forward) (s : State) (calls : List Call') :
    (front.history s calls).filterMap (m.forwardedEvent forward) =
      m.history s (calls.filterMap forward) := by
  induction calls generalizing s with
  | nil => rfl
  | cons call' calls ih =>
    rw [history_cons]
    cases hforward : forward call' with
    | none =>
      have hnone : m.forwardedEvent forward (front.event s call') = none := by
        rw [forwardedEvent, event_call, hforward, Option.map_none]
      rw [List.filterMap_cons_none hnone, List.filterMap_cons_none hforward, ih,
        h.kept s call' hforward]
    | some call =>
      have hsome : m.forwardedEvent forward (front.event s call') = some (m.event s call) := by
        rw [forwardedEvent, event_call, hforward, Option.map_some, event_before]
      rw [List.filterMap_cons_some hsome, List.filterMap_cons_some hforward, ih, history_cons,
        h.forwarded s call' call hforward]

end Forwarding

end Machine

end Gaudere.Library
