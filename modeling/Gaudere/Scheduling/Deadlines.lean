import Gaudere.Scheduling.Scheduler
import Mathlib.Data.List.DropRight

/-!
# What the history of a scheduler tells

The three fields of a scheduler are read off the calls made so far (`Accounts`): until the first
`stop` the deadline is the least one requested since a `wait` last returned `due`, and the
interrupt is pending when there was one since a `wait` last returned. `Accounts.concat` is the
step, and `deadlines_follow_history` says what every call of every run returns.
-/

set_option autoImplicit false
set_option relaxedAutoImplicit false

namespace Gaudere.Scheduling

open Gaudere.Library

variable {Thread : Type*}

def Call.interrupts : Call Thread → Bool
  | .interrupt _ => true
  | _ => false

def Reply.returns : Reply → Bool
  | .returned _ => true
  | _ => false

/-- The deadlines requested since a `wait` last returned `due`. -/
def requestedSinceDue (past : List (Event (System Thread) (Call Thread) Reply)) : List TimePoint :=
  (past.rtakeWhile fun e ↦ e.reply ≠ .returned .due).filterMap fun e ↦ e.call.deadline

def pendingMinimum (past : List (Event (System Thread) (Call Thread) Reply)) : Option TimePoint :=
  (requestedSinceDue past).min?

/-- Some call since a `wait` last returned was an interrupt. -/
def interruptedSinceReturn (past : List (Event (System Thread) (Call Thread) Reply)) : Bool :=
  (past.rtakeWhile fun e ↦ !e.reply.returns).any fun e ↦ e.call.interrupts

/-- How often a reply was given. -/
def replyCount (reply : Reply) (past : List (Event (System Thread) (Call Thread) Reply)) : ℕ :=
  past.countP fun e ↦ e.reply = reply

variable {past : List (Event (System Thread) (Call Thread) Reply)}
  {e : Event (System Thread) (Call Thread) Reply}

/-! ### One more event -/

theorem requestedSinceDue_concat :
    requestedSinceDue (past ++ [e]) =
      if e.reply = .returned .due then []
      else requestedSinceDue past ++ e.call.deadline.toList := by
  unfold requestedSinceDue
  rw [List.rtakeWhile_concat]
  by_cases hdue : e.reply = .returned .due
  · simp [hdue]
  · cases hdeadline : e.call.deadline <;> simp [hdue, hdeadline]

theorem interruptedSinceReturn_concat :
    interruptedSinceReturn (past ++ [e]) =
      (!e.reply.returns && (interruptedSinceReturn past || e.call.interrupts)) := by
  unfold interruptedSinceReturn
  rw [List.rtakeWhile_concat]
  cases hreturns : e.reply.returns <;> simp

theorem replyCount_concat (reply : Reply) :
    replyCount reply (past ++ [e]) = replyCount reply past + if e.reply = reply then 1 else 0 := by
  unfold replyCount
  rw [List.countP_append, List.countP_singleton]
  simp

/-- A call that requests nothing leaves the minimum, unless it is a `wait` that returns `due`. -/
theorem pendingMinimum_concat_of_none (hcall : e.call.deadline = none)
    (hreply : e.reply ≠ .returned .due) :
    pendingMinimum (past ++ [e]) = pendingMinimum past := by
  unfold pendingMinimum
  rw [requestedSinceDue_concat, if_neg hreply, hcall, Option.toList_none, List.append_nil]

theorem pendingMinimum_concat_of_due (hreply : e.reply = .returned .due) :
    pendingMinimum (past ++ [e]) = none := by
  unfold pendingMinimum
  rw [requestedSinceDue_concat, if_pos hreply, List.min?_nil]

theorem pendingMinimum_concat_of_lt {deadline : TimePoint} (hcall : e.call.deadline = some deadline)
    (hreply : e.reply ≠ .returned .due)
    (hlt : ∀ minimum, pendingMinimum past = some minimum → deadline < minimum) :
    pendingMinimum (past ++ [e]) = some deadline := by
  unfold pendingMinimum
  rw [requestedSinceDue_concat, if_neg hreply, hcall, Option.toList_some]
  exact min?_concat_of_lt hlt

theorem pendingMinimum_concat_of_le {deadline minimum : TimePoint}
    (hcall : e.call.deadline = some deadline) (hreply : e.reply ≠ .returned .due)
    (hminimum : pendingMinimum past = some minimum) (hle : minimum ≤ deadline) :
    pendingMinimum (past ++ [e]) = some minimum := by
  unfold pendingMinimum
  rw [requestedSinceDue_concat, if_neg hreply, hcall, Option.toList_some]
  exact min?_concat_of_le hminimum hle

/-! ### The fields of a scheduler and its history -/

/-- What the calls so far say about the state they led to. -/
structure Accounts (past : List (Event (System Thread) (Call Thread) Reply)) (s : Scheduler) :
    Prop where
  stopped_iff : s.stopped = true ↔ ∃ e ∈ past, e.call = .stop
  discarded : Discarded s
  deadline : s.stopped = false → s.deadline = pendingMinimum past
  interrupted : s.stopped = false → s.interrupted = interruptedSinceReturn past
  consumed : replyCount (.returned .due) past + s.deadline.toList.length ≤
    replyCount (.updated .scheduled) past

theorem accounts_nil : Accounts ([] : List (Event (System Thread) (Call Thread) Reply)) {} where
  stopped_iff := by simp
  discarded := nofun
  deadline _ := rfl
  interrupted _ := rfl
  consumed := Nat.le_refl 0

theorem Call.of_turn {call : Call Thread} {turn : Thread × TimePoint} (h : call.turn = some turn) :
    call ≠ .stop ∧ call.deadline = none ∧ call.interrupts = false := by
  cases call with
  | wait => exact ⟨nofun, rfl, rfl⟩
  | rerun => exact ⟨nofun, rfl, rfl⟩
  | timeout => exact ⟨nofun, rfl, rfl⟩
  | _ => cases h

theorem Call.of_deadline {call : Call Thread} {deadline : TimePoint}
    (h : call.deadline = some deadline) : call ≠ .stop ∧ call.interrupts = false := by
  cases call with
  | requestAt => exact ⟨nofun, rfl⟩
  | requestAfter => exact ⟨nofun, rfl⟩
  | _ => cases h

theorem Effect.stopped_iff {s s' : Scheduler} {call : Call Thread} {reply : Reply}
    (h : Effect s call s' reply) : s'.stopped = true ↔ s.stopped = true ∨ call = .stop := by
  cases h with
  | requested _ _ hcall _ hresult =>
    have hother := (Call.of_deadline hcall).1
    cases hresult <;> simp [hother]
  | next => simp
  | interruptStopped _ _ => simp
  | interrupt _ _ => simp
  | stop => simp [Scheduler.stop]
  | returnedStopped _ _ _ hcall _ => simp [(Call.of_turn hcall).1]
  | returnedDue _ _ _ hcall _ _ _ _ => simp [(Call.of_turn hcall).1]
  | returnedInterrupted _ _ _ hcall _ _ _ => simp [(Call.of_turn hcall).1]
  | waiting _ _ _ hcall _ _ => simp [(Call.of_turn hcall).1]

variable {s s' : Scheduler}

theorem Effect.stopped_before {call : Call Thread} {reply : Reply} (h : Effect s call s' reply)
    (hrunning : s'.stopped = false) : s.stopped = false :=
  eq_false_of_ne_true fun hstopped ↦
    absurd (h.stopped_iff.mpr (Or.inl hstopped)) (by simp [hrunning])

theorem Accounts.deadline_concat (hs : Accounts past s) (h : Effect s e.call s' e.reply)
    (hrunning : s'.stopped = false) : s'.deadline = pendingMinimum (past ++ [e]) := by
  have hbefore := h.stopped_before hrunning
  have hsame := hs.deadline hbefore
  obtain ⟨before, call, reply, after⟩ := e
  simp only at h
  cases h with
  | requested _ deadline hcall _ hresult =>
    cases hresult with
    | stopped hstopped => exact absurd hstopped (by simp [hbefore])
    | scheduled _ hnone =>
      refine (pendingMinimum_concat_of_lt hcall (by simp) fun minimum hminimum ↦ ?_).symm
      exact absurd ((hnone.symm.trans hsame).trans hminimum) nofun
    | advanced pending _ hpending hlt =>
      refine (pendingMinimum_concat_of_lt hcall (by simp) fun minimum hminimum ↦ ?_).symm
      obtain rfl := Option.some.inj ((hpending.symm.trans hsame).trans hminimum)
      exact hlt
    | kept pending _ hpending hle =>
      have hminimum := hsame.symm.trans hpending
      exact hpending.trans (pendingMinimum_concat_of_le hcall (by simp) hminimum hle).symm
  | next => exact hsame.trans (pendingMinimum_concat_of_none rfl (by simp)).symm
  | interruptStopped _ _ => exact hsame.trans (pendingMinimum_concat_of_none rfl (by simp)).symm
  | interrupt _ _ => exact hsame.trans (pendingMinimum_concat_of_none rfl (by simp)).symm
  | stop => cases hrunning
  | returnedStopped _ _ _ _ hstopped => exact absurd hstopped (by simp [hbefore])
  | returnedDue _ _ _ _ _ _ _ _ => exact (pendingMinimum_concat_of_due rfl).symm
  | returnedInterrupted _ _ _ hcall _ _ _ =>
    exact hsame.trans (pendingMinimum_concat_of_none (Call.of_turn hcall).2.1 (by simp)).symm
  | waiting _ _ _ hcall _ hreply =>
    refine hsame.trans (pendingMinimum_concat_of_none (Call.of_turn hcall).2.1 ?_).symm
    rcases hreply with rfl | rfl <;> exact nofun

theorem Accounts.interrupted_concat (hs : Accounts past s) (h : Effect s e.call s' e.reply)
    (hrunning : s'.stopped = false) : s'.interrupted = interruptedSinceReturn (past ++ [e]) := by
  have hbefore := h.stopped_before hrunning
  have hsame := hs.interrupted hbefore
  rw [interruptedSinceReturn_concat, ← hsame]
  obtain ⟨before, call, reply, after⟩ := e
  simp only at h ⊢
  cases h with
  | requested _ deadline hcall _ hresult =>
    have hquiet := (Call.of_deadline hcall).2
    cases hresult <;> simp [Reply.returns, hquiet]
  | next => simp [Reply.returns, Call.interrupts]
  | interruptStopped _ hstopped => exact absurd hstopped (by simp [hbefore])
  | interrupt _ _ => simp [Reply.returns, Call.interrupts]
  | stop => cases hrunning
  | returnedStopped _ _ _ _ hstopped => exact absurd hstopped (by simp [hbefore])
  | returnedDue _ _ _ _ _ _ _ _ => rfl
  | returnedInterrupted _ _ _ _ _ _ _ => rfl
  | waiting _ _ _ hcall _ hreply =>
    have hquiet := (Call.of_turn hcall).2.2
    rcases hreply with rfl | rfl <;> simp [Reply.returns, hquiet]

/-- A `due` takes the deadline that one `scheduled` brought, and nothing else brings one. -/
theorem Accounts.consumed_concat (hs : Accounts past s) (h : Effect s e.call s' e.reply) :
    replyCount (.returned .due) (past ++ [e]) + s'.deadline.toList.length ≤
      replyCount (.updated .scheduled) (past ++ [e]) := by
  have hconsumed := hs.consumed
  rw [replyCount_concat, replyCount_concat]
  obtain ⟨before, call, reply, after⟩ := e
  simp only at h ⊢
  cases h with
  | requested _ deadline _ _ hresult =>
    cases hresult with
    | stopped _ => simpa using hconsumed
    | scheduled _ hnone => simpa [hnone] using hconsumed
    | advanced pending _ hpending _ => simpa [hpending] using hconsumed
    | kept _ _ _ _ => simpa using hconsumed
  | stop =>
    simp only [Scheduler.stop, Option.toList_none, List.length_nil]
    simp
    omega
  | returnedDue _ _ _ _ pending _ hpending _ => simpa [hpending] using hconsumed
  | waiting _ _ _ _ _ hreply => rcases hreply with rfl | rfl <;> simpa using hconsumed
  | _ => simpa using hconsumed

theorem Accounts.concat (hs : Accounts past s) (h : Effect s e.call s' e.reply) :
    Accounts (past ++ [e]) s' where
  stopped_iff := by
    rw [h.stopped_iff, hs.stopped_iff]
    simp [or_and_right, exists_or]
  discarded := hs.discarded.effect h
  deadline := hs.deadline_concat h
  interrupted := hs.interrupted_concat h
  consumed := hs.consumed_concat h

/-! ### What each call returns -/

section Inversion

variable {call : Call Thread} {reply : Reply}

theorem Effect.request (h : Effect s call s' reply) {deadline : TimePoint}
    (hcall : call.deadline = some deadline) :
    ∃ result, Requested s deadline result ∧ reply = .updated result.2.1 := by
  have hturn {turn : Thread × TimePoint} (hturn : call.turn = some turn) : False :=
    absurd ((Call.of_turn hturn).2.1.symm.trans hcall) nofun
  cases h with
  | requested _ _ hcall' result hresult =>
    obtain rfl := Option.some.inj (hcall'.symm.trans hcall)
    exact ⟨result, hresult, rfl⟩
  | returnedStopped _ _ _ hcall' _ => exact (hturn hcall').elim
  | returnedDue _ _ _ hcall' _ _ _ _ => exact (hturn hcall').elim
  | returnedInterrupted _ _ _ hcall' _ _ _ => exact (hturn hcall').elim
  | waiting _ _ _ hcall' _ _ => exact (hturn hcall').elim
  | _ => cases hcall

theorem Effect.next_reply (h : Effect s (.next : Call Thread) s' reply) :
    reply = .nextAt s.deadline := by
  cases h with
  | next => rfl
  | requested _ _ hcall _ _ => cases hcall
  | returnedStopped _ _ _ hcall _ => cases hcall
  | returnedDue _ _ _ hcall _ _ _ _ => cases hcall
  | returnedInterrupted _ _ _ hcall _ _ _ => cases hcall
  | waiting _ _ _ hcall _ _ => cases hcall

theorem Effect.due (h : Effect s call s' (.returned .due)) :
    s.stopped = false ∧ s'.deadline = none ∧
      ∃ t now pending, call.turn = some (t, now) ∧ s.deadline = some pending ∧ pending ≤ now := by
  generalize hreply : Reply.returned .due = reply at h
  cases h with
  | returnedDue _ t now hcall pending hrunning hpending hle =>
    exact ⟨hrunning, rfl, t, now, pending, hcall, hpending, hle⟩
  | waiting _ _ _ _ _ hwaiting => rcases hwaiting with rfl | rfl <;> cases hreply
  | _ => cases hreply

theorem Effect.returned_interrupted (h : Effect s call s' (.returned .interrupted)) :
    s.stopped = false ∧ s.interrupted = true ∧ ∃ t now,
      call.turn = some (t, now) ∧ ∀ pending, s.deadline = some pending → now < pending := by
  generalize hreply : Reply.returned .interrupted = reply at h
  cases h with
  | returnedInterrupted _ t now hcall hrunning hearly hinterrupted =>
    exact ⟨hrunning, hinterrupted, t, now, hcall, hearly⟩
  | waiting _ _ _ _ _ hwaiting => rcases hwaiting with rfl | rfl <;> cases hreply
  | _ => cases hreply

theorem Effect.interrupt_keeps {choice : Thread} (h : Effect s (.interrupt choice) s' reply) :
    s'.deadline = s.deadline := by
  cases h with
  | interruptStopped _ _ => rfl
  | interrupt _ _ => rfl
  | requested _ _ hcall _ _ => cases hcall
  | returnedStopped _ _ _ hcall _ => cases hcall
  | returnedDue _ _ _ hcall _ _ _ _ => cases hcall
  | returnedInterrupted _ _ _ hcall _ _ _ => cases hcall
  | waiting _ _ _ hcall _ _ => cases hcall

/-- A pending interrupt is cleared by a `wait` that returns and by `stop`. -/
theorem Effect.interrupt_cleared (h : Effect s call s' reply) (hbefore : s.interrupted = true)
    (hafter : s'.interrupted = false) : call = .stop ∨ ∃ result, reply = .returned result := by
  cases h with
  | requested _ _ _ _ hresult =>
    cases hresult <;> exact absurd hbefore (by simpa using hafter)
  | interrupt _ _ => cases hafter
  | stop => exact Or.inl rfl
  | returnedStopped _ _ _ _ _ => exact Or.inr ⟨_, rfl⟩
  | returnedDue _ _ _ _ _ _ _ _ => exact Or.inr ⟨_, rfl⟩
  | returnedInterrupted _ _ _ _ _ _ _ => exact Or.inr ⟨_, rfl⟩
  | _ => exact absurd hbefore (by simp [hafter])

theorem Effect.returned_of_stopped {result : WaitResult} (h : Effect s call s' (.returned result))
    (hstopped : s.stopped = true) : result = .stopped := by
  generalize hreply : Reply.returned result = reply at h
  cases h with
  | returnedStopped _ _ _ _ _ => exact Reply.returned.inj hreply
  | returnedDue _ _ _ _ _ hrunning _ _ => exact absurd hstopped (by simp [hrunning])
  | returnedInterrupted _ _ _ _ hrunning _ _ => exact absurd hstopped (by simp [hrunning])
  | waiting _ _ _ _ _ hwaiting => rcases hwaiting with rfl | rfl <;> cases hreply
  | _ => cases hreply

end Inversion

/-! ### Over every run -/

/-- What the calls before an event say about it. -/
structure FollowsHistory (past : List (Event (System Thread) (Call Thread) Reply))
    (e : Event (System Thread) (Call Thread) Reply) : Prop where
  next : (∀ earlier ∈ past, earlier.call ≠ .stop) →
    e.before.scheduler.next = pendingMinimum past
  next_reply : e.call = .next → e.reply = .nextAt e.before.scheduler.next
  /-- The reply to a request tells whether the minimum was absent, is lowered or is kept. -/
  request : (∀ earlier ∈ past, earlier.call ≠ .stop) →
    ∀ deadline, e.call.deadline = some deadline →
      (pendingMinimum past = none → e.reply = .updated .scheduled) ∧
      (∀ minimum, pendingMinimum past = some minimum → deadline < minimum →
        e.reply = .updated .advanced) ∧
      (∀ minimum, pendingMinimum past = some minimum → minimum ≤ deadline →
        e.reply = .updated .unchanged)
  due : e.reply = .returned .due → e.after.scheduler.next = none ∧ ∃ t now minimum,
    e.call.turn = some (t, now) ∧ pendingMinimum past = some minimum ∧ minimum ≤ now
  interrupt : ∀ choice, e.call = .interrupt choice →
    e.after.scheduler.next = e.before.scheduler.next
  /-- Until the first `stop` an interrupt is pending exactly from its call to the next return of a
  `wait`, and nothing else but `stop` clears it. -/
  pending : (∀ earlier ∈ past, earlier.call ≠ .stop) →
    e.before.scheduler.interrupted = interruptedSinceReturn past
  cleared : e.before.scheduler.interrupted = true → e.after.scheduler.interrupted = false →
    e.call = .stop ∨ ∃ result, e.reply = .returned result
  interrupted : e.reply = .returned .interrupted → interruptedSinceReturn past = true ∧ ∃ t now,
    e.call.turn = some (t, now) ∧ ∀ minimum, pendingMinimum past = some minimum → now < minimum
  stopped : (∃ earlier ∈ past, earlier.call = .stop) →
    e.before.scheduler.next = none ∧
    (∀ deadline, e.call.deadline = some deadline → e.reply = .updated .unchanged) ∧
    ∀ result, e.reply = .returned result → result = .stopped

theorem Accounts.running (hs : Accounts past s) (hnone : ∀ earlier ∈ past, earlier.call ≠ .stop) :
    s.stopped = false := by
  refine eq_false_of_ne_true fun hstopped ↦ ?_
  obtain ⟨earlier, hmem, hcall⟩ := hs.stopped_iff.mp hstopped
  exact hnone earlier hmem hcall

theorem Accounts.followsHistory (hs : Accounts past e.before.scheduler)
    (h : Effect e.before.scheduler e.call e.after.scheduler e.reply) : FollowsHistory past e where
  next hnone := hs.deadline (hs.running hnone)
  next_reply hcall := by
    rw [hcall] at h
    exact h.next_reply
  request hnone deadline hcall := by
    have hrunning := hs.running hnone
    obtain ⟨result, hresult, hreply⟩ := h.request hcall
    rw [← hs.deadline hrunning, hreply]
    cases hresult with
    | stopped hstopped => exact absurd hstopped (by simp [hrunning])
    | scheduled _ hpending => simp [hpending]
    | advanced pending _ hpending hlt => simp [hpending, hlt]
    | kept pending _ hpending hle => simp [hpending, hle]
  due hreply := by
    rw [hreply] at h
    obtain ⟨hrunning, hconsumed, t, now, pending, hturn, hpending, hle⟩ := h.due
    exact ⟨hconsumed, t, now, pending, hturn, (hs.deadline hrunning).symm.trans hpending, hle⟩
  interrupt choice hcall := by
    rw [hcall] at h
    exact h.interrupt_keeps
  pending hnone := hs.interrupted (hs.running hnone)
  cleared hbefore hafter := h.interrupt_cleared hbefore hafter
  interrupted hreply := by
    rw [hreply] at h
    obtain ⟨hrunning, hinterrupted, t, now, hturn, hearly⟩ := h.returned_interrupted
    rw [hs.deadline hrunning] at hearly
    exact ⟨(hs.interrupted hrunning).symm.trans hinterrupted, t, now, hturn, hearly⟩
  stopped hsome := by
    have hstopped := hs.stopped_iff.mpr hsome
    refine ⟨(hs.discarded hstopped).1, fun deadline hcall ↦ ?_, fun result hreply ↦ ?_⟩
    · obtain ⟨result, hresult, hreply⟩ := h.request hcall
      rw [hreply]
      cases hresult with
      | stopped _ => rfl
      | scheduled hrunning _ => exact absurd hstopped (by simp [hrunning])
      | advanced _ hrunning _ _ => exact absurd hstopped (by simp [hrunning])
      | kept _ _ _ _ => rfl
    · rw [hreply] at h
      exact h.returned_of_stopped hstopped

variable [DecidableEq Thread]

theorem accounts_run (calls : List (Call Thread)) :
    Accounts (machine.history .initial calls) (machine.run .initial calls).scheduler := by
  refine Machine.history_induction (motive := fun past s ↦ Accounts past s.scheduler) accounts_nil
    ?_ (machine.unrestricted _ calls)
  intro past s call _ hs
  have heffect := effect s call
  exact hs.concat heffect

/-- Over any run, by any number of threads and at any clock readings: every call answers what the
calls before it say, and `due` is never returned more often than `scheduled`. -/
theorem deadlines_follow_history (calls : List (Call Thread)) :
    (∀ past e later, machine.history .initial calls = past ++ e :: later →
      FollowsHistory past e) ∧
    replyCount (.returned .due) (machine.history .initial calls) ≤
      replyCount (.updated .scheduled) (machine.history .initial calls) := by
  refine ⟨fun past e later hsplit ↦ ?_, ?_⟩
  · obtain ⟨before, call, after, rfl, rfl, rfl, rfl⟩ := machine.history_split hsplit
    exact (accounts_run before).followsHistory (effect (machine.run .initial before) call)
  · have hconsumed := (accounts_run calls).consumed
    omega

/-- A second request lowers the deadline for which the thread waits. -/
def lowered : List (Call ℕ) :=
  [.requestAt 5000 0, .wait 0 1000, .requestAt 3000 0, .rerun 0 2000]

theorem deadlines_follow_history_lowered :
    (machine.event (machine.run .initial lowered) (.timeout 0 3000 4000)).reply = .returned .due ∧
      pendingMinimum (machine.history .initial lowered) = some 3000 := by
  have hreply : (machine.event (machine.run .initial lowered) (.timeout 0 3000 4000)).reply =
      .returned .due := by decide
  have hfollows : FollowsHistory (machine.history .initial lowered)
      (machine.event (machine.run .initial lowered) (.timeout 0 3000 4000)) :=
    (deadlines_follow_history (lowered ++ [.timeout 0 3000 4000])).1 _ _ _
      (machine.history_append _ _ _)
  exact ⟨hreply, (hfollows.next (by decide)).symm⟩

end Gaudere.Scheduling
