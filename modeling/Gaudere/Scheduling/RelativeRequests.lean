import Gaudere.Library.Checked
import Gaudere.Scheduling.Deadlines

/-!
# Relative wake-up requests

`requestAfter` adds its delay to the clock and requests the sum. `NeverEarly` is what the request
is for: it leaves the earlier of the pending deadline and the mathematical sum, so that no `wait`
returns `due` before that. The sum is not checked, and a delay that stands for never takes it past
the largest clock value, where it wraps to a deadline before the epoch, which replaces every later
one and is due at once. `relative_request_never_early_iff` says which requests are safe.
-/

set_option autoImplicit false
set_option relaxedAutoImplicit false

namespace Gaudere.Scheduling

open Gaudere.Library

variable {Thread : Type*} [DecidableEq Thread]

/-! ### Deadlines and requests -/

/-- The earlier of a pending deadline, if there is one, and another time. -/
def earliest (pending : Option TimePoint) (time : ℤ) : ℤ :=
  match pending with
  | none => time
  | some deadline => min deadline.toInt time

/-- What a relative request is to bring about, whatever is called after it but another request. -/
structure NeverEarly (s : System Thread) (delay now : TimePoint) (choice : Thread) : Prop where
  pending : ∃ deadline,
    (machine.event s (.requestAfter delay now choice)).after.scheduler.next = some deadline ∧
      deadline.toInt = earliest s.scheduler.next (now.toInt + delay.toInt)
  due : (∀ pending, s.scheduler.next = some pending →
      now.toInt + delay.toInt ≤ pending.toInt) →
    ∀ future : List (Call Thread), (∀ call ∈ future, call.deadline = none) →
      ∀ e ∈ machine.history (machine.event s (.requestAfter delay now choice)).after future,
        e.reply = .returned .due → ∃ t reading, e.call.turn = some (t, reading) ∧
          now.toInt + delay.toInt ≤ reading.toInt
  kept : ∀ pending, s.scheduler.next = some pending →
    pending.toInt ≤ now.toInt + delay.toInt →
      (machine.event s (.requestAfter delay now choice)).after.scheduler.next = some pending

/-- A request to a scheduler that is not stopped leaves the earlier deadline. -/
theorem next_requestAt {s : Scheduler} (hrunning : s.stopped = false) (deadline : TimePoint) :
    ∃ least, (s.requestAt deadline).1.next = some least ∧
      least.toInt = earliest s.next deadline.toInt := by
  have hrequested := requested s deadline
  generalize s.requestAt deadline = result at hrequested ⊢
  cases hrequested with
  | stopped hstopped =>
    rw [hrunning] at hstopped
    cases hstopped
  | scheduled _ hnone =>
    refine ⟨deadline, rfl, ?_⟩
    rw [Scheduler.next, hnone, earliest]
  | advanced pending _ hpending hlt =>
    refine ⟨deadline, rfl, ?_⟩
    rw [Scheduler.next, hpending, earliest, min_eq_right (Int64.lt_iff_toInt_lt.mp hlt).le]
  | kept pending _ hpending hle =>
    refine ⟨pending, hpending, ?_⟩
    rw [Scheduler.next, hpending, earliest, min_eq_left (Int64.le_iff_toInt_le.mp hle)]

omit [DecidableEq Thread] in
/-- A call that requests nothing keeps the pending deadline or takes it away. -/
theorem Effect.next_of_quiet {s s' : Scheduler} {call : Call Thread} {reply : Reply}
    (h : Effect s call s' reply) (hquiet : call.deadline = none) :
    s'.next = s.next ∨ s'.next = none := by
  cases h with
  | requested _ deadline hcall _ _ =>
    rw [hquiet] at hcall
    cases hcall
  | stop => exact Or.inr rfl
  | returnedDue _ _ _ _ _ _ _ _ => exact Or.inr rfl
  | _ => exact Or.inl rfl

/-- Until another request, `due` is returned at a clock reading from the pending deadline on. -/
theorem due_from_deadline {s : System Thread} {deadline : TimePoint}
    (hpending : s.scheduler.next = some deadline) {future : List (Call Thread)}
    (hquiet : ∀ call ∈ future, call.deadline = none)
    {e : Event (System Thread) (Call Thread) Reply} (he : e ∈ machine.history s future)
    (hreply : e.reply = .returned .due) :
    ∃ t reading, e.call.turn = some (t, reading) ∧ deadline ≤ reading := by
  have hkeep : ∀ (s : System Thread) (call : Call Thread),
      (machine.event s call).call.deadline = none →
        (∀ pending, s.scheduler.next = some pending → pending = deadline) →
          ∀ pending, (machine.event s call).after.scheduler.next = some pending →
            pending = deadline := by
    intro s call hcall hs pending hafter
    rcases (effect s call).next_of_quiet hcall with hkept | hnone
    · exact hs pending (hkept.symm.trans hafter)
    · cases hnone.symm.trans hafter
  have hallowed : ∀ e ∈ machine.history s future, e.call.deadline = none :=
    fun e he ↦ hquiet _ (machine.call_mem_of_mem_history he)
  obtain ⟨heq, hbefore, _⟩ := Machine.history_invariant hkeep hallowed
    (fun pending h ↦ Option.some.inj (h.symm.trans hpending)) he
  have heffect := effect e.before e.call
  have hdue : (e.before.step e.call).2 = .returned .due :=
    (congrArg Event.reply heq).symm.trans hreply
  rw [hdue] at heffect
  obtain ⟨_, _, t, reading, pending, hturn, hfound, hle⟩ := heffect.due
  rw [← hbefore pending hfound]
  exact ⟨t, reading, hturn, hle⟩

/-! ### Safe requests -/

/-- A relative request keeps its other promises when it leaves the earlier deadline. -/
theorem neverEarly_iff {s : System Thread} {delay now : TimePoint} {choice : Thread} :
    NeverEarly s delay now choice ↔ ∃ deadline,
      (machine.event s (.requestAfter delay now choice)).after.scheduler.next = some deadline ∧
        deadline.toInt = earliest s.scheduler.next (now.toInt + delay.toInt) := by
  refine ⟨NeverEarly.pending, fun ⟨deadline, hnext, hearliest⟩ ↦ ⟨⟨deadline, hnext, hearliest⟩,
    fun hlater future hquiet e he hreply ↦ ?_, fun pending hpending hle ↦ ?_⟩⟩
  · obtain ⟨t, reading, hturn, hle⟩ := due_from_deadline hnext hquiet he hreply
    have hsum : deadline.toInt = now.toInt + delay.toInt := by
      rw [hearliest]
      cases hpending : s.scheduler.next with
      | none => rfl
      | some pending => exact min_eq_right (hlater pending hpending)
    rw [Int64.le_iff_toInt_le, hsum] at hle
    exact ⟨t, reading, hturn, hle⟩
  · rw [hpending, earliest, min_eq_left hle, Int64.toInt_inj] at hearliest
    rw [hnext, hearliest]

/-- The wrapped sum leaves the same deadline as the mathematical one where they are equal, and
where a pending deadline is earlier than both. -/
theorem earliest_wrapped_iff {delay now : TimePoint} (hnow : 0 ≤ now.toInt)
    (hdelay : 0 ≤ delay.toInt) (pending : Option TimePoint) :
    earliest pending (now + delay).toInt = earliest pending (now.toInt + delay.toInt) ↔
      now.toInt + delay.toInt ≤ 2 ^ 63 - 1 ∨
        ∃ deadline, pending = some deadline ∧
          deadline.toInt ≤ now.toInt + delay.toInt - 2 ^ 64 := by
  rw [toInt_add_of_nonneg hnow hdelay]
  split_ifs with hfits
  · exact iff_of_true rfl (Or.inl hfits)
  · rw [or_iff_right hfits]
    cases pending with
    | none =>
      refine iff_of_false ?_ fun ⟨_, hnone, _⟩ ↦ by cases hnone
      rw [earliest, earliest]
      omega
    | some deadline =>
      have hbound := deadline.toInt_lt
      rw [earliest, earliest]
      constructor
      · intro hsame
        exact ⟨deadline, rfl, by omega⟩
      · rintro ⟨_, ⟨⟩, hle⟩
        omega

/-- A relative request to a scheduler that is not stopped is never early exactly when the sum is a
clock value, or a deadline is pending that is no later than the wrapped sum. -/
theorem relative_request_never_early_iff (s : System Thread) (choice : Thread)
    {delay now : TimePoint} (hnow : 0 ≤ now.toInt) (hdelay : 0 ≤ delay.toInt)
    (hrunning : s.scheduler.stopped = false) :
    NeverEarly s delay now choice ↔
      now.toInt + delay.toInt ≤ 2 ^ 63 - 1 ∨
        ∃ pending, s.scheduler.next = some pending ∧
          pending.toInt ≤ now.toInt + delay.toInt - 2 ^ 64 := by
  obtain ⟨least, hnext, hleast⟩ := next_requestAt hrunning (now + delay)
  have hafter : (machine.event s (.requestAfter delay now choice)).after.scheduler.next =
      some least := hnext
  rw [neverEarly_iff, ← earliest_wrapped_iff hnow hdelay, hafter, ← hleast]
  constructor
  · rintro ⟨_, ⟨⟩, hearliest⟩
    exact hearliest
  · intro hearliest
    exact ⟨least, rfl, hearliest⟩

/-- An hour from now, with a deadline pending in two hours. -/
theorem relative_request_hour :
    NeverEarly (machine.run .initial [.requestAt 1700007200000000000 0] : System ℕ)
      3600000000000 1700000000000000000 0 :=
  (relative_request_never_early_iff _ 0 (by decide) (by decide) (by decide)).mpr
    (Or.inl (by decide))

/-- The longest delay, requested today with nothing pending, is due at once; with a deadline
pending in an hour, it replaces that by one before the epoch. -/
theorem longest_delay_due_at_once :
    (machine.history (.initial : System ℕ)
      [.requestAfter 9223372036854775807 1700000000000000000 0,
        .wait 0 1700000000000000000]).map Event.reply = [.updated .scheduled, .returned .due] ∧
    (machine.history (.initial : System ℕ)
      [.requestAt 1700003600000000000 0, .requestAfter 9223372036854775807 1700000000000000000 0,
        .next]).map Event.reply =
      [.updated .scheduled, .updated .advanced, .nextAt (some (-7523372036854775809))] ∧
    ¬ NeverEarly (.initial : System ℕ) 9223372036854775807 1700000000000000000 0 := by
  refine ⟨by decide, by decide, fun hnever ↦ ?_⟩
  obtain ⟨deadline, hnext, hsum⟩ := hnever.pending
  have hwrapped : (machine.event (.initial : System ℕ)
      (.requestAfter 9223372036854775807 1700000000000000000 0)).after.scheduler.next =
        some (-7523372036854775809) := by decide
  obtain rfl := Option.some.inj (hwrapped.symm.trans hnext)
  exact absurd hsum (by decide)

end Gaudere.Scheduling
