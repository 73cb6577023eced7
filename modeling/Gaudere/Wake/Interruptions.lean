import Gaudere.Wake.Operations
import Gaudere.Wake.Stranding

/-!
# External effects when the process dies within an operation

A worker crosses the side-effect boundary of an action only after `record_effect_started` returned
true. The point of the marker is a process that dies: here it may die after any request that an
operation makes to the store, before or after the save, and within the loop of a recovery.

`effects_survive_deaths` says that the boundary is still crossed at most once for each action, that
an action past it is never handed out again, and that no recovery makes it retry. A marker whose
recording was not survived also keeps the action from being retried, though nothing was crossed.
-/

set_option autoImplicit false
set_option relaxedAutoImplicit false

namespace Gaudere.Wake

open Gaudere.Library ActionStore

/-- The runtime over the SQLite store, with deaths. -/
abbrev mortal : Machine (RuntimeState × ActionTable) (Attempt Call) (Option Reply) :=
  process.mortal sqlite

abbrev MortalEvent := Event (RuntimeState × ActionTable) (Attempt Call) (Option Reply)

/-- The state and the store of a runtime. -/
def System.of (s : RuntimeState × ActionTable) : System := { state := s.1, store := s.2 }

/-- A call that is served does what the machine does. -/
theorem event_served (s : RuntimeState × ActionTable) (call : Call) :
    (mortal.event s (.served call)).after = (machine.event (.of s) call).after.parts ∧
      (mortal.event s (.served call)).reply = (machine.event (.of s) call).reply.returned :=
  event_sqlite (.of s) call

/-- What an attempt leaves of a record: the record before, or what the call makes of it. -/
theorem find_event (s : RuntimeState × ActionTable) (attempt : Attempt Call) (id : Bytes) :
    find (mortal.event s attempt).after.2 id = find s.2 id ∨
      find (mortal.event s attempt).after.2 id =
        find (machine.event (.of s) attempt.call).after.store id := by
  cases attempt with
  | served call =>
    rw [(event_served s call).1]
    exact Or.inr rfl
  | died call requests => exact find_cut (.of s) call requests id

/-- An attempt whose call, if it is a submission, carries an id not yet stored and a fresh
definition. -/
def FreshAttempt (e : MortalEvent) : Prop :=
  match e.call.call with
  | .submit a => find e.before.2 a.id = none ∧ a.Fresh
  | _ => True

instance : DecidablePred FreshAttempt := fun e ↦ by
  unfold FreshAttempt
  split <;> infer_instance

theorem FreshAttempt.submission {s : RuntimeState × ActionTable} {attempt : Attempt Call}
    (h : FreshAttempt (mortal.event s attempt)) :
    FreshSubmission (machine.event (.of s) attempt.call) := h

/-- A call of one kind on the record of an id returned true. -/
def returned (kind : Call → Option Bytes) (id : Bytes) (e : MortalEvent) : Bool :=
  match e.call with
  | .served call =>
    (kind call).any (fun argument ↦ cString argument == cString id) &&
      e.reply == some (.flag true)
  | .died _ _ => false

/-- A call of one kind on the record of an id returned true, or the process died within it. -/
def tried (kind : Call → Option Bytes) (id : Bytes) (e : MortalEvent) : Bool :=
  match e.call with
  | .served _ => returned kind id e
  | .died call _ => (kind call).any fun argument ↦ cString argument == cString id

theorem returned_served (kind : Call → Option Bytes) (id : Bytes) (s : RuntimeState × ActionTable)
    (call : Call) :
    returned kind id (mortal.event s (.served call)) =
      returnedTrue kind id (machine.event (.of s) call) := by
  have hreply : ((machine.event (.of s) call).reply.returned == some (.flag true)) =
      ((machine.event (.of s) call).reply == .flag true) := by
    cases (machine.event (.of s) call).reply <;> rfl
  rw [returned, Machine.event_call, (event_served s call).2, hreply]
  rfl

theorem served_of_returned {kind : Call → Option Bytes} {id : Bytes}
    {s : RuntimeState × ActionTable} {attempt : Attempt Call}
    (h : returned kind id (mortal.event s attempt) = true) :
    (mortal.event s attempt).after = (machine.event (.of s) attempt.call).after.parts ∧
      returnedTrue kind id (machine.event (.of s) attempt.call) = true := by
  cases attempt with
  | served call =>
    rw [returned_served] at h
    exact ⟨(event_served s call).1, h⟩
  | died call requests => cases h

theorem tried_of_served {kind : Call → Option Bytes} {id : Bytes} {s : RuntimeState × ActionTable}
    {attempt : Attempt Call}
    (h : returnedTrue kind id (machine.event (.of s) attempt.call) = true) :
    tried kind id (mortal.event s attempt) = true := by
  cases attempt with
  | served call => exact (returned_served kind id s call).trans h
  | died call requests =>
    rw [returnedTrue, Bool.and_eq_true] at h
    exact h.1

/-! ### The invariant and the ratchet -/

theorem effectsConsistent_event (s : RuntimeState × ActionTable) (attempt : Attempt Call)
    (hfresh : FreshAttempt (mortal.event s attempt)) (hs : EffectsConsistent (.of s)) :
    EffectsConsistent (.of (mortal.event s attempt).after) := by
  intro id a ha
  rcases find_event s attempt id with hkept | hdone
  · exact hs id a (hkept.symm.trans ha)
  · exact effectsConsistent_step (.of s) attempt.call hfresh.submission hs id a
      (hdone.symm.trans ha)

theorem effectBegun_event (id : Bytes) (s : RuntimeState × ActionTable) (attempt : Attempt Call)
    (hfresh : FreshAttempt (mortal.event s attempt)) (hs : EffectBegun id (.of s)) :
    EffectBegun id (.of (mortal.event s attempt).after) := by
  rcases find_event s attempt id with hkept | hdone
  · obtain ⟨a, ha, heffect⟩ := hs
    exact ⟨a, hkept.trans ha, heffect⟩
  · obtain ⟨b, hb, heffect⟩ := effectBegun_step id (.of s) attempt.call hfresh.submission hs
    exact ⟨b, hdone.trans hb, heffect⟩

theorem effectStart_spends_event {id : Bytes} {s : RuntimeState × ActionTable}
    {attempt : Attempt Call}
    (h : returned Call.effectStart? id (mortal.event s attempt) = true) :
    ¬ EffectBegun id (.of s) ∧ EffectBegun id (.of (mortal.event s attempt).after) := by
  obtain ⟨hafter, hstarted⟩ := served_of_returned h
  rw [hafter]
  exact effectStart_spends hstarted

theorem confirmed_cause_event (id : Bytes) (s : RuntimeState × ActionTable)
    (attempt : Attempt Call) (hfresh : FreshAttempt (mortal.event s attempt))
    (h : ∃ a, find (mortal.event s attempt).after.2 id = some a ∧ a.effectResult = .confirmed) :
    (∃ a, find s.2 id = some a ∧ a.effectResult = .confirmed) ∨
      tried Call.confirm? id (mortal.event s attempt) = true := by
  rcases find_event s attempt id with hkept | hdone
  · rw [hkept] at h
    exact Or.inl h
  · rw [hdone] at h
    exact (confirmed_cause id (.of s) attempt.call hfresh.submission h).imp_right tried_of_served

theorem leasesConsistent_event (s : RuntimeState × ActionTable) (attempt : Attempt Call)
    (hfresh : FreshAttempt (mortal.event s attempt))
    (hleased : ¬ RunsUnleased (machine.event (.of s) attempt.call))
    (hs : LeasesConsistent (.of s)) : LeasesConsistent (.of (mortal.event s attempt).after) := by
  intro id a ha
  rcases find_event s attempt id with hkept | hdone
  · exact hs id a (hkept.symm.trans ha)
  · exact leasesConsistent_step (.of s) attempt.call hfresh.submission hleased hs id a
      (hdone.symm.trans ha)

theorem written_event (s : RuntimeState × ActionTable) (attempt : Attempt Call)
    (h : Written s.2) : Written (mortal.event s attempt).after.2 := by
  have hstep := written_step (.of s) attempt.call h
  cases attempt with
  | served call =>
    rw [(event_served s call).1]
    exact hstep
  | died call requests =>
    have hcut : (mortal.event s (.died call requests)).after.2 =
        (process.operation (System.of s).state call).cut sqlite requests (System.of s).store := rfl
    rw [hcut]
    rcases cut_operation (.of s) call requests with hbefore | hafter | ⟨now, _, order, n, _, hpart⟩
    · rw [hbefore]
      exact h
    · rw [hafter]
      exact hstep
    · rw [← hpart]
      exact written_saveAll h

/-! ### Whole runs -/

section Runs

variable {attempts : List (Attempt Call)}
  (hfresh : ∀ e ∈ mortal.history System.initial.parts attempts, FreshAttempt e) {id : Bytes}

include hfresh

theorem effectsConsistent_deaths :
    EffectsConsistent (.of (mortal.run System.initial.parts attempts)) :=
  Machine.run_invariant (P := fun s ↦ EffectsConsistent (.of s)) effectsConsistent_event hfresh
    effectsConsistent_initial

/-- From a recorded start on, the effect has begun, and the markers agree with the statuses. -/
theorem begun_after_recorded {earlier later : List MortalEvent} {e : MortalEvent}
    (hsplit : mortal.history System.initial.parts attempts = earlier ++ e :: later)
    (hstarted : returned Call.effectStart? id e = true) :
    EffectCommitted id (.of e.after) ∧
      (∀ e' ∈ later, ¬ returned Call.start? id e' = true ∧ EffectCommitted id (.of e'.after)) ∧
      EffectBegun id (.of (mortal.run System.initial.parts attempts)) := by
  have hkeep : ∀ s attempt, FreshAttempt (mortal.event s attempt) →
      EffectsConsistent (.of s) ∧ EffectBegun id (.of s) →
        EffectsConsistent (.of (mortal.event s attempt).after) ∧
          EffectBegun id (.of (mortal.event s attempt).after) := fun s attempt hf hs ↦
    ⟨effectsConsistent_event s attempt hf hs.1, effectBegun_event id s attempt hf hs.2⟩
  obtain ⟨he, _, hconsistent⟩ := Machine.history_invariant
    (P := fun s ↦ EffectsConsistent (.of s)) effectsConsistent_event hfresh
    effectsConsistent_initial (Machine.mem_of_split hsplit)
  have hbegun : EffectBegun id (.of e.after) := by
    rw [he] at hstarted ⊢
    exact (effectStart_spends_event hstarted).2
  obtain ⟨hlater, hend⟩ := Machine.invariant_after
    (P := fun s ↦ EffectsConsistent (.of s) ∧ EffectBegun id (.of s)) hkeep hfresh hsplit
    ⟨hconsistent, hbegun⟩
  refine ⟨hbegun.committed hconsistent, fun e' he' ↦ ?_, hend.2⟩
  obtain ⟨heq, ⟨hbefore, hbegun'⟩, hafter, hbegun''⟩ := hlater e' he'
  refine ⟨fun hstart ↦ ?_, hbegun''.committed hafter⟩
  rw [heq] at hstart
  exact start_not_begun hbefore (served_of_returned hstart).2 hbegun'

/-- An action with an effect marker succeeded only through a confirmation, which returned true or
within which the process died. -/
theorem confirmed_of_succeeded_deaths {a : Action}
    (ha : find (mortal.run System.initial.parts attempts).2 id = some a)
    (hsucceeded : a.status = .succeeded) (heffect : a.effectResult ≠ .none) :
    ∃ e ∈ mortal.history System.initial.parts attempts, tried Call.confirm? id e = true := by
  have hconfirmed : a.effectResult = .confirmed := by
    cases hmarker : a.effectResult with
    | none => exact absurd hmarker heffect
    | confirmed => rfl
    | unknown =>
      rcases (effectsConsistent_deaths hfresh id a ha).1 hmarker with h | h <;>
        simp [h] at hsucceeded
  refine Machine.exists_cause (m := mortal) (P := fun s ↦ EffectsConsistent (.of s))
    (Q := fun s ↦ ∃ a, find s.2 id = some a ∧ a.effectResult = .confirmed)
    effectsConsistent_event (fun s attempt hf _ h ↦ confirmed_cause_event id s attempt hf h) hfresh
    effectsConsistent_initial ?_ ⟨a, ha, hconfirmed⟩
  rintro ⟨other, hother, _⟩
  simp [System.parts, System.initial, ActionStore.find] at hother

theorem unstranded_deaths
    (hleased : ∀ e ∈ mortal.history System.initial.parts attempts,
      ¬ RunsUnleased (machine.event (.of e.before) e.call.call)) :
    Unstranded (.of (mortal.run System.initial.parts attempts)) := by
  have hallowed : ∀ e ∈ mortal.history System.initial.parts attempts,
      FreshAttempt e ∧ ¬ RunsUnleased (machine.event (.of e.before) e.call.call) :=
    fun e he ↦ ⟨hfresh e he, hleased e he⟩
  obtain ⟨hwritten, hleases⟩ := Machine.run_invariant (m := mortal)
    (P := fun s ↦ Written s.2 ∧ LeasesConsistent (.of s))
    (fun s attempt hallowed hs ↦ ⟨written_event s attempt hs.1,
      leasesConsistent_event s attempt hallowed.1 hallowed.2 hs.2⟩)
    hallowed ⟨nofun, leasesConsistent_initial⟩
  exact unstranded_of_leasesConsistent hwritten hleases

end Runs

/-- Over any run from an empty store whose submissions are fresh and in which the process may die
after any request of an operation: recording the start of an effect returns true at most once for
an id; after it did, the action never leaves the committed states, whatever dies and recovers, and
is never started again; an action with an effect marker succeeded only through a confirmation that
returned true or was not survived; marker and status agree in the store; and where no attempt moves
an action to running without a lease, a recovery past every expiry leaves none running. -/
theorem effects_survive_deaths (attempts : List (Attempt Call))
    (hfresh : ∀ e ∈ mortal.history System.initial.parts attempts, FreshAttempt e) (id : Bytes) :
    let history := mortal.history System.initial.parts attempts
    let s := mortal.run System.initial.parts attempts
    history.countP (returned Call.effectStart? id) ≤ 1 ∧
    (∀ earlier e later, history = earlier ++ e :: later →
      returned Call.effectStart? id e = true →
        EffectCommitted id (.of e.after) ∧
        ∀ e' ∈ later, ¬ returned Call.start? id e' = true ∧ EffectCommitted id (.of e'.after)) ∧
    (∀ a, find s.2 id = some a → a.status = .succeeded → a.effectResult ≠ .none →
      ∃ e ∈ history, tried Call.confirm? id e = true) ∧
    (∀ a, find s.2 id = some a → EffectConsistent a) ∧
    ((∀ e ∈ history, ¬ RunsUnleased (machine.event (.of e.before) e.call.call)) →
      Unstranded (.of s)) := by
  refine ⟨?_, fun earlier e later hsplit hstarted ↦ ?_, fun a ha hsucceeded heffect ↦ ?_,
    fun a ha ↦ effectsConsistent_deaths hfresh id a ha, unstranded_deaths hfresh⟩
  · exact Machine.countP_le_one (m := mortal) (P := fun s ↦ EffectsConsistent (.of s))
      (fun s ↦ EffectBegun id (.of s)) effectsConsistent_event
      (fun s attempt _ _ h ↦ effectStart_spends_event h)
      (fun s attempt hf _ h ↦ effectBegun_event id s attempt hf h) hfresh
      effectsConsistent_initial
  · obtain ⟨hcommitted, hlater, _⟩ := begun_after_recorded hfresh hsplit hstarted
    exact ⟨hcommitted, hlater⟩
  · exact confirmed_of_succeeded_deaths hfresh ha hsucceeded heffect

/-- The process dies within the recording of the effect start, after the save, and the next runtime
recovers the expired lease and is asked to start the action again. -/
def chargeDeaths : List (Attempt Call) :=
  [.served (.recover 0), .served (.submit charge),
    .served (.start (ascii "charge") (ascii "worker") 5000000 0),
    .died (.recordEffectStarted (ascii "charge")) 2, .served (.recover 9000000),
    .served (.start (ascii "charge") (ascii "worker") 5000000 9000000)]

theorem effects_survive_deaths_charge :
    (mortal.history System.initial.parts chargeDeaths).countP
        (returned Call.effectStart? (ascii "charge")) ≤ 1 ∧
      ((mortal.history System.initial.parts chargeDeaths).map Event.reply).getLast? =
        some (some (.flag false)) :=
  ⟨(effects_survive_deaths chargeDeaths (by decide) (ascii "charge")).1, by decide⟩

end Gaudere.Wake
