import Gaudere.Wake.Runtime

/-!
# At most one external effect

A worker crosses the side-effect boundary of an action after `record_effect_started` returned
true. `external_effect_at_most_once` says that, over any run with crashes between operations,
that happens at most once for each action, and that an action past the boundary is never handed
out again.

The argument is one invariant and one ratchet. The invariant `EffectConsistent` ties the marker to
the status: an unknown effect is running or under review, a confirmed one has succeeded. The
ratchet `EffectBegun` says the marker is set; no operation clears it, and recording a start
requires it to be clear. `start` does not look at the marker, and is safe because the invariant
keeps a marked action out of the states it starts from.
-/

set_option autoImplicit false
set_option relaxedAutoImplicit false

namespace Gaudere.Wake

open Gaudere.Library ActionStore

/-- A submitted action as callers are meant to build it. -/
def Action.Fresh (a : Action) : Prop :=
  a.status = .pending ∧ a.effectResult = .none ∧ a.lease = none

instance : DecidablePred Action.Fresh := fun a ↦
  inferInstanceAs (Decidable (a.status = .pending ∧ a.effectResult = .none ∧ a.lease = none))

/-- An event whose call, if it is a submission, carries an id not yet stored and a fresh
definition. -/
def FreshSubmission (e : Event System Call Reply) : Prop :=
  match e.call with
  | .submit a => find e.before.store a.id = none ∧ a.Fresh
  | _ => True

instance : DecidablePred FreshSubmission := fun e ↦ by
  unfold FreshSubmission
  split <;> infer_instance

theorem FreshSubmission.of_submit {s : System} {call : Call} {a : Action}
    (h : FreshSubmission (machine.event s call)) (hcall : call = .submit a) :
    find s.store a.id = none ∧ a.Fresh := by
  subst hcall
  exact h

/-- The status an effect marker allows. -/
def EffectConsistent (a : Action) : Prop :=
  (a.effectResult = .unknown → a.status = .running ∨ a.status = .manualReview) ∧
    (a.effectResult = .confirmed → a.status = .succeeded)

/-- The effect markers of the store agree with the statuses. -/
def EffectsConsistent (s : System) : Prop :=
  ∀ id a, find s.store id = some a → EffectConsistent a

/-- The effect of an action may have happened. -/
def EffectBegun (id : Bytes) (s : System) : Prop :=
  ∃ a, find s.store id = some a ∧ a.effectResult ≠ .none

/-- The action is past the side-effect boundary and can no longer be retried. -/
def EffectCommitted (id : Bytes) (s : System) : Prop :=
  ∃ a, find s.store id = some a ∧ a.effectResult ≠ .none ∧ a.status ≠ .pending ∧
    a.status ≠ .retryWait ∧ a.status ≠ .failedPermanent

def Call.start? : Call → Option Bytes
  | .start id _ _ _ => some id
  | _ => none

def Call.effectStart? : Call → Option Bytes
  | .recordEffectStarted id => some id
  | _ => none

def Call.confirm? : Call → Option Bytes
  | .recordConfirmedResult id => some id
  | _ => none

/-- A call of one kind on the record of an id returned true. -/
def returnedTrue (kind : Call → Option Bytes) (id : Bytes) (e : Event System Call Reply) : Bool :=
  (kind e.call).any (fun argument ↦ cString argument == cString id) && e.reply == .flag true

theorem returnedTrue_iff {kind : Call → Option Bytes} {id : Bytes}
    {e : Event System Call Reply} :
    returnedTrue kind id e = true ↔
      (∃ argument, kind e.call = some argument ∧ cString argument = cString id) ∧
        e.reply = .flag true := by
  simp [returnedTrue, Option.any_eq_true]

theorem find_congr {t : ActionTable} {first second : Bytes} (h : cString first = cString second) :
    find t first = find t second := by
  apply Option.ext
  intro a
  rw [find_eq_some_iff, find_eq_some_iff, h]

/-! ### The invariant -/

theorem EffectConsistent.stored {a : Action} (h : EffectConsistent a) :
    EffectConsistent (stored a) := by
  simpa only [EffectConsistent, stored_status, stored_effectResult] using h

theorem EffectConsistent.of_fresh {a : Action} (h : a.Fresh) : EffectConsistent a := by
  obtain ⟨_, heffect, _⟩ := h
  simp [EffectConsistent, heffect]

theorem EffectConsistent.recovered (a : Action) : EffectConsistent (Runtime.recovered a) := by
  cases heffect : a.effectResult <;> simp [EffectConsistent, Runtime.recovered, heffect]

/-- Each edit keeps the marker and the status in agreement. `start` and `transition` leave the
marker alone, so for them it is the old agreement that rules a marked action out. -/
theorem EffectConsistent.edit {state : RuntimeState} {call : Call} {a b : Action}
    (ha : EffectConsistent a) (h : call.edit state a = some b) : EffectConsistent b := by
  obtain ⟨hunknown, hconfirmed⟩ := ha
  cases call <;> simp only [Call.edit, reduceCtorEq] at h
  case start id leaseOwner leaseDuration now =>
    unfold Runtime.startEdit at h
    split_ifs at h with hstate hcan
    cases h
    constructor
    · intro _
      exact Or.inl rfl
    · intro heffect
      rw [hconfirmed heffect] at hcan
      simp [canTransition] at hcan
  case transition id status =>
    unfold Runtime.transitionEdit at h
    split_ifs at h with hcan hguard hguard' <;> cases h <;> constructor <;> intro heffect <;>
      simp_all
  case recordEffectStarted id =>
    unfold Runtime.effectStartedEdit at h
    split_ifs at h with hguard
    cases h
    simp_all [EffectConsistent]
  case recordConfirmedResult id =>
    unfold Runtime.confirmedResultEdit at h
    split_ifs at h with hguard
    cases h
    simp [EffectConsistent]
  case recordUnknownResult id =>
    unfold Runtime.unknownResultEdit at h
    split_ifs at h with hguard
    cases h
    simp [EffectConsistent]

/-- No edit clears the marker. -/
theorem edit_keeps_effect {state : RuntimeState} {call : Call} {a b : Action}
    (h : call.edit state a = some b) (ha : a.effectResult ≠ .none) : b.effectResult ≠ .none := by
  cases call <;> simp only [Call.edit, Runtime.startEdit, Runtime.transitionEdit,
    Runtime.effectStartedEdit, Runtime.confirmedResultEdit, Runtime.unknownResultEdit] at h <;>
    (try split_ifs at h) <;> first | (cases h; done) | (cases h; simp [ha])

theorem effectsConsistent_step (s : System) (call : Call)
    (hfresh : FreshSubmission (machine.event s call)) (hs : EffectsConsistent s) :
    EffectsConsistent (machine.event s call).after := by
  intro id a ha
  generalize hafter : find (machine.event s call).after.store id = after at ha
  have hstep := recordStep s call id
  rw [hafter] at hstep
  cases hstep with
  | kept => exact hs id a ha
  | submitted b hcall hid hkey hreply =>
    cases ha
    exact (EffectConsistent.of_fresh (hfresh.of_submit hcall).2).stored
  | edited before b hnames hfind hedit hreply =>
    cases ha
    exact ((hs id before hfind).edit hedit).stored
  | recovered before now hcall hfind hrunning =>
    cases ha
    exact (EffectConsistent.recovered before).stored

theorem effectsConsistent_initial : EffectsConsistent .initial := by
  intro id a ha
  simp [System.initial, ActionStore.find] at ha

/-! ### The ratchet -/

theorem effectBegun_step (id : Bytes) (s : System) (call : Call)
    (hfresh : FreshSubmission (machine.event s call)) (hs : EffectBegun id s) :
    EffectBegun id (machine.event s call).after := by
  obtain ⟨a, ha, heffect⟩ := hs
  generalize hafter : find (machine.event s call).after.store id = after
  have hstep := recordStep s call id
  rw [hafter] at hstep
  cases hstep with
  | kept => exact ⟨a, hafter.trans ha, heffect⟩
  | submitted b hcall hid hkey hreply =>
    have hnone := (hfresh.of_submit hcall).1
    rw [find_congr hid, ha] at hnone
    cases hnone
  | edited before b hnames hfind hedit hreply =>
    rw [ha] at hfind
    cases hfind
    exact ⟨_, hafter, by simpa using edit_keeps_effect hedit heffect⟩
  | recovered before now hcall hfind hrunning =>
    rw [ha] at hfind
    cases hfind
    exact ⟨_, hafter, by simpa [Runtime.recovered] using heffect⟩

theorem EffectBegun.committed {id : Bytes} {s : System} (hs : EffectsConsistent s)
    (h : EffectBegun id s) : EffectCommitted id s := by
  obtain ⟨a, ha, heffect⟩ := h
  obtain ⟨hunknown, hconfirmed⟩ := hs id a ha
  refine ⟨a, ha, heffect, ?_⟩
  cases hmarker : a.effectResult with
  | none => exact absurd hmarker heffect
  | unknown => rcases hunknown hmarker with h | h <;> simp [h]
  | confirmed => simp [hconfirmed hmarker]

/-- Recording an effect start finds the marker clear and sets it. -/
theorem effectStart_spends {id : Bytes} {s : System} {call : Call}
    (h : returnedTrue Call.effectStart? id (machine.event s call) = true) :
    ¬ EffectBegun id s ∧ EffectBegun id (machine.event s call).after := by
  obtain ⟨⟨argument, hkind, hid⟩, hreply⟩ := returnedTrue_iff.mp h
  cases call <;> simp only [Machine.event_call, Call.effectStart?, reduceCtorEq,
    Option.some.injEq] at hkind
  subst hkind
  obtain ⟨a, b, ha, hb, hafter⟩ := flag_true_cases rfl hreply
  simp only [Call.edit, Runtime.effectStartedEdit] at hb
  split_ifs at hb with hguard
  rw [not_or, not_not, not_not] at hguard
  rw [find_congr hid] at ha hafter
  constructor
  · rintro ⟨other, hother, heffect⟩
    rw [ha] at hother
    cases hother
    exact heffect hguard.2
  · refine ⟨_, hafter, ?_⟩
    cases hb
    simp

/-- `start` never picks an action past the side-effect boundary. -/
theorem start_not_begun {id : Bytes} {s : System} {call : Call} (hs : EffectsConsistent s)
    (h : returnedTrue Call.start? id (machine.event s call) = true) : ¬ EffectBegun id s := by
  intro hbegun
  obtain ⟨a, ha, heffect, hpending, hretry, hfailed⟩ := hbegun.committed hs
  obtain ⟨⟨argument, hkind, hid⟩, hreply⟩ := returnedTrue_iff.mp h
  cases call <;> simp only [Machine.event_call, Call.start?, reduceCtorEq,
    Option.some.injEq] at hkind
  subst hkind
  obtain ⟨other, b, hother, hb, _⟩ := flag_true_cases rfl hreply
  rw [find_congr hid, ha] at hother
  cases hother
  simp only [Call.edit, Runtime.startEdit] at hb
  split_ifs at hb with hstate hcan
  cases hstatus : a.status <;> simp_all [canTransition]

/-- Only `record_confirmed_result` confirms an effect. -/
theorem confirmed_cause (id : Bytes) (s : System) (call : Call)
    (hfresh : FreshSubmission (machine.event s call))
    (h : ∃ a, find (machine.event s call).after.store id = some a ∧
      a.effectResult = .confirmed) :
    (∃ a, find s.store id = some a ∧ a.effectResult = .confirmed) ∨
      returnedTrue Call.confirm? id (machine.event s call) = true := by
  obtain ⟨a, ha, hconfirmed⟩ := h
  generalize hafter : find (machine.event s call).after.store id = after at ha
  have hstep := recordStep s call id
  rw [hafter] at hstep
  cases hstep with
  | kept => exact Or.inl ⟨a, ha, hconfirmed⟩
  | submitted b hcall hid hkey hreply =>
    cases ha
    rw [stored_effectResult, (hfresh.of_submit hcall).2.2.1] at hconfirmed
    cases hconfirmed
  | edited before b hnames hfind hedit hreply =>
    cases ha
    rw [stored_effectResult] at hconfirmed
    obtain ⟨argument, htarget, hid⟩ := hnames
    cases call <;> simp only [Call.target, reduceCtorEq, Option.some.injEq] at htarget <;>
      subst htarget <;> simp only [Call.edit, Runtime.startEdit, Runtime.transitionEdit,
        Runtime.effectStartedEdit, Runtime.unknownResultEdit] at hedit
    case recordConfirmedResult =>
      exact Or.inr (returnedTrue_iff.mpr ⟨⟨_, rfl, hid⟩, hreply⟩)
    all_goals
      split_ifs at hedit <;> cases hedit <;>
        first | exact Or.inl ⟨before, hfind, hconfirmed⟩ | cases hconfirmed
  | recovered before now hcall hfind hrunning =>
    cases ha
    exact Or.inl ⟨before, hfind, by simpa [Runtime.recovered] using hconfirmed⟩

/-! ### Whole runs -/

section Runs

variable {calls : List Call}
  (hfresh : ∀ e ∈ machine.history .initial calls, FreshSubmission e) {id : Bytes}

include hfresh

theorem effectsConsistent_run : EffectsConsistent (machine.run .initial calls) :=
  Machine.run_invariant effectsConsistent_step hfresh effectsConsistent_initial

/-- From a recorded start on, the effect has begun, and the markers agree with the statuses. -/
theorem begun_after_effectStart {earlier later : List (Event System Call Reply)}
    {e : Event System Call Reply} (hsplit : machine.history .initial calls = earlier ++ e :: later)
    (hstarted : returnedTrue Call.effectStart? id e = true) :
    (∀ e' ∈ e :: later, EffectsConsistent e'.after ∧ EffectBegun id e'.after) ∧
      (∀ e' ∈ later, e' = machine.event e'.before e'.call ∧
        EffectsConsistent e'.before ∧ EffectBegun id e'.before) ∧
      EffectBegun id (machine.run .initial calls) := by
  have hkeep : ∀ s call, FreshSubmission (machine.event s call) →
      EffectsConsistent s ∧ EffectBegun id s →
        EffectsConsistent (machine.event s call).after ∧
          EffectBegun id (machine.event s call).after := fun s call hf hs ↦
    ⟨effectsConsistent_step s call hf hs.1, effectBegun_step id s call hf hs.2⟩
  obtain ⟨he, _, hconsistent⟩ := Machine.history_invariant effectsConsistent_step hfresh
    effectsConsistent_initial (Machine.mem_of_split hsplit)
  have hbegun : EffectBegun id e.after := by
    rw [he] at hstarted ⊢
    exact (effectStart_spends hstarted).2
  obtain ⟨hlater, hend⟩ := Machine.invariant_after hkeep hfresh hsplit ⟨hconsistent, hbegun⟩
  refine ⟨List.forall_mem_cons.mpr ⟨⟨hconsistent, hbegun⟩, fun e' he' ↦ ?_⟩,
    fun e' he' ↦ ?_, hend.2⟩
  · exact (hlater e' he').2.2
  · exact ⟨(hlater e' he').1, (hlater e' he').2.1⟩

/-- After a recorded start the action stays committed, and is not started again. -/
theorem committed_after_effectStart {earlier later : List (Event System Call Reply)}
    {e : Event System Call Reply} (hsplit : machine.history .initial calls = earlier ++ e :: later)
    (hstarted : returnedTrue Call.effectStart? id e = true) :
    EffectCommitted id e.after ∧
      ∀ e' ∈ later, ¬ returnedTrue Call.start? id e' = true ∧ EffectCommitted id e'.after := by
  obtain ⟨hafter, hbefore, _⟩ := begun_after_effectStart hfresh hsplit hstarted
  have hcommitted : ∀ e' ∈ e :: later, EffectCommitted id e'.after := fun e' he' ↦
    (hafter e' he').2.committed (hafter e' he').1
  obtain ⟨hfirst, hlater⟩ := List.forall_mem_cons.mp hcommitted
  refine ⟨hfirst, fun e' he' ↦ ⟨fun hstart ↦ ?_, hlater e' he'⟩⟩
  obtain ⟨heq, hconsistent, hbegun⟩ := hbefore e' he'
  rw [heq] at hstart
  exact start_not_begun hconsistent hstart hbegun

/-- An action whose effect was started succeeded only through a confirmation. -/
theorem confirmed_of_succeeded {a : Action}
    (ha : find (machine.run .initial calls).store id = some a) (hsucceeded : a.status = .succeeded)
    (heffect : a.effectResult ≠ .none ∨
      ∃ e ∈ machine.history .initial calls, returnedTrue Call.effectStart? id e = true) :
    ∃ e ∈ machine.history .initial calls, returnedTrue Call.confirm? id e = true := by
  have hmarked : a.effectResult ≠ .none := by
    rcases heffect with heffect | ⟨e, hmem, hstarted⟩
    · exact heffect
    · obtain ⟨earlier, later, hsplit⟩ := List.append_of_mem hmem
      obtain ⟨_, _, other, hother, hmarker⟩ := begun_after_effectStart hfresh hsplit hstarted
      rw [ha] at hother
      cases hother
      exact hmarker
  have hconfirmed : a.effectResult = .confirmed := by
    cases hmarker : a.effectResult with
    | none => exact absurd hmarker hmarked
    | confirmed => rfl
    | unknown =>
      rcases (effectsConsistent_run hfresh id a ha).1 hmarker with h | h <;>
        simp [h] at hsucceeded
  refine Machine.exists_cause (Q := fun s ↦ ∃ a, find s.store id = some a ∧
      a.effectResult = .confirmed) effectsConsistent_step
    (fun s call hf _ h ↦ confirmed_cause id s call hf h) hfresh effectsConsistent_initial ?_
    ⟨a, ha, hconfirmed⟩
  rintro ⟨other, hother, _⟩
  simp [System.initial, ActionStore.find] at hother

end Runs

/-- Over any run from an empty store whose submissions are fresh: recording the start of an
effect succeeds at most once for an id; after it did, the action never leaves the committed
states and is never started again; an action with an effect marker succeeded only through a
confirmation; and the marker agrees with the status in the state reached. -/
theorem external_effect_at_most_once (calls : List Call)
    (hfresh : ∀ e ∈ machine.history .initial calls, FreshSubmission e) (id : Bytes) :
    (machine.history .initial calls).countP (returnedTrue Call.effectStart? id) ≤ 1 ∧
    (∀ earlier e later, machine.history .initial calls = earlier ++ e :: later →
      returnedTrue Call.effectStart? id e = true →
        EffectCommitted id e.after ∧
        ∀ e' ∈ later, ¬ returnedTrue Call.start? id e' = true ∧ EffectCommitted id e'.after) ∧
    (∀ a, find (machine.run .initial calls).store id = some a → a.status = .succeeded →
      (a.effectResult ≠ .none ∨
        ∃ e ∈ machine.history .initial calls, returnedTrue Call.effectStart? id e = true) →
      ∃ e ∈ machine.history .initial calls, returnedTrue Call.confirm? id e = true) ∧
    (∀ a, find (machine.run .initial calls).store id = some a → EffectConsistent a) := by
  refine ⟨?_, ?_, ?_, ?_⟩
  · exact Machine.countP_le_one (EffectBegun id) effectsConsistent_step
      (fun s call _ _ h ↦ effectStart_spends h)
      (fun s call hf _ h ↦ effectBegun_step id s call hf h) hfresh effectsConsistent_initial
  · intro earlier e later hsplit hstarted
    exact committed_after_effectStart hfresh hsplit hstarted
  · intro a ha hsucceeded heffect
    exact confirmed_of_succeeded hfresh ha hsucceeded heffect
  · intro a ha
    exact effectsConsistent_run hfresh id a ha

/-- A fresh action. -/
def charge : Action where
  id := ascii "charge"
  idempotencyKey := ascii "order"
  critical := false
  status := .pending
  effectResult := .none
  lease := none

/-- The worker that started `charge` dies after crossing its side-effect boundary, and the next
runtime recovers the expired lease. -/
def chargeRun : List Call :=
  [.recover 0, .submit charge, .start (ascii "charge") (ascii "worker") 5000000 0,
    .recordEffectStarted (ascii "charge"), .restart, .recover 9000000]

theorem external_effect_at_most_once_charge :
    (machine.history .initial chargeRun).countP
      (returnedTrue Call.effectStart? (ascii "charge")) ≤ 1 :=
  (external_effect_at_most_once chargeRun (by decide) (ascii "charge")).1

end Gaudere.Wake
