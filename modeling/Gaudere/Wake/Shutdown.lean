import Gaudere.Wake.Submission

/-!
# Shutting the wake runtime down

A runtime that was asked to shut down should only go on to `safe`, and start no more work: `start`
refuses in these states. Three other calls revive it (`Revives`). `recover` puts the runtime back to
`running` from any state, `transition` moves an action to running in any state, and a submission
while draining is saved with the status its caller wrote. `shutdown_one_way_iff` says that these are
all: in a run of one runtime on any store, every event after the shutdown request keeps the runtime
shut, and no action is running once it was marked safe, exactly when no such event revives it.
-/

set_option autoImplicit false
set_option relaxedAutoImplicit false

namespace Gaudere.Wake

open Gaudere.Library ActionStore

/-- A runtime that was asked to shut down. -/
def ShuttingDown (s : System) : Prop := s.state = .draining ∨ s.state = .safe

theorem ShuttingDown.not_running {s : System} (h : ShuttingDown s) : s.state ≠ .running := by
  rcases h with hstate | hstate <;> rw [hstate] <;> decide

/-- The state of the runtime stays or moves on to safe, and an action that is running was running
before. -/
def StaysShut (e : Event System Call Reply) : Prop :=
  (e.before.state = .draining ∧ (e.after.state = .draining ∨ e.after.state = .safe) ∨
    e.before.state = .safe ∧ e.after.state = .safe) ∧
  ∀ a ∈ records e.after.store, a.status = .running →
    ∃ b ∈ records e.before.store, b.id = a.id ∧ b.status = .running

instance : DecidablePred StaysShut := fun e ↦ by
  unfold StaysShut
  infer_instance

/-- A recovery, a transition to running of an action that may take it, or an accepted submission of
an action that is running already, in place of none that is. -/
def Revives (e : Event System Call Reply) : Prop :=
  match e.call with
  | .recover _ => True
  | .transition id .running =>
    (find e.before.store id).any (fun a ↦
      canTransition a.status .running && a.effectResult == .none) = true
  | .submit a =>
    ¬ Refuses e.before a ∧
      (∀ b ∈ records e.before.store, b.idempotencyKey ≠ cString a.idempotencyKey) ∧
      a.status = .running ∧
      ∀ b ∈ records e.before.store, b.id = cString a.id → b.status ≠ .running
  | _ => False

instance (s : System) (a : Action) : Decidable (Refuses s a) := by
  unfold Refuses
  infer_instance

instance : DecidablePred Revives := fun e ↦ by
  cases e with | mk _ call _ _ =>
  cases call with
  | recover now => exact inferInstanceAs (Decidable True)
  | transition id status =>
    cases status with
    | running => exact inferInstanceAs (Decidable (_ = true))
    | _ => exact inferInstanceAs (Decidable False)
  | submit a => exact inferInstanceAs (Decidable (¬ Refuses _ _ ∧ _ ∧ _ ∧ _))
  | _ => exact inferInstanceAs (Decidable False)

/-! ### The state of the runtime -/

/-- What one call can make of the state of a runtime. -/
inductive StateStep (s : System) (call : Call) : RuntimeState → Prop
  | kept (hmark : call = .tryMarkSafe → (machine.event s call).reply = .flag false) :
      StateStep s call s.state
  | recovered (now : TimePoint) (hcall : call = .recover now) : StateStep s call .running
  | drained (hcall : call = .requestShutdown) (hstate : s.state = .running) :
      StateStep s call .draining
  | madeSafe (hcall : call = .tryMarkSafe) (hstate : s.state = .draining)
      (hquiet : ∀ a ∈ records s.store, a.status ≠ .running)
      (hstore : (machine.event s call).after.store = s.store) : StateStep s call .safe
  | restarted (hcall : call = .restart) : StateStep s call .recovering

theorem stateStep (s : System) (call : Call) :
    StateStep s call (machine.event s call).after.state := by
  have hkept : call ≠ .tryMarkSafe → (machine.event s call).after.state = s.state →
      StateStep s call (machine.event s call).after.state := by
    intro hcall hstate
    rw [hstate]
    exact .kept fun h ↦ absurd h hcall
  have htargeted : ∀ id, call.target = some id →
      (machine.event s call).after.state = s.state := by
    intro id htarget
    rcases modify_cases s htarget with ⟨_, hstep⟩ | ⟨_, _, _, _, _, _, hstep⟩ <;>
      exact congrArg (fun result ↦ System.state result.1) hstep
  cases call with
  | recover now =>
    have hstate : (machine.event s (.recover now)).after.state = .running := by
      simp only [Machine.event, machine, recover_eq]
    rw [hstate]
    exact .recovered now rfl
  | submit a =>
    refine hkept (by simp) ?_
    simp only [Machine.event, machine]
    rcases submit_cases s a with ⟨_, _, hstep⟩ | ⟨_, ⟨_, _, hstep⟩ | ⟨_, hstep⟩⟩ <;> rw [hstep]
  | start id => exact hkept (by simp) (htargeted id rfl)
  | transition id => exact hkept (by simp) (htargeted id rfl)
  | recordEffectStarted id => exact hkept (by simp) (htargeted id rfl)
  | recordConfirmedResult id => exact hkept (by simp) (htargeted id rfl)
  | recordUnknownResult id => exact hkept (by simp) (htargeted id rfl)
  | requestShutdown =>
    simp only [Machine.event, machine, Runtime.requestShutdown]
    split_ifs with hstate
    · exact .drained rfl hstate
    · exact .kept fun hcall ↦ by cases hcall
  | tryMarkSafe =>
    by_cases hblocked : s.state ≠ .draining ∨ hasRunning s.store = true
    · have hstep : machine.step s .tryMarkSafe = (s, .flag false) := if_pos hblocked
      have hstate : (machine.event s .tryMarkSafe).after.state = s.state :=
        congrArg (fun result ↦ System.state result.1) hstep
      rw [hstate]
      exact .kept fun _ ↦ congrArg Prod.snd hstep
    · have hstep : machine.step s .tryMarkSafe = ({ s with state := .safe }, .flag true) :=
        if_neg hblocked
      have hstate : (machine.event s .tryMarkSafe).after.state = .safe :=
        congrArg (fun result ↦ System.state result.1) hstep
      rw [not_or, not_not, Bool.not_eq_true, hasRunning_eq_false_iff] at hblocked
      rw [hstate]
      exact .madeSafe rfl hblocked.1 hblocked.2
        (congrArg (fun result ↦ System.store result.1) hstep)
  | restart => exact .restarted rfl

theorem state_after_of_shuttingDown {s : System} (hshut : ShuttingDown s) {call : Call}
    (hrestart : call ≠ .restart) (hrecover : ∀ now, call ≠ .recover now) :
    s.state = .draining ∧ ((machine.event s call).after.state = .draining ∨
        (machine.event s call).after.state = .safe) ∨
      s.state = .safe ∧ (machine.event s call).after.state = .safe := by
  have hstep := stateStep s call
  generalize (machine.event s call).after.state = after at hstep
  cases hstep with
  | kept _ => exact hshut.imp (fun h ↦ ⟨h, Or.inl h⟩) fun h ↦ ⟨h, h⟩
  | recovered now hcall => exact absurd hcall (hrecover now)
  | drained _ hstate => exact absurd hstate hshut.not_running
  | madeSafe _ hstate _ _ => exact Or.inl ⟨hstate, Or.inr rfl⟩
  | restarted hcall => exact absurd hcall hrestart

/-! ### Which calls revive -/

/-- The edits that make an action running which was not. -/
theorem running_before_edit {state : RuntimeState} {call : Call} {a b : Action}
    (hstate : state ≠ .running) (h : call.edit state a = some b) (hrunning : b.status = .running) :
    a.status = .running ∨ ∃ id, call = .transition id .running ∧
      canTransition a.status .running = true ∧ a.effectResult = .none := by
  cases call <;> simp only [Call.edit, reduceCtorEq] at h
  case start id leaseOwner leaseDuration now =>
    rw [if_pos hstate] at h
    cases h
  case transition id status =>
    unfold Runtime.transitionEdit at h
    split_ifs at h with hcan hunknown hconfirmed hleaves <;> cases h
    · exact absurd hrunning hleaves
    · obtain rfl : status = .running := hrunning
      refine Or.inr ⟨id, rfl, by simpa using hcan, ?_⟩
      cases hmarker : a.effectResult <;> simp_all
  case recordEffectStarted id =>
    unfold Runtime.effectStartedEdit at h
    split_ifs at h
    cases h
    exact Or.inl hrunning
  case recordConfirmedResult id =>
    unfold Runtime.confirmedResultEdit at h
    split_ifs at h
    cases h
    cases hrunning
  case recordUnknownResult id =>
    unfold Runtime.unknownResultEdit at h
    split_ifs at h
    cases h
    cases hrunning

theorem refuses_of_not_accepted {s : System} {a : Action}
    (h : (machine.event s (.submit a)).reply = .submitted .accepted) : ¬ Refuses s a := by
  intro hrefuses
  obtain ⟨result, hresult, hstep⟩ := submit_eq_of_refuses hrefuses
  have hreply : (machine.event s (.submit a)).reply = .submitted result := congrArg Prod.snd hstep
  rw [hreply] at h
  exact hresult (Reply.submitted.inj h)

theorem running_before_of_not_revives {s : System} (hshut : ShuttingDown s) {call : Call}
    (hrevives : ¬ Revives (machine.event s call)) :
    ∀ a ∈ records (machine.event s call).after.store, a.status = .running →
      ∃ b ∈ records s.store, b.id = a.id ∧ b.status = .running := by
  intro a ha hrunning
  have hstep := recordStep s call a.id
  rw [mem_records_iff.mp ha] at hstep
  generalize hafter : some a = after at hstep
  cases hstep with
  | kept => exact ⟨a, (find_eq_some_iff.mp hafter.symm).1, rfl, hrunning⟩
  | submitted b hcall hid hkey hreply =>
    cases hafter
    subst hcall
    rw [stored_status] at hrunning
    by_contra hnone
    refine hrevives ⟨refuses_of_not_accepted hreply, findByIdempotencyKey_eq_none_iff.mp hkey,
      hrunning, fun c hc hcid hcrunning ↦ hnone ⟨c, hc, hcid, hcrunning⟩⟩
  | edited before b hnames hfind hedit _ =>
    cases hafter
    rw [stored_status] at hrunning
    obtain ⟨hmem, hid⟩ := find_eq_some_iff.mp hfind
    rw [stored_id, cString_cString] at hid
    rcases running_before_edit hshut.not_running hedit hrunning with
      hbefore | ⟨argument, hcall, hcan, heffect⟩
    · exact ⟨before, hmem, hid, hbefore⟩
    · subst hcall
      obtain ⟨_, htarget, hsame⟩ := hnames
      cases htarget
      refine absurd ((Option.any_eq_true _ _).mpr ⟨before, ?_, ?_⟩) hrevives
      · rw [Machine.event_before, find_congr hsame, hfind]
      · rw [hcan, heffect]
        rfl
  | recovered before now hcall _ _ =>
    subst hcall
    exact absurd trivial hrevives

theorem not_staysShut_of_revives {s : System} {call : Call}
    (hrevives : Revives (machine.event s call)) : ¬ StaysShut (machine.event s call) := by
  rintro ⟨hstate, hrunning⟩
  cases call with
  | recover now =>
    have hafter : (machine.event s (.recover now)).after.state = .running := by
      simp only [Machine.event, machine, recover_eq]
    rw [hafter] at hstate
    simp at hstate
  | transition id status =>
    cases status <;> try exact hrevives
    obtain ⟨a, ha, happlies⟩ := (Option.any_eq_true _ _).mp hrevives
    rw [Bool.and_eq_true, beq_iff_eq] at happlies
    obtain ⟨hcan, heffect⟩ := happlies
    have hedit : Call.edit s.state (.transition id .running) a =
        some { a with status := .running } := by
      simp [Call.edit, Runtime.transitionEdit, hcan, heffect]
    have htarget : (Call.transition id .running).target = some id := rfl
    have hfound := find_after_edit htarget ha hedit
    obtain ⟨b, hb, hid, hbrunning⟩ := hrunning _ (find_eq_some_iff.mp hfound).1 rfl
    obtain ⟨hmem, haid⟩ := find_eq_some_iff.mp ha
    have hsame : b = a := record_ids_injective hb hmem
      (hid.trans (find_eq_some_iff.mp hfound).2 |>.trans haid.symm)
    rw [← hsame, hbrunning] at hcan
    cases hcan
  | submit a =>
    obtain ⟨hrefuses, hkey, hstatus, hnone⟩ := hrevives
    obtain ⟨store, hsave, hstep⟩ := submit_eq_of_free_key hrefuses hkey
    have hfound : find (machine.event s (.submit a)).after.store a.id = some (stored a) := by
      have hstore : (machine.event s (.submit a)).after.store = store :=
        congrArg (fun result ↦ System.store result.1) hstep
      rw [hstore, find_save hsave, if_pos rfl]
    obtain ⟨b, hb, hid, hbrunning⟩ := hrunning _ (find_eq_some_iff.mp hfound).1
      (by rw [stored_status, hstatus])
    exact hnone b hb hid hbrunning
  | start id => exact hrevives
  | recordEffectStarted id => exact hrevives
  | recordConfirmedResult id => exact hrevives
  | recordUnknownResult id => exact hrevives
  | requestShutdown => exact hrevives
  | tryMarkSafe => exact hrevives
  | restart => exact hrevives

theorem staysShut_iff {s : System} (hshut : ShuttingDown s) {call : Call}
    (hrestart : call ≠ .restart) :
    StaysShut (machine.event s call) ↔ ¬ Revives (machine.event s call) := by
  constructor
  · exact fun hstays hrevives ↦ not_staysShut_of_revives hrevives hstays
  · intro hrevives
    refine ⟨state_after_of_shuttingDown hshut hrestart ?_,
      running_before_of_not_revives hshut hrevives⟩
    rintro now rfl
    exact hrevives trivial

/-! ### Runs of one runtime -/

def NoneRunning (s : System) : Prop := ∀ a ∈ records s.store, a.status ≠ .running

theorem noneRunning_after (s : System) (call : Call) (hstays : StaysShut (machine.event s call))
    (h : NoneRunning s) : NoneRunning (machine.event s call).after := by
  intro a ha hrunning
  obtain ⟨b, hb, _, hbrunning⟩ := hstays.2 a ha hrunning
  exact h b hb hbrunning

theorem noneRunning_of_marked {s : System}
    (h : (machine.event s .tryMarkSafe).reply = .flag true) :
    NoneRunning (machine.event s .tryMarkSafe).after := by
  have hstep := stateStep s .tryMarkSafe
  generalize (machine.event s .tryMarkSafe).after.state = state at hstep
  cases hstep with
  | kept hmark =>
    rw [hmark rfl] at h
    cases h
  | recovered _ hcall => cases hcall
  | drained hcall _ => cases hcall
  | madeSafe _ _ hquiet hstore =>
    intro a ha
    rw [hstore] at ha
    exact hquiet a ha
  | restarted hcall => cases hcall

/-- In a run of one runtime on any store: after the shutdown request made it drain, every event
keeps it shut, and no action is running in any state from when it was marked safe, exactly when no
event revives it. -/
theorem shutdown_one_way_iff {store : ActionTable} {calls : List Call}
    (hone : ∀ e ∈ machine.history { state := .recovering, store := store } calls,
      e.call ≠ .restart)
    {earlier later : List (Event System Call Reply)} {e : Event System Call Reply}
    (hsplit : machine.history { state := .recovering, store := store } calls =
      earlier ++ e :: later)
    (hdraining : e.after.state = .draining) :
    ((∀ e' ∈ later, StaysShut e') ∧
      ∀ between marked rest, later = between ++ marked :: rest → marked.call = .tryMarkSafe →
        marked.reply = .flag true →
          ∀ s ∈ marked.after :: rest.map Event.after, ∀ a ∈ records s.store, a.status ≠ .running) ↔
      ∀ e' ∈ later, ¬ Revives e' := by
  obtain ⟨_, _, future, rfl, _, _, rfl⟩ := machine.history_split hsplit
  have hlater : ∀ e' ∈ machine.history e.after future, e'.call ≠ .restart := fun e' he' ↦
    hone e' (Machine.later_mem_of_split hsplit he')
  have hiff : (∀ e' ∈ machine.history e.after future, StaysShut e') ↔
      ∀ e' ∈ machine.history e.after future, ¬ Revives e' :=
    Machine.forall_event_iff (P := ShuttingDown)
      (fun _ _ hrestart hshut ↦ staysShut_iff hshut hrestart)
      (fun _ _ _ _ hstays ↦ hstays.1.elim And.right fun h ↦ Or.inr h.2) hlater (Or.inl hdraining)
  rw [← hiff, and_iff_left_iff_imp]
  intro hstays between marked rest hmarked hcall hreply
  have hquiet : NoneRunning marked.after := by
    obtain ⟨_, _, _, _, _, rfl, _⟩ := machine.history_split hmarked
    rw [Machine.event_call] at hcall
    subst hcall
    exact noneRunning_of_marked hreply
  have hrest := (Machine.invariant_after noneRunning_after hstays hmarked hquiet).1
  exact List.forall_mem_cons.mpr ⟨hquiet, List.forall_mem_map.mpr fun e' he' ↦ (hrest e' he').2.2⟩

/-- A shutdown is asked for while a worker holds `charge`. -/
def shutdownRun : List Call :=
  [.recover 0, .submit charge, .start (ascii "charge") (ascii "worker") 5000000 0]

/-- The worker finishes, and the runtime is marked safe. -/
def safeEnd : List Call :=
  [.transition (ascii "charge") .succeeded, .tryMarkSafe, .transition (ascii "charge") .running]

theorem shutdown_one_way_charge :
    (machine.event (machine.run .initial shutdownRun) .requestShutdown).after.state = .draining ∧
    ∀ e ∈ machine.history (machine.event (machine.run .initial shutdownRun) .requestShutdown).after
      safeEnd, StaysShut e :=
  ⟨by decide, ((shutdown_one_way_iff (by decide) (machine.history_append .initial shutdownRun
    (.requestShutdown :: safeEnd)) (by decide)).mpr (by decide)).1⟩

/-- A shutdown is asked for while `charge` is pending. -/
def pendingRun : List Call := [.recover 0, .submit charge]

/-- In a draining runtime, which refuses to start `charge`, a transition makes it run all the same.
And recovering the expired lease of `charge` puts a draining runtime back to running, where the
action starts again. -/
theorem shutdown_undone :
    (machine.event (machine.run .initial pendingRun) .requestShutdown).after.state = .draining ∧
    ¬ (∀ e ∈ machine.history
      (machine.event (machine.run .initial pendingRun) .requestShutdown).after
        [.start (ascii "charge") (ascii "worker") 5000000 0,
          .transition (ascii "charge") .running], StaysShut e) ∧
    (machine.history (machine.event (machine.run .initial pendingRun) .requestShutdown).after
        [.start (ascii "charge") (ascii "worker") 5000000 0,
          .transition (ascii "charge") .running]).map
      (fun e ↦ (e.reply, (records e.after.store).map Action.status)) =
        [(.flag false, [.pending]), (.flag true, [.running])] ∧
    (machine.event (machine.run .initial shutdownRun) .requestShutdown).after.state = .draining ∧
    ¬ (∀ e ∈ machine.history
      (machine.event (machine.run .initial shutdownRun) .requestShutdown).after
        [.recover 9000000, .start (ascii "charge") (ascii "worker") 5000000 9000000],
      StaysShut e) ∧
    (machine.history (machine.event (machine.run .initial shutdownRun) .requestShutdown).after
        [.recover 9000000, .start (ascii "charge") (ascii "worker") 5000000 9000000]).map
      (fun e ↦ (e.after.state, e.reply)) = [(.running, .done), (.running, .flag true)] := by
  decide

end Gaudere.Wake
