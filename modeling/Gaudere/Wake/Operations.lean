import Gaudere.Library.Programs
import Gaudere.Persistence.Recovery

/-!
# The operations of the wake runtime as programs

The wake runtime reaches its store through the abstract class `ActionStore` only. Here its
operations are programs over the member functions of that class, call by call in the order of the
source, and `process` is the runtime for any implementation of them. `event_sqlite` says that over
the SQLite store this is the machine of the other modules; a save of a submitted action may throw.

`find_cut` says what the store holds of an action when the process dies within an operation: what
it held before, or what the completed operation would have left.
-/

set_option autoImplicit false
set_option relaxedAutoImplicit false

namespace Gaudere.Wake

open Gaudere.Library ActionStore

/-! ### The interface -/

/-- A call of a member function of `ActionStore`. -/
inductive StoreRequest
  | find (id : Bytes)
  | findByIdempotencyKey (key : Bytes)
  | runningWithExpiredLease (now : TimePoint)
  | hasRunning
  | save (action : Action)
deriving DecidableEq, Repr

/-- What the member function returns. -/
abbrev StoreRequest.Answer : StoreRequest → Type
  | .find _ => Option Action
  | .findByIdempotencyKey _ => Option Action
  | .runningWithExpiredLease _ => List Action
  | .hasRunning => Bool
  | .save _ => Unit

abbrev StoreProgram := Program StoreRequest.Answer

/-- The SQLite store as an implementation of the class. -/
def sqlite : Implementation StoreRequest.Answer ActionTable where
  serve t
    | .find id => (t, some (ActionStore.find t id))
    | .findByIdempotencyKey key => (t, some (ActionStore.findByIdempotencyKey t key))
    | .runningWithExpiredLease now => (t, some (ActionStore.runningWithExpiredLease t now))
    | .hasRunning => (t, some (ActionStore.hasRunning t))
    | .save action =>
      match ActionStore.save t action with
      | some t' => (t', some ())
      | none => (t, none)

/-! ### The operations -/

namespace Operations

/-- The operations on one record: look it up, and save its edit where the guard lets it pass. -/
def modify (state : RuntimeState) (id : Bytes) (edit : Action → Option Action) :
    StoreProgram (RuntimeState × Reply) :=
  .ask (.find id) fun (found : Option Action) ↦
    match found.bind edit with
    | none => .done (state, .flag false)
    | some edited => .ask (.save edited) fun _ ↦ .done (state, .flag true)

def submit (state : RuntimeState) (action : Action) : StoreProgram (RuntimeState × Reply) :=
  if state ≠ .running ∧ state ≠ .draining then .done (state, .submitted .unavailable)
  else if state = .draining ∧ action.critical then .done (state, .submitted .criticalRejected)
  else
    .ask (.findByIdempotencyKey action.idempotencyKey) fun (found : Option Action) ↦
      if found.isSome then .done (state, .submitted .duplicate)
      else .ask (.save action) fun _ ↦ .done (state, .submitted .accepted)

def start (state : RuntimeState) (id leaseOwner : Bytes) (leaseDuration now : TimePoint) :
    StoreProgram (RuntimeState × Reply) :=
  if state ≠ .running then .done (state, .flag false)
  else modify state id (Runtime.startEdit leaseOwner (now + leaseDuration))

def recover (now : TimePoint) : StoreProgram (RuntimeState × Reply) :=
  .ask (.runningWithExpiredLease now) fun (actions : List Action) ↦
    .each .save (actions.map Runtime.recovered) (.done (.running, .done))

def tryMarkSafe (state : RuntimeState) : StoreProgram (RuntimeState × Reply) :=
  if state ≠ .draining then .done (state, .flag false)
  else
    .ask .hasRunning fun (running : Bool) ↦
      if running then .done (state, .flag false) else .done (.safe, .flag true)

end Operations

open Operations

/-- The runtime, for any store: its state in memory, and its operations. -/
def process : Process StoreRequest.Answer RuntimeState Call Reply where
  boot := .recovering
  operation state
    | .recover now => recover now
    | .submit action => submit state action
    | .start id leaseOwner leaseDuration now => start state id leaseOwner leaseDuration now
    | .transition id status => modify state id (Runtime.transitionEdit status)
    | .recordEffectStarted id => modify state id Runtime.effectStartedEdit
    | .recordConfirmedResult id => modify state id Runtime.confirmedResultEdit
    | .recordUnknownResult id => modify state id Runtime.unknownResultEdit
    | .requestShutdown =>
      if state = .running then .done (.draining, .done) else .done (state, .done)
    | .tryMarkSafe => tryMarkSafe state
    | .restart => .done (.recovering, .done)

/-- A call on one record looks it up and saves the edit of the call. -/
theorem operation_of_target (state : RuntimeState) {call : Call} {id : Bytes}
    (htarget : call.target = some id) :
    process.operation state call = modify state id (call.edit state) ∨
      process.operation state call = .done (state, .flag false) ∧
        ∀ a, call.edit state a = none := by
  cases call <;> simp only [Call.target, Option.some.injEq, reduceCtorEq] at htarget <;>
    subst htarget
  case start argument leaseOwner leaseDuration now =>
    by_cases hstate : state = .running
    · refine Or.inl ((if_neg (not_not.mpr hstate)).trans (congrArg (modify state argument) ?_))
      exact funext fun _ ↦ (if_neg (not_not.mpr hstate)).symm
    · exact Or.inr ⟨if_pos hstate, fun _ ↦ if_pos hstate⟩
  all_goals exact Or.inl rfl

/-! ### Over SQLite -/

/-- The state of a runtime over the SQLite store. -/
def System.parts (s : System) : RuntimeState × ActionTable := (s.state, s.store)

/-- What the caller gets of a reply. -/
def Reply.returned : Reply → Option Reply
  | .threw => none
  | reply => some reply

theorem serve_save {t t' : ActionTable} {action : Action}
    (h : ActionStore.save t action = some t') :
    sqlite.serve t (.save action) = (t', some ()) := by
  simp only [sqlite, h]

theorem serve_save_of_throw {t : ActionTable} {action : Action}
    (h : ActionStore.save t action = none) : sqlite.serve t (.save action) = (t, none) := by
  simp only [sqlite, h]

/-- A loop of saves over the SQLite store. -/
theorem serveEach_save (t : ActionTable) (actions : List Action) :
    Program.serveEach sqlite t (actions.map StoreRequest.save) = saveAll t actions := by
  induction actions generalizing t with
  | nil => rfl
  | cons action actions ih =>
    rw [List.map_cons, Program.serveEach, saveAll, List.map_cons, Table.upsertAll]
    cases hsave : ActionStore.save t action with
    | none =>
      have hupsert : t.upsert (bindAction action) = none := hsave
      simp only [serve_save_of_throw hsave, hupsert]
    | some t' =>
      have hupsert : t.upsert (bindAction action) = some t' := hsave
      simp only [serve_save hsave, hupsert]
      exact ih t'

/-- What a program ends with when the machine has taken a step. -/
def ending (result : System × Reply) : Option (RuntimeState × Reply) :=
  result.2.returned.map fun reply ↦ (result.1.state, reply)

theorem atomic_modify (s : System) {call : Call} {id : Bytes} (htarget : call.target = some id) :
    (Operations.modify s.state id (call.edit s.state)).Atomic sqlite s.store
      (machine.step s call).1.store (ending (machine.step s call)) := by
  refine .read rfl ?_
  rcases modify_cases s htarget with ⟨hnone, hstep⟩ | ⟨a, b, store, hfind, hedit, hsave, hstep⟩ <;>
    rw [hstep]
  · have hnothing : (ActionStore.find s.store id).bind (call.edit s.state) = none := by
      cases hfind : ActionStore.find s.store id with
      | none => rfl
      | some a => exact hnone a hfind
    rw [hnothing]
    exact .done _
  · rw [hfind, Option.bind_some, hedit]
    exact .write (serve_save hsave) rfl

theorem atomic_submit (s : System) (action : Action) :
    (submit s.state action).Atomic sqlite s.store (machine.step s (.submit action)).1.store
      (ending (machine.step s (.submit action))) := by
  have hstep : machine.step s (.submit action) = Runtime.submit s action := rfl
  rw [hstep, submit, Runtime.submit]
  split_ifs with hstate hcritical hduplicate
  · exact .done _
  · exact .done _
  · exact .read rfl ((if_pos hduplicate).symm ▸ .done _)
  · refine .read rfl ((if_neg hduplicate).symm ▸ ?_)
    unfold Runtime.saveThen
    cases hsave : ActionStore.save s.store action with
    | none => exact .throw (serve_save_of_throw hsave)
    | some store => exact .write (serve_save hsave) rfl

/-- Every operation but recovery is atomic. -/
theorem atomic_operation (s : System) {call : Call} (hcall : ∀ now, call ≠ .recover now) :
    (process.operation s.state call).Atomic sqlite s.store (machine.step s call).1.store
      (ending (machine.step s call)) := by
  cases htarget : call.target with
  | some id =>
    rcases operation_of_target s.state htarget with hmodify | ⟨hdone, hnone⟩
    · rw [hmodify]
      exact atomic_modify s htarget
    · rcases modify_cases s htarget with ⟨_, hstep⟩ | ⟨a, b, _, _, hedit, _, _⟩
      · rw [hdone, hstep]
        exact .done _
      · cases (hnone a).symm.trans hedit
  | none =>
    cases call with
    | submit action => exact atomic_submit s action
    | requestShutdown =>
      simp only [process, machine, Runtime.requestShutdown]
      split_ifs <;> exact .done _
    | tryMarkSafe =>
      simp only [process, tryMarkSafe, machine, Runtime.tryMarkSafe]
      by_cases hstate : s.state = .draining
      · simp only [hstate, ne_eq, not_true_eq_false, ↓reduceIte, false_or]
        refine .read rfl ?_
        split_ifs
        · exact hstate ▸ .done _
        · exact .done _
      · simp only [hstate, ne_eq, not_false_eq_true, ↓reduceIte, true_or]
        exact .done _
    | restart => exact .done _
    | recover now => exact absurd rfl (hcall now)
    | _ => cases htarget

theorem recover_run (s : System) (now : TimePoint) :
    (recover now).run sqlite s.store = ((machine.step s (.recover now)).1.store,
      ending (machine.step s (.recover now))) := by
  have hsaved := recovery_done s.store now
  have heach : Program.serveEach sqlite s.store (((runningWithExpiredLease s.store now).map
      Runtime.recovered).map StoreRequest.save) =
      actionEncoding.reviseAll s.store (expiredRow now) Runtime.recovered := serveEach_save _ _
  have hstep : machine.step s (.recover now) = _ := recover_eq s now
  refine (Program.run_ask_of_answer rfl).trans ((Program.run_each (heach ▸ hsaved)).trans ?_)
  rw [heach, hstep]
  rfl

theorem recover_cut (t : ActionTable) (now : TimePoint) (n : ℕ) :
    Interrupted now t ((recover now).cut sqlite n t) := by
  refine ⟨runningWithExpiredLease t now, n - 1, .refl _, ?_⟩
  cases n with
  | zero =>
    rw [Program.cut_zero]
    rfl
  | succ n =>
    refine ((Program.cut_ask_of_answer rfl n).trans ?_).symm
    rw [Program.cut_each, ← List.map_take, serveEach_save]
    rfl

/-- Over SQLite the program of a call does what the machine does. -/
theorem run_operation (s : System) (call : Call) :
    (process.operation s.state call).run sqlite s.store =
      ((machine.step s call).1.store, ending (machine.step s call)) := by
  by_cases hcall : ∃ now, call = .recover now
  · obtain ⟨now, rfl⟩ := hcall
    exact recover_run s now
  · exact (atomic_operation s fun now heq ↦ hcall ⟨now, heq⟩).run

/-- A call that throws leaves the runtime as it is. -/
theorem step_of_threw {s : System} {call : Call} (h : (machine.step s call).2 = .threw) :
    (machine.step s call).1 = s := by
  cases htarget : call.target with
  | some id =>
    rcases modify_cases s htarget with ⟨_, hstep⟩ | ⟨_, _, _, _, _, _, hstep⟩ <;>
      rw [hstep] at h <;> cases h
  | none =>
    cases call with
    | submit action =>
      have hstep : machine.step s (.submit action) = Runtime.submit s action := rfl
      rw [hstep] at h ⊢
      rcases submit_cases s action with ⟨_, _, hsubmit⟩ | ⟨_, ⟨_, _, hsubmit⟩ | ⟨_, hsubmit⟩⟩ <;>
        rw [hsubmit] at h ⊢
      cases h
    | recover now =>
      have hstep : machine.step s (.recover now) = _ := recover_eq s now
      rw [hstep] at h
      cases h
    | requestShutdown =>
      simp only [machine, Runtime.requestShutdown] at h
      split_ifs at h
    | tryMarkSafe =>
      simp only [machine, Runtime.tryMarkSafe] at h
      split_ifs at h
    | restart => cases h
    | _ => cases htarget

/-- The runtime over the SQLite store is the machine of the other modules. -/
theorem event_sqlite (s : System) (call : Call) :
    ((process.machine sqlite).event s.parts call).after = (machine.event s call).after.parts ∧
      ((process.machine sqlite).event s.parts call).reply =
        (machine.event s call).reply.returned := by
  simp only [Machine.event, Process.machine, System.parts, run_operation, ending]
  cases hreply : (machine.step s call).2 with
  | threw => simp only [Reply.returned, Option.map_none, step_of_threw hreply, and_self]
  | _ => exact ⟨rfl, rfl⟩

/-- A process that dies within an operation has left the store as it was or as the operation leaves
it, or has recovered some of the expired actions. -/
theorem cut_operation (s : System) (call : Call) (n : ℕ) :
    (process.operation s.state call).cut sqlite n s.store = s.store ∨
    (process.operation s.state call).cut sqlite n s.store = (machine.event s call).after.store ∨
    ∃ now, call = .recover now ∧
      Interrupted now s.store ((process.operation s.state call).cut sqlite n s.store) := by
  by_cases hcall : ∃ now, call = .recover now
  · obtain ⟨now, rfl⟩ := hcall
    exact Or.inr (Or.inr ⟨now, rfl, recover_cut s.store now n⟩)
  · exact ((atomic_operation s fun now heq ↦ hcall ⟨now, heq⟩).cut n).imp_right Or.inl

/-- What the store holds of an action when the process dies within an operation: what it held
before, or what the whole operation leaves of it. -/
theorem find_cut (s : System) (call : Call) (n : ℕ) (id : Bytes) :
    find ((process.operation s.state call).cut sqlite n s.store) id = find s.store id ∨
      find ((process.operation s.state call).cut sqlite n s.store) id =
        find (machine.event s call).after.store id := by
  rcases cut_operation s call n with hbefore | hafter | ⟨now, rfl, hinterrupted⟩
  · exact Or.inl (congrArg (find · id) hbefore)
  · exact Or.inr (congrArg (find · id) hafter)
  · rw [store_after_recovery s now]
    exact (hinterrupted.partly (Int64.le_refl now)).find_or (bindText id)

end Gaudere.Wake
