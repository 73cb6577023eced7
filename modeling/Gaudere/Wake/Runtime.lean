import Gaudere.Library.Machine
import Gaudere.Wake.ActionStore

/-!
# The wake runtime

A `Runtime` keeps one of four states in memory and everything else in the action store it refers
to; `System` is the pair. Its operations load a record, check a guard, edit a copy and save it
(`modify`), each with its own edit, except `submit`, which saves the caller's record, and
`recover`, which edits the records whose lease has expired. Clock samples are arguments of the
operations that take them.

`machine` runs the operations in any order. A crash between two operations is the call `restart`,
which replaces the runtime by a new one on the same store. `StoreStep` says everything one call can
do to the store and `RecordStep` what that is to the record under one id; the reply lemmas say what
a successful operation found.
-/

set_option autoImplicit false
set_option relaxedAutoImplicit false

namespace Gaudere.Wake

open Gaudere.Library

inductive RuntimeState
  | recovering
  | running
  | draining
  | safe
deriving DecidableEq, Repr

inductive SubmitResult
  | accepted
  | duplicate
  | criticalRejected
  | unavailable
deriving DecidableEq, Repr

/-- A runtime and the store it refers to. -/
structure System where
  state : RuntimeState
  store : ActionTable
deriving DecidableEq

/-- What an operation returns. `threw` stands for an exception of the store. -/
inductive Reply
  | done
  | flag (value : Bool)
  | submitted (result : SubmitResult)
  | threw
deriving DecidableEq, Repr

namespace Runtime

/-- A save followed by a return. -/
def saveThen (s : System) (action : Action) (reply : Reply) : System × Reply :=
  match ActionStore.save s.store action with
  | some store => ({ s with store := store }, reply)
  | none => (s, .threw)

/-- The shape the operations on one record share: load it, return false when it is missing or the
guard of the edit fails, and otherwise save the edited copy and return true. -/
def modify (s : System) (id : Bytes) (edit : Action → Option Action) : System × Reply :=
  match ActionStore.find s.store id with
  | none => (s, .flag false)
  | some action =>
    match edit action with
    | none => (s, .flag false)
    | some edited => saveThen s edited (.flag true)

/-- What recovery makes of a running action whose lease has expired. -/
def recovered (action : Action) : Action :=
  { action with
    lease := none
    status :=
      match action.effectResult with
      | .none => .retryWait
      | .confirmed => .succeeded
      | .unknown => .manualReview }

def recover (s : System) (now : TimePoint) : System × Reply :=
  match ActionStore.saveAll s.store
      ((ActionStore.runningWithExpiredLease s.store now).map recovered) with
  | (store, true) => ({ state := .running, store := store }, .done)
  | (store, false) => ({ s with store := store }, .threw)

def submit (s : System) (action : Action) : System × Reply :=
  if s.state ≠ .running ∧ s.state ≠ .draining then (s, .submitted .unavailable)
  else if s.state = .draining ∧ action.critical then (s, .submitted .criticalRejected)
  else if (ActionStore.findByIdempotencyKey s.store action.idempotencyKey).isSome then
    (s, .submitted .duplicate)
  else saveThen s action (.submitted .accepted)

def startEdit (leaseOwner : Bytes) (expiresAt : TimePoint) (action : Action) : Option Action :=
  if canTransition action.status .running then
    some { action with
      status := .running
      lease := some { owner := leaseOwner, expiresAt := expiresAt } }
  else none

def start (s : System) (id leaseOwner : Bytes) (leaseDuration now : TimePoint) :
    System × Reply :=
  if s.state ≠ .running then (s, .flag false)
  else modify s id (startEdit leaseOwner (now + leaseDuration))

def transitionEdit (status : ActionStatus) (action : Action) : Option Action :=
  if ¬ canTransition action.status status then none
  else if action.effectResult = .unknown ∧ status ≠ .manualReview then none
  else if action.effectResult = .confirmed ∧ status ≠ .succeeded then none
  else some { action with
    status := status
    lease := if status ≠ .running then none else action.lease }

def transition (s : System) (id : Bytes) (status : ActionStatus) : System × Reply :=
  modify s id (transitionEdit status)

def effectStartedEdit (action : Action) : Option Action :=
  if action.status ≠ .running ∨ action.effectResult ≠ .none then none
  else some { action with effectResult := .unknown }

def recordEffectStarted (s : System) (id : Bytes) : System × Reply :=
  modify s id effectStartedEdit

def confirmedResultEdit (action : Action) : Option Action :=
  if action.status ≠ .running ∨ action.effectResult ≠ .unknown then none
  else some { action with effectResult := .confirmed, status := .succeeded, lease := none }

def recordConfirmedResult (s : System) (id : Bytes) : System × Reply :=
  modify s id confirmedResultEdit

def unknownResultEdit (action : Action) : Option Action :=
  if action.status ≠ .running ∨ action.effectResult = .confirmed then none
  else some { action with effectResult := .unknown, status := .manualReview, lease := none }

def recordUnknownResult (s : System) (id : Bytes) : System × Reply :=
  modify s id unknownResultEdit

def requestShutdown (s : System) : System × Reply :=
  if s.state = .running then ({ s with state := .draining }, .done) else (s, .done)

def tryMarkSafe (s : System) : System × Reply :=
  if s.state ≠ .draining ∨ ActionStore.hasRunning s.store then (s, .flag false)
  else ({ s with state := .safe }, .flag true)

/-- A new runtime on the same store. -/
def restart (s : System) : System × Reply := ({ s with state := .recovering }, .done)

end Runtime

/-- An operation with its arguments and the clock value it samples. -/
inductive Call
  | recover (now : TimePoint)
  | submit (action : Action)
  | start (id leaseOwner : Bytes) (leaseDuration now : TimePoint)
  | transition (id : Bytes) (status : ActionStatus)
  | recordEffectStarted (id : Bytes)
  | recordConfirmedResult (id : Bytes)
  | recordUnknownResult (id : Bytes)
  | requestShutdown
  | tryMarkSafe
  | restart
deriving DecidableEq, Repr

/-- The runtime with its store, as a machine over its operations. -/
def machine : Machine System Call Reply where
  step s
    | .recover now => Runtime.recover s now
    | .submit action => Runtime.submit s action
    | .start id leaseOwner leaseDuration now => Runtime.start s id leaseOwner leaseDuration now
    | .transition id status => Runtime.transition s id status
    | .recordEffectStarted id => Runtime.recordEffectStarted s id
    | .recordConfirmedResult id => Runtime.recordConfirmedResult s id
    | .recordUnknownResult id => Runtime.recordUnknownResult s id
    | .requestShutdown => Runtime.requestShutdown s
    | .tryMarkSafe => Runtime.tryMarkSafe s
    | .restart => Runtime.restart s

/-- A new runtime on an empty store. -/
def System.initial : System where
  state := .recovering
  store := Table.empty actionSchema

/-! ### What one call does to one record -/

open ActionStore

/-- The edit a call makes of the record it names, and none for a call that names no record. -/
def Call.edit (state : RuntimeState) : Call → Action → Option Action
  | .start _ leaseOwner leaseDuration now, a =>
    if state ≠ .running then none else Runtime.startEdit leaseOwner (now + leaseDuration) a
  | .transition _ status, a => Runtime.transitionEdit status a
  | .recordEffectStarted _, a => Runtime.effectStartedEdit a
  | .recordConfirmedResult _, a => Runtime.confirmedResultEdit a
  | .recordUnknownResult _, a => Runtime.unknownResultEdit a
  | _, _ => none

/-- The id in the arguments of a call on one record. -/
def Call.target : Call → Option Bytes
  | .start id _ _ _ => some id
  | .transition id _ => some id
  | .recordEffectStarted id => some id
  | .recordConfirmedResult id => some id
  | .recordUnknownResult id => some id
  | _ => none

/-- A call names the record of an id: SQLite binds the id in its arguments to the same text. -/
def Call.Names (call : Call) (id : Bytes) : Prop :=
  ∃ argument, call.target = some argument ∧ cString argument = cString id

theorem edit_keeps_keys {state : RuntimeState} {call : Call} {a b : Action}
    (h : call.edit state a = some b) : b.id = a.id ∧ b.idempotencyKey = a.idempotencyKey := by
  cases call <;> simp only [Call.edit, Runtime.startEdit, Runtime.transitionEdit,
    Runtime.effectStartedEdit, Runtime.confirmedResultEdit, Runtime.unknownResultEdit] at h <;>
    (try split_ifs at h) <;> first | (cases h; done) | (cases h; exact ⟨rfl, rfl⟩)

/-- A call on one record is `modify` with its edit. -/
theorem step_eq_modify (s : System) {call : Call} {id : Bytes} (h : call.target = some id) :
    machine.step s call = Runtime.modify s id (call.edit s.state) := by
  have hblocked : Runtime.modify s id (fun _ ↦ none) = (s, .flag false) := by
    unfold Runtime.modify
    cases ActionStore.find s.store id <;> rfl
  cases call <;> simp only [Call.target, Option.some.injEq, reduceCtorEq] at h <;> subst h
  case start argument leaseOwner leaseDuration now =>
    by_cases hstate : s.state = .running
    · have hedit : Call.edit s.state (.start argument leaseOwner leaseDuration now) =
          Runtime.startEdit leaseOwner (now + leaseDuration) := by
        funext a
        simp only [Call.edit, hstate, ne_eq, not_true_eq_false, ↓reduceIte]
      rw [hedit]
      simp only [machine, Runtime.start, hstate, ne_eq, not_true_eq_false, ↓reduceIte]
    · have hedit : Call.edit s.state (.start argument leaseOwner leaseDuration now) =
          fun _ ↦ none := by
        funext a
        simp only [Call.edit, hstate, ne_eq, not_false_eq_true, ↓reduceIte]
      rw [hedit, hblocked]
      simp only [machine, Runtime.start, hstate, ne_eq, not_false_eq_true, ↓reduceIte]
  all_goals rfl

/-- A call on one record refuses, or finds the record and saves an edit of it. -/
theorem modify_cases (s : System) {call : Call} {id : Bytes} (htarget : call.target = some id) :
    ((∀ a, find s.store id = some a → call.edit s.state a = none) ∧
      machine.step s call = (s, .flag false)) ∨
    ∃ a b store, find s.store id = some a ∧ call.edit s.state a = some b ∧
      save s.store b = some store ∧
      machine.step s call = ({ s with store := store }, .flag true) := by
  rw [step_eq_modify s htarget]
  cases hfind : find s.store id with
  | none =>
    exact Or.inl ⟨fun _ ha ↦ absurd ha (Option.some_ne_none _).symm,
      by simp only [Runtime.modify, hfind]⟩
  | some a =>
    cases hedit : call.edit s.state a with
    | none =>
      refine Or.inl ⟨fun other hother ↦ ?_, by simp only [Runtime.modify, hfind, hedit]⟩
      rw [← Option.some.inj hother, hedit]
    | some b =>
      obtain ⟨hid, hkey⟩ := edit_keeps_keys hedit
      obtain ⟨store, hstore⟩ := save_edited (find_eq_some_iff.mp hfind).1 hid hkey
      exact Or.inr ⟨a, b, store, rfl, hedit, hstore,
        by simp only [Runtime.modify, hfind, hedit, Runtime.saveThen, hstore]⟩

/-- What a save of an edited record leaves under an id. -/
theorem find_save_edited {s : System} {call : Call} {id : Bytes} {a b : Action}
    {store : ActionTable} (hfind : find s.store id = some a) (hedit : call.edit s.state a = some b)
    (hsave : save s.store b = some store) (other : Bytes) :
    find store other = if cString id = cString other then some (stored b)
      else find s.store other := by
  have hid : cString b.id = cString id := by
    rw [(edit_keeps_keys hedit).1, (find_eq_some_iff.mp hfind).2, cString_cString]
  rw [find_save hsave, hid]

/-- A successful call on one record found it, and its edit applied. -/
theorem flag_true_cases {s : System} {call : Call} {id : Bytes} (htarget : call.target = some id)
    (hreply : (machine.event s call).reply = .flag true) :
    ∃ a b, find s.store id = some a ∧ call.edit s.state a = some b ∧
      find (machine.event s call).after.store id = some (stored b) := by
  simp only [Machine.event] at hreply ⊢
  rcases modify_cases s htarget with ⟨_, hstep⟩ | ⟨a, b, store, ha, hb, hsave, hstep⟩
  · rw [hstep] at hreply
    cases hreply
  · rw [hstep]
    exact ⟨a, b, ha, hb, by rw [find_save_edited ha hb hsave, if_pos rfl]⟩

/-- A call whose edit applies to the record it names saves the edited record. -/
theorem find_after_edit {s : System} {call : Call} {id : Bytes} {a b : Action}
    (htarget : call.target = some id) (ha : find s.store id = some a)
    (hedit : call.edit s.state a = some b) :
    find (machine.event s call).after.store id = some (stored b) := by
  rcases modify_cases s htarget with ⟨hnone, _⟩ | ⟨other, _, store, hother, hb, hsave, hstep⟩
  · rw [hnone a ha] at hedit
    cases hedit
  · obtain rfl : a = other := Option.some.inj (ha.symm.trans hother)
    cases hb.symm.trans hedit
    simp only [Machine.event, hstep]
    rw [find_save_edited ha hedit hsave, if_pos rfl]

/-- The rows that recovery picks hold running actions. -/
theorem running_of_expiredRow {now : TimePoint} {row : ActionRow}
    (h : expiredRow now row = true) : (readAction row).status = .running := by
  simp only [expiredRow, Bool.and_eq_true, beq_iff_eq] at h
  simp only [readAction, h.1, ActionStatus.ofCode_code]

/-- The saves of a recovery all succeed. -/
theorem recovery_done (t : ActionTable) (now : TimePoint) :
    (actionEncoding.reviseAll t (expiredRow now) Runtime.recovered).2 = true :=
  Encoding.reviseAll_done (fun _ ↦ rfl) (fun _ ↦ rfl) fun _ _ _ ↦ check_bindAction _

theorem recover_eq (s : System) (now : TimePoint) :
    Runtime.recover s now =
      ({ state := .running
         store := (actionEncoding.reviseAll s.store (expiredRow now) Runtime.recovered).1 },
        .done) := by
  have hsaved : saveAll s.store ((runningWithExpiredLease s.store now).map Runtime.recovered) =
      ((actionEncoding.reviseAll s.store (expiredRow now) Runtime.recovered).1, true) :=
    Prod.ext rfl (recovery_done s.store now)
  simp only [Runtime.recover, hsaved]

/-- Everything `submit` can do. -/
theorem submit_cases (s : System) (action : Action) :
    (∃ result, result ≠ .accepted ∧ Runtime.submit s action = (s, .submitted result)) ∨
    findByIdempotencyKey s.store action.idempotencyKey = none ∧
      ((∃ store, save s.store action = some store ∧
        Runtime.submit s action = ({ s with store := store }, .submitted .accepted)) ∨
      (save s.store action = none ∧ Runtime.submit s action = (s, .threw))) := by
  unfold Runtime.submit
  split_ifs with hstate hcritical hduplicate
  · exact Or.inl ⟨.unavailable, by decide, rfl⟩
  · exact Or.inl ⟨.criticalRejected, by decide, rfl⟩
  · exact Or.inl ⟨.duplicate, by decide, rfl⟩
  · rw [Bool.not_eq_true, Option.isSome_eq_false_iff, Option.isNone_iff_eq_none] at hduplicate
    refine Or.inr ⟨hduplicate, ?_⟩
    unfold Runtime.saveThen
    cases hsave : save s.store action with
    | none => exact Or.inr ⟨rfl, rfl⟩
    | some store => exact Or.inl ⟨store, rfl, rfl⟩

/-- After a recovery, an id finds the recovery of a running action, or what it found before. -/
theorem find_recovered (s : System) (now : TimePoint) (id : Bytes) :
    (∃ a, find s.store id = some a ∧ a.status = .running ∧
      find (Runtime.recover s now).1.store id = some (stored (Runtime.recovered a))) ∨
    find (Runtime.recover s now).1.store id = find s.store id := by
  have hkeys : ∀ a, actionEncoding.key (Runtime.recovered a) = actionEncoding.key a := fun _ ↦ rfl
  rw [recover_eq]
  rcases Encoding.find_reviseAll hkeys (recovery_done s.store now) (bindText id) with
    ⟨row, hrow, hkey, hselected, hfound⟩ | ⟨_, hfound⟩
  · have hfind : find s.store id = some (readAction row) :=
      find_eq_some_iff.mpr ⟨List.mem_map_of_mem hrow, congrArg Subtype.val hkey⟩
    exact Or.inl ⟨readAction row, hfind, running_of_expiredRow hselected, hfound⟩
  · exact Or.inr hfound

/-- What one call can do to the store, and what it replies. -/
inductive StoreStep (s : System) (call : Call) : ActionTable → Reply → Prop
  | kept (reply : Reply) : StoreStep s call s.store reply
  | submitted (a : Action) (store : ActionTable) (hcall : call = .submit a)
      (hkey : findByIdempotencyKey s.store a.idempotencyKey = none)
      (hsave : save s.store a = some store) : StoreStep s call store (.submitted .accepted)
  | edited (id : Bytes) (a b : Action) (store : ActionTable) (htarget : call.target = some id)
      (hfind : find s.store id = some a) (hedit : call.edit s.state a = some b)
      (hsave : save s.store b = some store) : StoreStep s call store (.flag true)
  | recovered (now : TimePoint) (hcall : call = .recover now) :
      StoreStep s call (Runtime.recover s now).1.store .done

theorem storeStep_modify (s : System) {call : Call} {id : Bytes} (htarget : call.target = some id) :
    StoreStep s call (machine.step s call).1.store (machine.step s call).2 := by
  rcases modify_cases s htarget with ⟨_, hstep⟩ | ⟨a, b, store, hfind, hedit, hsave, hstep⟩ <;>
    rw [hstep]
  · exact .kept _
  · exact .edited id a b store htarget hfind hedit hsave

/-- Every call does to the store one of the things `StoreStep` lists. -/
theorem storeStep (s : System) (call : Call) :
    StoreStep s call (machine.event s call).after.store (machine.event s call).reply := by
  change StoreStep s call (machine.step s call).1.store (machine.step s call).2
  cases call with
  | recover now =>
    have hreply : (Runtime.recover s now).2 = .done := by rw [recover_eq]
    have hstep : machine.step s (.recover now) = Runtime.recover s now := rfl
    rw [hstep, hreply]
    exact .recovered now rfl
  | submit action =>
    have hstep : machine.step s (.submit action) = Runtime.submit s action := rfl
    rw [hstep]
    rcases submit_cases s action with ⟨_, _, h⟩ | ⟨hkey, ⟨store, hsave, h⟩ | ⟨_, h⟩⟩ <;> rw [h]
    · exact .kept _
    · exact .submitted action store rfl hkey hsave
    · exact .kept _
  | start argument leaseOwner leaseDuration now => exact storeStep_modify s rfl
  | transition argument status => exact storeStep_modify s rfl
  | recordEffectStarted argument => exact storeStep_modify s rfl
  | recordConfirmedResult argument => exact storeStep_modify s rfl
  | recordUnknownResult argument => exact storeStep_modify s rfl
  | requestShutdown =>
    simp only [machine, Runtime.requestShutdown]
    split_ifs <;> exact .kept _
  | tryMarkSafe =>
    simp only [machine, Runtime.tryMarkSafe]
    split_ifs <;> exact .kept _
  | restart => exact .kept _

/-- What one call can do to the record under an id: nothing, save a submitted action under a key
that was free, edit the record the call names, or recover it. -/
inductive RecordStep (s : System) (call : Call) (id : Bytes) : Option Action → Prop
  | kept : RecordStep s call id (find s.store id)
  | submitted (a : Action) (hcall : call = .submit a) (hid : cString a.id = cString id)
      (hkey : findByIdempotencyKey s.store a.idempotencyKey = none)
      (hreply : (machine.event s call).reply = .submitted .accepted) :
      RecordStep s call id (some (stored a))
  | edited (a b : Action) (hnames : call.Names id) (hfind : find s.store id = some a)
      (hedit : call.edit s.state a = some b) (hreply : (machine.event s call).reply = .flag true) :
      RecordStep s call id (some (stored b))
  | recovered (a : Action) (now : TimePoint) (hcall : call = .recover now)
      (hfind : find s.store id = some a) (hrunning : a.status = .running) :
      RecordStep s call id (some (stored (Runtime.recovered a)))

/-- Every call does to the record of an id one of the things `RecordStep` lists. -/
theorem recordStep (s : System) (call : Call) (id : Bytes) :
    RecordStep s call id (find (machine.event s call).after.store id) := by
  have hstep := storeStep s call
  generalize hreply : (machine.event s call).reply = reply at hstep
  generalize (machine.event s call).after.store = store at hstep ⊢
  cases hstep with
  | kept _ => exact .kept
  | submitted a _ hcall hkey hsave =>
    rw [find_save hsave]
    split_ifs with hid
    · exact .submitted a hcall hid hkey hreply
    · exact .kept
  | edited argument a b _ htarget hfind hedit hsave =>
    rw [find_save_edited hfind hedit hsave]
    split_ifs with hsame
    · refine .edited a b ⟨argument, htarget, hsame⟩ ?_ hedit hreply
      rw [find_eq_some_iff] at hfind ⊢
      rw [← hsame]
      exact hfind
    · exact .kept
  | recovered now hcall =>
    rcases find_recovered s now id with ⟨a, hfind, hrunning, hfound⟩ | hfound <;> rw [hfound]
    · exact .recovered a now hcall hfind hrunning
    · exact .kept

end Gaudere.Wake
