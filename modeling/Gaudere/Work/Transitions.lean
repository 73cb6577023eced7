import Gaudere.Work.Runtime

/-!
# What one call does to one task

`StoreStep` says everything a call can do to the store: keep it, save a submitted definition, save
an edit of the task the call names (`Edited`), or recover the tasks whose lease has expired.
`storeStep` proves it, and on the way that every save a call issues succeeds: a table holds
storable tasks only, and every edit of a storable task is storable. `RecordStep` is the same seen
from the record under one id.
-/

set_option autoImplicit false
set_option relaxedAutoImplicit false

namespace Gaudere.Work

open Gaudere.Library TaskStore

/-! ### Calls on one task -/

/-- The edit a call makes of the task it names, and none for a call that names no task. -/
def Call.edit (state : RuntimeState) : Call → Task → Option (Task × Reply)
  | .start _ leaseOwner now, task =>
    if state ≠ .running ∨ leaseOwner.isEmpty then none else Runtime.startEdit leaseOwner now task
  | .succeed _ output contentType metadataContentType metadata, task =>
    Runtime.succeedEdit output contentType metadataContentType metadata task
  | .fail _ failureCode failureMessage metadataContentType metadata, task =>
    Runtime.finishFailureEdit .failed failureCode failureMessage metadataContentType metadata task
  | .requireManualReview _ failureCode failureMessage metadataContentType metadata, task =>
    Runtime.finishFailureEdit .manualReview failureCode failureMessage metadataContentType metadata
      task
  | .requestCancel _ reason, task => Runtime.requestCancelEdit reason task
  | .markCancelled _, task => Runtime.markCancelledEdit task
  | _, _ => none

/-- The id of the task that a call names. -/
def Call.target : Call → Option Bytes
  | .start id _ _ => some id
  | .succeed id _ _ _ _ => some id
  | .fail id _ _ _ _ => some id
  | .requireManualReview id _ _ _ _ => some id
  | .requestCancel id _ => some id
  | .markCancelled id => some id
  | _ => none

/-- What a call on one task returns when it does nothing. -/
def Call.refusal : Call → Reply
  | .succeed _ _ _ _ _ => .finished .unavailable
  | _ => .flag false

/-- The replies of a call on one task that saved an edit. -/
def Reply.acted : Reply → Bool
  | .flag value => value
  | .finished .accepted => true
  | .finished .outputLimitExceeded => true
  | _ => false

/-- The clock value of a recovery. -/
def Call.recoveryAt : Call → Option TimePoint
  | .recover now => some now
  | .recoverExpired now => some now
  | _ => none

theorem recoveryAt_of_target {call : Call} {id : Bytes} (h : call.target = some id) :
    call.recoveryAt = none := by
  cases call <;> first | rfl | cases h

/-- A call on one task is `modify` with its edit. -/
theorem step_eq_modify (s : System) {call : Call} {id : Bytes} (h : call.target = some id) :
    machine.step s call = Runtime.modify s id call.refusal (call.edit s.state) := by
  cases call <;> simp only [Call.target, Option.some.injEq, reduceCtorEq] at h <;> subst h
  case start argument leaseOwner now =>
    simp only [machine, Runtime.start]
    split_ifs with hblocked
    · have hnone : Call.edit s.state (.start argument leaseOwner now) = fun _ ↦ none :=
        funext fun _ ↦ if_pos hblocked
      rw [hnone, Runtime.modify]
      cases TaskStore.find s.store argument <;> rfl
    · have hedit : Call.edit s.state (.start argument leaseOwner now) =
          Runtime.startEdit leaseOwner now := funext fun _ ↦ if_neg hblocked
      rw [hedit]
      rfl
  all_goals rfl

/-! ### Edits -/

/-- A result that goes with a terminal status of a task. -/
structure ResultFor (task : Task) (status : TaskStatus) (result : TaskResult) : Prop where
  terminal : isTerminal status = true
  succeeded : status = .succeeded → result.contentType ≠ [] ∧ result.failureCode = [] ∧
    result.output.length ≤ task.limits.maxOutputBytes.toNat
  unsuccessful : status ≠ .succeeded → result.failureCode ≠ []
  metadata : result.metadataContentType = [] ↔ result.metadata = []
  cancelled : status = .cancelled →
    task.status = .cancelRequested ∧ result.failureMessage = task.cancelReason

theorem ResultFor.of_failure {task : Task} {status : TaskStatus}
    {code message metadataContentType metadata : Bytes} (hterminal : isTerminal status = true)
    (hstatus : status ≠ .succeeded) (hcode : code ≠ [])
    (hmetadata : metadataContentType = [] ↔ metadata = [])
    (hcancelled : status = .cancelled →
      task.status = .cancelRequested ∧ message = task.cancelReason) :
    ResultFor task status (failureResult code message metadataContentType metadata) :=
  ⟨hterminal, fun h ↦ absurd h hstatus, fun _ ↦ hcode, hmetadata, hcancelled⟩

/-- The task with a terminal status, its result and no lease. -/
def Task.finished (task : Task) (status : TaskStatus) (result : TaskResult) : Task :=
  { task with
    status := status
    lease := none
    result := some result }

/-- Everything a call can make of the task it names. -/
inductive Edited (state : RuntimeState) (call : Call) (a : Task) : Task → Reply → Prop
  | started (id leaseOwner : Bytes) (now : TimePoint) (hcall : call = .start id leaseOwner now)
      (hstate : state = .running) (howner : leaseOwner ≠ [])
      (hstatus : a.status = .pending) (hattempts : a.attemptsStarted < a.limits.maxAttempts) :
      Edited state call a
        { a with
          attemptsStarted := a.attemptsStarted + 1
          status := .running
          lease := some
            { owner := leaseOwner, expiresAt := now + ofMilliseconds a.limits.maxRuntime } }
        (.flag true)
  | finished (status : TaskStatus) (result : TaskResult) (reply : Reply)
      (hstart : ∀ id leaseOwner now, call ≠ .start id leaseOwner now)
      (hcancel : ∀ id reason, call ≠ .requestCancel id reason) (hactive : active a.status = true)
      (hresult : ResultFor a status result) (hreply : reply.acted = true) :
      Edited state call a (a.finished status result) reply
  | cancelledPending (id reason : Bytes) (hcall : call = .requestCancel id reason)
      (hstatus : a.status = .pending) :
      Edited state call a
        { a with
          status := .cancelled
          cancelReason := reason
          result := some (failureResult (ascii "cancelled") reason) }
        (.flag true)
  | cancelRequested (id reason : Bytes) (hcall : call = .requestCancel id reason)
      (hstatus : a.status = .running) :
      Edited state call a
        { a with
          status := .cancelRequested
          cancelReason := reason }
        (.flag true)
  | cancelRepeated (id reason : Bytes) (hcall : call = .requestCancel id reason)
      (hstatus : a.status = .cancelRequested) : Edited state call a a (.flag true)

/-- The guard of a call that finishes a task. -/
theorem finish_guard {task : Task} {name metadataContentType metadata : Bytes}
    (h : ¬ (¬ active task.status = true ∨ name.isEmpty = true ∨
      metadataContentType.isEmpty ≠ metadata.isEmpty)) :
    active task.status = true ∧ name ≠ [] ∧ (metadataContentType = [] ↔ metadata = []) := by
  simp only [not_or, not_not, List.isEmpty_iff] at h
  obtain ⟨hactive, hname, hmetadata⟩ := h
  refine ⟨hactive, hname, ?_⟩
  rw [← List.isEmpty_iff, ← List.isEmpty_iff, hmetadata]

theorem edited_succeed {state : RuntimeState}
    {id output contentType metadataContentType metadata : Bytes} {a b : Task} {reply : Reply}
    (h : Runtime.succeedEdit output contentType metadataContentType metadata a = some (b, reply)) :
    Edited state (.succeed id output contentType metadataContentType metadata) a b reply := by
  unfold Runtime.succeedEdit at h
  split_ifs at h with hguard hlimit <;> obtain ⟨hactive, hcontentType, hmetadata⟩ :=
    finish_guard hguard <;> cases h
  · refine .finished .failed _ _ (by simp) (by simp) hactive ?_ rfl
    exact .of_failure rfl (by decide) (by decide) Iff.rfl (by simp)
  · refine .finished .succeeded _ _ (by simp) (by simp) hactive ?_ rfl
    exact ⟨rfl, fun _ ↦ ⟨hcontentType, rfl, not_lt.mp hlimit⟩, fun hne ↦ absurd rfl hne,
      hmetadata, by simp⟩

theorem edited_finishFailure {state : RuntimeState} {call : Call} {status : TaskStatus}
    {failureCode failureMessage metadataContentType metadata : Bytes} {a b : Task} {reply : Reply}
    (hstart : ∀ id leaseOwner now, call ≠ .start id leaseOwner now)
    (hcancel : ∀ id reason, call ≠ .requestCancel id reason)
    (hterminal : isTerminal status = true) (hsucceeded : status ≠ .succeeded)
    (hcancelled : status ≠ .cancelled)
    (h : Runtime.finishFailureEdit status failureCode failureMessage metadataContentType
      metadata a = some (b, reply)) : Edited state call a b reply := by
  unfold Runtime.finishFailureEdit at h
  split_ifs at h with hguard
  obtain ⟨hactive, hcode, hmetadata⟩ := finish_guard hguard
  cases h
  refine .finished status _ _ hstart hcancel hactive ?_ rfl
  exact .of_failure hterminal hsucceeded hcode hmetadata fun heq ↦ absurd heq hcancelled

theorem edited_requestCancel {state : RuntimeState} {id reason : Bytes} {a b : Task}
    {reply : Reply}
    (h : Runtime.requestCancelEdit reason a = some (b, reply)) :
    Edited state (.requestCancel id reason) a b reply := by
  unfold Runtime.requestCancelEdit at h
  split_ifs at h with hterminal
  split at h <;> cases h
  · exact .cancelledPending id reason rfl ‹_›
  · exact .cancelRequested id reason rfl ‹_›
  · exact .cancelRepeated id reason rfl ‹_›

theorem edited_of_edit {state : RuntimeState} {call : Call} {a b : Task} {reply : Reply}
    (h : call.edit state a = some (b, reply)) : Edited state call a b reply := by
  cases call <;> simp only [Call.edit, reduceCtorEq] at h
  case start id leaseOwner now =>
    unfold Runtime.startEdit at h
    split_ifs at h with hblocked hguard
    rw [not_or, not_not, List.isEmpty_iff] at hblocked
    rw [not_or, not_not, UInt32.not_le] at hguard
    cases h
    exact .started id leaseOwner now rfl hblocked.1 hblocked.2 hguard.1 hguard.2
  case succeed => exact edited_succeed h
  case fail =>
    exact edited_finishFailure (by simp) (by simp) rfl (by decide) (by decide) h
  case requireManualReview =>
    exact edited_finishFailure (by simp) (by simp) rfl (by decide) (by decide) h
  case requestCancel id reason => exact edited_requestCancel h
  case markCancelled id =>
    unfold Runtime.markCancelledEdit at h
    split_ifs at h with hstatus
    rw [not_not] at hstatus
    cases h
    refine .finished .cancelled _ _ (by simp) (by simp) (by rw [hstatus]; rfl) ?_ rfl
    exact .of_failure rfl (by decide) (by decide) Iff.rfl fun _ ↦ ⟨hstatus, rfl⟩

/-- What recovery makes of an active task: back to pending while it has attempts left, or finished
without success. -/
theorem recovered_cases {task : Task} (h : active task.status = true) :
    (task.status = .running ∧ task.attemptsStarted < task.limits.maxAttempts ∧
      Runtime.recovered task =
        { task with
          lease := none
          status := .pending }) ∨
    ∃ status result, ResultFor task status result ∧ status ≠ .succeeded ∧
      Runtime.recovered task = task.finished status result := by
  unfold Runtime.recovered
  split_ifs with hcancel hattempts
  · exact Or.inr ⟨.cancelled, _, .of_failure rfl (by decide) (by decide) Iff.rfl
      fun _ ↦ ⟨hcancel, rfl⟩, by decide, rfl⟩
  · have hrunning : task.status = .running := by
      simpa [active, hcancel] using h
    exact Or.inl ⟨hrunning, hattempts, rfl⟩
  · exact Or.inr ⟨.failed, _, .of_failure rfl (by decide) (by decide) Iff.rfl (by simp),
      by decide, rfl⟩

/-! ### Definitions and constraints -/

theorem Edited.acted {state : RuntimeState} {call : Call} {a b : Task} {reply : Reply}
    (h : Edited state call a b reply) : reply.acted = true := by
  cases h <;> first | rfl | assumption

/-- Two records of one submitted definition. -/
structure SameDefinition (a b : Task) : Prop where
  id : b.id = a.id
  idempotencyKey : b.idempotencyKey = a.idempotencyKey
  kind : b.kind = a.kind
  inputContentType : b.inputContentType = a.inputContentType
  input : b.input = a.input
  limits : b.limits = a.limits

theorem SameDefinition.refl (a : Task) : SameDefinition a a := ⟨rfl, rfl, rfl, rfl, rfl, rfl⟩

theorem SameDefinition.trans {a b c : Task} (hab : SameDefinition a b) (hbc : SameDefinition b c) :
    SameDefinition a c :=
  ⟨hbc.id.trans hab.id, hbc.idempotencyKey.trans hab.idempotencyKey, hbc.kind.trans hab.kind,
    hbc.inputContentType.trans hab.inputContentType, hbc.input.trans hab.input,
    hbc.limits.trans hab.limits⟩

theorem sameDefinition_stored (a : Task) : SameDefinition a (stored a) := by
  rw [stored_eq]
  exact ⟨rfl, rfl, rfl, rfl, rfl, rfl⟩

theorem sameDefinition_recovered (a : Task) : SameDefinition a (Runtime.recovered a) := by
  unfold Runtime.recovered
  split_ifs <;> exact ⟨rfl, rfl, rfl, rfl, rfl, rfl⟩

theorem Edited.sameDefinition {state : RuntimeState} {call : Call} {a b : Task} {reply : Reply}
    (h : Edited state call a b reply) : SameDefinition a b := by
  cases h <;> exact ⟨rfl, rfl, rfl, rfl, rfl, rfl⟩

theorem active_eq_false_of_terminal {status : TaskStatus} (h : isTerminal status = true) :
    active status = false := by
  cases status <;> first | rfl | cases h

/-- A storable task stays storable when it finishes. -/
theorem Task.Storable.finished {task : Task} {status : TaskStatus} {result : TaskResult}
    (h : task.Storable) (hterminal : isTerminal status = true) :
    (task.finished status result).Storable where
  maxInputBytes := h.maxInputBytes
  maxOutputBytes := h.maxOutputBytes
  maxRuntime := h.maxRuntime
  maxAttempts := h.maxAttempts
  attempts := h.attempts
  lease := (active_eq_false_of_terminal hterminal).symm
  result := hterminal.symm

/-- A started attempt is counted without wrapping. -/
theorem toNat_succ_of_lt {n m : UInt32} (h : n < m) : (n + 1).toNat = n.toNat + 1 := by
  have hlt := UInt32.lt_iff_toNat_lt.mp h
  have hmax := m.toNat_lt
  have hone : (1 : UInt32).toNat = 1 := rfl
  rw [UInt32.toNat_add, hone]
  exact Nat.mod_eq_of_lt (by omega)

theorem Edited.storable {state : RuntimeState} {call : Call} {a b : Task} {reply : Reply}
    (h : Edited state call a b reply) (ha : a.Storable) : b.Storable := by
  cases h with
  | started id leaseOwner now hcall hstate howner hstatus hattempts =>
    have hlt := UInt32.lt_iff_toNat_lt.mp hattempts
    have hresult := ha.result
    refine { ha with attempts := ?_, lease := rfl, result := ?_ }
    · rw [toNat_succ_of_lt hattempts]
      exact hlt
    · rw [hresult, hstatus]
      rfl
  | finished status result _ hstart hcancel hactive hresult hreply =>
    exact ha.finished hresult.terminal
  | cancelledPending id reason hcall hstatus =>
    have hlease := ha.lease
    refine { ha with lease := ?_, result := rfl }
    rw [hlease, hstatus]
    rfl
  | cancelRequested id reason hcall hstatus =>
    have hlease := ha.lease
    have hresult := ha.result
    refine { ha with lease := ?_, result := ?_ }
    · rw [hlease, hstatus]
      rfl
    · rw [hresult, hstatus]
      rfl
  | cancelRepeated id reason hcall hstatus => exact ha

theorem Task.Storable.recovered {task : Task} (h : task.Storable)
    (hactive : active task.status = true) : (Runtime.recovered task).Storable := by
  rcases recovered_cases hactive with ⟨hrunning, _, heq⟩ | ⟨status, result, hresult, _, heq⟩
  · have hnone := h.result
    rw [hrunning] at hnone
    rw [heq]
    exact { h with lease := rfl, result := hnone }
  · rw [heq]
    exact h.finished hresult.terminal

/-! ### One call -/

/-- A call whose edit passes its guard saves it. -/
theorem step_of_edit {s : System} {call : Call} {id : Bytes} {a b : Task} {reply : Reply}
    (htarget : call.target = some id) (hfind : find s.store id = some a)
    (hedit : call.edit s.state a = some (b, reply)) :
    ∃ store, save s.store b = some store ∧
      machine.step s call = ({ s with store := store }, reply) := by
  have hedited := edited_of_edit hedit
  have hmem := (find_eq_some_iff.mp hfind).1
  have hsame := hedited.sameDefinition
  obtain ⟨store, hstore⟩ := Encoding.save_revised hmem
    (check_bindTask_iff.mpr (hedited.storable (storable_of_mem hmem))) hsame.id
    hsame.idempotencyKey
  refine ⟨store, hstore, ?_⟩
  rw [step_eq_modify s htarget]
  simp only [Runtime.modify, hfind, hedit, Runtime.saveThen, save, hstore]

/-- A call on one task refuses, or finds the task and saves an edit of it. -/
theorem modify_cases (s : System) {call : Call} {id : Bytes} (htarget : call.target = some id) :
    machine.step s call = (s, call.refusal) ∨
    ∃ a b reply store, find s.store id = some a ∧ Edited s.state call a b reply ∧
      save s.store b = some store ∧ machine.step s call = ({ s with store := store }, reply) := by
  cases hfind : find s.store id with
  | none =>
    refine Or.inl ?_
    rw [step_eq_modify s htarget, Runtime.modify, hfind]
  | some a =>
    cases hedit : call.edit s.state a with
    | none =>
      refine Or.inl ?_
      rw [step_eq_modify s htarget]
      simp only [Runtime.modify, hfind, hedit]
    | some result =>
      obtain ⟨b, reply⟩ := result
      obtain ⟨store, hstore, hstep⟩ := step_of_edit htarget hfind hedit
      exact Or.inr ⟨a, b, reply, store, rfl, edited_of_edit hedit, hstore, hstep⟩

/-- A submission is refused, or saves the definition under fresh identities. -/
theorem submit_cases (s : System) (task : Task) :
    (∃ result, result ≠ .accepted ∧ Runtime.submit s task = (s, .submitted result)) ∨
    (task.Fresh ∧ find s.store task.id = none ∧
      findByIdempotencyKey s.store task.idempotencyKey = none ∧
      ∃ store, save s.store task = some store ∧
        Runtime.submit s task = ({ s with store := store }, .submitted .accepted)) := by
  unfold Runtime.submit
  split_ifs with hstate hvalid hduplicate
  · exact Or.inl ⟨.unavailable, by decide, rfl⟩
  · exact Or.inl ⟨.duplicate, by decide, rfl⟩
  · rw [not_or, Option.not_isSome_iff_eq_none, Option.not_isSome_iff_eq_none] at hduplicate
    have hfresh := fresh_of_validDefinition hvalid
    obtain ⟨store, hstore⟩ := Encoding.save_fresh (check_bindTask_iff.mpr hfresh.storable)
      hduplicate.2
    refine Or.inr ⟨hfresh, hduplicate.1, hduplicate.2, store, hstore, ?_⟩
    simp only [Runtime.saveThen, save, hstore]
  · exact Or.inl ⟨.invalid, by decide, rfl⟩

theorem active_recovered {task : Task} (h : active task.status = true) :
    active (Runtime.recovered task).status = false := by
  rcases recovered_cases h with ⟨_, _, heq⟩ | ⟨status, result, hresult, _, heq⟩ <;> rw [heq]
  · rfl
  · exact active_eq_false_of_terminal hresult.terminal

theorem recovered_lease (task : Task) : (Runtime.recovered task).lease = none := by
  unfold Runtime.recovered
  split_ifs <;> rfl

/-- The saves of a recovery all succeed. -/
theorem recovery_done (t : TaskTable) (now : TimePoint) :
    (taskEncoding.reviseAll t (expiredRow now) Runtime.recovered).2 = true := by
  refine Encoding.reviseAll_done (fun a ↦ (sameDefinition_recovered a).id)
    (fun a ↦ (sameDefinition_recovered a).idempotencyKey) fun row hrow hselected ↦ ?_
  have hcheck := t.consistent.checked row hrow
  rw [expiredRow_eq hcheck, expired, Bool.and_eq_true] at hselected
  exact check_bindTask_iff.mpr ((storable_readTask hcheck).recovered hselected.1)

theorem recoverExpired_eq (s : System) (now : TimePoint) :
    Runtime.recoverExpired s now =
      ({ s with
        store := (taskEncoding.reviseAll s.store (expiredRow now) Runtime.recovered).1 },
        .recovered (leasedWithExpiredLease s.store now).length) := by
  have hsaved : saveAll s.store ((leasedWithExpiredLease s.store now).map Runtime.recovered) =
      ((taskEncoding.reviseAll s.store (expiredRow now) Runtime.recovered).1, true) :=
    Prod.ext rfl (recovery_done s.store now)
  simp only [Runtime.recoverExpired, hsaved]

/-- A recovery returns the number of the tasks whose lease has expired. -/
theorem reply_recoverExpired (s : System) (now : TimePoint) :
    (machine.event s (.recoverExpired now)).reply =
      .recovered ((records s.store).countP (expired now)) := by
  have hreply : (machine.event s (.recoverExpired now)).reply =
      .recovered (leasedWithExpiredLease s.store now).length :=
    congrArg Prod.snd (recoverExpired_eq s now)
  rw [hreply, leasedWithExpiredLease_eq, ← List.countP_eq_length_filter]

theorem recover_eq (s : System) (now : TimePoint) :
    Runtime.recover s now =
      ({ state := .running
         store := (Runtime.recoverExpired s now).1.store }, .done) := by
  rw [Runtime.recover, recoverExpired_eq]

/-- After a recovery, an id finds the recovery of its task when the lease of the task has expired,
and otherwise what it found before. -/
theorem find_recovered (s : System) (now : TimePoint) (id : Bytes) :
    (∃ a, find s.store id = some a ∧ expired now a = true ∧
      find (Runtime.recoverExpired s now).1.store id = some (Runtime.recovered a)) ∨
    ((∀ a, find s.store id = some a → expired now a = false) ∧
      find (Runtime.recoverExpired s now).1.store id = find s.store id) := by
  rw [recoverExpired_eq]
  rcases Encoding.find_reviseAll (fun a ↦ (sameDefinition_recovered a).id)
    (recovery_done s.store now) id with ⟨row, hrow, hkey, hselected, hfound⟩ | ⟨hquiet, hfound⟩
  · rw [expiredRow_eq (s.store.consistent.checked row hrow)] at hselected
    refine Or.inl ⟨readTask row, find_eq_some_iff.mpr ⟨List.mem_map_of_mem hrow, hkey⟩,
      hselected, hfound.trans (congrArg some (stored_eq_self (recovered_lease _)))⟩
  · refine Or.inr ⟨fun a ha ↦ ?_, hfound⟩
    obtain ⟨hmem, rfl⟩ := find_eq_some_iff.mp ha
    obtain ⟨row, hrow, rfl⟩ := List.mem_map.mp hmem
    have hunselected := hquiet row hrow rfl
    rwa [expiredRow_eq (s.store.consistent.checked row hrow)] at hunselected

/-- What one call can do to the store, and what it replies. -/
inductive StoreStep (s : System) (call : Call) : TaskTable → Reply → Prop
  | kept (reply : Reply) (hrefused : ∀ id, call.target = some id → reply = call.refusal)
      (hsubmit : reply ≠ .submitted .accepted) (hrecovery : call.recoveryAt = none)
      (hreply : reply ≠ .threw) : StoreStep s call s.store reply
  | submitted (task : Task) (store : TaskTable) (hcall : call = .submit task) (hfresh : task.Fresh)
      (hfind : find s.store task.id = none)
      (hkey : findByIdempotencyKey s.store task.idempotencyKey = none)
      (hsave : save s.store task = some store) : StoreStep s call store (.submitted .accepted)
  | edited (id : Bytes) (a b : Task) (reply : Reply) (store : TaskTable)
      (htarget : call.target = some id) (hfind : find s.store id = some a)
      (hedited : Edited s.state call a b reply) (hsave : save s.store b = some store) :
      StoreStep s call store reply
  | recovered (now : TimePoint) (reply : Reply) (hcall : call.recoveryAt = some now)
      (hreply : reply ≠ .threw) : StoreStep s call (Runtime.recoverExpired s now).1.store reply

theorem storeStep_modify (s : System) {call : Call} {id : Bytes} (htarget : call.target = some id) :
    StoreStep s call (machine.step s call).1.store (machine.step s call).2 := by
  rcases modify_cases s htarget with hstep | ⟨a, b, reply, store, hfind, hedited, hsave, hstep⟩ <;>
    rw [hstep]
  · refine .kept _ (fun _ _ ↦ rfl) ?_ (recoveryAt_of_target htarget) ?_ <;>
      cases call <;> exact nofun
  · exact .edited id a b reply store htarget hfind hedited hsave

theorem storeStep_submit (s : System) (task : Task) :
    StoreStep s (.submit task) (machine.step s (.submit task)).1.store
      (machine.step s (.submit task)).2 := by
  have hsubmit : machine.step s (.submit task) = Runtime.submit s task := rfl
  rw [hsubmit]
  rcases submit_cases s task with
    ⟨result, hresult, hstep⟩ | ⟨hfresh, hfind, hkey, store, hsave, hstep⟩ <;> rw [hstep]
  · exact .kept _ nofun (fun h ↦ hresult (Reply.submitted.inj h)) rfl nofun
  · exact .submitted task store rfl hfresh hfind hkey hsave

/-- Every call does to the store one of the things `StoreStep` lists. -/
theorem storeStep (s : System) (call : Call) :
    StoreStep s call (machine.event s call).after.store (machine.event s call).reply := by
  change StoreStep s call (machine.step s call).1.store (machine.step s call).2
  cases call with
  | recover now =>
    have hstep : machine.step s (.recover now) = Runtime.recover s now := rfl
    rw [hstep, recover_eq]
    exact .recovered now .done rfl nofun
  | recoverExpired now =>
    refine .recovered now _ rfl ?_
    have hstep : machine.step s (.recoverExpired now) = Runtime.recoverExpired s now := rfl
    rw [hstep, recoverExpired_eq]
    exact nofun
  | nextRecoveryAt => exact .kept _ nofun nofun rfl nofun
  | submit task => exact storeStep_submit s task
  | start argument leaseOwner now => exact storeStep_modify s rfl
  | succeed argument => exact storeStep_modify s rfl
  | fail argument => exact storeStep_modify s rfl
  | requireManualReview argument => exact storeStep_modify s rfl
  | requestCancel argument reason => exact storeStep_modify s rfl
  | markCancelled argument => exact storeStep_modify s rfl
  | requestShutdown =>
    simp only [machine, Runtime.requestShutdown]
    split_ifs <;> exact .kept _ nofun nofun rfl nofun
  | tryMarkSafe =>
    simp only [machine, Runtime.tryMarkSafe]
    split_ifs <;> exact .kept _ nofun nofun rfl nofun
  | restart => exact .kept _ nofun nofun rfl nofun

/-- No call throws: every save it issues satisfies the constraints of the table. -/
theorem reply_ne_threw (s : System) (call : Call) : (machine.event s call).reply ≠ .threw := by
  have hstep := storeStep s call
  generalize (machine.event s call).reply = reply at hstep ⊢
  generalize (machine.event s call).after.store = store at hstep
  cases hstep with
  | kept _ _ _ _ hreply => exact hreply
  | submitted _ _ _ _ _ _ _ => exact nofun
  | edited _ _ _ _ _ _ _ hedited _ =>
    intro hthrew
    have hacted := hedited.acted
    rw [hthrew] at hacted
    cases hacted
  | recovered _ _ _ hreply => exact hreply

/-- What one call can do to the record under an id. -/
inductive RecordStep (s : System) (call : Call) (id : Bytes) : Option Task → Prop
  | kept (hrefused : call.target = some id → (machine.event s call).reply = call.refusal)
      (hsubmit : ∀ task, call = .submit task → task.id = id →
        (machine.event s call).reply ≠ .submitted .accepted)
      (hrecover : ∀ now a, call.recoveryAt = some now → find s.store id = some a →
        expired now a = false) : RecordStep s call id (find s.store id)
  | submitted (task : Task) (hcall : call = .submit task) (hid : task.id = id)
      (hfresh : task.Fresh) (hfind : find s.store id = none)
      (hkey : findByIdempotencyKey s.store task.idempotencyKey = none)
      (hreply : (machine.event s call).reply = .submitted .accepted) :
      RecordStep s call id (some task)
  | edited (a b : Task) (reply : Reply) (htarget : call.target = some id)
      (hfind : find s.store id = some a) (hedited : Edited s.state call a b reply)
      (hreply : (machine.event s call).reply = reply) : RecordStep s call id (some (stored b))
  | recovered (a : Task) (now : TimePoint) (hcall : call.recoveryAt = some now)
      (hfind : find s.store id = some a) (hexpired : expired now a = true) :
      RecordStep s call id (some (Runtime.recovered a))

/-- Every call does to the record of an id one of the things `RecordStep` lists. -/
theorem recordStep (s : System) (call : Call) (id : Bytes) :
    RecordStep s call id (find (machine.event s call).after.store id) := by
  have hstep := storeStep s call
  generalize hreply : (machine.event s call).reply = reply at hstep
  generalize (machine.event s call).after.store = store at hstep ⊢
  cases hstep with
  | kept _ hrefused hsubmit hrecovery _ =>
    refine .kept (fun htarget ↦ hreply.trans (hrefused id htarget)) (fun _ _ _ ↦ ?_) ?_
    · rw [hreply]
      exact hsubmit
    · intro now a hnow
      rw [hrecovery] at hnow
      cases hnow
  | submitted task _ hcall hfresh hfind hkey hsave =>
    subst hcall
    rw [find_save hsave]
    split_ifs with hid
    · have hlease := hfresh.storable.lease
      rw [hfresh.status] at hlease
      rw [stored_eq_self (Option.not_isSome_iff_eq_none.mp (by rw [hlease]; decide))]
      exact .submitted task rfl hid hfresh (hid ▸ hfind) hkey hreply
    · refine .kept nofun (fun other hother hsame ↦ ?_) (fun _ _ h ↦ by cases h)
      cases hother
      exact absurd hsame hid
  | edited argument a b _ _ htarget hfind hedited hsave =>
    have hid : b.id = argument := hedited.sameDefinition.id.trans (find_eq_some_iff.mp hfind).2
    rw [find_save hsave]
    split_ifs with hsame
    · obtain rfl : argument = id := hid.symm.trans hsame
      exact .edited a b reply htarget hfind hedited hreply
    · refine .kept (fun hother ↦ absurd ?_ hsame) ?_ ?_
      · rw [htarget, Option.some.injEq] at hother
        rw [hid, hother]
      · rintro task rfl
        cases htarget
      · intro now a hnow
        rw [recoveryAt_of_target htarget] at hnow
        cases hnow
  | recovered now _ hcall _ =>
    rcases find_recovered s now id with ⟨a, hfind, hexpired, hfound⟩ | ⟨hquiet, hfound⟩ <;>
      rw [hfound]
    · exact .recovered a now hcall hfind hexpired
    · refine .kept (fun htarget ↦ ?_) (fun task htask ↦ ?_) fun now' a hnow hfind ↦ ?_
      · rw [recoveryAt_of_target htarget] at hcall
        cases hcall
      · rw [htask] at hcall
        cases hcall
      · obtain rfl : now = now' := Option.some.inj (hcall.symm.trans hnow)
        exact hquiet a hfind

/-- What one call does to a stored task: keep it and refuse, edit it, or recover it. -/
theorem found_after {s : System} {id : Bytes} {a : Task} (h : find s.store id = some a)
    (call : Call) :
    (find (machine.event s call).after.store id = some a ∧
      (call.target = some id → (machine.event s call).reply = call.refusal) ∧
      ∀ now, call.recoveryAt = some now → expired now a = false) ∨
    (∃ b reply, call.target = some id ∧ Edited s.state call a b reply ∧
      (machine.event s call).reply = reply ∧
      find (machine.event s call).after.store id = some (stored b)) ∨
    ∃ now, call.recoveryAt = some now ∧ expired now a = true ∧
      find (machine.event s call).after.store id = some (Runtime.recovered a) := by
  have hstep := recordStep s call id
  generalize find (machine.event s call).after.store id = after at hstep ⊢
  cases hstep with
  | kept hrefused _ hrecover => exact Or.inl ⟨h, hrefused, fun now hnow ↦ hrecover now a hnow h⟩
  | submitted task _ _ _ hfind _ _ =>
    rw [h] at hfind
    cases hfind
  | edited a' b reply htarget hfind hedited hreply =>
    obtain rfl : a = a' := Option.some.inj (h.symm.trans hfind)
    exact Or.inr (Or.inl ⟨b, reply, htarget, hedited, hreply, rfl⟩)
  | recovered a' now hcall hfind hexpired =>
    obtain rfl : a = a' := Option.some.inj (h.symm.trans hfind)
    exact Or.inr (Or.inr ⟨now, hcall, hexpired, rfl⟩)

/-- A call on one task that does not refuse finds the task and saves an edit of it. -/
theorem edited_of_not_refused {s : System} {call : Call} {id : Bytes}
    (htarget : call.target = some id) (hreply : (machine.event s call).reply ≠ call.refusal) :
    ∃ a b, find s.store id = some a ∧ Edited s.state call a b (machine.event s call).reply ∧
      find (machine.event s call).after.store id = some (stored b) := by
  have hstep := recordStep s call id
  generalize find (machine.event s call).after.store id = after at hstep ⊢
  cases hstep with
  | kept hrefused _ _ => exact absurd (hrefused htarget) hreply
  | submitted _ hcall _ _ _ _ _ =>
    rw [hcall] at htarget
    cases htarget
  | edited a b _ _ hfind hedited hreplied => exact ⟨a, b, hfind, hreplied ▸ hedited, rfl⟩
  | recovered _ _ hcall _ _ =>
    rw [recoveryAt_of_target htarget] at hcall
    cases hcall

/-- A stored task stays stored under its definition. -/
theorem sameDefinition_after {s : System} {id : Bytes} {a : Task} (h : find s.store id = some a)
    (call : Call) :
    ∃ b, find (machine.event s call).after.store id = some b ∧ SameDefinition a b := by
  rcases found_after h call with ⟨hkept, _, _⟩ | ⟨b, _, _, hedited, _, hafter⟩ | ⟨_, _, _, hafter⟩
  · exact ⟨a, hkept, .refl a⟩
  · exact ⟨_, hafter, hedited.sameDefinition.trans (sameDefinition_stored b)⟩
  · exact ⟨_, hafter, sameDefinition_recovered a⟩

/-- An accepted submission stores the definition, under identities that were free. -/
theorem accepted_cases {s : System} {task : Task}
    (h : (machine.event s (.submit task)).reply = .submitted .accepted) :
    find s.store task.id = none ∧ findByIdempotencyKey s.store task.idempotencyKey = none ∧
      find (machine.event s (.submit task)).after.store task.id = some task := by
  have hstep := recordStep s (.submit task) task.id
  generalize find (machine.event s (.submit task)).after.store task.id = after at hstep ⊢
  cases hstep with
  | kept _ hsubmit _ => exact absurd h (hsubmit task rfl rfl)
  | submitted task' hcall _ _ hfind hkey _ =>
    cases hcall
    exact ⟨hfind, hkey, rfl⟩
  | edited _ _ _ htarget _ _ _ => cases htarget
  | recovered _ _ hcall _ _ => cases hcall

/-- The task of an accepted submission stays stored, under its definition. -/
theorem accepted_task_after_run {calls : List Call} {e : Event System Call Reply}
    (he : e ∈ machine.history System.initial calls) {task : Task} (hcall : e.call = .submit task)
    (hreply : e.reply = .submitted .accepted) :
    ∃ final, find (machine.run System.initial calls).store task.id = some final ∧
      SameDefinition task final := by
  obtain ⟨earlier, later, hsplit⟩ := List.append_of_mem he
  have hstored : find e.after.store task.id = some task := by
    rw [machine.eq_event_of_mem_history he, hcall] at hreply ⊢
    exact (accepted_cases hreply).2.2
  refine (Machine.invariant_after (P := fun s : System ↦
      ∃ final, find s.store task.id = some final ∧ SameDefinition task final)
    ?_ (machine.unrestricted _ _) hsplit ⟨task, hstored, .refl task⟩).2
  rintro s call _ ⟨a, ha, hsame⟩
  obtain ⟨b, hb, hsame'⟩ := sameDefinition_after ha call
  exact ⟨b, hb, hsame.trans hsame'⟩

theorem isTerminal_eq_false_of_active {status : TaskStatus} (h : active status = true) :
    isTerminal status = false := by
  cases status <;> first | rfl | cases h

theorem Edited.unfinished {state : RuntimeState} {call : Call} {a b : Task} {reply : Reply}
    (h : Edited state call a b reply) : isTerminal a.status = false := by
  cases h with
  | started _ _ _ _ _ _ hstatus _ => rw [hstatus]; rfl
  | finished _ _ _ _ _ hactive _ _ => exact isTerminal_eq_false_of_active hactive
  | cancelledPending _ _ _ hstatus => rw [hstatus]; rfl
  | cancelRequested _ _ _ hstatus => rw [hstatus]; rfl
  | cancelRepeated _ _ _ hstatus => rw [hstatus]; rfl

/-- A finished task is kept, and calls on it refuse. -/
theorem terminal_after {s : System} {id : Bytes} {a : Task} (h : find s.store id = some a)
    (hterminal : isTerminal a.status = true) (call : Call) :
    find (machine.event s call).after.store id = some a ∧
      (call.target = some id → (machine.event s call).reply = call.refusal) := by
  rcases found_after h call with ⟨hkept, hrefused, _⟩ | ⟨b, _, _, hedited, _⟩ |
    ⟨now, _, hexpired, _⟩
  · exact ⟨hkept, hrefused⟩
  · rw [hedited.unfinished] at hterminal
    cases hterminal
  · rw [isTerminal_eq_false_of_active (active_of_expired hexpired)] at hterminal
    cases hterminal

/-- From when a task is finished, its record stays as it is and calls on it refuse. -/
theorem terminal_from {calls : List Call} {id : Bytes} {task : Task}
    {earlier later : List (Event System Call Reply)} {e : Event System Call Reply}
    (hsplit : machine.history System.initial calls = earlier ++ e :: later)
    (hfind : find e.before.store id = some task) (hterminal : isTerminal task.status = true) :
    ∀ e' ∈ e :: later, find e'.after.store id = some task ∧
      (e'.call.target = some id → e'.reply = e'.call.refusal) := by
  obtain ⟨past, call, future, _, _, rfl, rfl⟩ := machine.history_split hsplit
  intro e' he'
  obtain ⟨heq, hbefore, hafter⟩ := Machine.history_invariant (m := machine)
    (P := fun s : System ↦ find s.store id = some task)
    (fun _ call _ h ↦ (terminal_after h hterminal call).1)
    (machine.unrestricted _ (call :: future)) hfind he'
  refine ⟨hafter, ?_⟩
  rw [heq]
  exact (terminal_after hbefore hterminal e'.call).2

end Gaudere.Work
