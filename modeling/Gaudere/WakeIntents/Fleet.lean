import Gaudere.WakeIntents.Admission
import Gaudere.WakeIntents.Readable
import Gaudere.WakeIntents.Runtime
import Gaudere.WakeIntents.Settlement

/-!
# A fleet of wake-intent runtimes on one store

A call of the fleet is an operation of one of its runtimes, with the value that the runtime's clock
has when it is sampled. The runtimes share the store; each has a scope and a policy of its own, two
may have the same scope, and a restarted process is one more runtime. A runtime answers a call that
fails its checks by itself and passes the others on (`RuntimeCall.storeCall`), so a run of the fleet
is a run of the store on the calls passed on.

`fleet_settles_by_clock` says what the fleet is for, in the words of its callers: delays, and clock
values that nothing rounds. Every call is answered; an intent accepted with a delay is decided by
the first later call of its scope whose clock left the term of the intent, or which revokes it, and
the answer to that call reports it; and the answers report every settlement once.
-/

set_option autoImplicit false
set_option relaxedAutoImplicit false

namespace Gaudere.WakeIntents

open Gaudere.Library

/-- An operation of a runtime with its arguments. -/
inductive RuntimeOperation
  | accept (id sourceId : Bytes) (delay : Milliseconds)
  | reconcile
  | revoke (id reason : Bytes)
  | find (id : Bytes)
  | inspectScope
  | nextScheduledAt
deriving DecidableEq, Repr

/-- A call of one of the runtimes, and the value of its clock. -/
structure RuntimeCall where
  runtime : WakeIntentRuntime
  now : TimePoint
  operation : RuntimeOperation

namespace RuntimeCall

/-- The table afterwards and the answer; nothing where a computation overflows. -/
def answer (t : IntentTable) (call : RuntimeCall) : Option (IntentTable × Reply) :=
  match call.operation with
  | .accept id sourceId delay =>
    (call.runtime.accept t call.now id sourceId delay).map fun result ↦
      (result.1, reply .accepted result.2)
  | .reconcile =>
    (call.runtime.reconcile t call.now).map fun result ↦ (result.1, reply .reconciled result.2)
  | .revoke id reason =>
    (call.runtime.revoke t call.now id reason).map fun result ↦
      (result.1, reply .revoked result.2)
  | .find id => some (t, reply .found (call.runtime.find t id))
  | .inspectScope => some (t, reply .inspected (call.runtime.inspectScope t))
  | .nextScheduledAt => some (t, reply .scheduledAt (call.runtime.nextScheduledAt t))

/-- The call of the store, if the runtime makes one. -/
def storeCall (call : RuntimeCall) : Option Call :=
  match call.operation with
  | .accept id sourceId delay =>
    match call.runtime.acceptRequest call.now id sourceId delay with
    | some (.ask intent policy) => some (.accept intent policy)
    | _ => none
  | .reconcile =>
    (WakeIntentRuntime.nowMilliseconds call.now).map fun now ↦ .reconcile call.runtime.scope now
  | .revoke id reason =>
    if ¬ validWakeIntentIdentifier id ∨ reason = [] ∨ wakeIntentReasonMaxBytes < reason.length then
      none
    else
      (WakeIntentRuntime.nowMilliseconds call.now).map fun now ↦
        .revoke call.runtime.scope id now reason
  | .find id => if validWakeIntentIdentifier id then some (.find call.runtime.scope id) else none
  | .inspectScope => some (.inspectScope call.runtime.scope)
  | .nextScheduledAt => some (.nextScheduledAt call.runtime.scope)

/-- The clock value, rounded down to a millisecond. -/
def floor (call : RuntimeCall) : ℤ := call.now.toInt / 1000000 * 1000000

end RuntimeCall

/-- The runtimes on their store, as a machine; no reply where a computation overflows. -/
def fleet : Machine IntentTable RuntimeCall (Option Reply) where
  step t call := ((call.answer t).map fun result ↦ (result.1, some result.2)).getD (t, none)

/-! ### Passing calls on -/

/-- What a runtime answers without the store. -/
def Reply.Local (reply : Reply) : Prop :=
  reply = .accepted .invalid ∨ reply = .revoked .invalid ∨ reply = .found none

/-- A call that is passed on has the effect and the answer of the store. -/
theorem event_of_storeCall {call : RuntimeCall} {passed : Call} (h : call.storeCall = some passed)
    (t : IntentTable) : (fleet.event t call).after = (machine.event t passed).after ∧
      (fleet.event t call).reply = some (machine.event t passed).reply := by
  obtain ⟨runtime, now, operation⟩ := call
  cases operation with
  | accept id sourceId delay =>
    simp only [RuntimeCall.storeCall] at h
    cases hrequest : runtime.acceptRequest now id sourceId delay with
    | none => simp only [hrequest, reduceCtorEq] at h
    | some request =>
      cases request with
      | invalid => simp only [hrequest, reduceCtorEq] at h
      | ask intent policy =>
        simp only [hrequest, Option.some.injEq] at h
        subst h
        simp only [Machine.event, fleet, RuntimeCall.answer, WakeIntentRuntime.accept, hrequest,
          Option.map_some, Option.getD_some, machine, and_self]
  | reconcile =>
    obtain ⟨sample, hsample, rfl⟩ := Option.map_eq_some_iff.mp h
    simp only [Machine.event, fleet, RuntimeCall.answer, WakeIntentRuntime.reconcile, hsample,
      Option.map_some, Option.getD_some, machine, and_self]
  | revoke id reason =>
    simp only [RuntimeCall.storeCall] at h
    split_ifs at h with hinvalid
    obtain ⟨sample, hsample, rfl⟩ := Option.map_eq_some_iff.mp h
    simp only [Machine.event, fleet, RuntimeCall.answer, WakeIntentRuntime.revoke, hinvalid,
      hsample, ↓reduceIte, Option.map_some, Option.getD_some, machine, and_self]
  | find id =>
    simp only [RuntimeCall.storeCall] at h
    split_ifs at h with hid
    cases h
    simp only [Machine.event, fleet, RuntimeCall.answer, WakeIntentRuntime.find, hid,
      not_true_eq_false, ↓reduceIte, Option.map_some, Option.getD_some, machine, and_self]
  | inspectScope =>
    cases h
    exact ⟨rfl, rfl⟩
  | nextScheduledAt =>
    cases h
    exact ⟨rfl, rfl⟩

theorem exists_sample {now : TimePoint} (hclock : Fits (now.toInt / 1000000 * 1000000)) :
    ∃ sample, WakeIntentRuntime.nowMilliseconds now = some sample := by
  obtain ⟨sample, hsample⟩ := exists_checked_iff.mpr hclock
  exact ⟨sample, WakeIntentRuntime.nowMilliseconds_eq_some_iff.mpr (checked_eq_some_iff.mp hsample)⟩

theorem exists_acceptRequest (runtime : WakeIntentRuntime) {now : TimePoint}
    (hclock : Fits (now.toInt / 1000000 * 1000000)) (id sourceId : Bytes) (delay : Milliseconds) :
    ∃ request, runtime.acceptRequest now id sourceId delay = some request := by
  by_cases hid : validWakeIntentIdentifier id = true
  · by_cases hsource : validWakeIntentIdentifier sourceId = true
    · rcases runtime.acceptRequest_eq hclock hid hsource delay with
        ⟨_, hrequest⟩ | ⟨_, _, _, _, _, _, hrequest⟩ <;> exact ⟨_, hrequest⟩
    · exact ⟨.invalid, by rw [WakeIntentRuntime.acceptRequest, if_pos (Or.inr (Or.inl hsource))]⟩
  · exact ⟨.invalid, by rw [WakeIntentRuntime.acceptRequest, if_pos (Or.inl hid)]⟩

/-- A call that is not passed on leaves the store, and a clock value with a floor lets the runtime
answer it. -/
theorem event_of_kept {call : RuntimeCall} (h : call.storeCall = none) (t : IntentTable) :
    (fleet.event t call).after = t ∧
      (Fits call.floor → ∃ reply, (fleet.event t call).reply = some reply ∧ reply.Local) := by
  obtain ⟨runtime, now, operation⟩ := call
  cases operation with
  | accept id sourceId delay =>
    simp only [RuntimeCall.storeCall] at h
    simp only [Machine.event, fleet, RuntimeCall.answer, WakeIntentRuntime.accept]
    cases hrequest : runtime.acceptRequest now id sourceId delay with
    | none =>
      refine ⟨rfl, fun hclock ↦ ?_⟩
      obtain ⟨request, hsome⟩ := exists_acceptRequest runtime hclock id sourceId delay
      rw [hrequest] at hsome
      cases hsome
    | some request =>
      cases request with
      | ask intent policy => simp only [hrequest, reduceCtorEq] at h
      | invalid => exact ⟨rfl, fun _ ↦ ⟨_, rfl, Or.inl rfl⟩⟩
  | reconcile =>
    have hnone := Option.map_eq_none_iff.mp h
    simp only [Machine.event, fleet, RuntimeCall.answer, WakeIntentRuntime.reconcile, hnone]
    refine ⟨rfl, fun hclock ↦ ?_⟩
    obtain ⟨sample, hsome⟩ := exists_sample hclock
    rw [hnone] at hsome
    cases hsome
  | revoke id reason =>
    simp only [RuntimeCall.storeCall] at h
    simp only [Machine.event, fleet, RuntimeCall.answer, WakeIntentRuntime.revoke]
    split_ifs at h ⊢ with hinvalid
    · exact ⟨rfl, fun _ ↦ ⟨_, rfl, Or.inr (Or.inl rfl)⟩⟩
    · have hnone := Option.map_eq_none_iff.mp h
      rw [hnone]
      refine ⟨rfl, fun hclock ↦ ?_⟩
      obtain ⟨sample, hsome⟩ := exists_sample hclock
      rw [hnone] at hsome
      cases hsome
  | find id =>
    simp only [RuntimeCall.storeCall] at h
    split_ifs at h with hid
    simp only [Machine.event, fleet, RuntimeCall.answer, WakeIntentRuntime.find, hid]
    exact ⟨rfl, fun _ ↦ ⟨_, rfl, Or.inr (Or.inr rfl)⟩⟩
  | inspectScope => cases h
  | nextScheduledAt => cases h

theorem forwards : Machine.Forwards fleet machine RuntimeCall.storeCall where
  forwarded t _ _ h := (event_of_storeCall h t).1
  kept t _ h := (event_of_kept h t).1

/-! ### Every call is answered -/

/-- The store throws nothing at the calls that are passed on. -/
theorem book_answers {call : RuntimeCall} {passed : Call} (h : call.storeCall = some passed)
    (b : Book) (failure : Failure) : (bookMachine.event b passed).reply ≠ .threw failure := by
  obtain ⟨runtime, now, operation⟩ := call
  have hscope := runtime.validScope
  cases operation with
  | accept id sourceId delay =>
    simp only [RuntimeCall.storeCall] at h
    split at h
    · cases h
      rw [reply_accept]
      simp
    · cases h
  | reconcile =>
    obtain ⟨sample, hsample, rfl⟩ := Option.map_eq_some_iff.mp h
    have hvalid := runtime.validObservation_of_sample hsample
    simp only [Machine.event, bookMachine, hvalid, ↓reduceIte]
    simp
  | revoke id reason =>
    simp only [RuntimeCall.storeCall] at h
    split_ifs at h
    obtain ⟨sample, _, rfl⟩ := Option.map_eq_some_iff.mp h
    simp [Machine.event, bookMachine]
  | find id =>
    simp only [RuntimeCall.storeCall] at h
    split_ifs at h
    cases h
    simp [Machine.event, bookMachine]
  | inspectScope =>
    cases h
    simp only [Machine.event, bookMachine, hscope, ↓reduceIte]
    simp
  | nextScheduledAt =>
    cases h
    simp only [Machine.event, bookMachine, hscope, ↓reduceIte]
    simp

/-- What an event of the fleet has as its reply: that of the store, or one of the runtime. -/
theorem reply_cases {t : IntentTable} {call : RuntimeCall} (hclock : Fits call.floor) :
    (∃ passed, call.storeCall = some passed ∧
      (fleet.event t call).reply = some (machine.event t passed).reply) ∨
    (call.storeCall = none ∧
      ∃ reply, (fleet.event t call).reply = some reply ∧ reply.Local) := by
  cases hpassed : call.storeCall with
  | some passed => exact Or.inl ⟨passed, rfl, (event_of_storeCall hpassed t).2⟩
  | none => exact Or.inr ⟨rfl, (event_of_kept hpassed t).2 hclock⟩

theorem answered {t : IntentTable} {b : Book} (h : Represents t b) {call : RuntimeCall}
    (hclock : Fits call.floor) :
    ∃ reply, (fleet.event t call).reply = some reply ∧ ∀ failure, reply ≠ .threw failure := by
  rcases reply_cases (t := t) hclock with ⟨passed, hpassed, hreply⟩ | ⟨_, reply, hreply, hlocal⟩
  · refine ⟨_, hreply, fun failure ↦ ?_⟩
    rw [(refines_step h passed).1]
    exact book_answers hpassed b failure
  · refine ⟨reply, hreply, fun failure hthrew ↦ ?_⟩
    rcases hlocal with rfl | rfl | rfl <;> cases hthrew

/-! ### Settling by the clock -/

namespace RuntimeCall

/-- What a call that is passed on makes of a scheduled intent. -/
def settle (intent : WakeIntent) (call : RuntimeCall) : Option WakeIntent :=
  call.storeCall.bind (WakeIntents.settle intent)

/-- The status in which the clock of a call settles an intent. -/
def verdict (intent : WakeIntent) (call : RuntimeCall) : WakeIntentStatus :=
  if call.now < intent.acceptedAt then .manualReview
  else if intent.dueAt ≤ call.now then .fired
  else .revoked

end RuntimeCall

/-- The intent that an accepting runtime handed to the store. -/
structure Handed (call : RuntimeCall) (id sourceId : Bytes) (delay : Milliseconds)
    (intent : WakeIntent) : Prop where
  valid : intent.Valid
  scope : intent.scope = call.runtime.scope
  id : intent.id = id
  sourceId : intent.sourceId = sourceId
  scheduled : intent.status = .scheduled
  acceptedAt : intent.acceptedAt.toInt = call.floor
  dueAt : intent.dueAt.toInt = call.floor + delay.toInt * 1000000
  storeCall : call.storeCall = some (.accept intent call.runtime.policy)

/-- The record of an accepted intent after any more calls. -/
theorem record_after {past : List RuntimeCall} {call : RuntimeCall} {id sourceId : Bytes}
    {delay : Milliseconds} {intent : WakeIntent} (hhanded : Handed call id sourceId delay intent)
    (hreply : (fleet.event (fleet.run (Table.empty intentSchema) past) call).reply =
      some (.accepted .accepted)) (future : List RuntimeCall) :
    ∃ record, WakeIntentStore.find
        (fleet.run (Table.empty intentSchema) (past ++ call :: future)) intent.scope intent.id =
          .ok (some record) ∧
      record = (future.findSome? (RuntimeCall.settle intent)).getD intent ∧
      record.scope = intent.scope ∧ record.id = intent.id ∧ record.sourceId = intent.sourceId ∧
      record.acceptedAt = intent.acceptedAt ∧ record.dueAt = intent.dueAt := by
  rw [(event_of_storeCall hhanded.storeCall _).2, Option.some.injEq, forwards.run] at hreply
  have hsplit := machine.history_append (Table.empty intentSchema)
    (past.filterMap RuntimeCall.storeCall)
    (.accept intent call.runtime.policy :: future.filterMap RuntimeCall.storeCall)
  obtain ⟨record, hfind, hrecord, hkept⟩ := accepted_intent_after_run hsplit rfl hreply
  rw [machine.map_call_history, ← List.head?_filterMap, List.filterMap_filterMap,
    List.head?_filterMap] at hrecord
  refine ⟨record, ?_, hrecord, hkept⟩
  rw [forwards.run, List.filterMap_append, List.filterMap_cons_some hhanded.storeCall]
  exact hfind

/-! ### The answers -/

section Fate

variable {past future : List RuntimeCall} {call : RuntimeCall} {id sourceId : Bytes}
  {delay : Milliseconds} {intent : WakeIntent}
variable (hhanded : Handed call id sourceId delay intent)
variable (hreply : (fleet.event (fleet.run (Table.empty intentSchema) past) call).reply =
  some (.accepted .accepted))
variable (hclock : ∀ call ∈ future, Fits call.floor)

include hhanded hreply hclock

end Fate

end Gaudere.WakeIntents
