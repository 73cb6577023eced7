import Gaudere.WakeIntents.Store

/-!
# The book of wake intents

`Book` says what the store is for, without tables: the accepted intents in acceptance order, valid
and with distinct identities. A call adds an intent, or moves scheduled intents to the status that
its clock value settles them in (`settle`), or asks about the book. `bookMachine` runs the same
calls as the store and gives the same replies; that the store refines it is proved separately.
-/

set_option autoImplicit false
set_option relaxedAutoImplicit false

namespace Gaudere.WakeIntents

open Gaudere.Library

/-! ### Settling one intent -/

/-- The intent with terminal fields. -/
def WakeIntent.settled (intent : WakeIntent) (status : WakeIntentStatus) (now : TimePoint)
    (reason : Bytes) : WakeIntent :=
  { intent with
    status := status
    terminalAt := some now
    terminalReason := reason }

/-- What an observation at a clock value outside its term makes of a scheduled intent: review when
the clock is before the acceptance, firing at or after the deadline. -/
def WakeIntent.observed (intent : WakeIntent) (now : TimePoint) : Option WakeIntent :=
  if now < intent.acceptedAt then
    some (intent.settled .manualReview now (ascii "clock_rollback"))
  else if intent.dueAt ≤ now then some (intent.settled .fired now [])
  else none

/-- The arguments of a revocation that is not rejected. -/
def validRevocation (scope id : Bytes) (now : TimePoint) (reason : Bytes) : Bool :=
  validObservation scope now && validWakeIntentIdentifier id && !reason.isEmpty &&
    reason.length ≤ wakeIntentReasonMaxBytes

/-- What a call makes of a scheduled intent that it settles. -/
def settle (intent : WakeIntent) : Call → Option WakeIntent
  | .reconcile scope now =>
    if validObservation scope now ∧ scope = intent.scope then intent.observed now else none
  | .revoke scope id now reason =>
    if validRevocation scope id now reason ∧ scope = intent.scope ∧ id = intent.id then
      some ((intent.observed now).getD (intent.settled .revoked now reason))
    else none
  | _ => none

/-- What a call makes of an intent. -/
def advance (call : Call) (intent : WakeIntent) : WakeIntent :=
  if intent.status = .scheduled then (settle intent call).getD intent else intent

/-- The call settles the intent in a status. -/
def settlesIn (call : Call) (status : WakeIntentStatus) (intent : WakeIntent) : Bool :=
  intent.status == .scheduled && (settle intent call).any fun settled ↦ settled.status == status

/-- An intent before and after a settlement. -/
structure Settles (intent settled : WakeIntent) (now : TimePoint) : Prop where
  scope : settled.scope = intent.scope
  id : settled.id = intent.id
  sourceId : settled.sourceId = intent.sourceId
  acceptedAt : settled.acceptedAt = intent.acceptedAt
  dueAt : settled.dueAt = intent.dueAt
  terminal : settled.status ≠ .scheduled
  terminalAt : settled.terminalAt = some now

theorem observed_cases {intent settled : WakeIntent} {now : TimePoint}
    (h : intent.observed now = some settled) :
    (now < intent.acceptedAt ∧
      settled = intent.settled .manualReview now (ascii "clock_rollback")) ∨
    (intent.acceptedAt ≤ now ∧ intent.dueAt ≤ now ∧ settled = intent.settled .fired now []) := by
  unfold WakeIntent.observed at h
  split_ifs at h with hbefore hdue
  · exact Or.inl ⟨hbefore, (Option.some.inj h).symm⟩
  · refine Or.inr ⟨?_, hdue, (Option.some.inj h).symm⟩
    rw [Int64.lt_iff_toInt_lt] at hbefore
    rw [Int64.le_iff_toInt_le]
    omega

theorem observed_eq_none {intent : WakeIntent} {now : TimePoint} (h : intent.observed now = none) :
    intent.acceptedAt ≤ now ∧ now < intent.dueAt := by
  unfold WakeIntent.observed at h
  split_ifs at h with hbefore hdue
  rw [Int64.lt_iff_toInt_lt] at hbefore ⊢
  rw [Int64.le_iff_toInt_le] at hdue ⊢
  omega

/-- A settlement keeps the identity and the times of the intent, and what it writes is valid. -/
theorem Settles.of_observed {intent settled : WakeIntent} {now : TimePoint}
    (h : intent.observed now = some settled) : Settles intent settled now := by
  rcases observed_cases h with ⟨_, rfl⟩ | ⟨_, _, rfl⟩ <;>
    exact ⟨rfl, rfl, rfl, rfl, rfl, by simp [WakeIntent.settled], rfl⟩

theorem WakeIntent.Valid.observed {intent settled : WakeIntent} {now : TimePoint}
    (h : intent.Valid) (hnow : Aligned now) (hobserved : intent.observed now = some settled) :
    settled.Valid := by
  have haligned : ∀ terminalAt, some now = some terminalAt → Aligned terminalAt := by
    rintro _ ⟨⟩
    exact hnow
  have hlength : (ascii "clock_rollback").length ≤ 1024 := by decide
  rcases observed_cases hobserved with ⟨_, rfl⟩ | ⟨_, hdue, rfl⟩
  · exact ⟨h.scope, h.id, h.sourceId, h.acceptedAt, h.dueAt, h.ordered, hlength, rfl, haligned⟩
  · refine ⟨h.scope, h.id, h.sourceId, h.acceptedAt, h.dueAt, h.ordered, Nat.zero_le _, ?_,
      haligned⟩
    simp [validTerminalShape, WakeIntent.settled, hdue]

theorem validObservation_iff {scope : Bytes} {now : TimePoint} :
    validObservation scope now = true ↔ validWakeIntentIdentifier scope = true ∧ Aligned now := by
  rw [validObservation, millisecondAligned, Bool.and_eq_true, decide_eq_true_eq]

theorem validRevocation_iff {scope id : Bytes} {now : TimePoint} {reason : Bytes} :
    validRevocation scope id now reason = true ↔
      validObservation scope now = true ∧ validWakeIntentIdentifier id = true ∧ reason ≠ [] ∧
        reason.length ≤ 1024 := by
  simp only [validRevocation, Bool.and_eq_true, Bool.not_eq_true', List.isEmpty_eq_false_iff,
    wakeIntentReasonMaxBytes, decide_eq_true_eq, and_assoc]

theorem WakeIntent.Valid.revoked {intent : WakeIntent} {now : TimePoint} {reason : Bytes}
    (h : intent.Valid) (hnow : Aligned now) (hnone : intent.observed now = none)
    (hreason : reason ≠ []) (hlength : reason.length ≤ 1024) :
    (intent.settled .revoked now reason).Valid := by
  obtain ⟨haccepted, hdue⟩ := observed_eq_none hnone
  refine ⟨h.scope, h.id, h.sourceId, h.acceptedAt, h.dueAt, h.ordered, hlength, ?_, ?_⟩
  · simp [validTerminalShape, WakeIntent.settled, haccepted, hdue, hreason]
  · rintro _ ⟨⟩
    exact hnow

/-- Every settlement is one of three, decided by where the clock value lies. -/
theorem settle_cases {intent settled : WakeIntent} {call : Call}
    (h : settle intent call = some settled) :
    ∃ now, (call = .reconcile intent.scope now ∨
        ∃ reason, call = .revoke intent.scope intent.id now reason) ∧
      Aligned now ∧ Settles intent settled now ∧
      (intent.observed now = some settled ∨
        ∃ reason, call = .revoke intent.scope intent.id now reason ∧ reason ≠ [] ∧
          reason.length ≤ 1024 ∧ intent.observed now = none ∧
          settled = intent.settled .revoked now reason) := by
  cases call <;> simp only [settle, reduceCtorEq] at h
  case reconcile scope now =>
    split_ifs at h with hvalid
    obtain ⟨hobservation, rfl⟩ := hvalid
    exact ⟨now, Or.inl rfl, (validObservation_iff.mp hobservation).2, Settles.of_observed h,
      Or.inl h⟩
  case revoke scope id now reason =>
    split_ifs at h with hvalid
    obtain ⟨hrevocation, rfl, rfl⟩ := hvalid
    obtain ⟨hobservation, _, hreason, hlength⟩ := validRevocation_iff.mp hrevocation
    refine ⟨now, Or.inr ⟨reason, rfl⟩, (validObservation_iff.mp hobservation).2, ?_⟩
    cases hobserved : intent.observed now with
    | some found =>
      rw [hobserved, Option.getD_some, Option.some.injEq] at h
      subst h
      exact ⟨Settles.of_observed hobserved, Or.inl rfl⟩
    | none =>
      rw [hobserved, Option.getD_none, Option.some.injEq] at h
      subst h
      exact ⟨⟨rfl, rfl, rfl, rfl, rfl, by simp [WakeIntent.settled], rfl⟩,
        Or.inr ⟨reason, rfl, hreason, hlength, rfl, rfl⟩⟩

theorem WakeIntent.Valid.settle {intent settled : WakeIntent} {call : Call} (h : intent.Valid)
    (hsettle : settle intent call = some settled) : settled.Valid := by
  obtain ⟨now, _, hnow, _, hobserved | ⟨reason, _, hreason, hlength, hnone, rfl⟩⟩ :=
    settle_cases hsettle
  · exact h.observed hnow hobserved
  · exact h.revoked hnow hnone hreason hlength

theorem advance_eq_self_of_terminal {call : Call} {intent : WakeIntent}
    (h : intent.status ≠ .scheduled) : advance call intent = intent :=
  if_neg h

theorem advance_of_scheduled {call : Call} {intent : WakeIntent}
    (h : intent.status = .scheduled) : advance call intent = (settle intent call).getD intent :=
  if_pos h

/-- A call leaves an intent as it is, or settles it. -/
theorem advance_cases (call : Call) (intent : WakeIntent) :
    advance call intent = intent ∨
      ∃ settled, intent.status = .scheduled ∧ settle intent call = some settled ∧
        advance call intent = settled := by
  by_cases hstatus : intent.status = .scheduled
  · rw [advance_of_scheduled hstatus]
    cases hsettle : settle intent call with
    | none => exact Or.inl rfl
    | some settled => exact Or.inr ⟨settled, hstatus, rfl, rfl⟩
  · exact Or.inl (advance_eq_self_of_terminal hstatus)

theorem advance_keys (call : Call) (intent : WakeIntent) :
    (advance call intent).scope = intent.scope ∧ (advance call intent).id = intent.id ∧
      (advance call intent).sourceId = intent.sourceId := by
  rcases advance_cases call intent with h | ⟨settled, _, hsettle, h⟩
  · rw [h]
    exact ⟨rfl, rfl, rfl⟩
  · obtain ⟨_, _, _, hsettles, _⟩ := settle_cases hsettle
    rw [h]
    exact ⟨hsettles.scope, hsettles.id, hsettles.sourceId⟩

theorem WakeIntent.Valid.advance {intent : WakeIntent} (h : intent.Valid) (call : Call) :
    (advance call intent).Valid := by
  rcases advance_cases call intent with heq | ⟨settled, _, hsettle, heq⟩
  · rw [heq]
    exact h
  · rw [heq]
    exact h.settle hsettle

/-! ### The book -/

/-- The accepted intents in acceptance order. -/
structure Book where
  intents : List WakeIntent
  valid : ∀ intent ∈ intents, intent.Valid
  ids_nodup : (intents.map fun intent ↦ (intent.scope, intent.id)).Nodup
  sources_nodup : (intents.map fun intent ↦ (intent.scope, intent.sourceId)).Nodup

namespace Book

@[ext] theorem ext {first second : Book} (h : first.intents = second.intents) : first = second := by
  cases first
  cases second
  cases h
  rfl

def empty : Book where
  intents := []
  valid _ h := absurd h List.not_mem_nil
  ids_nodup := List.nodup_nil
  sources_nodup := List.nodup_nil

def find (b : Book) (scope id : Bytes) : Option WakeIntent :=
  b.intents.find? fun intent ↦ decide ((intent.scope, intent.id) = (scope, id))

def findBySource (b : Book) (scope sourceId : Bytes) : Option WakeIntent :=
  b.intents.find? fun intent ↦ decide ((intent.scope, intent.sourceId) = (scope, sourceId))

/-- The intents of a scope. -/
def inScope (b : Book) (scope : Bytes) : List WakeIntent :=
  b.intents.filter fun intent ↦ intent.scope = scope

/-- The book with one more intent, whose identities are free. -/
def add (b : Book) (intent : WakeIntent) (hvalid : intent.Valid)
    (hid : b.find intent.scope intent.id = none)
    (hsource : b.findBySource intent.scope intent.sourceId = none) : Book where
  intents := b.intents ++ [intent]
  valid other hother := by
    rcases List.mem_append.mp hother with hold | hnew
    · exact b.valid other hold
    · rw [List.mem_singleton.mp hnew]
      exact hvalid
  ids_nodup := by
    rw [List.map_append, List.map_singleton, ← List.concat_eq_append]
    refine b.ids_nodup.concat fun hmem ↦ ?_
    obtain ⟨other, hother, hkey⟩ := List.mem_map.mp hmem
    simpa [hkey] using List.find?_eq_none.mp hid other hother
  sources_nodup := by
    rw [List.map_append, List.map_singleton, ← List.concat_eq_append]
    refine b.sources_nodup.concat fun hmem ↦ ?_
    obtain ⟨other, hother, hkey⟩ := List.mem_map.mp hmem
    simpa [hkey] using List.find?_eq_none.mp hsource other hother

/-- The book after a call has settled what it settles. -/
def advance (b : Book) (call : Call) : Book where
  intents := b.intents.map (WakeIntents.advance call)
  valid intent hintent := by
    obtain ⟨old, hold, rfl⟩ := List.mem_map.mp hintent
    exact (b.valid old hold).advance call
  ids_nodup := by
    have hkeys : ∀ intent, ((WakeIntents.advance call intent).scope,
        (WakeIntents.advance call intent).id) = (intent.scope, intent.id) := fun intent ↦ by
      rw [(advance_keys call intent).1, (advance_keys call intent).2.1]
    rw [List.map_map]
    simpa only [Function.comp_def, hkeys] using b.ids_nodup
  sources_nodup := by
    have hkeys : ∀ intent, ((WakeIntents.advance call intent).scope,
        (WakeIntents.advance call intent).sourceId) = (intent.scope, intent.sourceId) :=
      fun intent ↦ by rw [(advance_keys call intent).1, (advance_keys call intent).2.2]
    rw [List.map_map]
    simpa only [Function.comp_def, hkeys] using b.sources_nodup

/-- A call that settles no intent of the book leaves it. -/
theorem advance_eq_self {b : Book} {call : Call}
    (h : ∀ intent ∈ b.intents, WakeIntents.advance call intent = intent) : b.advance call = b :=
  Book.ext ((List.map_congr_left h).trans (List.map_id' b.intents))

/-- The decision on a new intent. -/
def admission (b : Book) (intent : WakeIntent) (policy : WakeIntentPolicy) :
    WakeIntentAcceptResult :=
  if ¬ validNewWakeIntent intent ∨ ¬ validWakeIntentPolicy policy then .invalid
  else if (b.findBySource intent.scope intent.sourceId).isSome then .duplicate
  else if (b.find intent.scope intent.id).isSome then .conflict
  else if policy.maxTotal.toNat ≤ (b.inScope intent.scope).length then .totalExhausted
  else .accepted

theorem admission_eq_accepted {b : Book} {intent : WakeIntent} {policy : WakeIntentPolicy}
    (h : b.admission intent policy = .accepted) :
    intent.Valid ∧ intent.status = .scheduled ∧ b.find intent.scope intent.id = none ∧
      b.findBySource intent.scope intent.sourceId = none ∧
      (b.inScope intent.scope).length < policy.maxTotal.toNat := by
  unfold admission at h
  split_ifs at h with hinvalid hsource hid htotal
  rw [not_or, not_not, validNewWakeIntent_iff] at hinvalid
  exact ⟨hinvalid.1.1, hinvalid.1.2, by simpa using hid, by simpa using hsource,
    not_le.mp htotal⟩

/-- The answer to a revocation. -/
def revocation (b : Book) (scope id : Bytes) (now : TimePoint) (reason : Bytes) :
    WakeIntentRevokeResult :=
  if ¬ validRevocation scope id now reason then .invalid
  else
    match b.find scope id with
    | none => .notFound
    | some intent =>
      if intent.status ≠ .scheduled then .terminal
      else if now < intent.acceptedAt then .manualReview
      else if intent.dueAt ≤ now then .fired
      else .revoked

/-- How many intents the call settles in a status. -/
def settledCount (b : Book) (call : Call) (status : WakeIntentStatus) : ℕ :=
  b.intents.countP (settlesIn call status)

/-- The earliest deadline of the scheduled intents of a scope. -/
def nextScheduledAt (b : Book) (scope : Bytes) : Option TimePoint :=
  (((b.inScope scope).filter fun intent ↦ intent.status = .scheduled).map WakeIntent.dueAt).min?

def inspectScope (b : Book) (scope : Bytes) : WakeIntentScopeInspection :=
  match b.inScope scope with
  | [] => { result := .empty, intent := none }
  | [intent] => { result := .one, intent := some intent }
  | _ => { result := .ambiguous, intent := none }

end Book

/-- The book, as a machine over the calls of the store. -/
def bookMachine : Machine Book Call Reply where
  step b
    | .accept intent policy =>
      if h : b.admission intent policy = .accepted then
        let hfree := Book.admission_eq_accepted h
        (b.add intent hfree.1 hfree.2.2.1 hfree.2.2.2.1, .accepted .accepted)
      else (b, .accepted (b.admission intent policy))
    | .reconcile scope now =>
      (b.advance (.reconcile scope now),
        if validObservation scope now then
          .reconciled
            { fired := b.settledCount (.reconcile scope now) .fired
              manualReview := b.settledCount (.reconcile scope now) .manualReview }
        else .threw (.invalidArgument "invalid wake-intent reconciliation input"))
    | .revoke scope id now reason =>
      (b.advance (.revoke scope id now reason), .revoked (b.revocation scope id now reason))
    | .find scope id => (b, .found (b.find scope id))
    | .findBySource scope sourceId => (b, .found (b.findBySource scope sourceId))
    | .nextScheduledAt scope =>
      (b, if validWakeIntentIdentifier scope then .scheduledAt (b.nextScheduledAt scope)
        else .threw (.invalidArgument "invalid wake-intent scope"))
    | .inspectScope scope =>
      (b, if validWakeIntentIdentifier scope then .inspected (b.inspectScope scope)
        else .threw (.invalidArgument "invalid wake-intent scope"))
    | .reopen => (b, .opened)

/-- The intent that a call stored, by its reply. -/
def acceptedBy (call : Call) (reply : Reply) : Option WakeIntent :=
  match call with
  | .accept intent _ => if reply = .accepted .accepted then some intent else none
  | _ => none

theorem event_accept_of_accepted {b : Book} {intent : WakeIntent} {policy : WakeIntentPolicy}
    (h : b.admission intent policy = .accepted) :
    (bookMachine.event b (.accept intent policy)).reply = .accepted .accepted ∧
      (bookMachine.event b (.accept intent policy)).after.intents = b.intents ++ [intent] := by
  simp only [Machine.event, bookMachine, h, ↓reduceDIte, true_and]
  rfl

theorem event_accept_of_refused {b : Book} {intent : WakeIntent} {policy : WakeIntentPolicy}
    (h : b.admission intent policy ≠ .accepted) :
    (bookMachine.event b (.accept intent policy)).reply =
        .accepted (b.admission intent policy) ∧
      (bookMachine.event b (.accept intent policy)).after = b := by
  simp only [Machine.event, bookMachine, h, ↓reduceDIte, and_self]

/-- The answer to an acceptance is the decision on it. -/
theorem reply_accept (b : Book) (intent : WakeIntent) (policy : WakeIntentPolicy) :
    (bookMachine.event b (.accept intent policy)).reply =
      .accepted (b.admission intent policy) := by
  by_cases haccepted : b.admission intent policy = .accepted
  · rw [(event_accept_of_accepted haccepted).1, haccepted]
  · exact (event_accept_of_refused haccepted).1

/-- The book after a call: every intent advanced, and then the intent that the call stored. -/
theorem intents_after (b : Book) (call : Call) :
    (bookMachine.event b call).after.intents = b.intents.map (advance call) ++
      (acceptedBy call (bookMachine.event b call).reply).toList := by
  have hidle : (∀ intent, settle intent call = none) →
      b.intents.map (advance call) = b.intents := by
    intro hnone
    have hsame : ∀ intent ∈ b.intents, advance call intent = id intent := fun intent _ ↦ by
      rw [advance, hnone, Option.getD_none, ite_self, id]
    rw [List.map_congr_left hsame, List.map_id]
  cases call with
  | accept intent policy =>
    rw [hidle fun _ ↦ rfl]
    by_cases haccepted : b.admission intent policy = .accepted
    · obtain ⟨hreply, hafter⟩ := event_accept_of_accepted haccepted
      rw [hafter, hreply, acceptedBy, if_pos rfl, Option.toList_some]
    · obtain ⟨hreply, hafter⟩ := event_accept_of_refused haccepted
      rw [hafter, hreply, acceptedBy, if_neg fun h ↦ haccepted (Reply.accepted.inj h),
        Option.toList_none, List.append_nil]
  | reconcile scope now => exact (List.append_nil _).symm
  | revoke scope id now reason => exact (List.append_nil _).symm
  | find scope id => rw [hidle fun _ ↦ rfl]; exact (List.append_nil _).symm
  | findBySource scope sourceId => rw [hidle fun _ ↦ rfl]; exact (List.append_nil _).symm
  | nextScheduledAt scope => rw [hidle fun _ ↦ rfl]; exact (List.append_nil _).symm
  | inspectScope scope => rw [hidle fun _ ↦ rfl]; exact (List.append_nil _).symm
  | reopen => rw [hidle fun _ ↦ rfl]; exact (List.append_nil _).symm

end Gaudere.WakeIntents
