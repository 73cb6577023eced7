import Gaudere.WakeIntents.Refinement

/-!
# Lifetime admission of wake intents

`lifetime_admission` decides every acceptance of a run by the intents accepted before it, whatever
happened to them since: nothing settled frees an identity or a place.

The book keeps the identities of all accepted intents, in acceptance order (`identities_run`), and
its decision on a new intent reads nothing else (`admission_eq_decision`).
-/

set_option autoImplicit false
set_option relaxedAutoImplicit false

namespace Gaudere.WakeIntents

open Gaudere.Library

/-! ### What a run accepted -/

/-- The intents accepted in a run, oldest first. -/
def acceptedIntents (steps : List (Call × Reply)) : List WakeIntent :=
  steps.filterMap fun step ↦ acceptedBy step.1 step.2

/-- The decision on a request, by the intents accepted before it. -/
def decision (earlier : List WakeIntent) (intent : WakeIntent) (policy : WakeIntentPolicy) :
    WakeIntentAcceptResult :=
  if ¬ validNewWakeIntent intent ∨ ¬ validWakeIntentPolicy policy then .invalid
  else if ∃ other ∈ earlier, other.scope = intent.scope ∧ other.sourceId = intent.sourceId then
    .duplicate
  else if ∃ other ∈ earlier, other.scope = intent.scope ∧ other.id = intent.id then .conflict
  else if policy.maxTotal.toNat ≤ earlier.countP fun other ↦ other.scope = intent.scope then
    .totalExhausted
  else .accepted

/-! ### Identities -/

structure Identity where
  scope : Bytes
  id : Bytes
  sourceId : Bytes

def WakeIntent.identity (intent : WakeIntent) : Identity :=
  ⟨intent.scope, intent.id, intent.sourceId⟩

theorem identity_advance (call : Call) (intent : WakeIntent) :
    (advance call intent).identity = intent.identity := by
  obtain ⟨hscope, hid, hsource⟩ := advance_keys call intent
  rw [WakeIntent.identity, WakeIntent.identity, hscope, hid, hsource]

theorem exists_identity {intents : List WakeIntent} {Q : Identity → Prop} :
    (∃ intent ∈ intents, Q intent.identity) ↔ ∃ i ∈ intents.map WakeIntent.identity, Q i := by
  simp only [List.mem_map, exists_exists_and_eq_and]

/-- A count of intents that reads their identities only. -/
theorem countP_identity (intents : List WakeIntent) (scope : Bytes) :
    intents.countP (fun intent ↦ intent.scope = scope) =
      (intents.map WakeIntent.identity).countP fun i ↦ i.scope = scope := by
  rw [List.countP_map]
  rfl

theorem decision_congr {first second : List WakeIntent}
    (h : first.map WakeIntent.identity = second.map WakeIntent.identity) (intent : WakeIntent)
    (policy : WakeIntentPolicy) : decision first intent policy = decision second intent policy := by
  have hexists : ∀ Q : Identity → Prop,
      (∃ other ∈ first, Q other.identity) ↔ ∃ other ∈ second, Q other.identity := fun Q ↦ by
    rw [exists_identity, exists_identity, h]
  have hsource := hexists fun i ↦ i.scope = intent.scope ∧ i.sourceId = intent.sourceId
  have hid := hexists fun i ↦ i.scope = intent.scope ∧ i.id = intent.id
  simp only [WakeIntent.identity] at hsource hid
  simp only [decision, hsource, hid, countP_identity, h]

/-- The book decides a request by the identities it holds. -/
theorem admission_eq_decision (b : Book) (intent : WakeIntent) (policy : WakeIntentPolicy) :
    b.admission intent policy = decision b.intents intent policy := by
  have hsource : (b.findBySource intent.scope intent.sourceId).isSome ↔
      ∃ other ∈ b.intents, other.scope = intent.scope ∧ other.sourceId = intent.sourceId := by
    simp only [Book.findBySource, List.find?_isSome, decide_eq_true_eq, Prod.mk.injEq]
  have hid : (b.find intent.scope intent.id).isSome ↔
      ∃ other ∈ b.intents, other.scope = intent.scope ∧ other.id = intent.id := by
    simp only [Book.find, List.find?_isSome, decide_eq_true_eq, Prod.mk.injEq]
  have hcount : (b.inScope intent.scope).length =
      b.intents.countP fun other ↦ other.scope = intent.scope :=
    (List.countP_eq_length_filter ..).symm
  simp only [Book.admission, decision, hsource, hid, hcount]

/-! ### Runs of the book -/

theorem identities_after (b : Book) (call : Call) :
    (bookMachine.event b call).after.intents.map WakeIntent.identity =
      b.intents.map WakeIntent.identity ++
        ((acceptedBy call (bookMachine.event b call).reply).toList.map WakeIntent.identity) := by
  have hadvance : WakeIntent.identity ∘ advance call = WakeIntent.identity :=
    funext (identity_advance call)
  rw [intents_after, List.map_append, List.map_map, hadvance]

/-- The book holds the identities that the run accepted. -/
theorem identities_run (calls : List Call) :
    (bookMachine.run Book.empty calls).intents.map WakeIntent.identity =
      (acceptedIntents (Machine.trace (bookMachine.history Book.empty calls))).map
        WakeIntent.identity := by
  refine Machine.history_induction (motive := fun past (b : Book) ↦
    b.intents.map WakeIntent.identity =
      (acceptedIntents (Machine.trace past)).map WakeIntent.identity) rfl ?_
    (bookMachine.unrestricted _ _)
  intro past b call _ hpast
  rw [identities_after, hpast, ← List.map_append]
  simp only [acceptedIntents, Machine.trace, List.map_append, List.filterMap_append]
  rfl

/-- A call stores an intent when the book admits it. -/
theorem admitted_of_acceptedBy {b : Book} {call : Call} {intent : WakeIntent}
    (h : acceptedBy call (bookMachine.event b call).reply = some intent) :
    ∃ policy, call = .accept intent policy ∧ b.admission intent policy = .accepted := by
  cases call with
  | accept other policy =>
    rw [acceptedBy, reply_accept, Option.ite_none_right_eq_some, Reply.accepted.injEq,
      Option.some.injEq] at h
    obtain ⟨hadmitted, rfl⟩ := h
    exact ⟨policy, rfl, hadmitted⟩
  | _ => cases h

/-- The intents of a scope never exceed a bound on the policies of its requests. -/
theorem scope_bounded {calls : List Call} {scope : Bytes} {bound : ℕ}
    (hbound : ∀ intent policy, Call.accept intent policy ∈ calls → intent.scope = scope →
      policy.maxTotal.toNat ≤ bound) :
    ((bookMachine.run Book.empty calls).intents.countP fun intent ↦ intent.scope = scope) ≤
      bound := by
  have hcalls : ∀ e ∈ bookMachine.history Book.empty calls, e.call ∈ calls :=
    fun _ he ↦ bookMachine.call_mem_of_mem_history he
  refine Machine.run_invariant (P := fun b : Book ↦
    (b.intents.countP fun intent ↦ intent.scope = scope) ≤ bound) ?_ hcalls (Nat.zero_le bound)
  intro b call hcall hb
  rw [Machine.event_call] at hcall
  rw [countP_identity, identities_after, List.countP_append, ← countP_identity]
  cases hstored : acceptedBy call (bookMachine.event b call).reply with
  | none => simpa using hb
  | some intent =>
    obtain ⟨policy, rfl, hadmitted⟩ := admitted_of_acceptedBy hstored
    obtain ⟨_, _, _, _, htotal⟩ := Book.admission_eq_accepted hadmitted
    rw [Book.inScope, ← List.countP_eq_length_filter] at htotal
    rw [Option.toList_some, List.map_singleton, List.countP_singleton]
    by_cases hscope : intent.scope = scope
    · have hpolicy := hbound intent policy hcall hscope
      subst hscope
      simp only [WakeIntent.identity, decide_true, ↓reduceIte]
      omega
    · simpa [WakeIntent.identity, hscope] using hb

/-! ### Runs of the store -/

/-- The store decides an acceptance by the intents accepted before it, and a refusal leaves the
table. -/
theorem acceptance_decided {calls : List Call}
    {earlier later : List (Event IntentTable Call Reply)} {e : Event IntentTable Call Reply}
    (hsplit : machine.history (Table.empty intentSchema) calls = earlier ++ e :: later)
    {intent : WakeIntent} {policy : WakeIntentPolicy} (hcall : e.call = .accept intent policy) :
    e.reply = .accepted (decision (acceptedIntents (Machine.trace earlier)) intent policy) ∧
      (e.reply ≠ .accepted .accepted → e.after = e.before) := by
  obtain ⟨past, call, future, rfl, rfl, rfl, rfl⟩ := machine.history_split hsplit
  rw [Machine.event_call] at hcall
  subst hcall
  obtain ⟨htrace, hbefore⟩ := refines_run past
  obtain ⟨hreply, hafter⟩ := refines_step hbefore (.accept intent policy)
  rw [hreply, reply_accept, admission_eq_decision, htrace, decision_congr (identities_run past)]
  refine ⟨rfl, fun hrefused ↦ Table.ext ?_⟩
  -- The book is left as it is, and the table has no rows that the book does not.
  have hadmission : (bookMachine.run Book.empty past).admission intent policy ≠ .accepted := by
    rw [admission_eq_decision, decision_congr (identities_run past)]
    exact fun haccepted ↦ hrefused (congrArg Reply.accepted haccepted)
  rw [(event_accept_of_refused hadmission).2] at hafter
  exact hafter.trans hbefore.symm

/-- Over any run from an empty table, whatever its calls settled: the intents accepted in a scope
do not exceed a bound on the policies of its requests, and have distinct identities and distinct
sources; a request is decided by the intents accepted before it; and a refusal leaves the table as
it is. -/
theorem lifetime_admission (calls : List Call) :
    (∀ scope bound, (∀ intent policy, Call.accept intent policy ∈ calls → intent.scope = scope →
        policy.maxTotal.toNat ≤ bound) →
      ((acceptedIntents (Machine.trace (machine.history (Table.empty intentSchema) calls))).countP
        fun intent ↦ intent.scope = scope) ≤ bound) ∧
    ((acceptedIntents (Machine.trace (machine.history (Table.empty intentSchema) calls))).map
      fun intent ↦ (intent.scope, intent.id)).Nodup ∧
    ((acceptedIntents (Machine.trace (machine.history (Table.empty intentSchema) calls))).map
      fun intent ↦ (intent.scope, intent.sourceId)).Nodup ∧
    ∀ earlier e later, machine.history (Table.empty intentSchema) calls = earlier ++ e :: later →
      ∀ intent policy, e.call = .accept intent policy →
        e.reply = .accepted
            (decision (acceptedIntents (Machine.trace earlier)) intent policy) ∧
        (e.reply ≠ .accepted .accepted → e.after = e.before) := by
  obtain ⟨htrace, -⟩ := refines_run calls
  rw [htrace]
  have hidentities := identities_run calls
  refine ⟨?_, ?_, ?_, ?_⟩
  · intro scope bound hbound
    rw [countP_identity, ← hidentities, ← countP_identity]
    exact scope_bounded hbound
  · have hids := (bookMachine.run Book.empty calls).ids_nodup
    have hsame := congrArg (List.map fun i : Identity ↦ (i.scope, i.id)) hidentities
    rw [List.map_map, List.map_map] at hsame
    exact hsame ▸ hids
  · have hsources := (bookMachine.run Book.empty calls).sources_nodup
    have hsame := congrArg (List.map fun i : Identity ↦ (i.scope, i.sourceId)) hidentities
    rw [List.map_map, List.map_map] at hsame
    exact hsame ▸ hsources
  · intro earlier e later hsplit intent policy hcall
    exact acceptance_decided hsplit hcall

end Gaudere.WakeIntents
