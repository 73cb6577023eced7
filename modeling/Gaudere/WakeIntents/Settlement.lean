import Gaudere.WakeIntents.Refinement

/-!
# Wake intents settle exactly once

`wake_intents_settle_once` follows one accepted intent through the rest of a run: it stays what it
was accepted as until the first call that settles it, and then stays as that call left it. The
counters that reconciliations and revocations return add up to the settled rows.

Both are proved of the book, where a call maps every intent by `advance`, and read off the store
through the refinement.
-/

set_option autoImplicit false
set_option relaxedAutoImplicit false

namespace Gaudere.WakeIntents

open Gaudere.Library

/-! ### One intent over a run -/

/-- An intent of the book is found again after a run, advanced by its calls. -/
theorem mem_run {b : Book} {intent : WakeIntent} (h : intent ∈ b.intents) (calls : List Call) :
    calls.foldl (fun i call ↦ advance call i) intent ∈ (bookMachine.run b calls).intents := by
  induction calls generalizing b intent with
  | nil => exact h
  | cons call calls ih =>
    refine ih ?_
    rw [intents_after]
    exact List.mem_append_left _ (List.mem_map_of_mem h)

theorem foldl_advance_of_terminal {intent : WakeIntent} (h : intent.status ≠ .scheduled)
    (calls : List Call) : calls.foldl (fun i call ↦ advance call i) intent = intent := by
  induction calls with
  | nil => rfl
  | cons call calls ih => rw [List.foldl_cons, advance_eq_self_of_terminal h, ih]

/-- A scheduled intent is advanced to what the first call that settles it makes of it. -/
theorem foldl_advance {intent : WakeIntent} (h : intent.status = .scheduled) (calls : List Call) :
    calls.foldl (fun i call ↦ advance call i) intent =
      (calls.findSome? (settle intent)).getD intent := by
  induction calls with
  | nil => rfl
  | cons call calls ih =>
    rw [List.foldl_cons, List.findSome?_cons, advance_of_scheduled h]
    cases hsettle : settle intent call with
    | none => exact ih
    | some settled =>
      obtain ⟨_, _, _, hsettles, _⟩ := settle_cases hsettle
      exact foldl_advance_of_terminal hsettles.terminal calls

/-! ### The counters -/

/-- How many intents the reply says were settled in a status. -/
def Reply.settled (status : WakeIntentStatus) : Reply → ℕ
  | .reconciled result =>
    match status with
    | .fired => result.fired
    | .manualReview => result.manualReview
    | _ => 0
  | .revoked .fired => if status = .fired then 1 else 0
  | .revoked .manualReview => if status = .manualReview then 1 else 0
  | .revoked .revoked => if status = .revoked then 1 else 0
  | _ => 0

/-- The intents of the book in a status. -/
def Book.countStatus (b : Book) (status : WakeIntentStatus) : ℕ :=
  b.intents.countP fun intent ↦ intent.status = status

/-- One intent adds itself to a terminal status when the call settles it in that status. -/
theorem indicator_advance (intent : WakeIntent) (call : Call) {status : WakeIntentStatus}
    (hstatus : status ≠ .scheduled) :
    (if decide ((advance call intent).status = status) = true then 1 else 0) =
      (if decide (intent.status = status) = true then 1 else 0) +
        if settlesIn call status intent = true then 1 else 0 := by
  by_cases hscheduled : intent.status = .scheduled
  · rw [advance_of_scheduled hscheduled]
    cases hsettle : settle intent call <;>
      simp [settlesIn, hscheduled, hsettle, hstatus.symm]
  · rw [advance_eq_self_of_terminal hscheduled]
    simp [settlesIn, hscheduled]

theorem countP_advance (intents : List WakeIntent) (call : Call) {status : WakeIntentStatus}
    (hstatus : status ≠ .scheduled) :
    (intents.map (advance call)).countP (fun intent ↦ decide (intent.status = status)) =
      intents.countP (fun intent ↦ decide (intent.status = status)) +
        intents.countP (settlesIn call status) := by
  induction intents with
  | nil => rfl
  | cons intent intents ih =>
    have hone := indicator_advance intent call hstatus
    rw [List.map_cons, List.countP_cons, List.countP_cons, List.countP_cons, ih]
    omega

/-- Settling adds to a terminal status the intents it settles in it. -/
theorem countStatus_advance (b : Book) (call : Call) {status : WakeIntentStatus}
    (hstatus : status ≠ .scheduled) :
    (b.advance call).countStatus status = b.countStatus status + b.settledCount call status :=
  countP_advance b.intents call hstatus

/-- A call that settles only one intent of the book counts it when it settles it. -/
theorem settledCount_of_only {b : Book} {call : Call} {intent : WakeIntent}
    (hmem : intent ∈ b.intents)
    (honly : ∀ other ∈ b.intents, (settle other call).isSome → other = intent)
    (status : WakeIntentStatus) :
    b.settledCount call status = if settlesIn call status intent then 1 else 0 := by
  have honly' : ∀ other ∈ b.intents, settlesIn call status other = true → other = intent := by
    intro other hother hsettles
    refine honly other hother ?_
    cases hsettle : settle other call with
    | none => simp [settlesIn, hsettle] at hsettles
    | some settled => rfl
  split_ifs with hsettles
  · have hnodup : b.intents.Nodup := List.Nodup.of_map _ b.ids_nodup
    rw [← List.count_eq_one_of_mem hnodup hmem, Book.settledCount, List.count]
    refine List.countP_congr fun other hother ↦ ?_
    rw [beq_iff_eq]
    exact ⟨honly' other hother, fun h ↦ h ▸ hsettles⟩
  · refine List.countP_eq_zero.mpr fun other hother hother' ↦ hsettles ?_
    exact honly' other hother hother' ▸ hother'

theorem settledCount_eq_zero {b : Book} {call : Call}
    (h : ∀ intent ∈ b.intents, intent.status = .scheduled → settle intent call = none)
    (status : WakeIntentStatus) : b.settledCount call status = 0 := by
  refine List.countP_eq_zero.mpr fun intent hintent ↦ ?_
  by_cases hscheduled : intent.status = .scheduled
  · simp [settlesIn, h intent hintent hscheduled]
  · simp [settlesIn, hscheduled]

/-- The answer to a revocation counts what it settles. -/
theorem settledCount_revoke (b : Book) (scope id : Bytes) (now : TimePoint) (reason : Bytes)
    (status : WakeIntentStatus) :
    b.settledCount (.revoke scope id now reason) status =
      (Reply.revoked (b.revocation scope id now reason)).settled status := by
  by_cases hvalid : validRevocation scope id now reason = true
  · have hsettle : ∀ other ∈ b.intents, (settle other (.revoke scope id now reason)).isSome →
        other.scope = scope ∧ other.id = id := by
      intro other _ hsome
      by_contra hne
      rw [settle, if_neg (by rintro ⟨_, rfl, rfl⟩; exact hne ⟨rfl, rfl⟩)] at hsome
      cases hsome
    cases hfind : b.find scope id with
    | none =>
      rw [Book.revocation, if_neg (not_not.mpr hvalid), hfind]
      refine settledCount_eq_zero (fun other hother _ ↦ ?_) status
      rw [← Option.not_isSome_iff_eq_none]
      intro hsome
      obtain ⟨rfl, rfl⟩ := hsettle other hother hsome
      rw [Book.find_eq_some hother] at hfind
      cases hfind
    | some intent =>
      obtain ⟨hmem, rfl, rfl⟩ := Book.mem_of_find hfind
      have honly : ∀ other ∈ b.intents,
          (settle other (.revoke intent.scope intent.id now reason)).isSome → other = intent := by
        intro other hother hsome
        obtain ⟨hscope, hid⟩ := hsettle other hother hsome
        exact List.inj_on_of_nodup_map b.ids_nodup hother hmem (Prod.ext hscope hid)
      have hown : settle intent (.revoke intent.scope intent.id now reason) =
          some ((intent.observed now).getD (intent.settled .revoked now reason)) := by
        rw [settle, if_pos ⟨hvalid, rfl, rfl⟩]
      rw [settledCount_of_only hmem honly, Book.revocation, if_neg (not_not.mpr hvalid), hfind]
      simp only [settlesIn, hown, WakeIntent.observed]
      by_cases hscheduled : intent.status = .scheduled <;>
        by_cases hbefore : now < intent.acceptedAt <;> by_cases hdue : intent.dueAt ≤ now <;>
        cases status <;> simp [hscheduled, hbefore, hdue, WakeIntent.settled, Reply.settled]
  · rw [Book.revocation, if_pos hvalid]
    exact settledCount_eq_zero (fun other _ _ ↦ by simp [settle, hvalid]) status

theorem settledCount_reconcile_revoked (b : Book) (scope : Bytes) (now : TimePoint) :
    b.settledCount (.reconcile scope now) .revoked = 0 := by
  refine List.countP_eq_zero.mpr fun intent _ ↦ ?_
  cases hsettle : settle intent (.reconcile scope now) with
  | none => simp [settlesIn, hsettle]
  | some settled =>
    obtain ⟨_, _, _, _, hobserved | ⟨_, hcall, _⟩⟩ := settle_cases hsettle
    · rcases observed_cases hobserved with ⟨_, rfl⟩ | ⟨_, _, rfl⟩ <;>
        simp [settlesIn, hsettle, WakeIntent.settled]
    · cases hcall

/-- Every call adds to a terminal status what its reply says. -/
theorem countStatus_after (b : Book) (call : Call) {status : WakeIntentStatus}
    (hstatus : status ≠ .scheduled) :
    (bookMachine.event b call).after.countStatus status =
      b.countStatus status + (bookMachine.event b call).reply.settled status := by
  cases call with
  | accept intent policy =>
    by_cases haccepted : b.admission intent policy = .accepted
    · obtain ⟨hreply, hafter⟩ := event_accept_of_accepted haccepted
      have hscheduled := (Book.admission_eq_accepted haccepted).2.1
      rw [Book.countStatus, hafter, hreply]
      simp [Book.countStatus, List.countP_append, hscheduled, hstatus.symm, Reply.settled]
    · rw [(event_accept_of_refused haccepted).1, (event_accept_of_refused haccepted).2]
      rfl
  | reconcile scope now =>
    have hadvance := countStatus_advance b (.reconcile scope now) hstatus
    simp only [Machine.event, bookMachine, hadvance]
    by_cases hvalid : validObservation scope now = true
    · rw [if_pos hvalid]
      cases status with
      | scheduled => exact absurd rfl hstatus
      | fired => rfl
      | revoked => rw [settledCount_reconcile_revoked]; rfl
      | manualReview => rfl
    · rw [if_neg hvalid, settledCount_eq_zero (fun intent _ _ ↦ by simp [settle, hvalid])]
      rfl
  | revoke scope id now reason =>
    have hadvance := countStatus_advance b (.revoke scope id now reason) hstatus
    simp only [Machine.event, bookMachine, hadvance, settledCount_revoke]
  | find scope id => rfl
  | findBySource scope sourceId => rfl
  | nextScheduledAt scope =>
    simp only [Machine.event, bookMachine]
    split_ifs <;> rfl
  | inspectScope scope =>
    simp only [Machine.event, bookMachine]
    split_ifs <;> rfl
  | reopen => rfl

/-! ### Whole runs -/

/-- The book accepts an intent only when it admits it, and then holds it. -/
theorem accepted_of_reply {b : Book} {intent : WakeIntent} {policy : WakeIntentPolicy}
    (h : (bookMachine.event b (.accept intent policy)).reply = .accepted .accepted) :
    intent.status = .scheduled ∧
      intent ∈ (bookMachine.event b (.accept intent policy)).after.intents := by
  rw [reply_accept, Reply.accepted.injEq] at h
  rw [(event_accept_of_accepted h).2]
  exact ⟨(Book.admission_eq_accepted h).2.1, List.mem_append_right _ (List.mem_singleton_self _)⟩

/-- The first settlement of an intent keeps its identity and its times. -/
theorem first_settlement_keeps (intent : WakeIntent) (calls : List Call) :
    ∀ record, record = (calls.findSome? (settle intent)).getD intent →
      record.scope = intent.scope ∧ record.id = intent.id ∧ record.sourceId = intent.sourceId ∧
        record.acceptedAt = intent.acceptedAt ∧ record.dueAt = intent.dueAt := by
  rintro _ rfl
  cases hsettled : calls.findSome? (settle intent) with
  | none => exact ⟨rfl, rfl, rfl, rfl, rfl⟩
  | some settled =>
    obtain ⟨call, _, hsettle⟩ := List.exists_of_findSome?_eq_some hsettled
    obtain ⟨_, _, _, hsettles, _⟩ := settle_cases hsettle
    exact ⟨hsettles.scope, hsettles.id, hsettles.sourceId, hsettles.acceptedAt, hsettles.dueAt⟩

/-- What the rest of a run leaves of an accepted intent. -/
theorem accepted_intent_after_run {calls : List Call}
    {earlier later : List (Event IntentTable Call Reply)} {e : Event IntentTable Call Reply}
    (hsplit : machine.history (Table.empty intentSchema) calls = earlier ++ e :: later)
    {intent : WakeIntent} {policy : WakeIntentPolicy} (hcall : e.call = .accept intent policy)
    (hreply : e.reply = .accepted .accepted) :
    ∃ record, WakeIntentStore.find (machine.run (Table.empty intentSchema) calls)
        intent.scope intent.id = .ok (some record) ∧
      record = ((later.map Event.call).findSome? (settle intent)).getD intent ∧
      record.scope = intent.scope ∧ record.id = intent.id ∧ record.sourceId = intent.sourceId ∧
      record.acceptedAt = intent.acceptedAt ∧ record.dueAt = intent.dueAt := by
  obtain ⟨past, call, future, rfl, rfl, rfl, rfl⟩ := machine.history_split hsplit
  rw [Machine.event_call] at hcall
  subst hcall
  -- The book accepts the intent at the same point of its run, and holds it from then on.
  obtain ⟨hagrees, -⟩ := refines_step (refines_run past).2 (.accept intent policy)
  rw [hreply] at hagrees
  obtain ⟨hscheduled, hadded⟩ := accepted_of_reply hagrees.symm
  have hmem := mem_run hadded future
  rw [foldl_advance hscheduled] at hmem
  have hend := (refines_run (past ++ .accept intent policy :: future)).2
  rw [← bookMachine.run_cons, ← bookMachine.run_append] at hmem
  obtain ⟨hscope, hid, hrest⟩ := first_settlement_keeps intent future _ rfl
  rw [machine.map_call_history]
  refine ⟨_, ?_, rfl, hscope, hid, hrest⟩
  rw [find_of_represents hend, ← Book.find_eq_some hmem, hscope, hid]

/-- The calls that settle a scheduled intent: the reconciliations of its scope at a clock value
outside its term, and the revocations of it. -/
theorem settle_isSome {intent : WakeIntent} {call : Call} :
    (settle intent call).isSome ↔
      (∃ now, call = .reconcile intent.scope now ∧ validObservation intent.scope now ∧
        (now < intent.acceptedAt ∨ intent.dueAt ≤ now)) ∨
      ∃ now reason, call = .revoke intent.scope intent.id now reason ∧
        validRevocation intent.scope intent.id now reason := by
  constructor
  · intro hsome
    cases call <;> simp only [settle, Option.isSome_none, Bool.false_eq_true] at hsome
    case reconcile scope now =>
      split_ifs at hsome with hvalid
      · obtain ⟨hobservation, rfl⟩ := hvalid
        obtain ⟨settled, hobserved⟩ := Option.isSome_iff_exists.mp hsome
        refine Or.inl ⟨now, rfl, hobservation, ?_⟩
        exact (observed_cases hobserved).imp (fun h ↦ h.1) (fun h ↦ h.2.1)
      · cases hsome
    case revoke scope id now reason =>
      split_ifs at hsome with hvalid
      · obtain ⟨hrevocation, rfl, rfl⟩ := hvalid
        exact Or.inr ⟨now, reason, rfl, hrevocation⟩
      · cases hsome
  · rintro (⟨now, rfl, hvalid, houtside⟩ | ⟨now, reason, rfl, hvalid⟩)
    · rw [settle, if_pos ⟨hvalid, rfl⟩, WakeIntent.observed]
      split_ifs with hbefore hdue
      · rfl
      · rfl
      · exact absurd houtside (not_or.mpr ⟨hbefore, hdue⟩)
    · rw [settle, if_pos ⟨hvalid, rfl, rfl⟩]
      rfl

/-- The clock value of a settlement decides its status. -/
theorem settle_decided {intent settled : WakeIntent} {call : Call}
    (h : settle intent call = some settled) :
    ∃ now, (call = .reconcile intent.scope now ∨
        ∃ reason, call = .revoke intent.scope intent.id now reason) ∧
      settled.terminalAt = some now ∧
      ((now < intent.acceptedAt ∧ settled.status = .manualReview ∧
          settled.terminalReason = ascii "clock_rollback") ∨
        (intent.dueAt ≤ now ∧ settled.status = .fired ∧ settled.terminalReason = []) ∨
        (intent.acceptedAt ≤ now ∧ now < intent.dueAt ∧ settled.status = .revoked ∧
          call = .revoke intent.scope intent.id now settled.terminalReason)) := by
  obtain ⟨now, hcall, _, hsettles, hobserved | ⟨reason, rfl, _, _, hnone, rfl⟩⟩ := settle_cases h
  · refine ⟨now, hcall, hsettles.terminalAt, ?_⟩
    rcases observed_cases hobserved with ⟨hbefore, rfl⟩ | ⟨_, hdue, rfl⟩
    · exact Or.inl ⟨hbefore, rfl, rfl⟩
    · exact Or.inr (Or.inl ⟨hdue, rfl, rfl⟩)
  · obtain ⟨haccepted, hdue⟩ := observed_eq_none hnone
    exact ⟨now, hcall, rfl, Or.inr (Or.inr ⟨haccepted, hdue, rfl, rfl⟩)⟩

/-- The rows in a terminal status number what the replies of the run counted. -/
theorem settled_rows_counted (calls : List Call) {status : WakeIntentStatus}
    (hstatus : status ≠ .scheduled) :
    (machine.run (Table.empty intentSchema) calls).rows.countP
        (fun row ↦ row.status = status.code) =
      ((machine.history (Table.empty intentSchema) calls).map
        fun e ↦ e.reply.settled status).sum := by
  obtain ⟨htrace, hrows⟩ := refines_run calls
  have hreplies : (machine.history (Table.empty intentSchema) calls).map
      (fun e ↦ e.reply.settled status) =
        (bookMachine.history Book.empty calls).map fun e ↦ e.reply.settled status := by
    have hsettled := congrArg (List.map fun step : Call × Reply ↦ step.2.settled status) htrace
    simpa only [Machine.trace, List.map_map, Function.comp_def] using hsettled
  have hcount : (bookMachine.run Book.empty calls).countStatus status =
      Book.empty.countStatus status +
        ((bookMachine.history Book.empty calls).map fun e ↦ e.reply.settled status).sum :=
    Machine.measure_run (m := bookMachine) (P := fun _ ↦ True) (fun b ↦ b.countStatus status)
      (fun e ↦ e.reply.settled status) (fun _ _ _ _ ↦ trivial)
      (fun b call _ _ ↦ countStatus_after b call hstatus) (bookMachine.unrestricted _ _) trivial
  have hrow : ∀ intent ∈ (bookMachine.run Book.empty calls).intents,
      ((fun row : IntentRow ↦ decide (row.status = status.code)) ∘ encode) intent = true ↔
        decide (intent.status = status) = true := by
    intro intent _
    rw [Function.comp_apply, decide_eq_true_eq, decide_eq_true_eq]
    exact ⟨WakeIntentStatus.code_injective, fun hsame ↦ hsame ▸ rfl⟩
  rw [hreplies, hrows, List.countP_map, List.countP_congr hrow]
  exact hcount.trans (Nat.zero_add _)

/-- Over any run from an empty table: an accepted intent is found ever after, with its identity,
its acceptance time and its deadline, as the first later call that settles it left it, or as it
was accepted while there is none; the calls that settle it are the reconciliations of its scope at
a clock value outside its term and the revocations of it, and the clock value decides how; and the
rows in each terminal status number what the replies of the run counted. -/
theorem wake_intents_settle_once (calls : List Call) :
    (∀ earlier e later, machine.history (Table.empty intentSchema) calls = earlier ++ e :: later →
      ∀ intent policy, e.call = .accept intent policy → e.reply = .accepted .accepted →
        ∃ record, WakeIntentStore.find (machine.run (Table.empty intentSchema) calls)
            intent.scope intent.id = .ok (some record) ∧
          record = ((later.map Event.call).findSome? (settle intent)).getD intent ∧
          record.scope = intent.scope ∧ record.id = intent.id ∧
          record.sourceId = intent.sourceId ∧ record.acceptedAt = intent.acceptedAt ∧
          record.dueAt = intent.dueAt) ∧
    (∀ intent call, (settle intent call).isSome ↔
      (∃ now, call = .reconcile intent.scope now ∧ validObservation intent.scope now ∧
        (now < intent.acceptedAt ∨ intent.dueAt ≤ now)) ∨
      ∃ now reason, call = .revoke intent.scope intent.id now reason ∧
        validRevocation intent.scope intent.id now reason) ∧
    (∀ intent call settled, settle intent call = some settled → ∃ now,
      (call = .reconcile intent.scope now ∨
        ∃ reason, call = .revoke intent.scope intent.id now reason) ∧
      settled.terminalAt = some now ∧
      ((now < intent.acceptedAt ∧ settled.status = .manualReview ∧
          settled.terminalReason = ascii "clock_rollback") ∨
        (intent.dueAt ≤ now ∧ settled.status = .fired ∧ settled.terminalReason = []) ∨
        (intent.acceptedAt ≤ now ∧ now < intent.dueAt ∧ settled.status = .revoked ∧
          call = .revoke intent.scope intent.id now settled.terminalReason))) ∧
    ∀ status, status ≠ .scheduled →
      (machine.run (Table.empty intentSchema) calls).rows.countP
          (fun row ↦ row.status = status.code) =
        ((machine.history (Table.empty intentSchema) calls).map
          fun e ↦ e.reply.settled status).sum := by
  refine ⟨?_, ?_, ?_, ?_⟩
  · intro earlier e later hsplit intent policy hcall hreply
    exact accepted_intent_after_run hsplit hcall hreply
  · intro intent call
    exact settle_isSome
  · intro intent call settled hsettle
    exact settle_decided hsettle
  · intro status hstatus
    exact settled_rows_counted calls hstatus

end Gaudere.WakeIntents
