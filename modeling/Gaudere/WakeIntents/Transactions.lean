import Mathlib.Algebra.Order.BigOperators.Group.List
import Gaudere.Library.Transactions
import Gaudere.WakeIntents.Admission
import Gaudere.WakeIntents.Settlement

/-!
# Wake-intent transactions, statement by statement

`accept`, `reconcile` and `revoke` send several statements each between `BEGIN IMMEDIATE` and
`COMMIT`; the readers send one, apart from `inspectScope`, whose open query keeps one snapshot for
the reads it makes in between. `client` gives each operation its statements, with the exceptions
that roll a transaction back; run by themselves they are the operation (`client_implements`).

`intent_operations_serialise` says that any interleaving of the statements of any number of
connections, with failures and crashes anywhere, shows only whole operations in some order, and
`answers_accounted` what that means for the answers that all connections got: what they report as
settled is settled, no intent was accepted twice or is lost, and no scope exceeds its policies.
-/

set_option autoImplicit false
set_option relaxedAutoImplicit false

namespace Gaudere.WakeIntents

open Gaudere.Library

/-! ### Statements -/

namespace WakeIntentStore

abbrev Statements := Transaction IntentTable Reply

/-- A query whose rows are decoded, which may throw. -/
def query {α : Type} (run : IntentTable → Except Failure α) (next : α → Statements) : Statements :=
  .attempt (fun t ↦ (run t).map fun result ↦ (t, result)) .threw next

def insertStatement (intent : WakeIntent) (next : Statements) : Statements :=
  .attempt (fun t ↦ (insertRow t (insertedRow intent)).map fun t' ↦ (t', ())) .threw fun _ ↦ next

def updateStatement (selected : IntentRow → Bool) (rewrite : IntentRow → IntentRow)
    (next : ℕ → Statements) : Statements :=
  .attempt (fun t ↦ updateRows t selected rewrite) .threw next

/-- `transition`: an update, and the check that it changed one row. -/
def transitionStatement (scope id : Bytes) (status : WakeIntentStatus) (terminalAt : TimePoint)
    (reason : Bytes) (next : Statements) : Statements :=
  updateStatement (scheduledAs scope id) (setTerminal status (milliseconds terminalAt) reason)
    fun changes ↦
      if changes ≠ 1 then
        .rollback (.threw (.runtimeError "wake-intent terminal transition conflict"))
      else next

def acceptStatements (intent : WakeIntent) (policy : WakeIntentPolicy) : Statements :=
  query (fun t ↦ findBySource t intent.scope intent.sourceId) fun bySource ↦
    if bySource.isSome then .commit (.accepted .duplicate)
    else query (fun t ↦ find t intent.scope intent.id) fun byId ↦
      if byId.isSome then .commit (.accepted .conflict)
      else .select (fun t ↦ countScope t intent.scope) fun used ↦
        if policy.maxTotal.toNat ≤ used then .commit (.accepted .totalExhausted)
        else insertStatement intent (.commit (.accepted .accepted))

def reconcileStatements (scope : Bytes) (now : TimePoint) : Statements :=
  updateStatement (acceptedAfter scope (milliseconds now))
    (setTerminal .manualReview (milliseconds now) (ascii "clock_rollback")) fun manualReview ↦
  updateStatement (dueBy scope (milliseconds now)) (setTerminal .fired (milliseconds now) [])
    fun fired ↦
  .commit (.reconciled { fired := fired, manualReview := manualReview })

def revokeStatements (scope id : Bytes) (now : TimePoint) (reason : Bytes) : Statements :=
  query (fun t ↦ find t scope id) fun
    | none => .commit (.revoked .notFound)
    | some intent =>
      if isTerminal intent.status then .commit (.revoked .terminal)
      else if now < intent.acceptedAt then
        transitionStatement scope id .manualReview now (ascii "clock_rollback")
          (.commit (.revoked .manualReview))
      else if intent.dueAt ≤ now then
        transitionStatement scope id .fired now [] (.commit (.revoked .fired))
      else transitionStatement scope id .revoked now reason (.commit (.revoked .revoked))

/-- The rows of the outer query are stepped one at a time, with a read of the record in between. -/
def inspectStatements (scope : Bytes) : Statements :=
  .select (fun t ↦ firstIds t scope) fun
    | [] => .commit (.inspected { result := .empty, intent := none })
    | firstId :: rest =>
      query (fun t ↦ find t scope firstId) fun
        | none =>
          .rollback (.threw (.runtimeError "wake-intent scope inspection lost first record"))
        | some first =>
          match rest with
          | [] => .commit (.inspected { result := .one, intent := some first })
          | secondId :: _ =>
            query (fun t ↦ find t scope secondId) fun
              | none =>
                .rollback (.threw (.runtimeError "wake-intent scope inspection lost second record"))
              | some _ => .commit (.inspected { result := .ambiguous, intent := none })

/-- The version is read, and the table, the index and the three triggers exist already. -/
def openStatements : Statements :=
  .statement id fun _ ↦ .statement id fun _ ↦ .statement id fun _ ↦ .statement id fun _ ↦
    .statement id fun _ ↦ .statement id fun _ ↦ .commit .opened

end WakeIntentStore

open WakeIntentStore

/-- The statements of the operations. An operation that its checks refuse begins no transaction. -/
def client : Client IntentTable Call Reply where
  locks
    | .accept intent policy => validNewWakeIntent intent && validWakeIntentPolicy policy
    | .reconcile scope now => validObservation scope now
    | .revoke scope id now reason => validRevocation scope id now reason
    | .reopen => true
    | _ => false
  body
    | .accept intent policy =>
      if ¬ validNewWakeIntent intent ∨ ¬ validWakeIntentPolicy policy then
        .commit (.accepted .invalid)
      else acceptStatements intent policy
    | .reconcile scope now =>
      if ¬ validObservation scope now then
        .rollback (.threw (.invalidArgument "invalid wake-intent reconciliation input"))
      else reconcileStatements scope now
    | .revoke scope id now reason =>
      if ¬ validObservation scope now ∨ ¬ validWakeIntentIdentifier id ∨ reason = [] ∨
          wakeIntentReasonMaxBytes < reason.length then .commit (.revoked .invalid)
      else revokeStatements scope id now reason
    | .find scope id => query (fun t ↦ find t scope id) fun intent ↦ .commit (.found intent)
    | .findBySource scope sourceId =>
      query (fun t ↦ findBySource t scope sourceId) fun intent ↦ .commit (.found intent)
    | .nextScheduledAt scope =>
      query (fun t ↦ nextScheduledAt t scope) fun next ↦ .commit (.scheduledAt next)
    | .inspectScope scope =>
      if ¬ validWakeIntentIdentifier scope then
        .rollback (.threw (.invalidArgument "invalid wake-intent scope"))
      else inspectStatements scope
    | .reopen => openStatements

/-! ### The statements are the operation -/

section Outcomes

variable (base work : IntentTable)

theorem outcome_query {α : Type} (run : IntentTable → Except Failure α) (next : α → Statements) :
    (query run next).outcome base work =
      match run work with
      | .ok result => (next result).outcome base work
      | .error failure => (base, .threw failure) := by
  rw [query, Transaction.outcome_attempt]
  cases run work <;> rfl

theorem outcome_insertStatement (intent : WakeIntent) (next : Statements) :
    (insertStatement intent next).outcome base work =
      match insertRow work (insertedRow intent) with
      | .ok t' => next.outcome base t'
      | .error failure => (base, .threw failure) := by
  rw [insertStatement, Transaction.outcome_attempt]
  cases insertRow work (insertedRow intent) <;> rfl

theorem outcome_transitionStatement (scope id : Bytes) (status : WakeIntentStatus)
    (terminalAt : TimePoint) (reason : Bytes) (next : Statements) :
    (transitionStatement scope id status terminalAt reason next).outcome base work =
      match transition work scope id status terminalAt reason with
      | .ok t' => next.outcome base t'
      | .error failure => (base, .threw failure) := by
  rw [transitionStatement, updateStatement, Transaction.outcome_attempt, transition]
  cases updateRows work (scheduledAs scope id)
      (setTerminal status (milliseconds terminalAt) reason) with
  | error failure => rfl
  | ok result =>
    obtain ⟨t', changes⟩ := result
    simp only [bind, Except.bind]
    split_ifs <;> rfl

end Outcomes

/-- The result of an operation, as the machine gives it. -/
def answer {α : Type} (returned : α → Reply) (result : IntentTable × Except Failure α) :
    IntentTable × Reply :=
  (result.1, reply returned result.2)

theorem alone_acceptStatements (t : IntentTable) (intent : WakeIntent) (policy : WakeIntentPolicy)
    (hvalid : validNewWakeIntent intent = true ∧ validWakeIntentPolicy policy = true) :
    (acceptStatements intent policy).alone t =
      answer .accepted (accept t intent policy) := by
  simp only [Transaction.alone, acceptStatements, outcome_query, Transaction.outcome_ite,
    Transaction.outcome_select, outcome_insertStatement, accept, hvalid, not_true_eq_false,
    or_self, ↓reduceIte, answer, transaction, bind, Except.bind]
  cases findBySource t intent.scope intent.sourceId with
  | error failure => rfl
  | ok bySource =>
    cases bySource with
    | some found => rfl
    | none =>
      simp only [Option.isSome_none, Bool.false_eq_true, ↓reduceIte]
      cases find t intent.scope intent.id with
      | error failure => rfl
      | ok byId =>
        cases byId with
        | some found => rfl
        | none =>
          simp only [Option.isSome_none, Bool.false_eq_true, ↓reduceIte]
          split_ifs with htotal
          · rfl
          · cases insertRow t (insertedRow intent) <;> rfl

theorem alone_reconcileStatements (t : IntentTable) (scope : Bytes) (now : TimePoint)
    (hvalid : validObservation scope now = true) :
    (reconcileStatements scope now).alone t = answer .reconciled (reconcile t scope now) := by
  simp only [Transaction.alone, reconcileStatements, updateStatement, Transaction.outcome_attempt,
    reconcile, hvalid, not_true_eq_false, ↓reduceIte, answer, transaction, bind, Except.bind]
  cases updateRows t (acceptedAfter scope (milliseconds now))
      (setTerminal .manualReview (milliseconds now) (ascii "clock_rollback")) with
  | error failure => rfl
  | ok rolledBack =>
    simp only
    cases updateRows rolledBack.1 (dueBy scope (milliseconds now))
        (setTerminal .fired (milliseconds now) []) <;> rfl

theorem alone_revokeStatements (t : IntentTable) (scope id : Bytes) (now : TimePoint)
    (reason : Bytes) (hvalid : ¬ (¬ validObservation scope now ∨ ¬ validWakeIntentIdentifier id ∨
      reason = [] ∨ wakeIntentReasonMaxBytes < reason.length)) :
    (revokeStatements scope id now reason).alone t =
      answer .revoked (revoke t scope id now reason) := by
  simp only [Transaction.alone, revokeStatements, outcome_query, revoke, if_neg hvalid, answer,
    transaction, bind, Except.bind]
  cases find t scope id with
  | error failure => rfl
  | ok found =>
    cases found with
    | none => rfl
    | some intent =>
      simp only [Transaction.outcome_ite, outcome_transitionStatement]
      split_ifs
      · rfl
      · cases transition t scope id .manualReview now (ascii "clock_rollback") <;> rfl
      · cases transition t scope id .fired now [] <;> rfl
      · cases transition t scope id .revoked now reason <;> rfl

theorem alone_inspectStatements (t : IntentTable) (scope : Bytes)
    (hvalid : validWakeIntentIdentifier scope = true) :
    (inspectStatements scope).alone t = (t, reply .inspected (inspectScope t scope)) := by
  simp only [Transaction.alone, inspectStatements, Transaction.outcome_select, inspectScope, hvalid,
    not_true_eq_false, ↓reduceIte]
  cases firstIds t scope with
  | nil => rfl
  | cons firstId rest =>
    simp only [outcome_query, bind, Except.bind]
    cases find t scope firstId with
    | error failure => rfl
    | ok first =>
      cases first with
      | none => rfl
      | some first =>
        cases rest with
        | nil => rfl
        | cons secondId _ =>
          simp only [outcome_query]
          cases find t scope secondId with
          | error failure => rfl
          | ok second => cases second <;> rfl

/-- A read that is one query. -/
theorem alone_query {α : Type} (t : IntentTable) (run : IntentTable → Except Failure α)
    (returned : α → Reply) :
    (query run fun result ↦ .commit (returned result)).alone t = (t, reply returned (run t)) := by
  rw [Transaction.alone, outcome_query]
  cases run t <;> rfl

theorem client_implements : client.Implements machine where
  alone call t := by
    cases call with
    | accept intent policy =>
      simp only [client, machine]
      split_ifs with hinvalid
      · rw [accept, if_pos hinvalid]
        rfl
      · rw [not_or, not_not, not_not] at hinvalid
        exact alone_acceptStatements t intent policy hinvalid
    | reconcile scope now =>
      simp only [client, machine]
      split_ifs with hvalid
      · exact alone_reconcileStatements t scope now hvalid
      · rw [reconcile, if_pos hvalid]
        rfl
    | revoke scope id now reason =>
      simp only [client, machine]
      split_ifs with hinvalid
      · rw [revoke, if_pos hinvalid]
        rfl
      · exact alone_revokeStatements t scope id now reason hinvalid
    | find scope id => exact alone_query t _ _
    | findBySource scope sourceId => exact alone_query t _ _
    | nextScheduledAt scope => exact alone_query t _ _
    | inspectScope scope =>
      simp only [client, machine]
      split_ifs with hvalid
      · exact alone_inspectStatements t scope hvalid
      · rw [inspectScope, if_pos hvalid]
        rfl
    | reopen => rfl
  reads call t hlocks := by
    cases call with
    | accept intent policy =>
      have hinvalid : ¬ validNewWakeIntent intent ∨ ¬ validWakeIntentPolicy policy := by
        by_contra hvalid
        rw [not_or, not_not, not_not] at hvalid
        simp [client, hvalid] at hlocks
      simp only [machine, accept, if_pos hinvalid]
    | reconcile scope now =>
      have hinvalid : ¬ validObservation scope now := by simpa [client] using hlocks
      simp only [machine, reconcile, if_pos hinvalid]
    | revoke scope id now reason =>
      have hinvalid : ¬ validRevocation scope id now reason := by simpa [client] using hlocks
      rw [validRevocation_iff] at hinvalid
      have hrefused : ¬ validObservation scope now ∨ ¬ validWakeIntentIdentifier id ∨
          reason = [] ∨ wakeIntentReasonMaxBytes < reason.length := by
        by_contra hvalid
        simp only [not_or, not_not, not_lt] at hvalid
        exact hinvalid hvalid
      simp only [machine, revoke, if_pos hrefused]
    | reopen => cases hlocks
    | find _ _ | findBySource _ _ | nextScheduledAt _ | inspectScope _ => rfl

/-! ### Interleavings -/

/-- The statements of any number of connections on one table, interleaved in any way and with
failures and crashes anywhere, show whole operations in some order: the committed table is that of
their run, every connection gets replies of that run to its own calls, in order, and no call takes
effect twice. No call is blocked for ever: an open transaction gets its answer by its own steps, and
so does a call that waits, once the connection that has the write lock has gone on to its end. -/
theorem intent_operations_serialise {Conn : Type} [DecidableEq Conn] (t : IntentTable)
    (acts : List (Conn × Act Call)) :
    let events := client.server.history (.start t) acts
    let server := client.server.run (.start t) acts
    server.committed = machine.run t ((serialised events).map Prod.snd) ∧
      (∀ c, (answersOf c events).Sublist (machine.traceOf t c (serialised events))) ∧
      (∀ c, (callsOf c (serialised events)).Sublist (invocationsOf c events)) ∧
      ∀ c call, (server.session c).unanswered = some call →
        ∃ more : List (Conn × Act Call),
          (∀ act ∈ more, act.2.Proceeds ∧ (act.1 = c ∨ server.writer = some act.1)) ∧
          ∃ reply, (client.server.run (.start t) (acts ++ more)).session c =
            .answering call reply := by
  obtain ⟨hcommitted, hanswers, hcalls⟩ :=
    Client.serializable client_implements t acts
  exact ⟨hcommitted, hanswers, hcalls, fun c call hcall ↦
    Client.exists_answering client_implements hcall⟩

def kettle : WakeIntent where
  scope := ascii "probe"
  id := ascii "tea"
  sourceId := ascii "kettle"
  acceptedAt := ofMilliseconds 1
  dueAt := ofMilliseconds 5
  status := .scheduled
  terminalAt := none
  terminalReason := []

/-- One connection schedules an intent while another asks to revoke it and has to wait. -/
def scheduledAndRevoked : List (ℕ × Act Call) :=
  [(0, .invoke (.accept kettle { maxTotal := 1 })), (0, .begin),
    (1, .invoke (.revoke (ascii "probe") (ascii "tea") (ofMilliseconds 3) (ascii "cold"))),
    (0, .execute), (1, .begin), (0, .execute), (0, .execute), (0, .execute), (0, .close),
    (1, .begin), (1, .execute), (0, .answer), (1, .execute), (1, .close), (1, .answer)]

/-- While the acceptance is inside its transaction and the revocation waits for the lock, both can
be answered. -/
theorem intent_operations_serialise_revoked :
    let start : Server ℕ IntentTable Call Reply := .start (Table.empty intentSchema)
    let server := client.server.run start (scheduledAndRevoked.take 5)
    server.writer = some 0 ∧ ∀ c ∈ [0, 1], ∃ call more reply,
      (server.session c).unanswered = some call ∧
        (client.server.run start (scheduledAndRevoked.take 5 ++ more)).session c =
          .answering call reply := by
  intro start server
  have hopen : ∀ c ∈ [0, 1], (server.session c).unanswered.isSome = true := by decide
  refine ⟨by decide, fun c hc ↦ ?_⟩
  obtain ⟨call, hcall⟩ := Option.isSome_iff_exists.mp (hopen c hc)
  obtain ⟨more, -, reply, hreply⟩ := (intent_operations_serialise (Table.empty intentSchema)
    (scheduledAndRevoked.take 5)).2.2.2 c call hcall
  exact ⟨call, more, reply, hcall, hreply⟩

/-- The calls that the connections make. -/
def requests {Conn : Type} (acts : List (Conn × Act Call)) : List Call :=
  acts.filterMap fun
    | (_, .invoke call) => some call
    | _ => none

theorem traces_eq_trace {Conn : Type} (t : IntentTable) (calls : List (Conn × Call)) :
    (machine.traces t calls).map Prod.snd =
      Machine.trace (machine.history t (calls.map Prod.snd)) := by
  induction calls generalizing t with
  | nil => rfl
  | cons call calls ih => exact congrArg _ (ih _)

/-- The intents that were accepted, by the answers. -/
theorem mem_acceptedIntents {steps : List (Call × Reply)} {intent : WakeIntent} :
    intent ∈ acceptedIntents steps ↔
      ∃ policy, (Call.accept intent policy, Reply.accepted .accepted) ∈ steps := by
  simp only [acceptedIntents, List.mem_filterMap]
  constructor
  · rintro ⟨⟨call, reply⟩, hmem, hstored⟩
    cases call with
    | accept other policy =>
      rw [acceptedBy, Option.ite_none_right_eq_some, Option.some.injEq] at hstored
      obtain ⟨rfl, rfl⟩ := hstored
      exact ⟨policy, hmem⟩
    | _ => cases hstored
  · rintro ⟨policy, hmem⟩
    exact ⟨_, hmem, by simp [acceptedBy]⟩

/-- However the statements of the connections interleave, and whichever of them fail or crash, the
answers that they all got together account for rows of the committed table: as many rows as were
reported are in each terminal status, the accepted intents have distinct identities and distinct
sources and do not exceed a bound on the policies requested for their scope, and each of them is
stored, with its identity and its times. -/
theorem answers_accounted {Conn : Type} [DecidableEq Conn] (acts : List (Conn × Act Call)) :
    let answered :=
      (answers (client.server.history (.start (Table.empty intentSchema)) acts)).map Prod.snd
    let committed := (client.server.run (.start (Table.empty intentSchema)) acts).committed
    (∀ status, status ≠ .scheduled → (answered.map fun answer ↦ answer.2.settled status).sum ≤
        committed.rows.countP fun row ↦ row.status = status.code) ∧
      ((acceptedIntents answered).map fun intent ↦ (intent.scope, intent.id)).Nodup ∧
      ((acceptedIntents answered).map fun intent ↦ (intent.scope, intent.sourceId)).Nodup ∧
      (∀ scope bound, (∀ intent policy, Call.accept intent policy ∈ requests acts →
          intent.scope = scope → policy.maxTotal.toNat ≤ bound) →
        ((acceptedIntents answered).countP fun intent ↦ intent.scope = scope) ≤ bound) ∧
      ∀ intent ∈ acceptedIntents answered, ∃ record,
        find committed intent.scope intent.id = .ok (some record) ∧
          record.sourceId = intent.sourceId ∧ record.acceptedAt = intent.acceptedAt ∧
          record.dueAt = intent.dueAt := by
  intro answered committed
  let serial := serialised (client.server.history (.start (Table.empty intentSchema)) acts)
  let calls := serial.map Prod.snd
  have hcommitted : committed = machine.run (Table.empty intentSchema) calls :=
    (Client.serializable client_implements (Table.empty intentSchema) acts).1
  obtain ⟨l, hperm, hsublist⟩ : answered.Subperm
      (Machine.trace (machine.history (Table.empty intentSchema) calls)) := by
    obtain ⟨l, hperm, hsublist⟩ := Client.answers_subperm client_implements
      (Table.empty intentSchema) acts
    rw [← traces_eq_trace]
    exact ⟨l.map Prod.snd, hperm.map _, hsublist.map _⟩
  -- The book of the run has the identities of all that was accepted.
  obtain ⟨htrace, -⟩ := refines_run calls
  have hidentities := identities_run calls
  rw [← htrace] at hidentities
  have haccepted : (acceptedIntents answered).Subperm
      (acceptedIntents (Machine.trace (machine.history (Table.empty intentSchema) calls))) :=
    ⟨acceptedIntents l, hperm.filterMap _, hsublist.filterMap _⟩
  refine ⟨fun status hstatus ↦ ?_, ?_, ?_, fun scope bound hbound ↦ ?_, fun intent hintent ↦ ?_⟩
  · rw [hcommitted, settled_rows_counted calls hstatus, ← (hperm.map _).sum_eq]
    have hle := (hsublist.map fun answer ↦ answer.2.settled status).sum_le_sum
      fun _ _ ↦ Nat.zero_le _
    simpa only [Machine.trace, List.map_map, Function.comp_def] using hle
  · have hids := (bookMachine.run Book.empty calls).ids_nodup
    have hsame := congrArg (List.map fun i : Identity ↦ (i.scope, i.id)) hidentities
    rw [List.map_map, List.map_map] at hsame
    exact nodup_map_of_subperm haccepted (hsame ▸ hids)
  · have hsources := (bookMachine.run Book.empty calls).sources_nodup
    have hsame := congrArg (List.map fun i : Identity ↦ (i.scope, i.sourceId)) hidentities
    rw [List.map_map, List.map_map] at hsame
    exact nodup_map_of_subperm haccepted (hsame ▸ hsources)
  · refine (haccepted.countP_le _).trans ?_
    rw [countP_identity, ← hidentities, ← countP_identity]
    refine scope_bounded fun intent policy hcall hscope ↦ ?_
    obtain ⟨⟨c, call⟩, hmem, rfl⟩ := List.mem_map.mp hcall
    exact hbound intent policy (List.mem_filterMap.mpr
      ⟨_, Client.invoked_of_serialised client_implements hmem, rfl⟩) hscope
  · obtain ⟨policy, hmem⟩ := mem_acceptedIntents.mp (haccepted.subset hintent)
    obtain ⟨e, he, hpair⟩ := List.mem_map.mp hmem
    obtain ⟨earlier, later, hsplit⟩ := List.append_of_mem he
    obtain ⟨record, hfind, -, -, -, hsource, hacceptedAt, hdueAt⟩ :=
      accepted_intent_after_run hsplit (congrArg Prod.fst hpair) (congrArg Prod.snd hpair)
    exact ⟨record, by rw [hcommitted]; exact hfind, hsource, hacceptedAt, hdueAt⟩

end Gaudere.WakeIntents
