import Gaudere.Budget.Identity
import Gaudere.Budget.Snapshot
import Gaudere.Library.Transactions

/-!
# Budget transactions, statement by statement

`consume` sends up to five statements between `BEGIN IMMEDIATE` and `COMMIT`, `snapshot` three after
a deferred `BEGIN`, and several connections may be inside their transactions at the same time.
`client` gives each operation its statements; run by themselves they are the operation
(`client_implements`).

`budget_operations_serialise` says that any interleaving of the statements of any number of
connections, with failures and crashes anywhere, shows only whole operations in some order.
`limits_hold_interleaved` says what that means for a budget: all the accepted answers that all
connections ever get keep the limits together, and no key is granted twice.
-/

set_option autoImplicit false
set_option relaxedAutoImplicit false

namespace Gaudere.Budget

open Gaudere.Library BudgetStore

/-- An operation of a connection; `call` is one that writes. -/
inductive Operation
  | call (call : Call)
  | snapshot (scope : Bytes) (now : TimePoint) (policy : Policy)
deriving DecidableEq, Repr

inductive Answer
  | replied (reply : Reply)
  | observed (snapshot : Snapshot)
deriving DecidableEq, Repr

/-- The store with its snapshots, as a machine over whole operations. -/
def operations : Machine BudgetTable Operation Answer where
  step t
    | .call call => ((machine.step t call).1, .replied (machine.step t call).2)
    | .snapshot scope now policy =>
      match BudgetStore.snapshot t scope now policy with
      | (t', .ok snapshot) => (t', .observed snapshot)
      | (t', .error failure) => (t', .replied (.threw failure))

/-! ### Statements -/

namespace BudgetStore

/-- `commit_result`. -/
def commitResult (result : ConsumeResult) : Transaction BudgetTable Answer :=
  .commit (.replied (.consumed result))

def threw (failure : Failure) : Answer := .replied (.threw failure)

def insertStatement (row : ConsumptionRow) (t : BudgetTable) :
    Except Failure (BudgetTable × Unit) :=
  match t.insert row with
  | some t' => .ok (t', ())
  | none => .error .sqlite

/-- The statements of `consume`, after its `BEGIN IMMEDIATE`. -/
def consumeStatements (scope key : CText) (now : TimePoint) (policy : Policy) :
    Transaction BudgetTable Answer :=
  let nowMs := milliseconds now
  .select (fun t ↦ (t.lookup (scope, key)).isSome) fun granted ↦
    if granted then commitResult .duplicate
    else .select (fun t ↦ countTotal t scope) fun used ↦
      if policy.maxTotal.toNat ≤ used then commitResult .totalExhausted
      else .select (fun t ↦ latestMs t scope) fun latest ↦
        if latest.any fun latest ↦ decide (nowMs < latest) then commitResult .clockRollback
        else if latest.any fun latest ↦ decide (nowMs - latest < policy.minInterval) then
          commitResult .cooldown
        else .select (fun t ↦ countAfter t scope (milliseconds (cutoff now policy))) fun used ↦
          if policy.maxInWindow.toNat ≤ used then commitResult .windowExhausted
          else .attempt
            (insertStatement { scope := scope, idempotencyKey := key, consumedAtMs := nowMs })
            threw fun _ ↦ commitResult .accepted

/-- The statements of `snapshot`, after its `BEGIN`. -/
def snapshotStatements (scope : CText) (now : TimePoint) (policy : Policy) :
    Transaction BudgetTable Answer :=
  let nowMs := milliseconds now
  .select (fun t ↦ countTotal t scope) fun totalUsed ↦
  .select (fun t ↦ latestMs t scope) fun latest ↦
  .select (fun t ↦ countAfter t scope (milliseconds (cutoff now policy))) fun inWindowUsed ↦
  .commit (.observed
    { totalUsed := totalUsed
      inWindowUsed := inWindowUsed
      lastConsumedAt := latest.map timePoint
      nextNewConsumption :=
        if policy.maxTotal.toNat ≤ totalUsed then .totalExhausted
        else if latest.any fun latest ↦ decide (nowMs < latest) then .clockRollback
        else if latest.any fun latest ↦ decide (nowMs - latest < policy.minInterval) then .cooldown
        else if policy.maxInWindow.toNat ≤ inWindowUsed then .windowExhausted
        else .accepted })

/-- `CREATE TABLE IF NOT EXISTS` and `CREATE INDEX IF NOT EXISTS` on a database that has both. -/
def openStatements : Transaction BudgetTable Answer :=
  .statement id fun _ ↦ .statement id fun _ ↦ .commit (.replied .opened)

end BudgetStore

/-- The statements of the operations. An operation that its checks refuse begins no transaction. -/
def client : Client BudgetTable Operation Answer where
  locks
    | .call (.consume scope idempotencyKey _ policy) =>
      ValidRequest scope idempotencyKey policy
    | .call .reopen => true
    | .snapshot _ _ _ => false
  body
    | .call (.consume scope idempotencyKey now policy) =>
      match validateScopePolicy scope policy with
      | some failure => .rollback (threw failure)
      | none =>
        if idempotencyKey = [] then
          .rollback (threw (.invalidArgument "budget idempotency key must not be empty"))
        else consumeStatements (bindText scope) (bindText idempotencyKey) now policy
    | .call .reopen => openStatements
    | .snapshot scope now policy =>
      match validateScopePolicy scope policy with
      | some failure => .rollback (threw failure)
      | none => snapshotStatements (bindText scope) now policy

/-! ### The statements are the operation -/

/-- The result of an operation that returned a value or threw. -/
def answer (result : BudgetTable × Except Failure ConsumeResult) : BudgetTable × Answer :=
  match result with
  | (t, .ok result) => (t, .replied (.consumed result))
  | (t, .error failure) => (t, threw failure)

theorem alone_consumeStatements (t : BudgetTable) (scope key : CText) (now : TimePoint)
    (policy : Policy) :
    (consumeStatements scope key now policy).alone t =
      answer (consumeTransaction t scope key now policy) := by
  have hinsert (row : ConsumptionRow) :
      (Transaction.attempt (insertStatement row) threw fun _ ↦ commitResult .accepted).outcome t t =
        answer (match t.insert row with
          | some t' => (t', .ok .accepted)
          | none => (t, .error .sqlite)) := by
    rw [Transaction.outcome_attempt, insertStatement]
    cases t.insert row <;> rfl
  simp only [Transaction.alone, consumeStatements, consumeTransaction, Transaction.outcome_select,
    Transaction.outcome_ite, hinsert, apply_ite answer]
  rfl

theorem alone_snapshotStatements (t : BudgetTable) (scope : CText) (now : TimePoint)
    (policy : Policy) :
    (snapshotStatements scope now policy).alone t =
      (t, .observed (snapshotTransaction t scope now policy)) := rfl

theorem client_implements : client.Implements operations where
  alone operation t := by
    cases operation with
    | snapshot scope now policy =>
      simp only [client, operations, BudgetStore.snapshot]
      cases validateScopePolicy scope policy with
      | some failure => rfl
      | none => exact alone_snapshotStatements t (bindText scope) now policy
    | call call =>
      cases call with
      | reopen => rfl
      | consume scope idempotencyKey now policy =>
        simp only [client, operations, machine, BudgetStore.consume]
        cases validateScopePolicy scope policy with
        | some failure => rfl
        | none =>
          simp only []
          split_ifs with hkey
          · rfl
          · rw [alone_consumeStatements]
            rcases consumeTransaction t (bindText scope) (bindText idempotencyKey) now policy with
              ⟨t', result | failure⟩ <;> rfl
  reads operation t hlocks := by
    cases operation with
    | snapshot scope now policy =>
      simp only [operations, BudgetStore.snapshot]
      cases validateScopePolicy scope policy <;> rfl
    | call call =>
      cases call with
      | reopen => cases hlocks
      | consume scope idempotencyKey now policy =>
        have hinvalid : ¬ ValidRequest scope idempotencyKey policy := by
          simpa only [client, decide_eq_false_iff_not] using hlocks
        obtain ⟨failure, hfailure⟩ := consume_of_not_valid hinvalid
        simp only [operations, machine, hfailure]

/-! ### Interleavings -/

/-- The statements of any number of connections on one table, interleaved in any way and with
failures and crashes anywhere, show whole operations in some order: the committed table is that of
their run, every connection gets replies of that run to its own calls, in order, and no call takes
effect twice. No call is blocked for ever: an open transaction gets its answer by its own steps, and
so does a call that waits, once the connection that has the write lock has gone on to its end. -/
theorem budget_operations_serialise {Conn : Type} [DecidableEq Conn] (t : BudgetTable)
    (acts : List (Conn × Act Operation)) :
    let events := client.server.history (.start t) acts
    let server := client.server.run (.start t) acts
    server.committed = operations.run t ((serialised events).map Prod.snd) ∧
      (∀ c, (answersOf c events).Sublist (operations.traceOf t c (serialised events))) ∧
      (∀ c, (callsOf c (serialised events)).Sublist (invocationsOf c events)) ∧
      ∀ c call, (server.session c).unanswered = some call →
        ∃ more : List (Conn × Act Operation),
          (∀ act ∈ more, act.2.Proceeds ∧ (act.1 = c ∨ server.writer = some act.1)) ∧
          ∃ reply, (client.server.run (.start t) (acts ++ more)).session c =
            .answering call reply := by
  obtain ⟨hcommitted, hanswers, hcalls⟩ :=
    Client.serializable client_implements t acts
  exact ⟨hcommitted, hanswers, hcalls, fun c call hcall ↦
    Client.exists_answering client_implements hcall⟩

/-- Two connections ask for a permit at the same time. The second waits for the first and then
finds the budget cooling down; later it crashes before its next permit is committed, and asks for
it again. -/
def race : List (ℕ × Act Operation) :=
  let first := Operation.call (.consume (ascii "probe") (ascii "first") (ofMilliseconds 2000)
    probePolicy)
  let early := Operation.call (.consume (ascii "probe") (ascii "early") (ofMilliseconds 2005)
    probePolicy)
  let second := Operation.call (.consume (ascii "probe") (ascii "second") (ofMilliseconds 2010)
    probePolicy)
  [(0, .invoke first), (1, .invoke early), (0, .begin), (1, .begin), (0, .execute), (1, .execute),
    (0, .execute), (0, .execute), (0, .execute), (0, .execute), (0, .close), (1, .begin),
    (1, .execute), (0, .answer), (1, .execute), (1, .execute), (1, .close), (1, .answer),
    (1, .invoke second), (1, .begin), (1, .execute), (1, .execute), (1, .execute), (1, .execute),
    (1, .execute), (1, .crash), (1, .invoke second), (1, .begin), (1, .execute), (1, .execute),
    (1, .execute), (1, .execute), (1, .execute), (1, .close), (1, .answer)]

/-- After six statements the first connection is inside its transaction and the second waits for
the lock; both can be answered. -/
theorem budget_operations_serialise_race :
    let server := client.server.run (.start (Table.empty budgetSchema)) (race.take 6)
    server.writer = some 0 ∧ ∀ c ∈ [0, 1], ∃ call more reply,
      (server.session c).unanswered = some call ∧
        (client.server.run (.start (Table.empty budgetSchema)) (race.take 6 ++ more)).session c =
          .answering call reply := by
  intro server
  have hopen : ∀ c ∈ [0, 1], (server.session c).unanswered.isSome = true := by decide
  refine ⟨by decide, fun c hc ↦ ?_⟩
  obtain ⟨call, hcall⟩ := Option.isSome_iff_exists.mp (hopen c hc)
  obtain ⟨more, -, reply, hreply⟩ :=
    (budget_operations_serialise (Table.empty budgetSchema) (race.take 6)).2.2.2 c call hcall
  exact ⟨call, more, reply, hcall, hreply⟩

/-- The writing calls among some answers, with their replies. -/
def writesOf {Conn : Type} (answers : List (Conn × Operation × Answer)) : List (Call × Reply) :=
  answers.filterMap fun
    | (_, .call call, .replied reply) => some (call, reply)
    | _ => none

/-- The time that a reply grants to the scope. -/
def grantedTime (scope : Bytes) : Call × Reply → Option ℤ
  | (.consume s _ now _, reply) =>
    if s = scope ∧ reply = .consumed .accepted then some (milliseconds now).toInt else none
  | (.reopen, _) => none

/-- The reply grants the key in the scope. -/
def grants (scope key : Bytes) (reply : Call × Reply) : Bool :=
  reply.1.identity? = some (scope, key) && reply.2 = .consumed .accepted

theorem acceptedTimes_eq (scope : Bytes) (events : List (Event BudgetTable Call Reply)) :
    acceptedTimes scope events = (Machine.trace events).filterMap (grantedTime scope) := by
  rw [acceptedTimes, Machine.trace, List.filterMap_map]
  refine List.filterMap_congr fun e _ ↦ ?_
  rw [acceptedTime, Function.comp_apply]
  cases e.call <;> rfl

/-- Snapshots aside, a run of the operations is a run of the calls. -/
theorem writesOf_traces {Conn : Type} (t : BudgetTable) (operations' : List (Conn × Operation)) :
    writesOf (operations.traces t operations') = Machine.trace (machine.history t
      (operations'.filterMap fun operation ↦
        match operation.2 with
        | .call call => some call
        | .snapshot _ _ _ => none)) := by
  induction operations' generalizing t with
  | nil => rfl
  | cons operation rest ih =>
    obtain ⟨c, operation⟩ := operation
    cases operation with
    | call call =>
      have h := ih (machine.event t call).after
      simp only [writesOf, Machine.traces, Machine.trace] at h ⊢
      simp only [Machine.history_cons, List.map_cons, List.filterMap_cons]
      exact congrArg _ h
    | snapshot scope now policy =>
      have hafter : (((operations.tagged Conn).event t (c, .snapshot scope now policy)).after = t ∧
          writesOf [(c, .snapshot scope now policy,
            ((operations.tagged Conn).event t (c, .snapshot scope now policy)).reply)] = []) := by
        simp only [Machine.event, Machine.tagged, operations, BudgetStore.snapshot, writesOf]
        cases validateScopePolicy scope policy <;> exact ⟨rfl, rfl⟩
      obtain ⟨hsame, hquiet⟩ := hafter
      have h := ih t
      simp only [writesOf, Machine.traces] at h hquiet ⊢
      simp only [Machine.history_cons, List.map_cons, hsame]
      rw [← List.singleton_append, List.filterMap_append]
      simp only [Machine.event_call]
      rw [hquiet, List.nil_append, h]
      rfl

/-- The writing calls that the connections make. -/
def requests {Conn : Type} (acts : List (Conn × Act Operation)) : List Call :=
  acts.filterMap fun
    | (_, .invoke (.call call)) => some call
    | _ => none

/-- Every run whose consumptions on the scope pass the policy keeps its limits. -/
theorem limitsKept_run {scope : Bytes} {policy : Policy}
    (hwindow : Fits (policy.window.toInt * 1000000)) {calls : List Call}
    (hpolicy : ∀ call ∈ calls, UnderPolicy scope policy call) :
    LimitsKept scope policy (machine.history (Table.empty budgetSchema) calls)
      (machine.run (Table.empty budgetSchema) calls) := by
  refine Machine.history_induction ?_ (limitsKept_step hwindow)
    fun e he ↦ hpolicy e.call (machine.call_mem_of_mem_history he)
  exact ⟨List.Sublist.refl _, fun ms hms ↦ absurd hms List.not_mem_nil, List.Pairwise.nil,
    Nat.zero_le _, List.Pairwise.nil, WindowBounded.nil _ _⟩

/-- A run grants a key at most once: each grant has a row, and no two rows share their keys. -/
theorem countP_grants_le_one (scope key : Bytes) (calls : List Call) :
    (Machine.trace (machine.history (Table.empty budgetSchema) calls)).countP (grants scope key) ≤
      1 := by
  let stored : CText × CText := (bindText scope, bindText key)
  have hrows := rows_run (Table.empty budgetSchema) calls
  rw [Table.rows_empty, List.nil_append] at hrows
  have hnodup := (machine.run (Table.empty budgetSchema) calls).consistent.key_nodup
  rw [hrows] at hnodup
  calc (Machine.trace (machine.history (Table.empty budgetSchema) calls)).countP (grants scope key)
      = (machine.history (Table.empty budgetSchema) calls).countP fun e ↦
          grants scope key (e.call, e.reply) := List.countP_map
    _ ≤ (machine.history (Table.empty budgetSchema) calls).countP fun e ↦
          (grantedRow e).any fun row ↦ budgetSchema.key row = stored := by
        refine List.countP_mono_left fun e _ hgrants ↦ ?_
        simp only [grants, Bool.and_eq_true, decide_eq_true_eq] at hgrants
        have hgranted : Grants (scope, key) e := hgrants
        obtain ⟨row, hrow, hscope, hkey⟩ := grantedRow_of_grants hgranted
        rw [hrow, Option.any_some, decide_eq_true_eq]
        exact Prod.ext hscope hkey
    _ = (((machine.history (Table.empty budgetSchema) calls).filterMap grantedRow).map
          budgetSchema.key).count stored := by
        rw [List.count_eq_countP, List.countP_map, List.countP_filterMap]
        refine List.countP_congr fun e _ ↦ ?_
        cases grantedRow e <;> simp
    _ ≤ 1 := List.nodup_iff_count_le_one.mp hnodup stored

/-- However the statements of the connections interleave, and whichever of them fail or crash:
when every consumption on the scope that is requested passes one policy whose window and cutoffs
the clock can represent, the times of all the accepted answers on the scope, whoever got them, are
at most `max_total` in number, lie `min_interval` apart, and no interval `(a, a + window]` holds
more than `max_in_window` of them; and no key of the scope is granted in two answers. -/
theorem limits_hold_interleaved {Conn : Type} [DecidableEq Conn] (scope : Bytes) (policy : Policy)
    (hwindow : Fits (policy.window.toInt * 1000000)) (acts : List (Conn × Act Operation))
    (hpolicy : ∀ call ∈ requests acts, UnderPolicy scope policy call) :
    let answered := writesOf
      (answers (client.server.history (.start (Table.empty budgetSchema)) acts))
    let granted := answered.filterMap (grantedTime scope)
    granted.length ≤ policy.maxTotal.toNat ∧
      granted.Pairwise (fun a b ↦ a + policy.minInterval.toInt ≤ b ∨
        b + policy.minInterval.toInt ≤ a) ∧
      WindowBounded policy.window.toInt policy.maxInWindow.toNat granted ∧
      ∀ key, answered.countP (grants scope key) ≤ 1 := by
  intro answered granted
  let serial := serialised (client.server.history (.start (Table.empty budgetSchema)) acts)
  let calls : List Call := serial.filterMap fun operation ↦
    match operation.2 with
    | .call call => some call
    | .snapshot _ _ _ => none
  have hcalls : ∀ call ∈ calls, UnderPolicy scope policy call := by
    intro call hcall
    obtain ⟨⟨c, operation⟩, hmem, hoperation⟩ := List.mem_filterMap.mp hcall
    cases operation with
    | snapshot _ _ _ => cases hoperation
    | call other =>
      cases hoperation
      exact hpolicy call (List.mem_filterMap.mpr
        ⟨_, Client.invoked_of_serialised client_implements hmem, rfl⟩)
  have hkept := limitsKept_run hwindow hcalls
  -- What was answered is part of what the run of whole calls replied.
  have hanswered : answered.Subperm
      (Machine.trace (machine.history (Table.empty budgetSchema) calls)) := by
    obtain ⟨l, hperm, hsublist⟩ := Client.answers_subperm client_implements
      (Table.empty budgetSchema) acts
    rw [← writesOf_traces]
    exact ⟨writesOf l, hperm.filterMap _, hsublist.filterMap _⟩
  have hgranted : granted.Subperm
      (acceptedTimes scope (machine.history (Table.empty budgetSchema) calls)) := by
    obtain ⟨l, hperm, hsublist⟩ := hanswered
    rw [acceptedTimes_eq]
    exact ⟨l.filterMap (grantedTime scope), hperm.filterMap _, hsublist.filterMap _⟩
  refine ⟨hgranted.length_le.trans hkept.total, ?_, hkept.windowed.subperm hgranted,
    fun key ↦ (hanswered.countP_le _).trans (countP_grants_le_one scope key calls)⟩
  obtain ⟨l, hperm, hsublist⟩ := hgranted
  have hspaced : l.Pairwise fun a b ↦ a + policy.minInterval.toInt ≤ b ∨
      b + policy.minInterval.toInt ≤ a :=
    (hkept.spaced.sublist hsublist).imp Or.inl
  exact hperm.pairwise hspaced fun h ↦ h.symm

theorem limits_hold_interleaved_race :
    let answered := writesOf
      (answers (client.server.history (.start (Table.empty budgetSchema)) race))
    answered.map Prod.snd = [.consumed .accepted, .consumed .cooldown, .consumed .accepted] ∧
      (answered.filterMap (grantedTime (ascii "probe"))).length ≤ 3 ∧
      answered.countP (grants (ascii "probe") (ascii "second")) ≤ 1 := by
  obtain ⟨htotal, _, _, hkeys⟩ := limits_hold_interleaved (ascii "probe") probePolicy
    ⟨by decide, by decide⟩ race (by decide)
  exact ⟨by decide, htotal, hkeys _⟩

end Gaudere.Budget
