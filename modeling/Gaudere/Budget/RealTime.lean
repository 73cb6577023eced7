import Gaudere.Budget.Transactions
import Gaudere.Library.Linearizability

/-!
# What the connections were told

An answer outlives its call: the application that was granted a permit goes on to spend it, and the
next one asks on another connection. `grants_seen_by_later_calls` says that whatever any connection
was told before a call was made is taken account of by the answer to that call. A key that was
reported as granted is a duplicate, a new grant keeps the limits of its policy together with all the
grants that were reported, and a snapshot shows these and never falls behind an earlier snapshot.
The limits are those of the policy itself, not of the cutoff that the code computes, so the one on
the window supposes that the clock can represent the window that ends now (`WindowInRange`).

Nothing is said of calls that overlap: their order is that in which they took effect, and an answer
that was lost in a crash may or may not have.
-/

set_option autoImplicit false
set_option relaxedAutoImplicit false

namespace Gaudere.Budget

open Gaudere.Library BudgetStore

variable {Conn : Type}

/-- The answer says that the key is granted in the scope. -/
def TellsGranted (scope key : Bytes) (answer : Conn × Operation × Answer) : Prop :=
  ∃ now policy, answer.2.1 = .call (.consume scope key now policy) ∧
    (answer.2.2 = .replied (.consumed .accepted) ∨ answer.2.2 = .replied (.consumed .duplicate))

/-- The times that some answers grant to the scope. -/
def knownTimes (scope : Bytes) (known : List (Conn × Operation × Answer)) : List ℤ :=
  (writesOf known).filterMap (grantedTime scope)

/-- The clock can represent the window that ends now: its length, and its start. -/
structure WindowInRange (now : TimePoint) (policy : Policy) : Prop where
  length : Fits (policy.window.toInt * 1000000)
  start : policy.window.toInt * 1000000 ≤ now.toInt

/-- How many of the times are in the window of the policy that ends now. -/
def inWindow (times : List ℤ) (now : TimePoint) (policy : Policy) : ℕ :=
  times.countP fun ms ↦ (milliseconds now).toInt - policy.window.toInt < ms

/-- The times leave room for a grant under the policy. -/
structure RoomAfter (times : List ℤ) (now : TimePoint) (policy : Policy) : Prop where
  total : times.length < policy.maxTotal.toNat
  spaced : ∀ ms ∈ times, ms + policy.minInterval.toInt ≤ (milliseconds now).toInt
  windowed : WindowInRange now policy → inWindow times now policy < policy.maxInWindow.toNat

/-- The snapshot shows the times. -/
structure Shows (shown : Snapshot) (times : List ℤ) (now : TimePoint) (policy : Policy) :
    Prop where
  total : times.length ≤ shown.totalUsed
  windowed : WindowInRange now policy → inWindow times now policy ≤ shown.inWindowUsed
  latest : ∀ ms ∈ times, ∃ last, shown.lastConsumedAt = some last ∧ ms * 1000000 ≤ last.toInt

/-- The later snapshot is not behind the earlier one. -/
structure FollowsSnapshot (earlier later : Snapshot) : Prop where
  total : earlier.totalUsed ≤ later.totalUsed
  latest : ∀ last, earlier.lastConsumedAt = some last →
    ∃ last', later.lastConsumedAt = some last' ∧ last.toInt ≤ last'.toInt

/-- The answer takes account of what is known; it is an exception only for invalid arguments. -/
def AccountsFor (known : List (Conn × Operation × Answer)) : Operation → Answer → Prop
  | .call (.consume scope key now policy), .replied (.consumed result) =>
    ((∃ answer ∈ known, TellsGranted scope key answer) → result = .duplicate) ∧
      (result = .accepted → RoomAfter (knownTimes scope known) now policy)
  | .call (.consume scope key _ policy), .replied (.threw _) => ¬ ValidRequest scope key policy
  | .call .reopen, .replied .opened => True
  | .snapshot scope now policy, .observed shown =>
    Shows shown (knownTimes scope known) now policy ∧
      ∀ c now' policy' earlier, (c, .snapshot scope now' policy', .observed earlier) ∈ known →
        FollowsSnapshot earlier shown
  | .snapshot scope _ policy, .replied (.threw _) => scope = [] ∨ validPolicy policy = false
  | _, _ => False

/-! ### What stays recorded -/

/-- Snapshots aside, the operations lead where the calls lead. -/
theorem run_operations (t : BudgetTable) (operations' : List Operation) :
    operations.run t operations' = machine.run t (operations'.filterMap fun operation ↦
      match operation with
      | .call call => some call
      | .snapshot _ _ _ => none) := by
  induction operations' generalizing t with
  | nil => rfl
  | cons operation rest ih =>
    rw [Machine.run_cons, ih]
    cases operation with
    | call call => rfl
    | snapshot scope now policy =>
      have hafter : (operations.event t (.snapshot scope now policy)).after = t := by
        simp only [Machine.event, operations, BudgetStore.snapshot]
        cases validateScopePolicy scope policy <;> rfl
      rw [hafter]
      rfl

/-- No operation takes a row away. -/
theorem rows_sublist_run (t : BudgetTable) (operations' : List Operation) :
    t.rows.Sublist (operations.run t operations').rows := by
  rw [run_operations, rows_run]
  exact List.sublist_append_left _ _

theorem times_sublist {t t' : BudgetTable} (h : t.rows.Sublist t'.rows) (scope : CText) :
    (times t scope).Sublist (times t' scope) :=
  (h.filter _).map _

theorem granted_of_sublist {t t' : BudgetTable} (h : t.rows.Sublist t'.rows) {scope key : CText}
    (hgranted : granted t scope key = true) : granted t' scope key = true := by
  rw [granted_iff] at hgranted ⊢
  obtain ⟨row, hrow, hidentity⟩ := hgranted
  exact ⟨row, h.subset hrow, hidentity⟩

/-- Every accepted time is recorded, each in a row of its own. -/
theorem acceptedTimes_sublist (scope : Bytes) (calls : List Call) :
    (acceptedTimes scope (machine.history (Table.empty budgetSchema) calls)).Sublist
      ((times (machine.run (Table.empty budgetSchema) calls) (bindText scope)).map
        Int64.toInt) := by
  refine Machine.history_induction (motive := fun past t ↦ (acceptedTimes scope past).Sublist
      ((times t (bindText scope)).map Int64.toInt)) (List.Sublist.refl _)
    (fun past t call _ h ↦ ?_) (machine.unrestricted _ _)
  rw [acceptedTimes_concat]
  rcases step_cases t call with
    ⟨hreply, hafter⟩ | ⟨s, key, now, policy, rfl, _, _, hreply, hafter⟩
  · have hnone : acceptedTime scope (machine.event t call) = none := by
      cases call <;> simp [acceptedTime, hreply]
    rw [hnone, hafter, Option.toList_none, List.append_nil]
    exact h
  · rw [times_append hafter, List.map_append]
    refine h.append ?_
    simp only [acceptedTime, Machine.event_call, hreply, and_true]
    by_cases hs : s = scope
    · simp [hs]
    · simp [hs]

/-- After an answer that says that a key is granted, it is. -/
theorem granted_of_told {t : BudgetTable} {scope key : Bytes} {now : TimePoint} {policy : Policy}
    (h : (operations.step t (.call (.consume scope key now policy))).2 =
        .replied (.consumed .accepted) ∨
      (operations.step t (.call (.consume scope key now policy))).2 =
        .replied (.consumed .duplicate)) :
    granted (operations.step t (.call (.consume scope key now policy))).1 (bindText scope)
      (bindText key) = true := by
  have hreply : (machine.event t (.consume scope key now policy)).reply = .consumed .accepted ∨
      (machine.event t (.consume scope key now policy)).reply = .consumed .duplicate :=
    h.imp Answer.replied.inj Answer.replied.inj
  change granted (machine.event t (.consume scope key now policy)).after _ _ = true
  rcases step_cases t (.consume scope key now policy) with
    ⟨hrefused, hafter⟩ | ⟨s, key', now', policy', hcall, _, _, _, hafter⟩
  · have hduplicate := hreply.resolve_left hrefused
    have hvalid : ValidRequest scope key policy := by
      by_contra hinvalid
      obtain ⟨failure, hfailure⟩ := consume_of_not_valid hinvalid
      simp [Machine.event, machine, hfailure] at hduplicate
    rw [reply_of_valid hvalid, Reply.consumed.injEq, verdict_eq_duplicate_iff] at hduplicate
    rw [hafter]
    exact hduplicate
  · cases hcall
    rw [granted_iff, hafter]
    exact ⟨_, List.mem_append_right _ List.mem_cons_self, rfl, rfl⟩

/-! ### The answers -/

theorem exists_latest {recorded : List Int64} {ms : Int64} (h : ms ∈ recorded) :
    ∃ latest, recorded.max? = some latest ∧ ms.toInt ≤ latest.toInt := by
  cases hmax : recorded.max? with
  | none =>
    rw [List.max?_eq_none_iff] at hmax
    rw [hmax] at h
    exact absurd h List.not_mem_nil
  | some latest =>
    exact ⟨latest, rfl, Int64.le_iff_toInt_le.mp ((List.max?_eq_some_iff.mp hmax).2 ms h)⟩

section Recorded

variable {t : BudgetTable} {scope : CText} {known : List ℤ}

/-- Of the known times there are not more in a window than are recorded after its cutoff. -/
theorem inWindow_known_le (hknown : known.Subperm ((times t scope).map Int64.toInt))
    {now : TimePoint} {policy : Policy} (hvalid : validPolicy policy = true)
    (hwindow : WindowInRange now policy) :
    inWindow known now policy ≤
      (times t scope).countP fun ms ↦ milliseconds (cutoff now policy) < ms := by
  refine (hknown.countP_le _).trans (le_of_eq ?_)
  rw [List.countP_map]
  refine List.countP_congr fun ms _ ↦ ?_
  rw [Function.comp_apply, decide_eq_true_iff, decide_eq_true_iff, Int64.lt_iff_toInt_lt,
    toInt_cutoff (toInt_pos_window hvalid) hwindow.length hwindow.start]

theorem roomAfter_of_passes (hrecorded : ∀ ms ∈ times t scope, Fits (ms.toInt * 1000000))
    (hknown : known.Subperm ((times t scope).map Int64.toInt)) {now : TimePoint} {policy : Policy}
    (hvalid : validPolicy policy = true) (hpasses : Passes (times t scope) now policy) :
    RoomAfter known now policy := by
  constructor
  · have hlength := hknown.length_le
    rw [List.length_map] at hlength
    exact hlength.trans_lt hpasses.total
  · intro a ha
    obtain ⟨ms, hms, rfl⟩ := List.mem_map.mp (hknown.subset ha)
    obtain ⟨latest, hmax, hle⟩ := exists_latest hms
    have hinterval := Int64.le_iff_toInt_le.mp (hpasses.spaced latest hmax)
    rw [toInt_milliseconds_sub (hrecorded latest (List.max?_mem hmax))] at hinterval
    omega
  · exact fun hwindow ↦ (inWindow_known_le hknown hvalid hwindow).trans_lt hpasses.windowed

/-- The latest recorded time is shown, and no time that is known is after it. -/
theorem exists_lastConsumedAt
    (hrecorded : ∀ row ∈ t.rows, Fits (row.consumedAtMs.toInt * 1000000))
    (hknown : known.Subperm ((times t scope).map Int64.toInt)) (now : TimePoint)
    (policy : Policy) : ∀ ms ∈ known,
    ∃ last, (snapshotTransaction t scope now policy).lastConsumedAt = some last ∧
      ms * 1000000 ≤ last.toInt := by
  intro a ha
  obtain ⟨ms, hms, rfl⟩ := List.mem_map.mp (hknown.subset ha)
  obtain ⟨latest, hmax, hle⟩ := exists_latest hms
  have hlast := toInt_lastConsumedAt hrecorded scope now policy
  rw [hmax, Option.map_some, Option.map_eq_some_iff] at hlast
  obtain ⟨last, hlast, hvalue⟩ := hlast
  exact ⟨last, hlast, by omega⟩

theorem shows_recorded (hrecorded : ∀ row ∈ t.rows, Fits (row.consumedAtMs.toInt * 1000000))
    (hknown : known.Subperm ((times t scope).map Int64.toInt)) (now : TimePoint)
    {policy : Policy} (hvalid : validPolicy policy = true) :
    Shows (snapshotTransaction t scope now policy) known now policy := by
  have hlength := hknown.length_le
  rw [List.length_map] at hlength
  exact ⟨hlength, inWindow_known_le hknown hvalid,
    exists_lastConsumedAt hrecorded hknown now policy⟩

end Recorded

theorem followsSnapshot_of_sublist {t t' : BudgetTable} (h : t.rows.Sublist t'.rows)
    (hrecorded : ∀ row ∈ t'.rows, Fits (row.consumedAtMs.toInt * 1000000)) (scope : CText)
    (now now' : TimePoint) (policy policy' : Policy) :
    FollowsSnapshot (snapshotTransaction t scope now' policy')
      (snapshotTransaction t' scope now policy) := by
  have htimes := times_sublist h scope
  constructor
  · exact htimes.length_le
  · intro last hlast
    rw [lastConsumedAt_eq, Option.map_eq_some_iff] at hlast
    obtain ⟨ms, hmax, rfl⟩ := hlast
    obtain ⟨row, hrow, rfl⟩ := List.mem_map.mp (htimes.subset (List.max?_mem hmax))
    rw [timePoint, toInt_ofMilliseconds (hrecorded row (List.mem_filter.mp hrow).1)]
    exact exists_lastConsumedAt hrecorded (List.Subperm.refl _) now policy _
      (List.mem_map_of_mem (htimes.subset (List.max?_mem hmax)))

section Known

variable {prior : List (Conn × Operation)} {known : List (Conn × Operation × Answer)}

/-- The times that are known are recorded from then on, each in a row of its own. -/
theorem knownTimes_subperm
    (hknown : known.Subperm (operations.traces (Table.empty budgetSchema) prior))
    (between : List Operation) (scope : Bytes) :
    (knownTimes scope known).Subperm ((times (operations.run (Table.empty budgetSchema)
      (prior.map Prod.snd ++ between)) (bindText scope)).map Int64.toInt) := by
  obtain ⟨l, hperm, hsublist⟩ := hknown
  have hgranted : (knownTimes scope known).Subperm
      ((writesOf (operations.traces (Table.empty budgetSchema) prior)).filterMap
        (grantedTime scope)) :=
    ⟨(writesOf l).filterMap (grantedTime scope), (hperm.filterMap _).filterMap _,
      (hsublist.filterMap _).filterMap _⟩
  rw [writesOf_traces, ← acceptedTimes_eq] at hgranted
  refine hgranted.trans ((acceptedTimes_sublist scope _).subperm.trans ?_)
  have hrun := run_operations (Table.empty budgetSchema) (prior.map Prod.snd)
  rw [List.filterMap_map] at hrun
  have hkept := rows_sublist_run (operations.run (Table.empty budgetSchema) (prior.map Prod.snd))
    between
  rw [← Machine.run_append, hrun] at hkept
  exact ((times_sublist hkept _).map _).subperm

/-- The table bears out what the answers say: it has the times that they granted, and the rows that
any of them was given on. -/
structure TableKnows (known : List (Conn × Operation × Answer)) (t : BudgetTable) : Prop where
  representable : ∀ row ∈ t.rows, Fits (row.consumedAtMs.toInt * 1000000)
  recorded : ∀ scope, (knownTimes scope known).Subperm ((times t (bindText scope)).map Int64.toInt)
  told : ∀ answer ∈ known, ∃ t', answer.2.2 = (operations.step t' answer.2.1).2 ∧
    (operations.step t' answer.2.1).1.rows.Sublist t.rows

/-- The table that is left by the calls behind the known answers, and maybe others, bears these
out. -/
theorem tableKnows_run
    (hknown : known.Subperm (operations.traces (Table.empty budgetSchema) prior))
    (between : List Operation) :
    TableKnows known (operations.run (Table.empty budgetSchema)
      (prior.map Prod.snd ++ between)) := by
  constructor
  · rw [run_operations]
    exact representable_run _
  · exact knownTimes_subperm hknown between
  · intro answer hmem
    obtain ⟨past, future, hprior, hanswer⟩ := Machine.exists_of_mem_traces (hknown.subset hmem)
    refine ⟨operations.run (Table.empty budgetSchema) past, hanswer, ?_⟩
    rw [hprior, List.append_assoc, List.cons_append, Machine.run_append, Machine.run_cons]
    exact rows_sublist_run _ _

namespace TableKnows

variable {t : BudgetTable} (h : TableKnows known t)

include h

theorem accountsFor_snapshot (scope : Bytes) (now : TimePoint) {policy : Policy}
    (hpolicy : validPolicy policy = true) :
    AccountsFor known (.snapshot scope now policy)
      (.observed (snapshotTransaction t (bindText scope) now policy)) := by
  refine ⟨shows_recorded h.representable (h.recorded scope) now hpolicy, ?_⟩
  intro c now' policy' earlier hmem
  obtain ⟨t', hanswer, hrows⟩ := h.told _ hmem
  simp only [operations, BudgetStore.snapshot] at hanswer hrows
  cases hvalid : validateScopePolicy scope policy' with
  | some failure =>
    rw [hvalid] at hanswer
    cases hanswer
  | none =>
    rw [hvalid] at hanswer hrows
    rw [Answer.observed.inj hanswer]
    exact followsSnapshot_of_sublist hrows h.representable _ now now' policy policy'

theorem accountsFor_consume (scope key : Bytes) (now : TimePoint) {policy : Policy}
    (hpolicy : validPolicy policy = true) :
    AccountsFor known (.call (.consume scope key now policy)) (.replied (.consumed
      (verdict (granted t (bindText scope) (bindText key)) (times t (bindText scope)) now
        policy))) := by
  refine ⟨?_, fun haccepted ↦ ?_⟩
  · rintro ⟨⟨c, operation, answer⟩, hmem, now', policy', rfl, htells⟩
    obtain ⟨t', hanswer, hrows⟩ := h.told _ hmem
    simp only [] at hanswer htells hrows
    rw [hanswer] at htells
    rw [verdict_eq_duplicate_iff]
    exact granted_of_sublist hrows (granted_of_told htells)
  · refine roomAfter_of_passes (fun ms hms ↦ ?_) (h.recorded scope) hpolicy
      (passes_of_accepted haccepted).2
    obtain ⟨row, hrow, rfl⟩ := List.mem_map.mp hms
    exact h.representable row (List.mem_filter.mp hrow).1

/-- Every answer on the table takes account of what the table bears out. -/
theorem accountsFor (operation : Operation) :
    AccountsFor known operation (operations.step t operation).2 := by
  cases operation with
  | snapshot scope now policy =>
    simp only [operations, BudgetStore.snapshot]
    cases hchecked : validateScopePolicy scope policy with
    | some failure =>
      unfold validateScopePolicy at hchecked
      split_ifs at hchecked with hscope hpolicy
      · exact Or.inl hscope
      · exact Or.inr (Bool.eq_false_iff.mpr hpolicy)
    | none =>
      unfold validateScopePolicy at hchecked
      split_ifs at hchecked with hscope hpolicy
      exact h.accountsFor_snapshot scope now hpolicy
  | call call =>
    cases call with
    | reopen => trivial
    | consume scope key now policy =>
      by_cases hvalid : ValidRequest scope key policy
      · have hreply : (operations.step t (.call (.consume scope key now policy))).2 =
            .replied (.consumed (verdict (granted t (bindText scope) (bindText key))
              (times t (bindText scope)) now policy)) :=
          congrArg Answer.replied (reply_of_valid hvalid t now)
        rw [hreply]
        exact h.accountsFor_consume scope key now hvalid.2.1
      · obtain ⟨failure, hfailure⟩ := consume_of_not_valid hvalid
        simp only [operations, machine, hfailure]
        exact hvalid

end TableKnows

end Known

/-- However the statements of the connections interleave, and whichever of them fail or crash: the
answer to a call takes account of all the answers that were delivered, on any connection, before the
call was made. A consumption whose key was reported as granted is a duplicate, a grant keeps the
limits of its policy together with all the reported grants of the scope, and a snapshot shows the
reported grants and is not behind any reported snapshot of the scope; what is said of the window of
a policy supposes that the clock can represent it. Only invalid arguments are answered with an
exception. -/
theorem grants_seen_by_later_calls [DecidableEq Conn] {acts : List (Conn × Act Operation)}
    {first middle rest : List (Observation Conn BudgetTable Operation Answer)}
    {i e : Observation Conn BudgetTable Operation Answer} {opened operation : Operation}
    {answer : Answer}
    (h : client.server.history (.start (Table.empty budgetSchema)) acts =
      first ++ i :: (middle ++ e :: rest))
    (hconn : i.call.1 = e.call.1) (hinvoked : i.reply = .invoked opened)
    (hanswered : e.reply = .answered operation answer) :
    AccountsFor (answers first) operation answer := by
  obtain ⟨hknown, between, _, _, hanswer⟩ :=
    Client.answered_after_invocation client_implements h hconn hinvoked hanswered
  rw [hanswer]
  exact (tableKnows_run hknown between).accountsFor operation

/-- After the race the first connection asks for a third permit, when the window holds only the one
that the second connection was granted. -/
def third : Operation :=
  .call (.consume (ascii "probe") (ascii "third") (ofMilliseconds 3000) probePolicy)

def afterRace : List (ℕ × Act Operation) :=
  [(0, .invoke third), (0, .begin), (0, .execute), (0, .execute), (0, .execute), (0, .execute),
    (0, .execute), (0, .close), (0, .answer)]

theorem grants_seen_by_later_calls_race :
    let known := answers (client.server.history (.start (Table.empty budgetSchema)) race)
    knownTimes (ascii "probe") known = [2000, 2010] ∧
      inWindow [2000, 2010] (ofMilliseconds 3000) probePolicy = 1 ∧
      AccountsFor known third (.replied (.consumed .accepted)) := by
  refine ⟨by decide, by decide, ?_⟩
  let s := client.server.run (.start (Table.empty budgetSchema)) race
  have hinvoked : (client.server.event s (0, .invoke third)).reply.invocation = some third := by
    decide
  have hanswered : (client.server.event (client.server.run s (afterRace.take 8))
      (0, .answer)).reply.answer = some (third, .replied (.consumed .accepted)) := by decide
  have h : client.server.history (.start (Table.empty budgetSchema)) (race ++ afterRace) =
      client.server.history (.start (Table.empty budgetSchema)) race ++
        client.server.event s (0, .invoke third) :: (client.server.history
          (client.server.event s (0, .invoke third)).after (afterRace.tail.take 7) ++
            client.server.event (client.server.run s (afterRace.take 8)) (0, .answer) :: []) :=
    client.server.history_append _ _ _
  exact grants_seen_by_later_calls h rfl (Output.invocation_eq_some_iff.mp hinvoked)
    (Output.answer_eq_some_iff.mp hanswered)

end Gaudere.Budget
