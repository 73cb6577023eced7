import Gaudere.Library.Cpp
import Gaudere.Library.Machine
import Gaudere.Library.Table

/-!
# The budget store

`consume` decides whether a scarce effect may happen: it counts and compares the consumptions of a
scope recorded in the table `budget_consumptions` and inserts one more when every limit allows
it, all inside one immediate transaction. `verdict` is its decision as a function of what it
queried, the transaction returns it, and `step_cases` lists what
a call can do to the table.

Strings are bound through `bindText`, which passes `c_str()` without a length. Counts are row
counts, times are stored in milliseconds, and the cutoff of the window is computed on the
nanosecond clock with the wraparound of 64-bit arithmetic.

Calls of any number of connections and reopenings are serialised by their transactions, so a run
is a list of calls; `reopen` is a constructor run on a database that has the table.
-/

set_option autoImplicit false
set_option relaxedAutoImplicit false

namespace Gaudere.Budget

open Gaudere.Library

structure Policy where
  maxTotal : UInt64
  maxInWindow : UInt64
  window : Milliseconds
  minInterval : Milliseconds
deriving DecidableEq, Repr

inductive ConsumeResult
  | accepted
  | duplicate
  | totalExhausted
  | windowExhausted
  | cooldown
  | clockRollback
deriving DecidableEq, Repr

def validPolicy (policy : Policy) : Bool :=
  0 < policy.maxTotal && 0 < policy.maxInWindow && policy.maxInWindow ≤ policy.maxTotal &&
    0 < policy.window && 0 ≤ policy.minInterval && policy.minInterval ≤ policy.window

/-- A row of the table `budget_consumptions`. -/
structure ConsumptionRow where
  scope : CText
  idempotencyKey : CText
  consumedAtMs : Int64
deriving DecidableEq, Repr

/-- The primary key is the table's only constraint, so it also stands in as its second key. -/
def budgetSchema : Schema ConsumptionRow (CText × CText) (CText × CText) where
  key row := (row.scope, row.idempotencyKey)
  alternate row := (row.scope, row.idempotencyKey)
  check _ := true

abbrev BudgetTable := Table budgetSchema

/-- The exceptions of the store. -/
inductive Failure
  | invalidArgument (what : String)
  | sqlite
deriving DecidableEq, Repr

namespace BudgetStore

def milliseconds (value : TimePoint) : Int64 := toMilliseconds value

/-- `sqlite3_bind_text` with length -1: SQLite reads the string up to its first NUL. -/
def bindText (value : Bytes) : CText := toCText value

/-- The recorded times of a scope, in row order. -/
def times (t : BudgetTable) (scope : CText) : List Int64 :=
  (t.rows.filter fun row ↦ row.scope = scope).map ConsumptionRow.consumedAtMs

/-- `SELECT COUNT(*) ... WHERE scope=?1`. -/
def countTotal (t : BudgetTable) (scope : CText) : ℕ := (times t scope).length

/-- `SELECT MAX(consumed_at_ms) ... WHERE scope=?1`. -/
def latestMs (t : BudgetTable) (scope : CText) : Option Int64 := (times t scope).max?

/-- `SELECT COUNT(*) ... WHERE scope=?1 AND consumed_at_ms>?2`. -/
def countAfter (t : BudgetTable) (scope : CText) (cutoffMs : Int64) : ℕ :=
  (times t scope).countP fun ms ↦ cutoffMs < ms

/-- `now - policy.window`: the window is converted to the clock's nanoseconds. -/
def cutoff (now : TimePoint) (policy : Policy) : TimePoint := now - ofMilliseconds policy.window

def validateScopePolicy (scope : Bytes) (policy : Policy) : Option Failure :=
  if scope = [] then some (.invalidArgument "budget scope must not be empty")
  else if ¬ validPolicy policy then some (.invalidArgument "invalid budget policy")
  else none

/-- The checks and the insertion of `consume`, inside its transaction. -/
def consumeTransaction (t : BudgetTable) (scope key : CText) (now : TimePoint)
    (policy : Policy) : BudgetTable × Except Failure ConsumeResult :=
  let nowMs := milliseconds now
  if (t.lookup (scope, key)).isSome then (t, .ok .duplicate)
  else if policy.maxTotal.toNat ≤ countTotal t scope then (t, .ok .totalExhausted)
  else if (latestMs t scope).any fun latest ↦ decide (nowMs < latest) then
    (t, .ok .clockRollback)
  else if (latestMs t scope).any fun latest ↦ decide (nowMs - latest < policy.minInterval) then
    (t, .ok .cooldown)
  else if policy.maxInWindow.toNat ≤ countAfter t scope (milliseconds (cutoff now policy)) then
    (t, .ok .windowExhausted)
  else
    match t.insert { scope := scope, idempotencyKey := key, consumedAtMs := nowMs } with
    | some t' => (t', .ok .accepted)
    | none => (t, .error .sqlite)

def consume (t : BudgetTable) (scope idempotencyKey : Bytes) (now : TimePoint)
    (policy : Policy) : BudgetTable × Except Failure ConsumeResult :=
  match validateScopePolicy scope policy with
  | some failure => (t, .error failure)
  | none =>
    if idempotencyKey = [] then
      (t, .error (.invalidArgument "budget idempotency key must not be empty"))
    else consumeTransaction t (bindText scope) (bindText idempotencyKey) now policy

/-! ### What one consumption does -/

/-- The decision of the transaction, from whether the key was granted before and the recorded
times of the scope. -/
def verdict (granted : Bool) (recorded : List Int64) (now : TimePoint) (policy : Policy) :
    ConsumeResult :=
  if granted then .duplicate
  else if policy.maxTotal.toNat ≤ recorded.length then .totalExhausted
  else if recorded.max?.any fun latest ↦ decide (milliseconds now < latest) then .clockRollback
  else if recorded.max?.any fun latest ↦ decide (milliseconds now - latest < policy.minInterval)
    then .cooldown
  else if policy.maxInWindow.toNat ≤
      recorded.countP fun ms ↦ milliseconds (cutoff now policy) < ms then .windowExhausted
  else .accepted

/-- The key was granted in the scope. -/
def granted (t : BudgetTable) (scope key : CText) : Bool := (t.lookup (scope, key)).isSome

theorem granted_iff {t : BudgetTable} {scope key : CText} :
    granted t scope key = true ↔
      ∃ row ∈ t.rows, row.scope = scope ∧ row.idempotencyKey = key := by
  rw [granted, Option.isSome_iff_exists]
  refine exists_congr fun row ↦ ?_
  rw [Table.lookup_eq_some_iff]
  exact and_congr_right fun _ ↦ Prod.mk.injEq _ _ _ _ ▸ Iff.rfl

/-- A verdict against the consumption leaves the table. -/
theorem consumeTransaction_of_refused {t : BudgetTable} {scope key : CText} {now : TimePoint}
    {policy : Policy}
    (h : verdict (granted t scope key) (times t scope) now policy ≠ .accepted) :
    consumeTransaction t scope key now policy =
      (t, .ok (verdict (granted t scope key) (times t scope) now policy)) := by
  revert h
  simp only [verdict, consumeTransaction, granted, countTotal, latestMs, countAfter]
  by_cases hduplicate : (t.lookup (scope, key)).isSome = true
  · simp only [hduplicate, ↓reduceIte, implies_true]
  by_cases htotal : policy.maxTotal.toNat ≤ (times t scope).length
  · simp only [hduplicate, htotal, ↓reduceIte, implies_true, Bool.false_eq_true]
  by_cases hrollback : (times t scope).max?.any fun latest ↦ decide (milliseconds now < latest)
  · simp only [hduplicate, htotal, hrollback, ↓reduceIte, implies_true, Bool.false_eq_true]
  by_cases hcooldown : (times t scope).max?.any fun latest ↦
      decide (milliseconds now - latest < policy.minInterval)
  · simp only [hduplicate, htotal, hrollback, hcooldown, ↓reduceIte, implies_true,
      Bool.false_eq_true]
  by_cases hwindow : policy.maxInWindow.toNat ≤
      (times t scope).countP fun ms ↦ milliseconds (cutoff now policy) < ms
  · simp only [hduplicate, htotal, hrollback, hcooldown, hwindow, ↓reduceIte, implies_true,
      Bool.false_eq_true]
  · simp only [hduplicate, htotal, hrollback, hcooldown, hwindow, ↓reduceIte, Bool.false_eq_true,
      ne_eq, not_true_eq_false, false_implies]

/-- A verdict for the consumption appends its row; the key is new, so the insertion cannot
fail. -/
theorem consumeTransaction_of_accepted {t : BudgetTable} {scope key : CText} {now : TimePoint}
    {policy : Policy}
    (h : verdict (granted t scope key) (times t scope) now policy = .accepted) :
    ∃ t', consumeTransaction t scope key now policy = (t', .ok .accepted) ∧
      t'.rows = t.rows ++
        [{ scope := scope, idempotencyKey := key, consumedAtMs := milliseconds now }] := by
  unfold verdict at h
  split_ifs at h with hduplicate htotal hrollback hcooldown hwindow
  have hnone : t.lookup (scope, key) = none := by simpa [granted] using hduplicate
  let row : ConsumptionRow :=
    { scope := scope, idempotencyKey := key, consumedAtMs := milliseconds now }
  have hfresh : ∀ r ∈ t.rows, budgetSchema.key r ≠ budgetSchema.key row :=
    Table.lookup_eq_none_iff.mp hnone
  obtain ⟨t', ht', hrows⟩ := Table.insert_of_fresh hfresh hfresh rfl
  refine ⟨t', ?_, hrows⟩
  simp only [row] at ht'
  simp only [consumeTransaction, hnone, Option.isSome_none, countTotal, htotal, latestMs, hrollback,
    hcooldown, countAfter, hwindow, ht', ↓reduceIte, Bool.false_eq_true]

/-- A consumption returns the verdict on its key. -/
theorem consumeTransaction_result (t : BudgetTable) (scope key : CText) (now : TimePoint)
    (policy : Policy) :
    (consumeTransaction t scope key now policy).2 =
      .ok (verdict (granted t scope key) (times t scope) now policy) := by
  by_cases haccepted : verdict (granted t scope key) (times t scope) now policy = .accepted
  · obtain ⟨t', ht', _⟩ := consumeTransaction_of_accepted haccepted
    rw [ht', haccepted]
  · rw [consumeTransaction_of_refused haccepted]

theorem verdict_eq_duplicate_iff {granted : Bool} {recorded : List Int64} {now : TimePoint}
    {policy : Policy} : verdict granted recorded now policy = .duplicate ↔ granted = true := by
  unfold verdict
  split_ifs with hgranted <;> simp [hgranted]

theorem not_any_max {recorded : List Int64} {p : Int64 → Bool}
    (h : ¬ recorded.max?.any p = true) {latest : Int64} (hlatest : recorded.max? = some latest) :
    p latest = false := by
  rw [hlatest, Option.any_some, Bool.not_eq_true] at h
  exact h

theorem le_of_not_rollback {recorded : List Int64} {nowMs : Int64}
    (h : ¬ recorded.max?.any (fun latest ↦ decide (nowMs < latest)) = true) :
    ∀ ms ∈ recorded, ms ≤ nowMs := by
  intro ms hms
  cases hlatest : recorded.max? with
  | none =>
    rw [List.max?_eq_none_iff] at hlatest
    rw [hlatest] at hms
    exact absurd hms List.not_mem_nil
  | some latest =>
    have hle : ms ≤ latest := (List.max?_eq_some_iff.mp hlatest).2 ms hms
    have hnot := not_any_max h hlatest
    rw [decide_eq_false_iff_not, Int64.lt_iff_toInt_lt] at hnot
    rw [Int64.le_iff_toInt_le] at hle ⊢
    omega

/-- What an accepted consumption has passed. -/
structure Passes (recorded : List Int64) (now : TimePoint) (policy : Policy) : Prop where
  total : recorded.length < policy.maxTotal.toNat
  ordered : ∀ ms ∈ recorded, ms ≤ milliseconds now
  spaced : ∀ latest, recorded.max? = some latest → policy.minInterval ≤ milliseconds now - latest
  windowed : recorded.countP (fun ms ↦ decide (milliseconds (cutoff now policy) < ms)) <
    policy.maxInWindow.toNat

theorem passes_of_accepted {granted : Bool} {recorded : List Int64} {now : TimePoint}
    {policy : Policy} (h : verdict granted recorded now policy = .accepted) :
    granted = false ∧ Passes recorded now policy := by
  unfold verdict at h
  split_ifs at h with hgranted htotal hrollback hcooldown hwindow
  refine ⟨by simpa using hgranted, not_le.mp htotal, le_of_not_rollback hrollback, ?_,
    not_le.mp hwindow⟩
  intro latest hlatest
  have hnot := not_any_max hcooldown hlatest
  rw [decide_eq_false_iff_not, Int64.lt_iff_toInt_lt] at hnot
  rw [Int64.le_iff_toInt_le]
  omega

/-- The arguments that `consume` does not reject. -/
def ValidRequest (scope idempotencyKey : Bytes) (policy : Policy) : Prop :=
  scope ≠ [] ∧ validPolicy policy = true ∧ idempotencyKey ≠ []

instance (scope idempotencyKey : Bytes) (policy : Policy) :
    Decidable (ValidRequest scope idempotencyKey policy) :=
  inferInstanceAs (Decidable (scope ≠ [] ∧ validPolicy policy = true ∧ idempotencyKey ≠ []))

theorem consume_of_valid {scope idempotencyKey : Bytes} {policy : Policy}
    (h : ValidRequest scope idempotencyKey policy) (t : BudgetTable) (now : TimePoint) :
    consume t scope idempotencyKey now policy =
      consumeTransaction t (bindText scope) (bindText idempotencyKey) now policy := by
  obtain ⟨hscope, hpolicy, hkey⟩ := h
  simp only [consume, validateScopePolicy, hscope, hpolicy, not_true_eq_false, ↓reduceIte, hkey]

theorem consume_of_not_valid {scope idempotencyKey : Bytes} {policy : Policy}
    (h : ¬ ValidRequest scope idempotencyKey policy) :
    ∃ failure, ∀ t now, consume t scope idempotencyKey now policy = (t, .error failure) := by
  unfold consume validateScopePolicy
  by_cases hscope : scope = []
  · exact ⟨_, fun t now ↦ by rw [if_pos hscope]⟩
  · by_cases hpolicy : validPolicy policy = true
    · by_cases hkey : idempotencyKey = []
      · exact ⟨_, fun t now ↦ by rw [if_neg hscope, if_neg (not_not.mpr hpolicy), if_pos hkey]⟩
      · exact absurd ⟨hscope, hpolicy, hkey⟩ h
    · exact ⟨_, fun t now ↦ by rw [if_neg hscope, if_pos hpolicy]⟩

end BudgetStore

/-! ### Runs -/

open BudgetStore

/-- An operation with its arguments and the clock value it samples. -/
inductive Call
  | consume (scope idempotencyKey : Bytes) (now : TimePoint) (policy : Policy)
  | reopen
deriving DecidableEq, Repr

/-- What an operation returns or throws. -/
inductive Reply
  | consumed (result : ConsumeResult)
  | threw (failure : Failure)
  | opened
deriving DecidableEq, Repr

/-- The store, as a machine over its operations. -/
def machine : Machine BudgetTable Call Reply where
  step t
    | .consume scope idempotencyKey now policy =>
      match BudgetStore.consume t scope idempotencyKey now policy with
      | (t', .ok result) => (t', .consumed result)
      | (t', .error failure) => (t', .threw failure)
    | .reopen => (t, .opened)

/-- Everything one call can do: leave the table without a grant, or grant a valid request that
passes the limits and append its row. -/
inductive Step (t : BudgetTable) (call : Call) : Prop
  | kept (hreply : (machine.event t call).reply ≠ .consumed .accepted)
      (hafter : (machine.event t call).after = t) : Step t call
  | accepted (scope idempotencyKey : Bytes) (now : TimePoint) (policy : Policy)
      (hcall : call = .consume scope idempotencyKey now policy)
      (hvalid : ValidRequest scope idempotencyKey policy)
      (hpasses : Passes (times t (bindText scope)) now policy)
      (hreply : (machine.event t call).reply = .consumed .accepted)
      (hafter : (machine.event t call).after.rows = t.rows ++
        [{ scope := bindText scope
           idempotencyKey := bindText idempotencyKey
           consumedAtMs := milliseconds now }]) : Step t call

/-- A valid request is answered by its verdict. -/
theorem reply_of_valid {scope idempotencyKey : Bytes} {policy : Policy}
    (h : ValidRequest scope idempotencyKey policy) (t : BudgetTable)
    (now : TimePoint) :
    (machine.event t (.consume scope idempotencyKey now policy)).reply = .consumed
      (verdict (granted t (bindText scope) (bindText idempotencyKey)) (times t (bindText scope)) now
        policy) := by
  by_cases haccepted : verdict (granted t (bindText scope) (bindText idempotencyKey))
      (times t (bindText scope)) now policy = .accepted
  · obtain ⟨t', ht', _⟩ := consumeTransaction_of_accepted haccepted
    simp only [Machine.event, machine, consume_of_valid h, ht', haccepted]
  · simp only [Machine.event, machine, consume_of_valid h,
      consumeTransaction_of_refused haccepted]

theorem step_cases (t : BudgetTable) (call : Call) : Step t call := by
  cases call with
  | reopen => exact .kept (by simp [Machine.event, machine]) rfl
  | consume scope idempotencyKey now policy =>
    by_cases hvalid : ValidRequest scope idempotencyKey policy
    · have hreply := reply_of_valid hvalid t now
      by_cases haccepted : verdict (granted t (bindText scope) (bindText idempotencyKey))
          (times t (bindText scope)) now policy = .accepted
      · obtain ⟨t', ht', hrows⟩ := consumeTransaction_of_accepted haccepted
        rw [haccepted] at hreply
        refine .accepted scope idempotencyKey now policy rfl hvalid
          (passes_of_accepted haccepted).2 hreply ?_
        simp only [Machine.event, machine, consume_of_valid hvalid, ht', hrows]
      · refine .kept (by rw [hreply]; simpa using haccepted) ?_
        simp only [Machine.event, machine, consume_of_valid hvalid,
          consumeTransaction_of_refused haccepted]
    · obtain ⟨failure, hfailure⟩ := consume_of_not_valid hvalid
      exact .kept (by simp [Machine.event, machine, hfailure])
        (by simp only [Machine.event, machine, hfailure])

/-- The row an event appends to the table. -/
def grantedRow (e : Event BudgetTable Call Reply) : Option ConsumptionRow :=
  match e.call with
  | .consume scope idempotencyKey now _ =>
    if e.reply = .consumed .accepted then
      some
        { scope := bindText scope
          idempotencyKey := bindText idempotencyKey
          consumedAtMs := milliseconds now }
    else none
  | .reopen => none

theorem rows_after (t : BudgetTable) (call : Call) :
    (machine.event t call).after.rows = t.rows ++ (grantedRow (machine.event t call)).toList := by
  rcases step_cases t call with ⟨hreply, hafter⟩ |
    ⟨scope, key, now, policy, rfl, _, _, hreply, hafter⟩
  · have hnone : grantedRow (machine.event t call) = none := by
      cases call <;> simp [grantedRow, hreply]
    rw [hafter, hnone, Option.toList_none, List.append_nil]
  · rw [hafter]
    simp only [grantedRow, Machine.event_call, hreply, ↓reduceIte, Option.toList_some]

/-- The table is the list of the grants. -/
theorem rows_run (t : BudgetTable) (calls : List Call) :
    (machine.run t calls).rows = t.rows ++ (machine.history t calls).filterMap grantedRow := by
  induction calls generalizing t with
  | nil => exact (List.append_nil _).symm
  | cons call calls ih =>
    rw [Machine.run_cons, ih, rows_after, Machine.history_cons, List.append_assoc]
    cases h : grantedRow (machine.event t call) <;> simp [h]

/-- Every recorded time is a clock value in milliseconds. -/
theorem representable_run (calls : List Call) :
    ∀ row ∈ (machine.run (Table.empty budgetSchema) calls).rows,
      Fits (row.consumedAtMs.toInt * 1000000) := by
  intro row hrow
  rw [rows_run, Table.rows_empty, List.nil_append] at hrow
  obtain ⟨e, _, hgranted⟩ := List.mem_filterMap.mp hrow
  unfold grantedRow at hgranted
  split at hgranted
  · split_ifs at hgranted
    cases hgranted
    exact fits_toMilliseconds_mul _
  · cases hgranted

end Gaudere.Budget
