import Gaudere.Budget.Limits

/-!
# The snapshot of a budget

`snapshot` reports the usage of a scope and what a new key would get at the clock value. It decides
after all its queries what `consume` decides between them. `snapshot_predicts_consume` says that
the two agree on every reachable table, and that the snapshot shows the consumptions that were
recorded.

The snapshot counts and compares like `consume`, so both are read off the same `verdict`. What is
shown of the last consumption is a clock value again: the conversion is exact because every
recorded time was one.
-/

set_option autoImplicit false
set_option relaxedAutoImplicit false

namespace Gaudere.Budget

open Gaudere.Library BudgetStore

structure Snapshot where
  totalUsed : ℕ
  inWindowUsed : ℕ
  lastConsumedAt : Option TimePoint
  nextNewConsumption : ConsumeResult
deriving DecidableEq, Repr

namespace BudgetStore

def timePoint (value : Int64) : TimePoint := ofMilliseconds value

/-- The queries of `snapshot` and its decision, inside its transaction. -/
def snapshotTransaction (t : BudgetTable) (scope : CText) (now : TimePoint) (policy : Policy) :
    Snapshot :=
  let totalUsed := countTotal t scope
  let nowMs := milliseconds now
  let latest := latestMs t scope
  let inWindowUsed := countAfter t scope (milliseconds (cutoff now policy))
  { totalUsed := totalUsed
    inWindowUsed := inWindowUsed
    lastConsumedAt := latest.map timePoint
    nextNewConsumption :=
      if policy.maxTotal.toNat ≤ totalUsed then .totalExhausted
      else if latest.any fun latest ↦ decide (nowMs < latest) then .clockRollback
      else if latest.any fun latest ↦ decide (nowMs - latest < policy.minInterval) then .cooldown
      else if policy.maxInWindow.toNat ≤ inWindowUsed then .windowExhausted
      else .accepted }

def snapshot (t : BudgetTable) (scope : Bytes) (now : TimePoint) (policy : Policy) :
    BudgetTable × Except Failure Snapshot :=
  match validateScopePolicy scope policy with
  | some failure => (t, .error failure)
  | none => (t, .ok (snapshotTransaction t (bindText scope) now policy))

end BudgetStore

/-! ### Recorded times -/

/-- The recorded times of a scope. -/
def recordedTimes (t : BudgetTable) (scope : Bytes) : List Int64 :=
  (t.rows.filter fun row ↦ row.scope.val = scope).map ConsumptionRow.consumedAtMs

/-- A scope without NUL is bound as it is. -/
theorem times_of_plain (t : BudgetTable) {scope : Bytes} (hscope : (0 : UInt8) ∉ scope) :
    times t (bindText scope) = recordedTimes t scope := by
  refine congrArg (List.map ConsumptionRow.consumedAtMs) (List.filter_congr fun row _ ↦ ?_)
  rw [decide_eq_decide, Subtype.ext_iff, bindText, val_toCText, cString_eq_self_iff.mpr hscope]

/-- A key without a row of its own was not granted. -/
theorem granted_of_plain {t : BudgetTable} {scope key : Bytes} (hscope : (0 : UInt8) ∉ scope)
    (hkey : (0 : UInt8) ∉ key)
    (hnew : ∀ row ∈ t.rows, ¬ (row.scope.val = scope ∧ row.idempotencyKey.val = key)) :
    granted t (bindText scope) (bindText key) = false := by
  rw [Bool.eq_false_iff, ne_eq, granted_iff]
  rintro ⟨row, hrow, hscope', hkey'⟩
  refine hnew row hrow ⟨?_, ?_⟩
  · rw [hscope', bindText, val_toCText, cString_eq_self_iff.mpr hscope]
  · rw [hkey', bindText, val_toCText, cString_eq_self_iff.mpr hkey]

/-! ### What a snapshot shows -/

theorem snapshot_of_valid {scope : Bytes} {policy : Policy} (hscope : scope ≠ [])
    (hpolicy : validPolicy policy = true) (t : BudgetTable) (now : TimePoint) :
    snapshot t scope now policy = (t, .ok (snapshotTransaction t (bindText scope) now policy)) := by
  simp only [snapshot, validateScopePolicy, hscope, hpolicy, not_true_eq_false, ↓reduceIte]

/-- The snapshot decides on a new key as a consumption does. -/
theorem nextNewConsumption_eq (t : BudgetTable) (scope : CText) (now : TimePoint)
    (policy : Policy) :
    (snapshotTransaction t scope now policy).nextNewConsumption =
      verdict false (times t scope) now policy := by
  simp only [snapshotTransaction, verdict, countTotal, latestMs, countAfter, Bool.false_eq_true,
    ↓reduceIte]
  by_cases htotal : policy.maxTotal.toNat ≤ (times t scope).length
  · simp only [htotal, ↓reduceIte]
  by_cases hrollback : (times t scope).max?.any fun latest ↦ decide (milliseconds now < latest)
  · simp only [htotal, hrollback, ↓reduceIte]
  by_cases hcooldown : (times t scope).max?.any fun latest ↦
      decide (milliseconds now - latest < policy.minInterval)
  · simp only [htotal, hrollback, hcooldown, ↓reduceIte]
  · simp only [htotal, hrollback, hcooldown, ↓reduceIte]
    by_cases hwindow : policy.maxInWindow.toNat ≤
        (times t scope).countP fun ms ↦ milliseconds (cutoff now policy) < ms
    · simp only [hwindow, ↓reduceIte]
    · simp only [hwindow, ↓reduceIte]

theorem totalUsed_eq (t : BudgetTable) (scope : CText) (now : TimePoint) (policy : Policy) :
    (snapshotTransaction t scope now policy).totalUsed = (times t scope).length := by
  rw [snapshotTransaction, countTotal]

theorem lastConsumedAt_eq (t : BudgetTable) (scope : CText) (now : TimePoint) (policy : Policy) :
    (snapshotTransaction t scope now policy).lastConsumedAt =
      (times t scope).max?.map timePoint := by
  rw [snapshotTransaction, latestMs]

/-- The latest recorded time is shown as the clock value it was. -/
theorem toInt_lastConsumedAt {t : BudgetTable}
    (h : ∀ row ∈ t.rows, Fits (row.consumedAtMs.toInt * 1000000)) (scope : CText)
    (now : TimePoint) (policy : Policy) :
    (snapshotTransaction t scope now policy).lastConsumedAt.map Int64.toInt =
      (times t scope).max?.map fun ms ↦ ms.toInt * 1000000 := by
  rw [lastConsumedAt_eq, Option.map_map]
  refine Option.map_congr fun latest hlatest ↦ ?_
  obtain ⟨row, hrow, rfl⟩ := List.mem_map.mp (List.max?_mem hlatest)
  rw [Function.comp_apply, timePoint, toInt_ofMilliseconds (h row (List.mem_filter.mp hrow).1)]

/-- After an accepted consumption the snapshot shows one more, made at the clock value. -/
theorem snapshotTransaction_of_accepted {t t' : BudgetTable} {scope key : CText} {now : TimePoint}
    {policy : Policy} (hpasses : Passes (times t scope) now policy)
    (hrows : t'.rows = t.rows ++
      [{ scope := scope, idempotencyKey := key, consumedAtMs := milliseconds now }]) :
    (snapshotTransaction t' scope now policy).totalUsed =
      (snapshotTransaction t scope now policy).totalUsed + 1 ∧
    (snapshotTransaction t' scope now policy).lastConsumedAt.map Int64.toInt =
      some (now.toInt.tdiv 1000000 * 1000000) := by
  have hrecorded := times_append hrows scope
  rw [if_pos rfl] at hrecorded
  constructor
  · rw [totalUsed_eq, totalUsed_eq, hrecorded, List.length_append, List.length_singleton]
  · rw [lastConsumedAt_eq, hrecorded, max?_concat_of_le hpasses.ordered, Option.map_some,
      Option.map_some, timePoint, milliseconds, toInt_ofMilliseconds (fits_toMilliseconds_mul now),
      toInt_toMilliseconds]

/-- On every reachable table, for a new key: the snapshot leaves the table and announces what a
consumption then returns; it shows the number of the recorded times and the latest of them; and
after an accepted consumption it shows one more, at the clock value in milliseconds. -/
theorem snapshot_predicts_consume (calls : List Call) {scope key : Bytes}
    (hscope : scope ≠ [] ∧ (0 : UInt8) ∉ scope) (hkey : key ≠ [] ∧ (0 : UInt8) ∉ key)
    {policy : Policy} (hpolicy : validPolicy policy = true) (now : TimePoint)
    (hnew : ∀ row ∈ (machine.run (Table.empty budgetSchema) calls).rows,
      ¬ (row.scope.val = scope ∧ row.idempotencyKey.val = key)) :
    let t := machine.run (Table.empty budgetSchema) calls
    let t' := (consume t scope key now policy).1
    ∃ shown, snapshot t scope now policy = (t, .ok shown) ∧
      (consume t scope key now policy).2 = .ok shown.nextNewConsumption ∧
      shown.totalUsed = (recordedTimes t scope).length ∧
      shown.lastConsumedAt.map Int64.toInt =
        (recordedTimes t scope).max?.map (fun ms ↦ ms.toInt * 1000000) ∧
      (shown.nextNewConsumption = .accepted →
        ∃ next, snapshot t' scope now policy = (t', .ok next) ∧
          next.totalUsed = shown.totalUsed + 1 ∧
          next.lastConsumedAt.map Int64.toInt = some (now.toInt.tdiv 1000000 * 1000000)) := by
  have hrepresentable := representable_run calls
  generalize machine.run (Table.empty budgetSchema) calls = t at hnew hrepresentable ⊢
  have hvalid : ValidRequest scope key policy := ⟨hscope.1, hpolicy, hkey.1⟩
  have hfresh := granted_of_plain hscope.2 hkey.2 hnew
  simp only [← times_of_plain t hscope.2]
  refine ⟨_, snapshot_of_valid hscope.1 hpolicy t now, ?_, totalUsed_eq t _ now policy,
    toInt_lastConsumedAt hrepresentable _ now policy, fun haccepted ↦ ?_⟩
  · rw [consume_of_valid hvalid, consumeTransaction_result, hfresh, nextNewConsumption_eq]
  · rw [nextNewConsumption_eq, ← hfresh] at haccepted
    obtain ⟨after, hconsume, hrows⟩ := consumeTransaction_of_accepted haccepted
    rw [consume_of_valid hvalid, hconsume]
    exact ⟨_, snapshot_of_valid hscope.1 hpolicy after now,
      snapshotTransaction_of_accepted (passes_of_accepted haccepted).2 hrows⟩

theorem snapshot_predicts_consume_probe :
    let t := machine.run (Table.empty budgetSchema) probeRun
    let t' := (consume t (ascii "other") (ascii "second") (ofMilliseconds 300) probePolicy).1
    ∃ shown, snapshot t (ascii "other") (ofMilliseconds 300) probePolicy = (t, .ok shown) ∧
      (consume t (ascii "other") (ascii "second") (ofMilliseconds 300) probePolicy).2 =
        .ok shown.nextNewConsumption ∧
      shown.totalUsed = 1 ∧ shown.lastConsumedAt.map Int64.toInt = some 100000000 ∧
      (shown.nextNewConsumption = .accepted →
        ∃ next, snapshot t' (ascii "other") (ofMilliseconds 300) probePolicy = (t', .ok next) ∧
          next.totalUsed = shown.totalUsed + 1 ∧
          next.lastConsumedAt.map Int64.toInt = some 300000000) := by
  have hscope : ascii "other" ≠ [] ∧ (0 : UInt8) ∉ ascii "other" := by decide
  have hkey : ascii "second" ≠ [] ∧ (0 : UInt8) ∉ ascii "second" := by decide
  have hpolicy : validPolicy probePolicy = true := by decide
  obtain ⟨shown, hshown, hnext, htotal, hlast, hafter⟩ :=
    snapshot_predicts_consume probeRun hscope hkey hpolicy (ofMilliseconds 300) (by decide)
  have hone : (recordedTimes (machine.run (Table.empty budgetSchema) probeRun)
      (ascii "other")).length = 1 := by decide
  have hlatest : (recordedTimes (machine.run (Table.empty budgetSchema) probeRun)
      (ascii "other")).max?.map (fun ms ↦ ms.toInt * 1000000) = some 100000000 := by decide
  have htruncated : (ofMilliseconds 300).toInt.tdiv 1000000 * 1000000 = 300000000 := by decide
  refine ⟨shown, hshown, hnext, htotal.trans hone, hlast.trans hlatest, fun haccepted ↦ ?_⟩
  obtain ⟨next, hnext, hmore, hat⟩ := hafter haccepted
  exact ⟨next, hnext, hmore, hat.trans (congrArg some htruncated)⟩

end Gaudere.Budget
