import Gaudere.Work.Leases

/-!
# The recovery deadline and the recovery agree

`nextRecoveryAt` asks for the least expiry among the leases of active tasks, and reads it back as a
clock value; `recoverExpired` selects the active tasks whose stored milliseconds the truncated
clock has reached. From the epoch on both are the same comparison of the clock with the stored
expiry (`expired_eq_overdue`), so a recovery finds something to do exactly when the deadline has
come, and leaves a later one or none: `recovery_meets_deadline`.
-/

set_option autoImplicit false
set_option relaxedAutoImplicit false

namespace Gaudere.Work

open Gaudere.Library TaskStore

/-! ### The stored expiry -/

/-- The stored expiry of the lease of an active task. -/
def activeExpiry (task : Task) : Option TimePoint :=
  if active task.status then task.lease.map Lease.expiresAt else none

/-- The clock has reached the stored expiry of the lease of an active task. -/
def overdue (now : TimePoint) (task : Task) : Bool :=
  (activeExpiry task).any fun expiry ↦ expiry ≤ now

theorem activeExpiry_readTask {row : TaskRow} (h : taskSchema.check row = true) :
    activeExpiry (readTask row) =
      if activeRow row then row.leaseExpiresAtMs.map timePoint else none := by
  rw [activeExpiry, expiry_readTask h, activeRow_code _ (status_eq_code h)]

/-- From the epoch on, the comparison of truncated times selects the overdue tasks. -/
theorem expired_eq_overdue {t : TaskTable} {task : Task} (h : task ∈ records t) {now : TimePoint}
    (hnow : 0 ≤ now.toInt) : expired now task = overdue now task := by
  obtain ⟨row, hrow, rfl⟩ := List.mem_map.mp h
  have hcheck := t.consistent.checked row hrow
  have hreached : ∀ expires : ClockMilliseconds,
      decide (expires.val ≤ (milliseconds now).val) = decide (timePoint expires ≤ now) :=
    fun expires ↦ decide_eq_decide.mpr (le_toMilliseconds_iff hnow)
  calc expired now (readTask row)
    _ = expiredRow now row := (expiredRow_eq hcheck now).symm
    _ = overdue now (readTask row) := by
      rw [expiredRow, overdue, activeExpiry_readTask hcheck]
      cases activeRow row with
      | false => rfl
      | true => simp only [hreached, Bool.true_and, if_true, Option.any_map]

/-- The deadline is the least stored expiry of an active lease. -/
theorem nextLeaseExpiry_eq (t : TaskTable) :
    nextLeaseExpiry t = ((records t).filterMap activeExpiry).min? := by
  have hexpiries : (records t).filterMap activeExpiry =
      (((t.rows.filter activeRow).filterMap TaskRow.leaseExpiresAtMs).map Subtype.val).map
        ofMilliseconds := by
    rw [records, Encoding.records, List.filterMap_map, List.map_map, List.map_filterMap,
      List.filterMap_filter]
    refine List.filterMap_congr fun row hrow ↦ ?_
    exact activeExpiry_readTask (t.consistent.checked row hrow)
  rw [hexpiries, min?_map_of_monotone, nextLeaseExpiry]
  intro a ha b hb hle
  obtain ⟨first, _, rfl⟩ := List.mem_map.mp ha
  obtain ⟨second, _, rfl⟩ := List.mem_map.mp hb
  exact ofMilliseconds_le_of_le hle

/-- The deadline has come exactly when some task is overdue. -/
theorem exists_overdue_iff {t : TaskTable} {now : TimePoint} :
    (∃ deadline, nextLeaseExpiry t = some deadline ∧ deadline ≤ now) ↔
      ∃ task ∈ records t, overdue now task = true := by
  rw [nextLeaseExpiry_eq, exists_min?_le_iff]
  simp only [List.mem_filterMap, overdue, Option.any_eq_true, decide_eq_true_eq]
  constructor
  · rintro ⟨expiry, ⟨task, htask, hexpiry⟩, hle⟩
    exact ⟨task, htask, expiry, hexpiry, hle⟩
  · rintro ⟨task, htask, expiry, hexpiry, hle⟩
    exact ⟨expiry, ⟨task, htask, hexpiry⟩, hle⟩

/-! ### A recovery -/

/-- A task that was recovered has no lease left to expire. -/
theorem overdue_recovered (now : TimePoint) (task : Task) :
    overdue now (Runtime.recovered task) = false := by
  rw [overdue, activeExpiry, recovered_lease, Option.map_none, ite_self, Option.any_none]

section Recovered

variable {s : System} {now : TimePoint} (hnow : 0 ≤ now.toInt)

include hnow

/-- A recovery recovers the overdue tasks and keeps the others. -/
theorem find_after_recovery {id : Bytes} {task : Task} (h : find s.store id = some task) :
    find (machine.event s (.recoverExpired now)).after.store id =
      some (if overdue now task then Runtime.recovered task else task) := by
  have hoverdue := expired_eq_overdue (find_eq_some_iff.mp h).1 hnow
  have hafter : (machine.event s (.recoverExpired now)).after =
      (Runtime.recoverExpired s now).1 := rfl
  rw [hafter]
  rcases find_recovered s now id with ⟨a, ha, hexpired, hfound⟩ | ⟨hquiet, hfound⟩
  · obtain rfl : task = a := Option.some.inj (h.symm.trans ha)
    rw [hfound, ← hoverdue, if_pos hexpired]
  · rw [hfound, h, ← hoverdue, hquiet task h, if_neg Bool.false_ne_true]

/-- A recovery returns the number of the overdue tasks. -/
theorem reply_of_recovery :
    (machine.event s (.recoverExpired now)).reply =
      .recovered ((records s.store).countP (overdue now)) := by
  rw [reply_recoverExpired]
  refine congrArg Reply.recovered (List.countP_congr fun task htask ↦ ?_)
  rw [expired_eq_overdue htask hnow]

/-- Nothing is overdue after a recovery. -/
theorem not_overdue_after {task : Task}
    (h : task ∈ records (machine.event s (.recoverExpired now)).after.store) :
    overdue now task = false := by
  have hfind := find_eq_some_iff.mpr ⟨h, rfl⟩
  rcases find_recovered s now task.id with ⟨a, _, _, hfound⟩ | ⟨hquiet, hfound⟩
  · obtain rfl : Runtime.recovered a = task := Option.some.inj (hfound.symm.trans hfind)
    exact overdue_recovered now a
  · have hbefore : find s.store task.id = some task := hfound.symm.trans hfind
    rw [← expired_eq_overdue (find_eq_some_iff.mp hbefore).1 hnow]
    exact hquiet task hbefore

end Recovered

/-! ### The driver -/

/-- From every store and at every clock value from the epoch on: a recovery recovers some task
exactly when the deadline has come; it recovers exactly the active tasks whose stored expiry the
clock has reached, and returns their number; and the deadline that it leaves is later, or absent. -/
theorem recovery_meets_deadline (s : System) {now : TimePoint} (hnow : 0 ≤ now.toInt) :
    (∃ count, (machine.event s (.recoverExpired now)).reply = .recovered count ∧
      count = (records s.store).countP (overdue now) ∧
      (0 < count ↔ ∃ deadline,
        (machine.event s .nextRecoveryAt).reply = .recoveryAt (some deadline) ∧
          deadline ≤ now)) ∧
    (∀ id task, find s.store id = some task →
      find (machine.event s (.recoverExpired now)).after.store id =
        some (if overdue now task then Runtime.recovered task else task)) ∧
    ∀ deadline,
      (machine.event (machine.event s (.recoverExpired now)).after .nextRecoveryAt).reply =
        .recoveryAt (some deadline) → now < deadline := by
  have hdeadline : ∀ (s : System) (deadline : TimePoint),
      (machine.event s .nextRecoveryAt).reply = .recoveryAt (some deadline) ↔
        nextLeaseExpiry s.store = some deadline :=
    fun s deadline ↦ ⟨fun h ↦ Reply.recoveryAt.inj h, fun h ↦ congrArg Reply.recoveryAt h⟩
  refine ⟨⟨_, reply_of_recovery hnow, rfl, ?_⟩, fun id task h ↦ find_after_recovery hnow h, ?_⟩
  · simp only [hdeadline]
    rw [List.countP_pos_iff, exists_overdue_iff]
  · intro deadline hnext
    rw [hdeadline] at hnext
    refine Int64.not_le.mp fun hle ↦ ?_
    obtain ⟨task, htask, hoverdue⟩ := exists_overdue_iff.mp ⟨deadline, hnext, hle⟩
    rw [not_overdue_after hnow htask] at hoverdue
    cases hoverdue

theorem recovery_meets_deadline_crawl :
    (∃ count, (machine.event (crawlStarted 1 0).after (.recoverExpired 1000000)).reply =
      .recovered count ∧ 0 < count) ∧
    find (machine.event (crawlStarted 1 0).after (.recoverExpired 1000000)).after.store
      (ascii "crawl") = some { crawl 1 with attemptsStarted := 1 } := by
  have hstarted : find (crawlStarted 1 0).after.store (ascii "crawl") =
      some (crawlRunning 1 1000000) := by decide
  have hnow : 0 ≤ (1000000 : TimePoint).toInt := by decide
  obtain ⟨⟨count, hreply, _, hpositive⟩, hrecovered, _⟩ :=
    recovery_meets_deadline (crawlStarted 1 0).after hnow
  exact ⟨⟨count, hreply, hpositive.mpr ⟨1000000, by decide, by decide⟩⟩,
    hrecovered _ _ hstarted⟩

end Gaudere.Work
