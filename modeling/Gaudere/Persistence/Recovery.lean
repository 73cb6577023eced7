import Gaudere.Library.Sweep
import Gaudere.Wake.Runtime
import Gaudere.Work.Leases

/-!
# Recovery after a crash in recovery

Both runtimes recover expired leases one save at a time, without a transaction, in the order in
which their store answers the query. So a crash or a throwing save can leave any part of the
expired records recovered. `recovery_restartable` says that this does no harm: the next recovery
that gets through leaves the table that one recovery would have left, whatever the orders, and
neither an interrupted nor a complete one changes what a record counts, or whether it is cancelled,
or its effect marker.

Each recovery is a sweep: recovered records have no lease, so they do not expire again, and what
becomes of a record depends neither on the clock nor on the other records.
-/

set_option autoImplicit false
set_option relaxedAutoImplicit false

namespace Gaudere

open Library

/-! ### Tasks -/

namespace Work

open TaskStore

theorem expiredRow_mono {now now' : TimePoint} {row : TaskRow} (hle : now ≤ now')
    (h : expiredRow now row = true) : expiredRow now' row = true := by
  rw [expiredRow, Bool.and_eq_true] at h ⊢
  exact h.imp_right fun hexpired ↦ any_reached_of_le hle hexpired

/-- Recovery as a sweep over the table `tasks`. -/
def taskSweep : Sweep taskEncoding TimePoint where
  due := expiredRow
  revise := Runtime.recovered
  due_mono := expiredRow_mono
  settled now a := by
    have hnone : (bindTask (Runtime.recovered a)).leaseExpiresAtMs = none :=
      congrArg (Option.map _) (recovered_lease a)
    change expiredRow now (bindTask (Runtime.recovered a)) = false
    rw [expiredRow, hnone, Option.any_none, Bool.and_false]
  key_revise a := (sameDefinition_recovered a).id
  alternate_revise a := (sameDefinition_recovered a).idempotencyKey
  check_revise hcheck hdue := by
    rw [expiredRow_eq hcheck] at hdue
    exact check_bindTask_iff.mpr ((storable_readTask hcheck).recovered (active_of_expired hdue))

/-- The loop of `recover_expired` over the tasks that the query returned. -/
def Runtime.recoverEach (t : TaskTable) (tasks : List Task) : TaskTable × Bool :=
  saveAll t (tasks.map Runtime.recovered)

/-- What a recovery can leave that got the expired tasks in any order and stopped after any number
of saves. -/
def Interrupted (now : TimePoint) (t t' : TaskTable) : Prop :=
  ∃ (order : List Task) (n : ℕ), order.Perm (leasedWithExpiredLease t now) ∧
    (Runtime.recoverEach t (order.take n)).1 = t'

theorem Interrupted.partly {now now' : TimePoint} {t t' : TaskTable} (h : Interrupted now t t')
    (hle : now ≤ now') : taskSweep.Partly now' t t' := by
  obtain ⟨order, n, horder, rfl⟩ := h
  exact (Sweep.Partly.refl now' t).saves hle horder n

/-- A call that recovers runs the loop in row order. -/
theorem store_after_recovery (s : System) {call : Call} {now : TimePoint}
    (hcall : call.recoveryAt = some now) :
    (machine.event s call).after.store =
      (Runtime.recoverEach s.store (leasedWithExpiredLease s.store now)).1 := by
  have hstore : (Runtime.recoverExpired s now).1.store =
      (Runtime.recoverEach s.store (leasedWithExpiredLease s.store now)).1 := by
    rw [recoverExpired_eq]
    rfl
  rw [← hstore]
  cases call <;> simp only [Call.recoveryAt, Option.some.injEq, reduceCtorEq] at hcall <;>
    subst hcall
  · exact congrArg (fun result ↦ result.1.store) (recover_eq s _)
  · rfl

theorem interrupted_of_recovery (s : System) {call : Call} {now : TimePoint}
    (hcall : call.recoveryAt = some now) :
    Interrupted now s.store (machine.event s call).after.store := by
  refine ⟨_, (leasedWithExpiredLease s.store now).length, List.Perm.refl _, ?_⟩
  rw [List.take_length, store_after_recovery s hcall]

/-- After an interrupted recovery, one that gets through leaves what a single one leaves. -/
theorem Interrupted.finish {s : System} {now now' : TimePoint} {t : TaskTable}
    (h : Interrupted now s.store t) (hle : now ≤ now') {order : List Task}
    (horder : order.Perm (leasedWithExpiredLease t now')) {call : Call}
    (hcall : call.recoveryAt = some now') :
    Runtime.recoverEach t order = ((machine.event s call).after.store, true) := by
  rw [store_after_recovery s hcall]
  exact (h.partly hle).saves_eq horder

/-- A cancellation was requested or carried out. -/
def cancelling (status : TaskStatus) : Bool := status == .cancelRequested || status == .cancelled

/-- What recovery leaves alone in a record. -/
structure SameProgress (a b : Task) : Prop where
  attemptsStarted : b.attemptsStarted = a.attemptsStarted
  cancelReason : b.cancelReason = a.cancelReason
  cancelling : cancelling b.status = cancelling a.status

theorem SameProgress.refl (a : Task) : SameProgress a a := ⟨rfl, rfl, rfl⟩

theorem sameProgress_recovered {a : Task} (hactive : active a.status = true) :
    SameProgress a (Runtime.recovered a) := by
  by_cases hcancel : a.status = .cancelRequested
  · rw [Runtime.recovered, if_pos hcancel]
    exact ⟨rfl, rfl, by rw [hcancel]; rfl⟩
  · have hrunning : a.status = .running := by
      simpa [active, hcancel] using hactive
    rw [Runtime.recovered, if_neg hcancel]
    split_ifs <;> exact ⟨rfl, rfl, by rw [hrunning]; rfl⟩

theorem Interrupted.sameProgress {now : TimePoint} {t t' : TaskTable} (h : Interrupted now t t')
    {id : Bytes} {a : Task} (ha : find t id = some a) :
    ∃ b, find t' id = some b ∧ SameProgress a b := by
  rcases (h.partly (Int64.le_refl now)).find ha with hkept | ⟨⟨row, hrow, rfl, hdue⟩, hrevised⟩
  · exact ⟨a, hkept, .refl a⟩
  · have hexpired : expired now (readTask row) = true :=
      (expiredRow_eq (t.consistent.checked row hrow) now).symm.trans hdue
    refine ⟨Runtime.recovered (readTask row), ?_,
      sameProgress_recovered (active_of_expired hexpired)⟩
    exact hrevised.trans (congrArg some (stored_eq_self (recovered_lease _)))

end Work

/-! ### Wake actions -/

namespace Wake

open ActionStore

theorem expiredRow_mono {now now' : TimePoint} {row : ActionRow} (hle : now ≤ now')
    (h : expiredRow now row = true) : expiredRow now' row = true := by
  rw [expiredRow, Bool.and_eq_true] at h ⊢
  exact h.imp_right fun hexpired ↦ any_reached_of_le hle hexpired

/-- Recovery as a sweep over the table `actions`. -/
def actionSweep : Sweep actionEncoding TimePoint where
  due := expiredRow
  revise := Runtime.recovered
  due_mono := expiredRow_mono
  settled _ _ := Bool.and_false _
  key_revise _ := rfl
  alternate_revise _ := rfl
  check_revise _ _ := check_bindAction _

/-- The loop of `recover` over the actions that the query returned. -/
def Runtime.recoverEach (t : ActionTable) (actions : List Action) : ActionTable × Bool :=
  saveAll t (actions.map Runtime.recovered)

/-- What a recovery can leave that got the expired actions in any order and stopped after any number
of saves. -/
def Interrupted (now : TimePoint) (t t' : ActionTable) : Prop :=
  ∃ (order : List Action) (n : ℕ), order.Perm (runningWithExpiredLease t now) ∧
    (Runtime.recoverEach t (order.take n)).1 = t'

theorem Interrupted.partly {now now' : TimePoint} {t t' : ActionTable} (h : Interrupted now t t')
    (hle : now ≤ now') : actionSweep.Partly now' t t' := by
  obtain ⟨order, n, horder, rfl⟩ := h
  exact (Sweep.Partly.refl now' t).saves hle horder n

theorem store_after_recovery (s : System) (now : TimePoint) :
    (machine.event s (.recover now)).after.store =
      (Runtime.recoverEach s.store (runningWithExpiredLease s.store now)).1 :=
  congrArg (fun result ↦ result.1.store) (recover_eq s now)

theorem interrupted_of_recovery (s : System) (now : TimePoint) :
    Interrupted now s.store (machine.event s (.recover now)).after.store := by
  refine ⟨_, (runningWithExpiredLease s.store now).length, List.Perm.refl _, ?_⟩
  rw [List.take_length, store_after_recovery s now]

theorem Interrupted.finish {s : System} {now now' : TimePoint} {t : ActionTable}
    (h : Interrupted now s.store t) (hle : now ≤ now') {order : List Action}
    (horder : order.Perm (runningWithExpiredLease t now')) :
    Runtime.recoverEach t order = ((machine.event s (.recover now')).after.store, true) := by
  rw [store_after_recovery s now']
  exact (h.partly hle).saves_eq horder

theorem Interrupted.effectResult {now : TimePoint} {t t' : ActionTable}
    (h : Interrupted now t t') {id : Bytes} {a : Action} (ha : find t id = some a) :
    ∃ b, find t' id = some b ∧ b.effectResult = a.effectResult := by
  rcases (h.partly (Int64.le_refl now)).find ha with hkept | ⟨_, hrevised⟩
  · exact ⟨a, hkept, rfl⟩
  · exact ⟨_, hrevised, stored_effectResult _⟩

end Wake

/-! ### Both runtimes -/

namespace Persistence

/-- For both runtimes, from any store: a recovery that the query gave the expired records in any
order, and that stopped after any number of saves, followed by one that gets through at a later
clock value, leaves the store that a single recovery at that clock value leaves; the same recovery
twice is that recovery once; and no recovery, interrupted or not, changes the attempts a task
counts, whether and why it is cancelled, or the effect marker of an action. -/
theorem recovery_restartable :
    (∀ (s : Work.System) (now now' : TimePoint) (t : Work.TaskTable), now ≤ now' →
      Work.Interrupted now s.store t →
        (∀ (order : List Work.Task) (call : Work.Call),
          order.Perm (Work.TaskStore.leasedWithExpiredLease t now') →
          call.recoveryAt = some now' →
            Work.Runtime.recoverEach t order = ((Work.machine.event s call).after.store, true)) ∧
        ∀ id a, Work.TaskStore.find s.store id = some a →
          ∃ b, Work.TaskStore.find t id = some b ∧ Work.SameProgress a b) ∧
    (∀ (s : Work.System) (now : TimePoint) (first second : Work.Call),
      first.recoveryAt = some now → second.recoveryAt = some now →
        (Work.machine.event (Work.machine.event s first).after second).after.store =
          (Work.machine.event s first).after.store) ∧
    (∀ (s : Wake.System) (now now' : TimePoint) (t : Wake.ActionTable), now ≤ now' →
      Wake.Interrupted now s.store t →
        (∀ order : List Wake.Action,
          order.Perm (Wake.ActionStore.runningWithExpiredLease t now') →
            Wake.Runtime.recoverEach t order =
              ((Wake.machine.event s (.recover now')).after.store, true)) ∧
        ∀ id a, Wake.ActionStore.find s.store id = some a →
          ∃ b, Wake.ActionStore.find t id = some b ∧ b.effectResult = a.effectResult) ∧
    ∀ (s : Wake.System) (now : TimePoint),
      (Wake.machine.event (Wake.machine.event s (.recover now)).after (.recover now)).after.store =
        (Wake.machine.event s (.recover now)).after.store := by
  refine ⟨?_, ?_, ?_, ?_⟩
  · intro s now now' t hle hinterrupted
    exact ⟨fun order call horder hcall ↦ hinterrupted.finish hle horder hcall,
      fun id a ha ↦ hinterrupted.sameProgress ha⟩
  · intro s now first second hfirst hsecond
    rw [Work.store_after_recovery _ hsecond, (Work.interrupted_of_recovery s hfirst).finish
      (Int64.le_refl now) (List.Perm.refl _) hfirst]
  · intro s now now' t hle hinterrupted
    exact ⟨fun order horder ↦ hinterrupted.finish hle horder,
      fun id a ha ↦ hinterrupted.effectResult ha⟩
  · intro s now
    rw [Wake.store_after_recovery, (Wake.interrupted_of_recovery s now).finish
      (Int64.le_refl now) (List.Perm.refl _)]

/-- Two tasks whose leases end with the first millisecond. -/
def twoRunning : Work.System :=
  Work.machine.run .initial
    [.recover 0, .submit (Work.crawl 1),
      .submit { Work.crawl 1 with id := ascii "second", idempotencyKey := ascii "weekly" },
      .start (ascii "crawl") (ascii "worker") 0, .start (ascii "second") (ascii "worker") 0]

/-- A recovery got one of them back and stopped. -/
def halfRecovered : Work.TaskTable :=
  (Work.Runtime.recoverEach twoRunning.store
    ((Work.TaskStore.leasedWithExpiredLease twoRunning.store 1000000).take 1)).1

theorem recovery_restartable_two :
    (Work.TaskStore.leasedWithExpiredLease halfRecovered 2000000).length = 1 ∧
      Work.Runtime.recoverEach halfRecovered
          (Work.TaskStore.leasedWithExpiredLease halfRecovered 2000000) =
        ((Work.machine.event twoRunning (.recoverExpired 2000000)).after.store, true) := by
  have hinterrupted : Work.Interrupted 1000000 twoRunning.store halfRecovered :=
    ⟨_, 1, List.Perm.refl _, rfl⟩
  exact ⟨by decide, (recovery_restartable.1 twoRunning 1000000 2000000 halfRecovered (by decide)
    hinterrupted).1 _ (.recoverExpired 2000000) (List.Perm.refl _) rfl⟩

end Persistence

end Gaudere
