import Mathlib.Algebra.Order.BigOperators.Group.List
import Gaudere.Work.Dispatch
import Gaudere.Work.Leases

/-!
# Nothing overtakes a waiting task

A worker asks the pending query for a task of its kinds and starts what it gets, in the one process
that owns the database. `dispatch_keeps_order` says what the order of the query is worth over a run
of that: while a task that every worker can take is pending, only tasks that were submitted before
it are started. Each of these has its attempts and no more, so the task waits for at most as many
starts as they have attempts, whatever else is submitted, cancelled, recovered or finished in the
meantime, and however often it goes back to waiting itself.
-/

set_option autoImplicit false
set_option relaxedAutoImplicit false

namespace Gaudere.Work

open Gaudere.Library TaskStore

/-- The task that a call starts, and the worker that starts it. -/
def Call.starting? : Call → Option (Bytes × Bytes)
  | .start id leaseOwner _ => some (id, leaseOwner)
  | _ => none

/-- A start that succeeds is of the task that the pending query gives for the worker's kinds. -/
def StartsSelected (kinds : Bytes → List Bytes) (e : Event System Call Reply) : Prop :=
  e.reply = .flag true → ∀ start ∈ e.call.starting?,
    (findPendingFor e.before.store (kinds start.2)).map Task.id = some start.1

instance (kinds : Bytes → List Bytes) : DecidablePred (StartsSelected kinds) := fun e ↦
  inferInstanceAs (Decidable (e.reply = .flag true → ∀ start ∈ e.call.starting?,
    (findPendingFor e.before.store (kinds start.2)).map Task.id = some start.1))

/-- A worker that starts a task can take the kind. -/
def Takes (kinds : Bytes → List Bytes) (kind : Bytes) (call : Call) : Prop :=
  ∀ start ∈ call.starting?, kind ∈ kinds start.2

instance (kinds : Bytes → List Bytes) (kind : Bytes) : DecidablePred (Takes kinds kind) :=
  fun call ↦ inferInstanceAs (Decidable (∀ start ∈ call.starting?, kind ∈ kinds start.2))

/-- The task is waiting to be started. -/
def waiting (id : Bytes) (s : System) : Bool :=
  (find s.store id).any fun task ↦ task.status = .pending

/-- Another task is started while the task waits. -/
def startsAnother (id : Bytes) (e : Event System Call Reply) : Bool :=
  e.call.start?.any (fun other ↦ other != id) && e.reply == .flag true && waiting id e.before

/-- A stored task was accepted by then, at its place among all that are accepted. -/
theorem acceptedTasks_before {past future : List Call} {earlier later : List Task}
    {submitted task : Task}
    (hsplit : acceptedTasks (machine.history System.initial (past ++ future)) =
      earlier ++ submitted :: later)
    (hfind : find (machine.run System.initial past).store submitted.id = some task) :
    ∃ between, acceptedTasks (machine.history System.initial past) =
      earlier ++ submitted :: between := by
  have hmem : submitted.id ∈ (acceptedTasks (machine.history System.initial past)).map Task.id := by
    rw [← storedIds_run, ← (find_eq_some_iff.mp hfind).2]
    exact List.mem_map_of_mem (find_eq_some_iff.mp hfind).1
  have hnodup := (acceptedStored_run (past ++ future)).ids_nodup
  rw [hsplit, List.map_append, List.map_cons, List.nodup_append] at hnodup
  have hfresh : submitted.id ∉ earlier.map Task.id := fun hearlier ↦
    hnodup.2.2 _ hearlier _ List.mem_cons_self rfl
  rw [machine.history_append, acceptedTasks, List.filterMap_append, ← acceptedTasks] at hsplit
  rcases List.append_eq_append_iff.mp hsplit with ⟨rest, hearlier, -⟩ | ⟨rest, haccepted, hrest⟩
  · rw [hearlier, List.map_append, List.mem_append, not_or] at hfresh
    exact absurd hmem hfresh.1
  · cases rest with
    | nil =>
      rw [haccepted, List.append_nil] at hmem
      exact absurd hmem hfresh
    | cons first between =>
      obtain ⟨rfl, -⟩ := List.cons.inj hrest
      exact ⟨between, haccepted⟩

section Waiting

variable {kinds : Bytes → List Bytes} {calls : List Call} {earlier later : List Task}
  {submitted : Task}

/-- What is started while a task waits was submitted before it. -/
theorem started_before
    (hselected : ∀ e ∈ machine.history System.initial calls, StartsSelected kinds e)
    (hsplit : acceptedTasks (machine.history System.initial calls) =
      earlier ++ submitted :: later)
    (hkind : ∀ call ∈ calls, Takes kinds submitted.kind call) {e : Event System Call Reply}
    (he : e ∈ machine.history System.initial calls)
    (hstarts : startsAnother submitted.id e = true) :
    ∃ task ∈ earlier, returnedTrue Call.start? task.id e = true := by
  have hstart := hselected e he
  obtain ⟨before, after, hevents⟩ := List.append_of_mem he
  obtain ⟨past, call, future, rfl, rfl, rfl, rfl⟩ := machine.history_split hevents
  simp only [startsAnother, waiting, Machine.event_call, Machine.event_before, Bool.and_eq_true,
    Option.any_eq_true, bne_iff_ne, beq_iff_eq, decide_eq_true_eq] at hstarts
  obtain ⟨⟨⟨id, hid, hne⟩, hreply⟩, waiter, hfind, hpending⟩ := hstarts
  obtain ⟨leaseOwner, now, rfl⟩ := start?_eq_some hid
  obtain ⟨task, htask, rfl⟩ := Option.map_eq_some_iff.mp (hstart hreply _ rfl)
  -- The query passed over no task that it could have given.
  obtain ⟨first, chosen, rest, haccepted, hchosen, -, hpassed⟩ :=
    findPendingFor_eq_some_iff.mp htask
  obtain ⟨between, hbetween⟩ := acceptedTasks_before hsplit hfind
  obtain ⟨final, hfinal, hsame⟩ := (acceptedStored_run past).stored submitted
    (hbetween ▸ List.mem_append_right _ List.mem_cons_self)
  obtain rfl : waiter = final := Option.some.inj (hfind.symm.trans hfinal)
  have htaken : Dispatchable (kinds leaseOwner) waiter := by
    refine ⟨hpending, ?_⟩
    rw [hsame.kind]
    exact hkind _ (List.mem_append_right _ List.mem_cons_self) _ rfl
  have hid : task.id = chosen.id := (find_eq_some_iff.mp hchosen).2
  rw [hbetween] at haccepted
  rcases List.append_eq_append_iff.mp haccepted with
    ⟨skipped, hfirst, hrest⟩ | ⟨skipped, hearlier, hrest⟩
  · cases skipped with
    | nil =>
      obtain ⟨rfl, -⟩ := List.cons.inj hrest
      exact absurd hid hne
    | cons passed skipped =>
      obtain ⟨rfl, -⟩ := List.cons.inj hrest
      exact absurd htaken (hpassed _ (hfirst ▸ List.mem_append_right _ List.mem_cons_self) _ hfind)
  · cases skipped with
    | nil =>
      obtain ⟨rfl, -⟩ := List.cons.inj hrest
      exact absurd hid hne
    | cons passed skipped =>
      obtain ⟨rfl, -⟩ := List.cons.inj hrest
      refine ⟨chosen, hearlier ▸ List.mem_append_right _ List.mem_cons_self, ?_⟩
      exact returnedTrue_iff.mpr ⟨congrArg some hid, hreply⟩

end Waiting

/-- The successful starts of an accepted task are within its attempts. -/
theorem starts_le_attempts {calls : List Call} {task : Task}
    (h : task ∈ acceptedTasks (machine.history System.initial calls)) :
    (machine.history System.initial calls).countP (returnedTrue Call.start? task.id) ≤
      task.limits.maxAttempts.toNat := by
  obtain ⟨final, hfinal, hsame⟩ := (acceptedStored_run calls).stored task h
  rw [(startsCounted_run calls task.id).2 final hfinal, ← hsame.limits]
  exact (storable_of_mem (find_eq_some_iff.mp hfinal).1).attempts

/-- Over any run from an empty store in which every start that succeeds is of the task that the
pending query gives for the kinds of the worker: while an accepted task of a kind that all the
workers take is pending, only tasks whose submissions were accepted before it are started, and this
happens at most as many times as these have attempts. -/
theorem dispatch_keeps_order (kinds : Bytes → List Bytes) (calls : List Call)
    (hselected : ∀ e ∈ machine.history System.initial calls, StartsSelected kinds e) :
    ∀ earlier submitted later,
      acceptedTasks (machine.history System.initial calls) = earlier ++ submitted :: later →
      (∀ call ∈ calls, Takes kinds submitted.kind call) →
        (∀ e ∈ machine.history System.initial calls, startsAnother submitted.id e = true →
          ∃ task ∈ earlier, returnedTrue Call.start? task.id e = true) ∧
        (machine.history System.initial calls).countP (startsAnother submitted.id) ≤
          (earlier.map fun task ↦ task.limits.maxAttempts.toNat).sum := by
  intro earlier submitted later hsplit hkind
  have hbefore : ∀ e ∈ machine.history System.initial calls,
      startsAnother submitted.id e = true →
        ∃ task ∈ earlier, returnedTrue Call.start? task.id e = true :=
    fun e he hstarts ↦ started_before hselected hsplit hkind he hstarts
  refine ⟨hbefore, ?_⟩
  calc (machine.history System.initial calls).countP (startsAnother submitted.id)
    _ ≤ (machine.history System.initial calls).countP fun e ↦
          earlier.any fun task ↦ returnedTrue Call.start? task.id e :=
        List.countP_mono_left fun e he hstarts ↦ List.any_eq_true.mpr (hbefore e he hstarts)
    _ ≤ (earlier.map fun task ↦ (machine.history System.initial calls).countP
          (returnedTrue Call.start? task.id)).sum :=
        Machine.countP_any_le _ _ _
    _ ≤ (earlier.map fun task ↦ task.limits.maxAttempts.toNat).sum :=
        List.sum_le_sum fun task htask ↦
          starts_le_attempts (hsplit ▸ List.mem_append_left _ htask)

/-- The first task is lost by its worker and started again before the second one. -/
def crawlTwice : List Call :=
  [.recover 0, .submit (crawl 1),
    .submit { crawl 1 with id := ascii "second", idempotencyKey := ascii "weekly" },
    .start (ascii "crawl") (ascii "worker") 0, .recoverExpired 1000000,
    .start (ascii "crawl") (ascii "worker") 1000000,
    .start (ascii "second") (ascii "worker") 1000000]

theorem dispatch_keeps_order_crawl :
    (machine.history System.initial crawlTwice).countP (startsAnother (ascii "second")) = 2 ∧
      (machine.history System.initial crawlTwice).countP (startsAnother (ascii "second")) ≤
        (([crawl 1] : List Task).map fun task ↦ task.limits.maxAttempts.toNat).sum :=
  ⟨by decide, (dispatch_keeps_order (fun _ ↦ [ascii "crawl"]) crawlTwice (by decide) [crawl 1]
    { crawl 1 with id := ascii "second", idempotencyKey := ascii "weekly" } [] (by decide)
    (by decide)).2⟩

end Gaudere.Work
