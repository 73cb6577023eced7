import Gaudere.Library.Saves
import Gaudere.Work.TaskStore

/-!
# The task store as a finite map

A save upserts one task by its id. Bindings carry their length and an absent lease, result or
metadata pair is NULL, so a task is read back as it was saved, up to the expiry of its lease.
`task_store_is_finite_map` says so of any sequence of saves: when one fails, and what the two
lookups find at the end.
-/

set_option autoImplicit false
set_option relaxedAutoImplicit false

namespace Gaudere.Work

open Gaudere.Library TaskStore

/-- One `save` after the other; the reply says whether it returned or threw. -/
def saves : Machine TaskTable Task Bool := taskEncoding.saving

/-- A save returns exactly when the task satisfies the constraints of its row and no other id holds
its idempotency key. -/
theorem save_isSome_iff {t : TaskTable} {task : Task} :
    (save t task).isSome ↔ task.Storable ∧
      ∀ id other, find t id = some other → other.idempotencyKey = task.idempotencyKey →
        id = task.id := by
  have hsave : (save t task).isSome ↔ taskSchema.check (bindTask task) = true ∧
      ∀ other ∈ records t, other.idempotencyKey = task.idempotencyKey → other.id = task.id :=
    Encoding.save_isSome_iff
  rw [hsave, check_bindTask_iff]
  refine and_congr_right fun _ ↦ ⟨fun h id other hfind hkey ↦ ?_, fun h other hother ↦ ?_⟩
  · obtain ⟨hother, rfl⟩ := find_eq_some_iff.mp hfind
    exact h other hother hkey
  · exact h other.id other (find_eq_some_iff.mpr ⟨hother, rfl⟩)

/-- The idempotency key finds the stored task that carries it. -/
theorem findByIdempotencyKey_eq_some_iff {t : TaskTable} {key : Bytes} {task : Task} :
    findByIdempotencyKey t key = some task ↔
      find t task.id = some task ∧ task.idempotencyKey = key := by
  have hfind : findByIdempotencyKey t key = some task ↔
      task ∈ records t ∧ task.idempotencyKey = key := Encoding.findAlternate_eq_some_iff
  rw [hfind, find_eq_some_iff, and_iff_left rfl]

/-- In any sequence of saves from an empty table: a save returns exactly when the task satisfies the
constraints and no other id holds its key, and changes nothing when it throws; an id then finds the
task last saved under it, up to the truncation of its lease expiry to milliseconds; and a key finds
the one stored task that carries it. -/
theorem task_store_is_finite_map (tasks : List Task) :
    (∀ e ∈ saves.history (.empty taskSchema) tasks,
      (e.reply = true ↔ e.call.Storable ∧
        ∀ id other, find e.before id = some other →
          other.idempotencyKey = e.call.idempotencyKey → id = e.call.id) ∧
      (e.reply = false → e.after = e.before)) ∧
    (∀ id, find (saves.run (.empty taskSchema) tasks) id =
      (lastSaved (fun task ↦ task.id = id) (saves.history (.empty taskSchema) tasks)).map
        fun task ↦ { task with lease := task.lease.map storedLease }) ∧
    ∀ key task, findByIdempotencyKey (saves.run (.empty taskSchema) tasks) key = some task ↔
      find (saves.run (.empty taskSchema) tasks) task.id = some task ∧
        task.idempotencyKey = key := by
  refine ⟨fun e he ↦ ?_, fun id ↦ ?_, fun key task ↦ findByIdempotencyKey_eq_some_iff⟩
  · have hevent := saves.eq_event_of_mem_history he
    have hreply : e.reply = (save e.before e.call).isSome := by
      rw [hevent]
      exact Encoding.saving_reply e.before e.call
    refine ⟨by rw [hreply, save_isSome_iff], fun hfailed ↦ ?_⟩
    rw [hevent] at hfailed ⊢
    exact Encoding.saving_after_of_failed hfailed
  · have hfind : find (saves.run (.empty taskSchema) tasks) id =
        (lastSaved (fun task ↦ task.id = id)
          (saves.history (.empty taskSchema) tasks)).map stored := Encoding.find_saving tasks id
    rw [hfind]
    exact congrArg (fun read ↦ Option.map read _) (funext stored_eq)

end Gaudere.Work
