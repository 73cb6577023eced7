import Gaudere.Work.Transitions

/-!
# Accepted tasks are isolated

`tasks_isolated` is the frame of the task runtime, over any run from an empty store: accepted
submissions have distinct identities, an accepted definition never changes, a finished task is
final, and a call changes at most the task it names; a recovery changes the tasks whose lease it
found expired, and returns how many they are.
-/

set_option autoImplicit false
set_option relaxedAutoImplicit false

namespace Gaudere.Work

open Gaudere.Library TaskStore

/-! ### Accepted submissions -/

/-- The task that an event accepted. -/
def submittedBy (e : Event System Call Reply) : Option Task :=
  match e.call with
  | .submit task => if e.reply = .submitted .accepted then some task else none
  | _ => none

/-- The tasks accepted in a run, oldest first. -/
def acceptedTasks (events : List (Event System Call Reply)) : List Task :=
  events.filterMap submittedBy

theorem submittedBy_eq_some_iff {e : Event System Call Reply} {task : Task} :
    submittedBy e = some task ↔ e.call = .submit task ∧ e.reply = .submitted .accepted := by
  unfold submittedBy
  split
  · rename_i submitted hcall
    rw [hcall, Call.submit.injEq]
    split_ifs with hreply
    · rw [Option.some.injEq, and_iff_left hreply]
    · exact iff_of_false (fun h ↦ by cases h) fun h ↦ hreply h.2
  · rename_i hother
    exact iff_of_false (fun h ↦ by cases h) fun h ↦ hother task h.1

theorem submittedBy_eq_none {e : Event System Call Reply}
    (h : ∀ task, e.call = .submit task → e.reply ≠ .submitted .accepted) :
    submittedBy e = none := by
  refine Option.eq_none_iff_forall_ne_some.mpr fun task hsubmitted ↦ ?_
  obtain ⟨hcall, hreply⟩ := submittedBy_eq_some_iff.mp hsubmitted
  exact h task hcall hreply

theorem acceptedTasks_concat (past : List (Event System Call Reply))
    (e : Event System Call Reply) :
    acceptedTasks (past ++ [e]) = acceptedTasks past ++ (submittedBy e).toList := by
  rw [acceptedTasks, List.filterMap_append, List.filterMap_cons]
  cases submittedBy e <;> rfl

/-- The accepted tasks have distinct identities, and are stored under their definitions. -/
structure AcceptedStored (past : List (Event System Call Reply)) (s : System) : Prop where
  ids_nodup : ((acceptedTasks past).map Task.id).Nodup
  keys_nodup : ((acceptedTasks past).map Task.idempotencyKey).Nodup
  stored : ∀ task ∈ acceptedTasks past,
    ∃ final, find s.store task.id = some final ∧ SameDefinition task final

theorem nodup_append_singleton {α : Type*} {l : List α} {a : α} (h : l.Nodup) (ha : a ∉ l) :
    (l ++ [a]).Nodup := by
  rw [← List.concat_eq_append]
  exact h.concat ha

theorem acceptedStored_step {past : List (Event System Call Reply)} {s : System}
    (h : AcceptedStored past s) (call : Call) :
    AcceptedStored (past ++ [machine.event s call]) (machine.event s call).after := by
  have hstored : ∀ task ∈ acceptedTasks past, ∃ final,
      find (machine.event s call).after.store task.id = some final ∧ SameDefinition task final := by
    intro task htask
    obtain ⟨a, ha, hsame⟩ := h.stored task htask
    obtain ⟨b, hb, hsame'⟩ := sameDefinition_after ha call
    exact ⟨b, hb, hsame.trans hsame'⟩
  cases hsubmitted : submittedBy (machine.event s call) with
  | none =>
    have haccepted : acceptedTasks (past ++ [machine.event s call]) = acceptedTasks past := by
      rw [acceptedTasks_concat, hsubmitted, Option.toList_none, List.append_nil]
    refine ⟨?_, ?_, ?_⟩ <;> rw [haccepted]
    exacts [h.ids_nodup, h.keys_nodup, hstored]
  | some task =>
    have haccepted : acceptedTasks (past ++ [machine.event s call]) =
        acceptedTasks past ++ [task] := by
      rw [acceptedTasks_concat, hsubmitted, Option.toList_some]
    obtain ⟨hcall, hreply⟩ := submittedBy_eq_some_iff.mp hsubmitted
    rw [Machine.event_call] at hcall
    subst hcall
    obtain ⟨hid, hkey, hafter⟩ := accepted_cases hreply
    refine ⟨?_, ?_, ?_⟩ <;> rw [haccepted]
    · rw [List.map_append, List.map_singleton]
      refine nodup_append_singleton h.ids_nodup fun hmem ↦ ?_
      obtain ⟨other, hother, hsame⟩ := List.mem_map.mp hmem
      obtain ⟨final, hfinal, _⟩ := h.stored other hother
      rw [hsame, hid] at hfinal
      cases hfinal
    · rw [List.map_append, List.map_singleton]
      refine nodup_append_singleton h.keys_nodup fun hmem ↦ ?_
      obtain ⟨other, hother, hsame⟩ := List.mem_map.mp hmem
      obtain ⟨final, hfinal, hdefinition⟩ := h.stored other hother
      exact Encoding.findAlternate_eq_none_iff.mp hkey final (find_eq_some_iff.mp hfinal).1
        (hdefinition.idempotencyKey.trans hsame)
    · intro other hother
      rcases List.mem_append.mp hother with hold | hnew
      · exact hstored other hold
      · rw [List.mem_singleton.mp hnew]
        exact ⟨task, hafter, .refl task⟩

theorem acceptedStored_run (calls : List Call) :
    AcceptedStored (machine.history System.initial calls) (machine.run System.initial calls) :=
  Machine.history_induction (motive := AcceptedStored)
    ⟨List.nodup_nil, List.nodup_nil, fun _ h ↦ absurd h List.not_mem_nil⟩
    (fun _ _ call _ h ↦ acceptedStored_step h call) (machine.unrestricted _ _)

/-! ### Frames -/

/-- The id of the task that a call names, submissions included. -/
def Call.named : Call → Option Bytes
  | .submit task => some task.id
  | call => call.target

theorem target_eq_named {call : Call} {id : Bytes} (h : call.target = some id) :
    call.named = some id := by
  cases call <;> first | exact h | cases h

/-- A call that is no recovery changes at most the task it names. -/
theorem frame_named {s : System} {call : Call} {id : Bytes} (hrecovery : call.recoveryAt = none)
    (hnamed : call.named ≠ some id) :
    find (machine.event s call).after.store id = find s.store id := by
  have hstep := recordStep s call id
  generalize hafter : find (machine.event s call).after.store id = after at hstep
  cases hstep with
  | kept _ _ _ => rfl
  | submitted task hcall hid _ _ _ _ => exact absurd (by rw [hcall, Call.named, hid]) hnamed
  | edited _ _ _ htarget _ _ _ => exact absurd (target_eq_named htarget) hnamed
  | recovered _ now hcall _ _ =>
    rw [hrecovery] at hcall
    cases hcall

/-- A recovery changes only tasks whose lease it finds expired. -/
theorem frame_recovery {s : System} {call : Call} {now : TimePoint} {id : Bytes}
    (hcall : call.recoveryAt = some now)
    (hchanged : find (machine.event s call).after.store id ≠ find s.store id) :
    ∃ a, find s.store id = some a ∧ expired now a = true := by
  have hstep := recordStep s call id
  generalize hafter : find (machine.event s call).after.store id = after at hstep hchanged
  cases hstep with
  | kept _ _ _ => exact absurd rfl hchanged
  | submitted _ hsubmit _ _ _ _ _ => rw [hsubmit] at hcall; cases hcall
  | edited _ _ _ htarget _ _ _ => rw [recoveryAt_of_target htarget] at hcall; cases hcall
  | recovered a now' hcall' hfind hexpired =>
    obtain rfl : now = now' := Option.some.inj (hcall.symm.trans hcall')
    exact ⟨a, hfind, hexpired⟩

theorem recovered_ne {a : Task} (h : active a.status = true) : Runtime.recovered a ≠ a := by
  intro hsame
  have hinactive := active_recovered h
  rw [hsame, h] at hinactive
  cases hinactive

/-- A recovery returns the number of tasks it changed. -/
theorem recovered_count (s : System) (now : TimePoint) :
    (machine.event s (.recoverExpired now)).reply =
      .recovered ((records s.store).countP fun task ↦
        find (machine.event s (.recoverExpired now)).after.store task.id ≠ some task) := by
  rw [reply_recoverExpired]
  refine congrArg Reply.recovered (List.countP_congr fun task htask ↦ ?_)
  have hfind : find s.store task.id = some task := find_eq_some_iff.mpr ⟨htask, rfl⟩
  rw [decide_eq_true_eq]
  rcases find_recovered s now task.id with ⟨a, ha, hexpired, hafter⟩ | ⟨hquiet, hafter⟩
  · obtain rfl : task = a := Option.some.inj (hfind.symm.trans ha)
    refine iff_of_true hexpired fun hsame ↦ recovered_ne (active_of_expired hexpired) ?_
    exact Option.some.inj (hafter.symm.trans hsame)
  · refine iff_of_false ?_ (not_not.mpr (hafter.trans hfind))
    rw [hquiet task hfind]
    decide

/-! ### Over every run -/

/-- Over any run from an empty store: the accepted submissions have distinct ids and distinct
idempotency keys; an accepted task keeps its definition; a finished task is final; a call changes
at most the task it names, or, when it is a recovery, tasks whose stored lease had expired; and
the count that a recovery returns is the number of tasks it changed. -/
theorem tasks_isolated (calls : List Call) :
    ((acceptedTasks (machine.history System.initial calls)).map Task.id).Nodup ∧
    ((acceptedTasks (machine.history System.initial calls)).map Task.idempotencyKey).Nodup ∧
    (∀ task ∈ acceptedTasks (machine.history System.initial calls),
      ∃ final, find (machine.run System.initial calls).store task.id = some final ∧
        SameDefinition task final) ∧
    (∀ earlier e later, machine.history System.initial calls = earlier ++ e :: later →
      ∀ id task, find e.before.store id = some task → isTerminal task.status = true →
        ∀ e' ∈ e :: later, find e'.after.store id = some task) ∧
    (∀ e ∈ machine.history System.initial calls, ∀ id,
      (e.call.recoveryAt = none → e.call.named ≠ some id →
        find e.after.store id = find e.before.store id) ∧
      ∀ now, e.call.recoveryAt = some now → find e.after.store id ≠ find e.before.store id →
        ∃ a, find e.before.store id = some a ∧ expired now a = true) ∧
    ∀ e ∈ machine.history System.initial calls, ∀ now, e.call = .recoverExpired now →
      e.reply = .recovered ((records e.before.store).countP fun task ↦
        find e.after.store task.id ≠ some task) := by
  have haccepted := acceptedStored_run calls
  refine ⟨haccepted.ids_nodup, haccepted.keys_nodup, haccepted.stored, ?_, ?_, ?_⟩
  · intro earlier e later hsplit id task hfind hterminal
    exact fun e' he' ↦ (terminal_from hsplit hfind hterminal e' he').1
  · intro e he id
    rw [machine.eq_event_of_mem_history he]
    exact ⟨fun hrecovery hnamed ↦ frame_named hrecovery hnamed,
      fun now hcall hchanged ↦ frame_recovery hcall hchanged⟩
  · intro e he now hcall
    have heq := machine.eq_event_of_mem_history he
    rw [hcall] at heq
    rw [heq]
    exact recovered_count e.before now

end Gaudere.Work
