import Gaudere.WakeIntents.Settlement

/-!
# Every stored intent can be read back

Reading validates a row again, so a row that a writer left out of step would make every later read
of its scope throw. `reachable_intents_readable` says that there is none in any reachable state: the
rows represent the valid intents of a book. Both lookups and the inspection then say exactly what is
stored.
-/

set_option autoImplicit false
set_option relaxedAutoImplicit false

namespace Gaudere.WakeIntents

open Gaudere.Library WakeIntentStore

/-- A scope and source find their intent. -/
theorem Book.findBySource_eq_some {b : Book} {intent : WakeIntent} (h : intent ∈ b.intents) :
    b.findBySource intent.scope intent.sourceId = some intent := by
  cases hfind : b.findBySource intent.scope intent.sourceId with
  | none => simpa using List.find?_eq_none.mp hfind intent h
  | some other =>
    obtain ⟨hmem, hscope, hsource⟩ := Book.mem_of_findBySource hfind
    rw [List.inj_on_of_nodup_map b.sources_nodup hmem h (Prod.ext hscope hsource)]

/-- A row reads as a valid intent, which both lookups return. -/
structure Readable (t : IntentTable) (row : IntentRow) (intent : WakeIntent) : Prop where
  read : readIntent row = .ok intent
  valid : validWakeIntent intent = true
  found : find t row.scope row.id = .ok (some intent)
  foundBySource : findBySource t row.scope row.sourceId = .ok (some intent)

theorem readable_of_represents {t : IntentTable} {b : Book} (h : Represents t b) {row : IntentRow}
    (hrow : row ∈ t.rows) : ∃ intent, Readable t row intent := by
  rw [h] at hrow
  obtain ⟨intent, hintent, rfl⟩ := List.mem_map.mp hrow
  have hvalid := b.valid intent hintent
  exact ⟨intent, readIntent_encode hvalid, validWakeIntent_iff.mpr hvalid,
    (find_of_represents h _ _).trans (congrArg Except.ok (Book.find_eq_some hintent)),
    (findBySource_of_represents h _ _).trans
      (congrArg Except.ok (Book.findBySource_eq_some hintent))⟩

/-- The book refuses arguments and throws nothing else. -/
theorem threw_of_book {b : Book} {call : Call} {failure : Failure}
    (h : (bookMachine.event b call).reply = .threw failure) :
    ∃ what, failure = .invalidArgument what := by
  cases call with
  | accept intent policy =>
    rw [reply_accept] at h
    cases h
  | reconcile scope now =>
    simp only [Machine.event, bookMachine] at h
    split_ifs at h
    cases h
    exact ⟨_, rfl⟩
  | revoke scope id now reason => cases h
  | find scope id => cases h
  | findBySource scope sourceId => cases h
  | nextScheduledAt scope =>
    simp only [Machine.event, bookMachine] at h
    split_ifs at h
    cases h
    exact ⟨_, rfl⟩
  | inspectScope scope =>
    simp only [Machine.event, bookMachine] at h
    split_ifs at h
    cases h
    exact ⟨_, rfl⟩
  | reopen => cases h

/-- Every state a run passes through represents a book. -/
theorem represents_of_mem_history {calls : List Call} {e : Event IntentTable Call Reply}
    (he : e ∈ machine.history (Table.empty intentSchema) calls) :
    ∃ b, Represents e.before b ∧ e = machine.event e.before e.call := by
  obtain ⟨earlier, later, hsplit⟩ := List.append_of_mem he
  obtain ⟨past, call, _, _, _, rfl, _⟩ := machine.history_split hsplit
  exact ⟨_, (refines_run past).2, rfl⟩

/-- An inspection answers by the number of rows of the scope, and returns the record when it is the
only one. -/
theorem inspectScope_exact {t : IntentTable} {b : Book} (h : Represents t b) {scope : Bytes}
    (hscope : validWakeIntentIdentifier scope = true) :
    (scopeRows t scope = [] →
      inspectScope t scope = .ok { result := .empty, intent := none }) ∧
    (∀ row, scopeRows t scope = [row] → ∃ intent, readIntent row = .ok intent ∧
      inspectScope t scope = .ok { result := .one, intent := some intent }) ∧
    (2 ≤ (scopeRows t scope).length →
      inspectScope t scope = .ok { result := .ambiguous, intent := none }) := by
  rw [inspectScope_of_represents h hscope, scopeRows_of_represents h, Book.inspectScope]
  have hvalid : ∀ intent ∈ b.inScope scope, intent.Valid := fun intent hintent ↦
    b.valid intent (List.mem_filter.mp hintent).1
  cases hintents : b.inScope scope with
  | nil => simp
  | cons intent rest =>
    cases rest with
    | nil =>
      rw [hintents, List.forall_mem_singleton] at hvalid
      refine ⟨by simp, fun row hrow ↦ ?_, fun hlength ↦ absurd hlength (by simp)⟩
      obtain rfl : encode intent = row := (List.cons.inj hrow).1
      exact ⟨intent, readIntent_encode hvalid, rfl⟩
    | cons other rest => exact ⟨by simp, fun row hrow ↦ absurd hrow (by simp), fun _ ↦ rfl⟩

/-- Over any run from an empty table: every row reads as a valid intent, which both lookups return;
no call throws but on the arguments it rejects; an accepted intent is found ever after, and field
for field as it was accepted while it is scheduled; and an inspection of a valid scope says how many
rows the scope holds, with the record when it is the only one. -/
theorem reachable_intents_readable (calls : List Call) :
    (∀ row ∈ (machine.run (Table.empty intentSchema) calls).rows,
      ∃ intent, Readable (machine.run (Table.empty intentSchema) calls) row intent) ∧
    (∀ e ∈ machine.history (Table.empty intentSchema) calls, ∀ failure,
      e.reply = .threw failure → ∃ what, failure = .invalidArgument what) ∧
    (∀ e ∈ machine.history (Table.empty intentSchema) calls, ∀ intent policy,
      e.call = .accept intent policy → e.reply = .accepted .accepted →
        ∃ record, find (machine.run (Table.empty intentSchema) calls) intent.scope intent.id =
            .ok (some record) ∧
          (record.status = .scheduled → record = intent)) ∧
    ∀ scope, validWakeIntentIdentifier scope = true →
      (scopeRows (machine.run (Table.empty intentSchema) calls) scope = [] →
        inspectScope (machine.run (Table.empty intentSchema) calls) scope =
          .ok { result := .empty, intent := none }) ∧
      (∀ row, scopeRows (machine.run (Table.empty intentSchema) calls) scope = [row] →
        ∃ intent, readIntent row = .ok intent ∧
          inspectScope (machine.run (Table.empty intentSchema) calls) scope =
            .ok { result := .one, intent := some intent }) ∧
      (2 ≤ (scopeRows (machine.run (Table.empty intentSchema) calls) scope).length →
        inspectScope (machine.run (Table.empty intentSchema) calls) scope =
          .ok { result := .ambiguous, intent := none }) := by
  have hrepresents := (refines_run calls).2
  refine ⟨fun row hrow ↦ readable_of_represents hrepresents hrow, ?_, ?_,
    fun scope hscope ↦ inspectScope_exact hrepresents hscope⟩
  · intro e he failure hthrew
    obtain ⟨b, hb, hevent⟩ := represents_of_mem_history he
    rw [hevent, (refines_step hb e.call).1] at hthrew
    exact threw_of_book hthrew
  · intro e he intent policy hcall hreply
    obtain ⟨earlier, later, hsplit⟩ := List.append_of_mem he
    obtain ⟨record, hfind, hrecord, _⟩ := accepted_intent_after_run hsplit hcall hreply
    refine ⟨record, hfind, fun hscheduled ↦ ?_⟩
    cases hsettled : (later.map Event.call).findSome? (settle intent) with
    | none => rw [hrecord, hsettled, Option.getD_none]
    | some settled =>
      rw [hrecord, hsettled, Option.getD_some] at hscheduled
      obtain ⟨_, _, hsettle⟩ := List.exists_of_findSome?_eq_some hsettled
      obtain ⟨_, _, _, hsettles, _⟩ := settle_cases hsettle
      exact absurd hscheduled hsettles.terminal

end Gaudere.WakeIntents
