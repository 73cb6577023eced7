import Gaudere.WakeIntents.Readable

/-!
# Scopes do not interfere

Every operation on wake intents names one scope. `scopes_isolated` says that erasing from a run the
operations on all other scopes changes neither what the operations on a scope return nor its rows at
the end, and that two adjacent operations on different scopes can be exchanged: every operation
still returns the same, and the table ends with the same rows.

Both are shown of the book. Its decisions read the intents of one scope only (`sameReply`), an
operation on another scope leaves these as they are (`inScope_after_other`), and no decision depends
on the order of the intents (`sameReply_of_perm`).
-/

set_option autoImplicit false
set_option relaxedAutoImplicit false

namespace Gaudere.WakeIntents

open Gaudere.Library

/-- The scope that an operation names. -/
def Call.scope? : Call → Option Bytes
  | .accept intent _ => some intent.scope
  | .reconcile scope _ => some scope
  | .revoke scope _ _ _ => some scope
  | .find scope _ => some scope
  | .findBySource scope _ => some scope
  | .nextScheduledAt scope => some scope
  | .inspectScope scope => some scope
  | .reopen => none

/-- The call is an operation on the scope. -/
def Call.onScope (scope : Bytes) (call : Call) : Bool := call.scope?.any fun named ↦ named == scope

/-- The call is not an operation on another scope. -/
def Call.offOthers (scope : Bytes) (call : Call) : Bool :=
  call.scope?.all fun named ↦ named == scope

namespace Book

/-! ### What a decision reads -/

theorem find_eq_inScope (b : Book) (scope id : Bytes) :
    b.find scope id = (b.inScope scope).find? fun intent ↦ decide (intent.id = id) := by
  rw [find, inScope, List.find?_filter]
  simp only [Prod.mk.injEq, decide_eq_true_eq]

theorem findBySource_eq_inScope (b : Book) (scope sourceId : Bytes) :
    b.findBySource scope sourceId =
      (b.inScope scope).find? fun intent ↦ decide (intent.sourceId = sourceId) := by
  rw [findBySource, inScope, List.find?_filter]
  simp only [Prod.mk.injEq, decide_eq_true_eq]

end Book

/-- A call settles intents of its scope only. -/
theorem settle_eq_none_of_other {intent : WakeIntent} {call : Call}
    (h : call.scope? ≠ some intent.scope) : settle intent call = none := by
  cases hsettle : settle intent call with
  | none => rfl
  | some settled =>
    obtain ⟨now, rfl | ⟨reason, rfl⟩, _⟩ := settle_cases hsettle <;> exact absurd rfl h

theorem advance_of_other {intent : WakeIntent} {call : Call}
    (h : call.scope? ≠ some intent.scope) : advance call intent = intent := by
  rw [advance, settle_eq_none_of_other h, Option.getD_none, ite_self]

theorem settlesIn_of_other {intent : WakeIntent} {call : Call}
    (h : call.scope? ≠ some intent.scope) (status : WakeIntentStatus) :
    settlesIn call status intent = false := by
  rw [settlesIn, settle_eq_none_of_other h, Option.any_none, Bool.and_false]

theorem scope_of_acceptedBy {call : Call} {reply : Reply} {intent : WakeIntent}
    (h : acceptedBy call reply = some intent) : call.scope? = some intent.scope := by
  unfold acceptedBy at h
  split at h
  · split_ifs at h
    cases h
    rfl
  · cases h

theorem settledCount_eq_inScope (b : Book) {call : Call} {scope : Bytes}
    (hscope : call.scope? = some scope) (status : WakeIntentStatus) :
    b.settledCount call status = (b.inScope scope).countP (settlesIn call status) := by
  rw [Book.settledCount, Book.inScope, List.countP_filter]
  refine List.countP_congr fun intent _ ↦ ?_
  by_cases hsame : intent.scope = scope
  · simp [hsame]
  · have hother : call.scope? ≠ some intent.scope := fun h ↦
      hsame (Option.some.inj (hscope.symm.trans h)).symm
    simp [settlesIn_of_other hother]

/-- The decision on an operation reads the intents of its scope only. -/
theorem sameReply {b b' : Book} {call : Call} {scope : Bytes} (hscope : call.scope? = some scope)
    (h : b.inScope scope = b'.inScope scope) :
    (bookMachine.event b call).reply = (bookMachine.event b' call).reply := by
  cases call <;> simp only [Call.scope?, Option.some.injEq, reduceCtorEq] at hscope <;> subst hscope
  case accept intent policy =>
    rw [reply_accept, reply_accept, Book.admission, Book.admission, Book.find_eq_inScope,
      Book.findBySource_eq_inScope, h, ← Book.find_eq_inScope, ← Book.findBySource_eq_inScope]
  case reconcile scope now =>
    simp only [Machine.event, bookMachine]
    rw [settledCount_eq_inScope b rfl, settledCount_eq_inScope b rfl,
      settledCount_eq_inScope b' rfl, settledCount_eq_inScope b' rfl, h]
  case revoke scope id now reason =>
    simp only [Machine.event, bookMachine, Book.revocation, Book.find_eq_inScope, h]
  case find scope id => simp only [Machine.event, bookMachine, Book.find_eq_inScope, h]
  case findBySource scope sourceId =>
    simp only [Machine.event, bookMachine, Book.findBySource_eq_inScope, h]
  case nextScheduledAt scope => simp only [Machine.event, bookMachine, Book.nextScheduledAt, h]
  case inspectScope scope => simp only [Machine.event, bookMachine, Book.inspectScope, h]

/-! ### What an operation changes -/

/-- The intents of a scope after a call: each advanced, and the one the call stored if it is of the
scope. -/
theorem inScope_after (b : Book) (call : Call) (scope : Bytes) :
    (bookMachine.event b call).after.inScope scope =
      (b.inScope scope).map (advance call) ++
        ((acceptedBy call (bookMachine.event b call).reply).toList.filter
          fun intent ↦ intent.scope = scope) := by
  rw [Book.inScope, intents_after, List.filter_append, List.filter_map, Book.inScope]
  refine congrArg (fun kept ↦ List.map (advance call) kept ++ _)
    (List.filter_congr fun intent _ ↦ ?_)
  rw [Function.comp_apply, (advance_keys call intent).1]

theorem inScope_after_other {b : Book} {call : Call} {scope : Bytes}
    (hscope : call.scope? ≠ some scope) :
    (bookMachine.event b call).after.inScope scope = b.inScope scope := by
  have hkept : (b.inScope scope).map (advance call) = b.inScope scope := by
    refine (List.map_congr_left fun intent hintent ↦ ?_).trans (List.map_id _)
    have hsame : intent.scope = scope := of_decide_eq_true (List.mem_filter.mp hintent).2
    exact advance_of_other fun h ↦ hscope (h.trans (congrArg some hsame))
  have hnone : (acceptedBy call (bookMachine.event b call).reply).toList.filter
      (fun intent ↦ intent.scope = scope) = [] := by
    refine List.filter_eq_nil_iff.mpr fun intent hintent hsame ↦ hscope ?_
    rw [scope_of_acceptedBy (Option.mem_toList.mp hintent), of_decide_eq_true hsame]
  rw [inScope_after, hkept, hnone, List.append_nil]

/-- What an operation makes of its own scope is decided by that scope. -/
theorem inScope_after_congr {b b' : Book} {call : Call} {scope : Bytes}
    (hcall : call.offOthers scope = true) (h : b.inScope scope = b'.inScope scope) :
    (bookMachine.event b call).after.inScope scope =
      (bookMachine.event b' call).after.inScope scope := by
  cases hnamed : call.scope? with
  | none =>
    have hother : call.scope? ≠ some scope := by rw [hnamed]; exact nofun
    rw [inScope_after_other hother, inScope_after_other hother, h]
  | some named =>
    rw [Call.offOthers, hnamed, Option.all_some, beq_iff_eq] at hcall
    subst hcall
    rw [inScope_after, inScope_after, sameReply hnamed h, h]

/-! ### Erasing the other scopes -/

theorem offOthers_of_onScope {scope : Bytes} {call : Call} (h : call.onScope scope = true) :
    call.offOthers scope = true := by
  rw [Call.onScope, Option.any_eq_true] at h
  obtain ⟨named, hnamed, hsame⟩ := h
  rw [Call.offOthers, hnamed, Option.all_some, hsame]

theorem scope?_of_onScope {scope : Bytes} {call : Call} (h : call.onScope scope = true) :
    call.scope? = some scope := by
  rw [Call.onScope, Option.any_eq_true] at h
  obtain ⟨named, hnamed, hsame⟩ := h
  rw [hnamed, beq_iff_eq.mp hsame]

theorem scope?_of_not_offOthers {scope : Bytes} {call : Call} (h : call.offOthers scope = false) :
    call.scope? ≠ some scope := by
  intro hnamed
  rw [Call.offOthers, hnamed, Option.all_some, beq_self_eq_true] at h
  cases h

theorem book_erase (calls : List Call) (scope : Bytes) :
    Machine.replies (Call.onScope scope) (bookMachine.history Book.empty calls) =
        Machine.replies (Call.onScope scope)
          (bookMachine.history Book.empty (calls.filter (Call.offOthers scope))) ∧
      (bookMachine.run Book.empty calls).inScope scope =
        (bookMachine.run Book.empty (calls.filter (Call.offOthers scope))).inScope scope := by
  refine bookMachine.replies_erase (R := fun b b' : Book ↦ b.inScope scope = b'.inScope scope)
    (fun _ ↦ offOthers_of_onScope)
    (fun _ _ _ _ hcall h ↦ ⟨fun hon ↦ sameReply (scope?_of_onScope hon) h,
      inScope_after_congr hcall h⟩)
    (fun _ _ _ _ hcall h ↦ ?_) (fun _ _ ↦ trivial) rfl
  rw [inScope_after_other (scope?_of_not_offOthers hcall), h]

/-! ### Books with the same intents -/

theorem Book.find_of_perm {b b' : Book} (h : b.intents.Perm b'.intents) (scope id : Bytes) :
    b.find scope id = b'.find scope id := by
  apply Option.ext
  intro intent
  constructor <;> intro hfind <;> obtain ⟨hmem, rfl, rfl⟩ := Book.mem_of_find hfind
  · exact Book.find_eq_some (h.mem_iff.mp hmem)
  · exact Book.find_eq_some (h.mem_iff.mpr hmem)

theorem Book.findBySource_of_perm {b b' : Book} (h : b.intents.Perm b'.intents)
    (scope sourceId : Bytes) : b.findBySource scope sourceId = b'.findBySource scope sourceId := by
  apply Option.ext
  intro intent
  constructor <;> intro hfind <;> obtain ⟨hmem, rfl, rfl⟩ := Book.mem_of_findBySource hfind
  · exact Book.findBySource_eq_some (h.mem_iff.mp hmem)
  · exact Book.findBySource_eq_some (h.mem_iff.mpr hmem)

theorem Book.inspectScope_of_perm {b b' : Book} (h : b.intents.Perm b'.intents) (scope : Bytes) :
    b.inspectScope scope = b'.inspectScope scope := by
  have hscope : (b.inScope scope).Perm (b'.inScope scope) := h.filter _
  rw [Book.inspectScope, Book.inspectScope]
  cases hintents : b.inScope scope with
  | nil =>
    rw [hintents, List.nil_perm] at hscope
    rw [hscope]
  | cons intent rest =>
    cases rest with
    | nil =>
      rw [hintents, List.singleton_perm] at hscope
      rw [← hscope]
    | cons other rest =>
      have hlength := hscope.length_eq
      rw [hintents, List.length_cons, List.length_cons] at hlength
      rcases hintents' : b'.inScope scope with _ | ⟨first, _ | ⟨second, others⟩⟩
      · simp [hintents'] at hlength
      · simp [hintents'] at hlength
      · rfl

/-- No decision depends on the order of the intents. -/
theorem sameReply_of_perm {b b' : Book} (h : b.intents.Perm b'.intents) (call : Call) :
    (bookMachine.event b call).reply = (bookMachine.event b' call).reply := by
  have hscope : ∀ scope, (b.inScope scope).Perm (b'.inScope scope) := fun scope ↦ h.filter _
  have hcount : ∀ call status, b.settledCount call status = b'.settledCount call status :=
    fun call status ↦ h.countP_eq _
  cases call with
  | accept intent policy =>
    rw [reply_accept, reply_accept, Book.admission, Book.admission, Book.find_of_perm h,
      Book.findBySource_of_perm h, (hscope intent.scope).length_eq]
  | reconcile scope now => simp only [Machine.event, bookMachine, hcount]
  | revoke scope id now reason =>
    simp only [Machine.event, bookMachine, Book.revocation, Book.find_of_perm h]
  | find scope id => simp only [Machine.event, bookMachine, Book.find_of_perm h]
  | findBySource scope sourceId =>
    simp only [Machine.event, bookMachine, Book.findBySource_of_perm h]
  | nextScheduledAt scope =>
    simp only [Machine.event, bookMachine, Book.nextScheduledAt,
      min?_of_perm (((hscope scope).filter _).map _)]
  | inspectScope scope =>
    simp only [Machine.event, bookMachine, Book.inspectScope_of_perm h]
  | reopen => rfl

theorem perm_after {b b' : Book} (h : b.intents.Perm b'.intents) (call : Call) :
    (bookMachine.event b call).after.intents.Perm (bookMachine.event b' call).after.intents := by
  rw [intents_after, intents_after, sameReply_of_perm h]
  exact (h.map _).append_right _

/-! ### Exchanging two calls -/

section Exchange

variable {first second : Call} {scope scope' : Bytes} (hfirst : first.scope? = some scope)
  (hsecond : second.scope? = some scope') (hne : scope ≠ scope')

include hfirst hsecond hne

theorem sameReply_after_other (b : Book) :
    (bookMachine.event (bookMachine.event b first).after second).reply =
      (bookMachine.event b second).reply := by
  refine sameReply hsecond (inScope_after_other ?_)
  rw [hfirst, ne_eq, Option.some.injEq]
  exact hne

theorem advance_comm (intent : WakeIntent) :
    advance second (advance first intent) = advance first (advance second intent) := by
  by_cases hscope : intent.scope = scope
  · have hother : second.scope? ≠ some intent.scope := by
      rw [hsecond, hscope, ne_eq, Option.some.injEq]
      exact hne.symm
    have hother' : second.scope? ≠ some (advance first intent).scope := by
      rwa [(advance_keys first intent).1]
    rw [advance_of_other hother, advance_of_other hother']
  · have hother : first.scope? ≠ some intent.scope := by
      rw [hfirst, ne_eq, Option.some.injEq]
      exact Ne.symm hscope
    have hother' : first.scope? ≠ some (advance second intent).scope := by
      rwa [(advance_keys second intent).1]
    rw [advance_of_other hother, advance_of_other hother']

theorem intents_after_two (b : Book) :
    (bookMachine.event (bookMachine.event b first).after second).after.intents =
      b.intents.map (fun intent ↦ advance second (advance first intent)) ++
        ((acceptedBy first (bookMachine.event b first).reply).toList ++
          (acceptedBy second (bookMachine.event b second).reply).toList) := by
  have hkept : (acceptedBy first (bookMachine.event b first).reply).toList.map (advance second) =
      (acceptedBy first (bookMachine.event b first).reply).toList := by
    refine (List.map_congr_left fun intent hintent ↦ ?_).trans (List.map_id _)
    have hscope := scope_of_acceptedBy (Option.mem_toList.mp hintent)
    refine advance_of_other ?_
    rw [hsecond, ← hscope, hfirst, ne_eq, Option.some.injEq]
    exact hne.symm
  rw [intents_after, intents_after, List.map_append, List.map_map, hkept,
    sameReply_after_other hfirst hsecond hne, List.append_assoc]
  rfl

/-- Two operations on different scopes leave the same intents in either order. -/
theorem perm_after_two (b : Book) :
    (bookMachine.event (bookMachine.event b first).after second).after.intents.Perm
      (bookMachine.event (bookMachine.event b second).after first).after.intents := by
  rw [intents_after_two hfirst hsecond hne, intents_after_two hsecond hfirst hne.symm,
    List.map_congr_left fun intent _ ↦ advance_comm hfirst hsecond hne intent]
  exact List.perm_append_comm.append_left _

end Exchange

/-- Runs of the book from the same intents return the same and end with the same intents. -/
theorem perm_run {b b' : Book} (h : b.intents.Perm b'.intents) (calls : List Call) :
    (bookMachine.history b calls).map Event.reply =
        (bookMachine.history b' calls).map Event.reply ∧
      (bookMachine.run b calls).intents.Perm (bookMachine.run b' calls).intents := by
  have hstep : ∀ b b' : Book, ∀ call, b.intents.Perm b'.intents →
      (bookMachine.event b call).reply = (bookMachine.event b' call).reply ∧
        (bookMachine.event b call).after.intents.Perm (bookMachine.event b' call).after.intents :=
    fun _ _ call h ↦ ⟨sameReply_of_perm h call, perm_after h call⟩
  obtain ⟨htrace, hperm⟩ := bookMachine.simulate hstep calls h
  exact ⟨Machine.map_reply_congr htrace, hperm⟩

/-- Two adjacent operations on different scopes, exchanged in a run of the book. -/
theorem book_exchange (earlier later : List Call) {first second : Call} {scope scope' : Bytes}
    (hfirst : first.scope? = some scope) (hsecond : second.scope? = some scope')
    (hne : scope ≠ scope') :
    (∃ before firstReply secondReply after, before.length = earlier.length ∧
      (bookMachine.history Book.empty (earlier ++ first :: second :: later)).map Event.reply =
        before ++ firstReply :: secondReply :: after ∧
      (bookMachine.history Book.empty (earlier ++ second :: first :: later)).map Event.reply =
        before ++ secondReply :: firstReply :: after) ∧
    (bookMachine.run Book.empty (earlier ++ first :: second :: later)).intents.Perm
      (bookMachine.run Book.empty (earlier ++ second :: first :: later)).intents := by
  have hopen : ∀ one other : Call,
      (bookMachine.history Book.empty (earlier ++ one :: other :: later)).map Event.reply =
        (bookMachine.history Book.empty earlier).map Event.reply ++
          (bookMachine.event (bookMachine.run Book.empty earlier) one).reply ::
          (bookMachine.event (bookMachine.event (bookMachine.run Book.empty earlier) one).after
            other).reply ::
          (bookMachine.history (bookMachine.event (bookMachine.event
            (bookMachine.run Book.empty earlier) one).after other).after later).map
              Event.reply := by
    intro one other
    rw [bookMachine.history_append, List.map_append]
    rfl
  obtain ⟨hreplies, hperm⟩ := perm_run
    (perm_after_two hfirst hsecond hne (bookMachine.run Book.empty earlier)) later
  refine ⟨⟨_, _, _, _, ?_, hopen first second, ?_⟩, ?_⟩
  · rw [List.length_map, ← List.length_map Event.call, bookMachine.map_call_history]
  · rw [hopen second first, ← hreplies,
      sameReply_after_other hsecond hfirst hne.symm (bookMachine.run Book.empty earlier),
      ← sameReply_after_other hfirst hsecond hne (bookMachine.run Book.empty earlier)]
  · rw [bookMachine.run_append, bookMachine.run_append]
    exact hperm

/-- Erasing from a run the operations on all scopes but one changes neither what the operations on
that scope return nor its rows at the end. Exchanging two adjacent operations on different scopes
changes neither what any operation returns nor which rows the table ends with. -/
theorem scopes_isolated :
    (∀ (calls : List Call) (scope : Bytes),
      Machine.replies (Call.onScope scope) (machine.history (Table.empty intentSchema) calls) =
          Machine.replies (Call.onScope scope)
            (machine.history (Table.empty intentSchema)
              (calls.filter (Call.offOthers scope))) ∧
        scopeRows (machine.run (Table.empty intentSchema) calls) scope =
          scopeRows (machine.run (Table.empty intentSchema)
            (calls.filter (Call.offOthers scope))) scope) ∧
    ∀ (earlier later : List Call) (first second : Call) (scope scope' : Bytes),
      first.scope? = some scope → second.scope? = some scope' → scope ≠ scope' →
        (∃ before firstReply secondReply after, before.length = earlier.length ∧
          (machine.history (Table.empty intentSchema)
              (earlier ++ first :: second :: later)).map Event.reply =
            before ++ firstReply :: secondReply :: after ∧
          (machine.history (Table.empty intentSchema)
              (earlier ++ second :: first :: later)).map Event.reply =
            before ++ secondReply :: firstReply :: after) ∧
        (machine.run (Table.empty intentSchema) (earlier ++ first :: second :: later)).rows.Perm
          (machine.run (Table.empty intentSchema) (earlier ++ second :: first :: later)).rows := by
  refine ⟨fun calls scope ↦ ?_, fun earlier later first second scope scope' hfirst hsecond hne ↦ ?_⟩
  · obtain ⟨htrace, hrows⟩ := refines_run calls
    obtain ⟨htrace', hrows'⟩ := refines_run (calls.filter (Call.offOthers scope))
    obtain ⟨hreplies, hscope⟩ := book_erase calls scope
    rw [Machine.replies_congr htrace, Machine.replies_congr htrace',
      scopeRows_of_represents hrows, scopeRows_of_represents hrows', hscope]
    exact ⟨hreplies, rfl⟩
  · obtain ⟨htrace, hrows⟩ := refines_run (earlier ++ first :: second :: later)
    obtain ⟨htrace', hrows'⟩ := refines_run (earlier ++ second :: first :: later)
    rw [Machine.map_reply_congr htrace, Machine.map_reply_congr htrace', hrows, hrows']
    obtain ⟨hreplies, hperm⟩ := book_exchange earlier later hfirst hsecond hne
    exact ⟨hreplies, hperm.map encode⟩

end Gaudere.WakeIntents
