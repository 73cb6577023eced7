import Gaudere.WakeIntents.Refinement
import Gaudere.WakeIntents.Settlement

/-!
# Sleeping until the next deadline

An event loop reconciles a scope, sleeps until `next_scheduled_at` and reconciles again.
`reconcile_rearms_exactly` says that this neither spins nor misses: after a reconciliation the clock
value lies inside the term of every intent that is still scheduled, the next deadline is the least
of theirs and lies ahead, and doing it again at the same clock value changes nothing. A
reconciliation changes some row exactly when a deadline is reached or a clock that went back has to
be reviewed.

In the book these are all one notion: a scope is `Clear` at a clock value when no scheduled intent
of it is observed outside its term.
-/

set_option autoImplicit false
set_option relaxedAutoImplicit false

namespace Gaudere.WakeIntents

open Gaudere.Library WakeIntentStore

/-! ### Intents inside their term -/

theorem settle_reconcile {scope : Bytes} {now : TimePoint}
    (hvalid : validObservation scope now = true) {intent : WakeIntent}
    (hscope : intent.scope = scope) :
    settle intent (.reconcile scope now) = intent.observed now := by
  rw [settle, if_pos ⟨hvalid, hscope.symm⟩]

namespace Book

/-- The scheduled intents of a scope. -/
def Scheduled (b : Book) (scope : Bytes) (intent : WakeIntent) : Prop :=
  intent ∈ b.intents ∧ intent.scope = scope ∧ intent.status = .scheduled

/-- A reconciliation of the scope at the clock value has nothing to settle. -/
def Clear (b : Book) (scope : Bytes) (now : TimePoint) : Prop :=
  ∀ intent, b.Scheduled scope intent → intent.observed now = none

theorem advance_eq_self_of_clear {b : Book} {scope : Bytes} {now : TimePoint}
    (h : b.Clear scope now) : b.advance (.reconcile scope now) = b := by
  refine advance_eq_self fun intent hintent ↦ ?_
  rcases advance_cases (.reconcile scope now) intent with hsame | ⟨settled, hstatus, hsettle, _⟩
  · exact hsame
  · -- A settled intent was observed outside its term.
    simp only [settle] at hsettle
    split_ifs at hsettle with hvalid
    rw [h intent ⟨hintent, hvalid.2.symm, hstatus⟩] at hsettle
    cases hsettle

theorem settledCount_of_clear {b : Book} {scope : Bytes} {now : TimePoint} (h : b.Clear scope now)
    (status : WakeIntentStatus) : b.settledCount (.reconcile scope now) status = 0 := by
  refine settledCount_eq_zero (fun intent hintent hstatus ↦ ?_) status
  simp only [settle]
  split_ifs with hvalid
  · exact h intent ⟨hintent, hvalid.2.symm, hstatus⟩
  · rfl

/-- An intent that a reconciliation leaves scheduled was inside its term. -/
theorem clear_advance {b : Book} {scope : Bytes} {now : TimePoint}
    (hvalid : validObservation scope now = true) :
    (b.advance (.reconcile scope now)).Clear scope now := by
  rintro intent ⟨hintent, hscope, hstatus⟩
  obtain ⟨old, _, rfl⟩ := List.mem_map.mp hintent
  have hold : old.scope = scope := (advance_keys _ old).1.symm.trans hscope
  have hsettle := settle_reconcile hvalid hold
  cases hobserved : old.observed now with
  | none =>
    rcases advance_cases (.reconcile scope now) old with hsame | ⟨settled, _, hsettled, _⟩
    · rw [hsame]
      exact hobserved
    · rw [hsettle, hobserved] at hsettled
      cases hsettled
  | some settled =>
    -- The observation has settled it, so it is not scheduled any more.
    by_cases hscheduled : old.status = .scheduled
    · rw [advance_of_scheduled hscheduled, hsettle, hobserved, Option.getD_some] at hstatus
      exact absurd hstatus (Settles.of_observed hobserved).terminal
    · rw [advance_eq_self_of_terminal hscheduled] at hstatus
      exact absurd hstatus hscheduled

/-- A reconciliation changes the book exactly when the scope is not clear. -/
theorem advance_eq_self_iff_clear {b : Book} {scope : Bytes} {now : TimePoint}
    (hvalid : validObservation scope now = true) :
    b.advance (.reconcile scope now) = b ↔ b.Clear scope now := by
  constructor
  · intro hsame
    rw [← hsame]
    exact clear_advance hvalid
  · exact advance_eq_self_of_clear

/-! ### The next deadline -/

theorem mem_scheduledAt {b : Book} {scope : Bytes} {time : TimePoint} :
    time ∈ ((b.inScope scope).filter fun intent ↦ intent.status = .scheduled).map
        WakeIntent.dueAt ↔
      ∃ intent, b.Scheduled scope intent ∧ intent.dueAt = time := by
  simp only [List.mem_map, List.mem_filter, inScope, decide_eq_true_eq, Scheduled, and_assoc]

theorem nextScheduledAt_eq_none_iff {b : Book} {scope : Bytes} :
    b.nextScheduledAt scope = none ↔ ∀ intent, ¬ b.Scheduled scope intent := by
  rw [nextScheduledAt, List.min?_eq_none_iff, List.eq_nil_iff_forall_not_mem]
  simp only [mem_scheduledAt, not_exists, not_and]
  exact ⟨fun h intent hintent ↦ h intent.dueAt intent hintent rfl,
    fun h _ intent hintent _ ↦ h intent hintent⟩

theorem nextScheduledAt_eq_some_iff {b : Book} {scope : Bytes} {time : TimePoint} :
    b.nextScheduledAt scope = some time ↔
      (∃ intent, b.Scheduled scope intent ∧ intent.dueAt = time) ∧
        ∀ intent, b.Scheduled scope intent → time ≤ intent.dueAt := by
  rw [nextScheduledAt, List.min?_eq_some_iff, mem_scheduledAt]
  refine and_congr_right fun _ ↦ ⟨fun h intent hintent ↦ ?_, fun h due hdue ↦ ?_⟩
  · exact h intent.dueAt (mem_scheduledAt.mpr ⟨intent, hintent, rfl⟩)
  · obtain ⟨intent, hintent, rfl⟩ := mem_scheduledAt.mp hdue
    exact h intent hintent

/-- A scope is not clear when its next deadline is reached, or an intent of it was accepted
later. -/
theorem not_clear_iff {b : Book} {scope : Bytes} {now : TimePoint} :
    ¬ b.Clear scope now ↔ (∃ time, b.nextScheduledAt scope = some time ∧ time ≤ now) ∨
      ∃ intent, b.Scheduled scope intent ∧ now < intent.acceptedAt := by
  constructor
  · intro hnot
    simp only [Clear, not_forall] at hnot
    obtain ⟨intent, hintent, hobserved⟩ := hnot
    obtain ⟨settled, hsettled⟩ := Option.ne_none_iff_exists'.mp hobserved
    rcases observed_cases hsettled with ⟨hbefore, _⟩ | ⟨_, hdue, _⟩
    · exact Or.inr ⟨intent, hintent, hbefore⟩
    · cases hnext : b.nextScheduledAt scope with
      | none => exact absurd hintent (nextScheduledAt_eq_none_iff.mp hnext intent)
      | some time =>
        have hleast := (nextScheduledAt_eq_some_iff.mp hnext).2 intent hintent
        exact Or.inl ⟨time, rfl, Int64.le_trans hleast hdue⟩
  · rintro (⟨time, hnext, hle⟩ | ⟨intent, hintent, hbefore⟩) hclear
    · obtain ⟨⟨intent, hintent, rfl⟩, _⟩ := nextScheduledAt_eq_some_iff.mp hnext
      have hdue := (observed_eq_none (hclear intent hintent)).2
      exact Int64.lt_irrefl (Int64.lt_of_lt_of_le hdue hle)
    · have haccepted := (observed_eq_none (hclear intent hintent)).1
      exact Int64.lt_irrefl (Int64.lt_of_lt_of_le hbefore haccepted)

end Book

/-! ### The table -/

/-- A scheduled intent of a scope, as the store reads it. -/
def Scheduled (t : IntentTable) (scope : Bytes) (intent : WakeIntent) : Prop :=
  ∃ row ∈ t.rows, row.scope = scope ∧ row.status = WakeIntentStatus.scheduled.code ∧
    readIntent row = .ok intent

theorem scheduled_of_represents {t : IntentTable} {b : Book} (h : Represents t b) {scope : Bytes}
    {intent : WakeIntent} : Scheduled t scope intent ↔ b.Scheduled scope intent := by
  constructor
  · rintro ⟨row, hrow, hscope, hstatus, hread⟩
    rw [h] at hrow
    obtain ⟨stored, hstored, rfl⟩ := List.mem_map.mp hrow
    rw [readIntent_encode (b.valid stored hstored), Except.ok.injEq] at hread
    exact hread ▸ ⟨hstored, hscope, code_eq_scheduled.mp hstatus⟩
  · rintro ⟨hintent, hscope, hstatus⟩
    refine ⟨encode intent, ?_, hscope, code_eq_scheduled.mpr hstatus,
      readIntent_encode (b.valid intent hintent)⟩
    rw [h]
    exact List.mem_map_of_mem hintent

/-- The table after a reconciliation. -/
theorem represents_reconcile {t : IntentTable} {b : Book} (h : Represents t b) (scope : Bytes)
    (now : TimePoint) : Represents (reconcile t scope now).1 (b.advance (.reconcile scope now)) :=
  (agrees_reconcile h scope now).2

/-- The answer to a reconciliation counts what it settles. -/
theorem reconcile_result {t : IntentTable} {b : Book} (h : Represents t b) {scope : Bytes}
    {now : TimePoint} (hvalid : validObservation scope now = true) :
    (reconcile t scope now).2 =
      .ok { fired := b.settledCount (.reconcile scope now) .fired
            manualReview := b.settledCount (.reconcile scope now) .manualReview } := by
  have hreply := (agrees_reconcile h scope now).1
  simp only [Machine.event, machine, bookMachine, hvalid, ↓reduceIte] at hreply
  cases hresult : (reconcile t scope now).2 with
  | error failure =>
    rw [hresult] at hreply
    cases hreply
  | ok result =>
    rw [hresult, reply, Reply.reconciled.injEq] at hreply
    rw [hreply]

/-- A table represents one book: what its rows are read as. -/
theorem eq_of_represents {t : IntentTable} {b b' : Book} (h : Represents t b)
    (h' : Represents t b') : b = b' := by
  have hread : ∀ {b : Book}, Represents t b → t.rows.map readIntent = b.intents.map Except.ok := by
    intro b h
    rw [h, List.map_map]
    exact List.map_congr_left fun intent hintent ↦ readIntent_encode (b.valid intent hintent)
  have hok : Function.Injective (Except.ok : WakeIntent → Except Failure WakeIntent) :=
    fun _ _ ↦ Except.ok.inj
  exact Book.ext (List.map_injective_iff.mpr hok ((hread h).symm.trans (hread h')))

/-- On every reachable table: after a reconciliation every intent of the scope that is still
scheduled has the clock value inside its term, and the next deadline is the least of theirs and
lies ahead; a second reconciliation at the same clock value settles nothing and changes nothing;
and a reconciliation changes some row exactly when the next deadline is reached or a scheduled
intent was accepted after the clock value. -/
theorem reconcile_rearms_exactly (calls : List Call) {scope : Bytes}
    (hscope : validWakeIntentIdentifier scope = true) {now : TimePoint} (hnow : Aligned now) :
    let t := machine.run (Table.empty intentSchema) calls
    let t' := (reconcile t scope now).1
    (∀ row ∈ t'.rows, row.scope = scope → row.status = WakeIntentStatus.scheduled.code →
      ∃ intent, readIntent row = .ok intent ∧ intent.acceptedAt ≤ now ∧ now < intent.dueAt) ∧
    (∃ next, nextScheduledAt t' scope = .ok next ∧
      (next = none ↔ ∀ intent, ¬ Scheduled t' scope intent) ∧
      ∀ time, next = some time → now < time ∧
        (∃ intent, Scheduled t' scope intent ∧ intent.dueAt = time) ∧
        ∀ intent, Scheduled t' scope intent → time ≤ intent.dueAt) ∧
    reconcile t' scope now = (t', .ok { fired := 0, manualReview := 0 }) ∧
    (t'.rows ≠ t.rows ↔ (∃ time, nextScheduledAt t scope = .ok (some time) ∧ time ≤ now) ∨
      ∃ intent, Scheduled t scope intent ∧ now < intent.acceptedAt) := by
  intro t t'
  obtain ⟨b, hrepresents⟩ : ∃ b, Represents t b := ⟨_, (refines_run calls).2⟩
  have hvalid : validObservation scope now = true := validObservation_iff.mpr ⟨hscope, hnow⟩
  have hafter : Represents t' _ := represents_reconcile hrepresents scope now
  have hclear := Book.clear_advance (b := b) hvalid
  refine ⟨fun row hrow hrowScope hstatus ↦ ?_, ⟨_, nextScheduledAt_of_represents hafter hscope,
    ?_, fun time htime ↦ ?_⟩, ?_, ?_⟩
  · rw [hafter] at hrow
    obtain ⟨intent, hintent, rfl⟩ := List.mem_map.mp hrow
    exact ⟨intent, readIntent_encode (Book.valid _ intent hintent),
      observed_eq_none (hclear intent ⟨hintent, hrowScope, code_eq_scheduled.mp hstatus⟩)⟩
  · simp only [Book.nextScheduledAt_eq_none_iff, scheduled_of_represents hafter]
  · rw [Book.nextScheduledAt_eq_some_iff] at htime
    simp only [scheduled_of_represents hafter]
    obtain ⟨⟨intent, hintent, rfl⟩, hleast⟩ := htime
    exact ⟨(observed_eq_none (hclear intent hintent)).2, ⟨intent, hintent, rfl⟩, hleast⟩
  · have hagain := represents_reconcile hafter scope now
    rw [Book.advance_eq_self_of_clear hclear] at hagain
    have hresult := reconcile_result hafter hvalid
    rw [Book.settledCount_of_clear hclear, Book.settledCount_of_clear hclear] at hresult
    exact Prod.ext (Table.ext (hagain.trans hafter.symm)) hresult
  · have hchanged : t'.rows ≠ t.rows ↔ ¬ b.Clear scope now := by
      rw [ne_eq, not_iff_not, ← Book.advance_eq_self_iff_clear hvalid]
      constructor
      · intro hrows
        exact eq_of_represents hafter (hrows.trans hrepresents)
      · intro hsame
        rw [hsame] at hafter
        exact hafter.trans hrepresents.symm
    rw [hchanged, Book.not_clear_iff, nextScheduledAt_of_represents hrepresents hscope]
    simp only [Except.ok.injEq, scheduled_of_represents hrepresents]

/-- A reminder of the scope `probe`. -/
def probeIntent (id : String) (acceptedAtMs dueAtMs : Milliseconds) : WakeIntent where
  scope := ascii "probe"
  id := ascii id
  sourceId := ascii id
  acceptedAt := ofMilliseconds acceptedAtMs
  dueAt := ofMilliseconds dueAtMs
  status := .scheduled
  terminalAt := none
  terminalReason := []

/-- Two accepted reminders, of which the first is due at 20 ms. -/
def probeRun : List Call :=
  [.accept (probeIntent "first" 10 20) { maxTotal := 2 },
    .accept (probeIntent "second" 10 30) { maxTotal := 2 }]

/-- At the first deadline the first reminder fires, and the second is next. -/
theorem reconcile_rearms_exactly_probe :
    let t := machine.run (Table.empty intentSchema) probeRun
    let t' := (reconcile t (ascii "probe") (ofMilliseconds 20)).1
    t'.rows ≠ t.rows ∧ nextScheduledAt t' (ascii "probe") = .ok (some (ofMilliseconds 30)) ∧
      reconcile t' (ascii "probe") (ofMilliseconds 20) =
        (t', .ok { fired := 0, manualReview := 0 }) := by
  have hscope : validWakeIntentIdentifier (ascii "probe") = true := by decide
  have hnow : Aligned (ofMilliseconds 20) := by decide
  obtain ⟨_, _, hagain, hchanged⟩ := reconcile_rearms_exactly probeRun hscope hnow
  exact ⟨hchanged.mpr (Or.inl ⟨ofMilliseconds 20, by rfl, by decide⟩), by rfl, hagain⟩

end Gaudere.WakeIntents
