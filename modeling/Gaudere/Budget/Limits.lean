import Gaudere.Budget.Store
import Gaudere.Library.SlidingWindow

/-!
# The limits of a budget over whole runs

`consume` only looks back from the call it decides. `budget_limits_hold` says what that gives over
any run: as long as every call on a scope passes one policy whose window the clock can represent,
the recorded times of the accepted consumptions never go back, stay within the total, keep the
interval, and no window of the policy's length, wherever it starts, holds more than its share.

The invariant `LimitsKept` compares the accepted times of the events so far with the rows of the
scope in the table. The rows may be more: scopes that agree up to a NUL share their rows, which
only makes the limits stricter.
-/

set_option autoImplicit false
set_option relaxedAutoImplicit false

namespace Gaudere.Budget

open Gaudere.Library BudgetStore

/-- A consumption on the scope passes the policy, at or after epoch plus window. -/
def UnderPolicy (scope : Bytes) (policy : Policy) : Call → Prop
  | .consume s _ now p => s = scope → p = policy ∧ policy.window.toInt * 1000000 ≤ now.toInt
  | .reopen => True

instance (scope : Bytes) (policy : Policy) : DecidablePred (UnderPolicy scope policy)
  | .consume s _ now p => inferInstanceAs
      (Decidable (s = scope → p = policy ∧ policy.window.toInt * 1000000 ≤ now.toInt))
  | .reopen => inferInstanceAs (Decidable True)

/-- The time an event records for an accepted consumption of the scope. -/
def acceptedTime (scope : Bytes) (e : Event BudgetTable Call Reply) : Option ℤ :=
  match e.call with
  | .consume s _ now _ =>
    if s = scope ∧ e.reply = .consumed .accepted then some (milliseconds now).toInt else none
  | .reopen => none

/-- The recorded times of the accepted consumptions of a scope, in acceptance order. -/
def acceptedTimes (scope : Bytes) (events : List (Event BudgetTable Call Reply)) : List ℤ :=
  events.filterMap (acceptedTime scope)

/-! ### Clock arithmetic -/

/-- The cutoff of a window that the clock can represent is the plain difference. -/
theorem toInt_cutoff {now : TimePoint} {policy : Policy} (hpositive : 0 < policy.window.toInt)
    (hwindow : Fits (policy.window.toInt * 1000000))
    (hepoch : policy.window.toInt * 1000000 ≤ now.toInt) :
    (milliseconds (cutoff now policy)).toInt =
      (milliseconds now).toInt - policy.window.toInt := by
  obtain ⟨hlower, hupper⟩ := fits_toInt now
  have hdifference : (now - ofMilliseconds policy.window).toInt =
      now.toInt - policy.window.toInt * 1000000 := by
    rw [toInt_sub_of_fits, toInt_ofMilliseconds hwindow]
    rw [toInt_ofMilliseconds hwindow]
    exact ⟨by omega, by omega⟩
  rw [milliseconds, milliseconds, cutoff, toInt_toMilliseconds, toInt_toMilliseconds, hdifference,
    Int.tdiv_eq_ediv_of_nonneg (by omega), Int.tdiv_eq_ediv_of_nonneg (by omega)]
  omega

/-- The difference of two times in milliseconds does not wrap. -/
theorem toInt_milliseconds_sub {now : TimePoint} {ms : Int64} (h : Fits (ms.toInt * 1000000)) :
    (milliseconds now - ms).toInt = (milliseconds now).toInt - ms.toInt := by
  obtain ⟨hlower, hupper⟩ := h
  obtain ⟨hlower', hupper'⟩ := fits_toMilliseconds_mul now
  refine toInt_sub_of_fits ⟨?_, ?_⟩ <;> simp only [milliseconds] <;> omega

theorem toInt_pos_window {policy : Policy} (h : validPolicy policy = true) :
    0 < policy.window.toInt := by
  simp only [validPolicy, Bool.and_eq_true, decide_eq_true_eq] at h
  have hpositive := h.1.1.2
  rw [Int64.lt_iff_toInt_lt] at hpositive
  exact hpositive

/-! ### The invariant -/

/-- The accepted times keep the limits of the policy, and each has a row of its own. -/
structure LimitsKept (scope : Bytes) (policy : Policy)
    (past : List (Event BudgetTable Call Reply)) (t : BudgetTable) : Prop where
  recorded : (acceptedTimes scope past).Sublist ((times t (bindText scope)).map Int64.toInt)
  representable : ∀ ms ∈ times t (bindText scope), Fits (ms.toInt * 1000000)
  ordered : (acceptedTimes scope past).Pairwise (· ≤ ·)
  total : (acceptedTimes scope past).length ≤ policy.maxTotal.toNat
  spaced : (acceptedTimes scope past).Pairwise fun a b ↦ a + policy.minInterval.toInt ≤ b
  windowed : WindowBounded policy.window.toInt policy.maxInWindow.toNat (acceptedTimes scope past)

theorem times_append {t t' : BudgetTable} {row : ConsumptionRow} (h : t'.rows = t.rows ++ [row])
    (scope : CText) :
    times t' scope = times t scope ++ if row.scope = scope then [row.consumedAtMs] else [] := by
  simp only [times, h, List.filter_append, List.map_append, List.filter_singleton]
  split_ifs with hscope <;> simp [hscope]

theorem acceptedTimes_concat (scope : Bytes) (past : List (Event BudgetTable Call Reply))
    (e : Event BudgetTable Call Reply) :
    acceptedTimes scope (past ++ [e]) =
      acceptedTimes scope past ++ (acceptedTime scope e).toList := by
  rw [acceptedTimes, List.filterMap_append, ← acceptedTimes]
  cases h : acceptedTime scope e <;> simp [h]

/-- Every accepted time is one of the recorded ones. -/
theorem LimitsKept.exists_recorded {scope : Bytes} {policy : Policy}
    {past : List (Event BudgetTable Call Reply)} {t : BudgetTable}
    (h : LimitsKept scope policy past t) {a : ℤ} (ha : a ∈ acceptedTimes scope past) :
    ∃ ms ∈ times t (bindText scope), ms.toInt = a :=
  List.mem_map.mp (h.recorded.subset ha)

/-- An accepted consumption of the scope keeps the limits: they were checked against all the
rows, of which the accepted times are some. -/
theorem LimitsKept.concat {scope : Bytes} {policy : Policy}
    {past : List (Event BudgetTable Call Reply)} {t : BudgetTable}
    (h : LimitsKept scope policy past t) {now : TimePoint}
    (hwindow : Fits (policy.window.toInt * 1000000)) (hvalid : validPolicy policy = true)
    (hepoch : policy.window.toInt * 1000000 ≤ now.toInt)
    (hpasses : Passes (times t (bindText scope)) now policy) :
    let accepted := acceptedTimes scope past ++ [(milliseconds now).toInt]
    accepted.Pairwise (· ≤ ·) ∧ accepted.length ≤ policy.maxTotal.toNat ∧
      accepted.Pairwise (fun a b ↦ a + policy.minInterval.toInt ≤ b) ∧
      WindowBounded policy.window.toInt policy.maxInWindow.toNat accepted := by
  have hlatest : ∀ a ∈ acceptedTimes scope past, ∃ latest,
      (times t (bindText scope)).max? = some latest ∧ a ≤ latest.toInt := by
    intro a ha
    obtain ⟨ms, hms, rfl⟩ := h.exists_recorded ha
    cases hmax : (times t (bindText scope)).max? with
    | none =>
      rw [List.max?_eq_none_iff] at hmax
      rw [hmax] at hms
      exact absurd hms List.not_mem_nil
    | some latest =>
      exact ⟨latest, rfl, Int64.le_iff_toInt_le.mp ((List.max?_eq_some_iff.mp hmax).2 ms hms)⟩
  have hconcat : ∀ R : ℤ → ℤ → Prop, (acceptedTimes scope past).Pairwise R →
      (∀ a ∈ acceptedTimes scope past, R a (milliseconds now).toInt) →
      (acceptedTimes scope past ++ [(milliseconds now).toInt]).Pairwise R := by
    intro R hpairwise hnew
    refine List.pairwise_append.mpr ⟨hpairwise, List.pairwise_singleton _ _, ?_⟩
    intro a ha b hb
    rw [List.mem_singleton.mp hb]
    exact hnew a ha
  refine ⟨hconcat _ h.ordered fun a ha ↦ ?_, ?_, hconcat _ h.spaced fun a ha ↦ ?_,
    h.windowed.concat ?_⟩
  · obtain ⟨ms, hms, rfl⟩ := h.exists_recorded ha
    exact Int64.le_iff_toInt_le.mp (hpasses.ordered ms hms)
  · have hlength := h.recorded.length_le
    have htotal := hpasses.total
    simp only [List.length_map, List.length_append, List.length_singleton] at hlength ⊢
    omega
  · obtain ⟨latest, hmax, hle⟩ := hlatest a ha
    have hinterval := Int64.le_iff_toInt_le.mp (hpasses.spaced latest hmax)
    rw [toInt_milliseconds_sub (h.representable latest (List.max?_mem hmax))] at hinterval
    omega
  · -- The cutoff of the code is the start of the window that ends at the new time.
    have hcutoff := toInt_cutoff (toInt_pos_window hvalid) hwindow hepoch
    refine lt_of_le_of_lt (h.recorded.countP_le) ?_
    rw [List.countP_map]
    refine lt_of_eq_of_lt (List.countP_congr fun ms _ ↦ ?_) hpasses.windowed
    simp only [Function.comp_apply, decide_eq_true_eq, Int64.lt_iff_toInt_lt, hcutoff]

theorem limitsKept_step {scope : Bytes} {policy : Policy}
    (hwindow : Fits (policy.window.toInt * 1000000)) (past : List (Event BudgetTable Call Reply))
    (t : BudgetTable) (call : Call) (hpolicy : UnderPolicy scope policy call)
    (h : LimitsKept scope policy past t) :
    LimitsKept scope policy (past ++ [machine.event t call]) (machine.event t call).after := by
  rcases step_cases t call with ⟨hreply, hafter⟩ |
    ⟨s, key, now, p, hcall, hvalid, hpasses, hreply, hafter⟩
  · have hquiet : acceptedTime scope (machine.event t call) = none := by
      cases call <;> simp [acceptedTime, hreply]
    have htimes := acceptedTimes_concat scope past (machine.event t call)
    rw [hquiet, Option.toList_none, List.append_nil] at htimes
    rw [hafter]
    exact ⟨htimes ▸ h.recorded, h.representable, htimes ▸ h.ordered, htimes ▸ h.total,
      htimes ▸ h.spaced, htimes ▸ h.windowed⟩
  · have hrows := times_append hafter (bindText scope)
    have htimes := acceptedTimes_concat scope past (machine.event t call)
    have hrepresentable : ∀ ms ∈ times (machine.event t call).after (bindText scope),
        Fits (ms.toInt * 1000000) := by
      intro ms hms
      rw [hrows, List.mem_append] at hms
      rcases hms with hms | hms
      · exact h.representable ms hms
      · split_ifs at hms
        · rw [List.mem_singleton.mp hms]
          exact fits_toMilliseconds_mul now
        · exact absurd hms List.not_mem_nil
    by_cases hscope : s = scope
    · subst hscope
      have htime : acceptedTime s (machine.event t call) = some (milliseconds now).toInt := by
        simp [acceptedTime, hcall, hcall ▸ hreply]
      rw [htime, Option.toList_some] at htimes
      rw [if_pos rfl] at hrows
      subst hcall
      obtain ⟨rfl, hepoch⟩ := hpolicy rfl
      obtain ⟨hordered, htotal, hspaced, hwindowed⟩ :=
        h.concat hwindow hvalid.2.1 hepoch hpasses
      refine ⟨?_, hrepresentable, htimes ▸ hordered, htimes ▸ htotal, htimes ▸ hspaced,
        htimes ▸ hwindowed⟩
      rw [htimes, hrows, List.map_append]
      exact h.recorded.append (List.Sublist.refl _)
    · have htime : acceptedTime scope (machine.event t call) = none := by
        simp [acceptedTime, hcall, hscope]
      rw [htime, Option.toList_none, List.append_nil] at htimes
      refine ⟨?_, hrepresentable, htimes ▸ h.ordered, htimes ▸ h.total, htimes ▸ h.spaced,
        htimes ▸ h.windowed⟩
      rw [htimes, hrows, List.map_append]
      exact h.recorded.trans (List.sublist_append_left _ _)

/-! ### Whole runs -/

/-- Over any run in which every consumption of a scope passes one policy whose window and cutoffs
the clock can represent: the recorded times of the accepted consumptions of the scope never go
back, are at most `max_total`, lie `min_interval` apart, and no interval `(a, a + window]` holds
more than `max_in_window` of them; an accepted call appends exactly its row, and every other call
leaves the table unchanged. -/
theorem budget_limits_hold (scope : Bytes) (policy : Policy)
    (hwindow : Fits (policy.window.toInt * 1000000)) (calls : List Call)
    (hpolicy : ∀ call ∈ calls, UnderPolicy scope policy call) :
    let events := machine.history (Table.empty budgetSchema) calls
    (acceptedTimes scope events).Pairwise (· ≤ ·) ∧
    (acceptedTimes scope events).length ≤ policy.maxTotal.toNat ∧
    (acceptedTimes scope events).Pairwise (fun a b ↦ a + policy.minInterval.toInt ≤ b) ∧
    WindowBounded policy.window.toInt policy.maxInWindow.toNat (acceptedTimes scope events) ∧
    ∀ e ∈ events,
      (e.reply = .consumed .accepted → ∃ s key now p, e.call = .consume s key now p ∧
        e.after.rows = e.before.rows ++
          [{ scope := bindText s, idempotencyKey := bindText key
             consumedAtMs := milliseconds now }]) ∧
      (e.reply ≠ .consumed .accepted → e.after = e.before) := by
  have hlimits : LimitsKept scope policy (machine.history (Table.empty budgetSchema) calls)
      (machine.run (Table.empty budgetSchema) calls) := by
    refine Machine.history_induction ?_ (limitsKept_step hwindow)
      fun e he ↦ hpolicy e.call (machine.call_mem_of_mem_history he)
    exact ⟨List.Sublist.refl _, fun ms hms ↦ absurd hms List.not_mem_nil, List.Pairwise.nil,
      Nat.zero_le _, List.Pairwise.nil, WindowBounded.nil _ _⟩
  refine ⟨hlimits.ordered, hlimits.total, hlimits.spaced, hlimits.windowed, fun e he ↦ ?_⟩
  rw [machine.eq_event_of_mem_history he]
  rcases step_cases e.before e.call with ⟨hreply, hafter⟩ |
    ⟨s, key, now, p, hcall, _, _, hreply, hafter⟩
  · exact ⟨fun haccepted ↦ absurd haccepted hreply, fun _ ↦ hafter⟩
  · exact ⟨fun _ ↦ ⟨s, key, now, p, hcall, hafter⟩, fun hrefused ↦ absurd hreply hrefused⟩

/-- Two permits a second, three in all, ten milliseconds apart. -/
def probePolicy : Policy where
  maxTotal := 3
  maxInWindow := 2
  window := 1000
  minInterval := 10

/-- Six requests for a permit, with a cooldown, a clock that goes back, a full window and one
request for another scope. -/
def probeRun : List Call :=
  [.consume (ascii "probe") (ascii "first") (ofMilliseconds 2000) probePolicy,
    .consume (ascii "probe") (ascii "early") (ofMilliseconds 2009) probePolicy,
    .consume (ascii "other") (ascii "first") (ofMilliseconds 100) probePolicy,
    .consume (ascii "probe") (ascii "second") (ofMilliseconds 2010) probePolicy,
    .reopen,
    .consume (ascii "probe") (ascii "back") (ofMilliseconds 1500) probePolicy,
    .consume (ascii "probe") (ascii "crowded") (ofMilliseconds 2999) probePolicy,
    .consume (ascii "probe") (ascii "third") (ofMilliseconds 3000) probePolicy]

theorem budget_limits_hold_probe :
    acceptedTimes (ascii "probe") (machine.history (Table.empty budgetSchema) probeRun) =
      [2000, 2010, 3000] ∧
    WindowBounded 1000 2
      (acceptedTimes (ascii "probe") (machine.history (Table.empty budgetSchema) probeRun)) :=
  ⟨by decide, (budget_limits_hold (ascii "probe") probePolicy ⟨by decide, by decide⟩ probeRun
    (by decide)).2.2.2.1⟩

end Gaudere.Budget
