import Gaudere.Budget.Snapshot
import Gaudere.Library.Checked

/-!
# The cutoff of a budget window

A policy gives its window in milliseconds and the clock counts nanoseconds, so the cutoff needs
the window times a million. `validPolicy` has no upper bound for it. `budget_cutoff_exact_iff` says
which windows get the cutoff that is meant: those up to 9223372036854 ms, some 292 years. A longer
one, such as the largest count for "ever", leaves the 64 bits. With wraparound its cutoff can even
lie after the clock value, and then no recorded time counts.
-/

set_option autoImplicit false
set_option relaxedAutoImplicit false

namespace Gaudere.Budget

open Gaudere.Library BudgetStore

/-- The cutoff is the clock value less the window: neither the conversion of the window nor the
subtraction overflows, and no shorter window of another policy counts more. -/
structure ExactCutoff (now : TimePoint) (policy : Policy) : Prop where
  window : ofMillisecondsChecked policy.window = some (ofMilliseconds policy.window)
  difference : subChecked now (ofMilliseconds policy.window) = some (cutoff now policy)
  truncated : (milliseconds (cutoff now policy)).toInt =
    (now.toInt - policy.window.toInt * 1000000).tdiv 1000000
  shorter : ∀ other : Policy, validPolicy other = true → other.window ≤ policy.window →
    ∀ (t : BudgetTable) (scope : CText),
      countAfter t scope (milliseconds (cutoff now other)) ≤
        countAfter t scope (milliseconds (cutoff now policy))

/-- Both calls that use the cutoff either reject their arguments or use the exact one. -/
def ExactOrRejected (t : BudgetTable) (scope key : Bytes) (now : TimePoint) (policy : Policy) :
    Prop :=
  ((∃ failure, (consume t scope key now policy).2 = .error failure) ∨ ExactCutoff now policy) ∧
    ((∃ failure, (snapshot t scope now policy).2 = .error failure) ∨ ExactCutoff now policy)

theorem toInt_cutoff_of_fits {now : TimePoint} {policy : Policy}
    (hpositive : 0 < policy.window.toInt) (hwindow : Fits (policy.window.toInt * 1000000))
    (hnow : 0 ≤ now.toInt) :
    (cutoff now policy).toInt = now.toInt - policy.window.toInt * 1000000 := by
  obtain ⟨hlower, hupper⟩ := fits_toInt now
  obtain ⟨_, hbound⟩ := hwindow
  have hexact := toInt_ofMilliseconds ⟨by omega, hbound⟩
  rw [cutoff, toInt_sub_of_fits, hexact]
  rw [hexact]
  constructor <;> omega

/-- From the epoch on, the cutoff is exact when the window is a count of nanoseconds. -/
theorem exactCutoff_of_fits {now : TimePoint} {policy : Policy}
    (hpositive : 0 < policy.window.toInt) (hwindow : Fits (policy.window.toInt * 1000000))
    (hnow : 0 ≤ now.toInt) : ExactCutoff now policy where
  window := ofMillisecondsChecked_eq_iff.mpr hwindow
  difference := by
    rw [subChecked, checked_eq_some_iff, toInt_cutoff_of_fits hpositive hwindow hnow,
      toInt_ofMilliseconds hwindow]
  truncated := by
    rw [milliseconds, toInt_toMilliseconds, toInt_cutoff_of_fits hpositive hwindow hnow]
  shorter other hother hle t scope := by
    have hpositive' := toInt_pos_window hother
    rw [Int64.le_iff_toInt_le] at hle
    have hwindow' : Fits (other.window.toInt * 1000000) := by
      obtain ⟨_, hbound⟩ := hwindow
      constructor <;> omega
    have hcutoff : cutoff now policy ≤ cutoff now other := by
      rw [Int64.le_iff_toInt_le, toInt_cutoff_of_fits hpositive hwindow hnow,
        toInt_cutoff_of_fits hpositive' hwindow' hnow]
      omega
    refine List.countP_mono_left fun ms _ hms ↦ ?_
    rw [decide_eq_true_eq] at hms ⊢
    exact Int64.lt_of_le_of_lt (toMilliseconds_le_of_le hcutoff) hms

theorem exactCutoff_iff {now : TimePoint} {policy : Policy} (hpolicy : validPolicy policy = true)
    (hnow : 0 ≤ now.toInt) :
    ExactCutoff now policy ↔ policy.window.toInt ≤ 9223372036854 := by
  have hpositive := toInt_pos_window hpolicy
  constructor
  · intro hexact
    exact (fits_mul_million_iff.mp (ofMillisecondsChecked_eq_iff.mp hexact.window)).2
  · intro hle
    exact exactCutoff_of_fits hpositive (fits_mul_million_iff.mpr ⟨by omega, hle⟩) hnow

/-- A snapshot with a valid policy is rejected exactly on an empty scope. -/
theorem snapshot_error_iff {policy : Policy} (hpolicy : validPolicy policy = true)
    (t : BudgetTable) (scope : Bytes) (now : TimePoint) :
    (∃ failure, (snapshot t scope now policy).2 = .error failure) ↔ scope = [] := by
  by_cases hscope : scope = []
  · simp only [snapshot, validateScopePolicy, hscope, ↓reduceIte, Except.error.injEq,
      exists_eq']
  · rw [snapshot_of_valid hscope hpolicy]
    simp only [reduceCtorEq, exists_false, hscope]

theorem consume_error_of_empty_scope (t : BudgetTable) (key : Bytes) (now : TimePoint)
    (policy : Policy) : ∃ failure, (consume t [] key now policy).2 = .error failure :=
  ⟨_, rfl⟩

/-- From the epoch on and with a policy that `valid_policy` accepts, `consume` and `snapshot` use
the exact cutoff or reject the call exactly when the window is at most 9223372036854 ms, or the
scope is empty. -/
theorem budget_cutoff_exact_iff (t : BudgetTable) (scope key : Bytes) {now : TimePoint}
    {policy : Policy} (hpolicy : validPolicy policy = true) (hnow : 0 ≤ now.toInt) :
    ExactOrRejected t scope key now policy ↔
      policy.window.toInt ≤ 9223372036854 ∨ scope = [] := by
  rw [ExactOrRejected, snapshot_error_iff hpolicy, exactCutoff_iff hpolicy hnow]
  constructor
  · rintro ⟨_, hscope | hle⟩
    · exact Or.inr hscope
    · exact Or.inl hle
  · rintro (hle | rfl)
    · exact ⟨Or.inr hle, Or.inr hle⟩
    · exact ⟨Or.inl (consume_error_of_empty_scope t key now policy), Or.inl rfl⟩

/-- One permit in the window, with the longest window there is. -/
def foreverPolicy : Policy where
  maxTotal := 2
  maxInWindow := 1
  window := 9223372036854775807
  minInterval := 0

/-- With a window meant to last for ever the one permit is granted twice at the same clock value,
and the cutoff lies a millisecond after it. -/
theorem forever_window_defeated :
    validPolicy foreverPolicy = true ∧
    ¬ ExactOrRejected (Table.empty budgetSchema) (ascii "probe") (ascii "first")
      (ofMilliseconds 2000) foreverPolicy ∧
    cutoff (ofMilliseconds 2000) foreverPolicy = ofMilliseconds 2001 ∧
    (machine.history (Table.empty budgetSchema)
      [.consume (ascii "probe") (ascii "first") (ofMilliseconds 2000) foreverPolicy,
        .consume (ascii "probe") (ascii "second") (ofMilliseconds 2000) foreverPolicy]).map
          Event.reply = [.consumed .accepted, .consumed .accepted] := by
  refine ⟨by decide, fun hexact ↦ ?_, by decide, by decide⟩
  have hrejected : ¬ ∃ failure, (snapshot (Table.empty budgetSchema) (ascii "probe")
      (ofMilliseconds 2000) foreverPolicy).2 = .error failure := by
    rw [snapshot_error_iff (by decide)]
    decide
  have hle := (exactCutoff_iff (by decide) (by decide)).mp (hexact.2.resolve_left hrejected)
  exact absurd hle (by decide)

theorem budget_cutoff_exact_probe :
    ExactOrRejected (Table.empty budgetSchema) (ascii "probe") (ascii "first")
      (ofMilliseconds 2000) probePolicy :=
  (budget_cutoff_exact_iff _ _ _ (by decide) (by decide)).mpr (Or.inl (by decide))

end Gaudere.Budget
