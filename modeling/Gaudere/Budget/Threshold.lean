import Mathlib.Data.Int.ConditionallyCompleteOrder
import Mathlib.Order.ConditionallyCompleteLattice.Basic
import Gaudere.Budget.Identity
import Gaudere.Budget.Limits
import Gaudere.Library.Ranked

/-!
# The threshold of a budget

`consume` checks a new key against the total, against the latest recorded time twice, and against
the number of times after a cutoff that moves with the clock. Where no window leaves the clock's
range these checks are one: below the total, a new key is accepted from one time on, the larger of
two sums over the recorded times. `admission_threshold` says so, and that waiting one window after
the last consumption always suffices.
-/

set_option autoImplicit false
set_option relaxedAutoImplicit false

namespace Gaudere.Budget

open Gaudere.Library BudgetStore

/-! ### The threshold of recorded times -/

/-- A recorded time plus a distance; an absent one is no bound. -/
def shifted (recorded : Option ℤ) (distance : ℤ) : WithBot ℤ :=
  recorded.elim ⊥ fun ms ↦ ((ms + distance : ℤ) : WithBot ℤ)

theorem shifted_le_iff {recorded : Option ℤ} {distance bound : ℤ} :
    shifted recorded distance ≤ bound ↔ ∀ ms, recorded = some ms → ms + distance ≤ bound := by
  cases recorded with
  | none => simp [shifted]
  | some ms =>
    rw [shifted, Option.elim_some, WithBot.coe_le_coe]
    simp only [Option.some.injEq, forall_eq']

/-- The first time in milliseconds at which the recorded times admit another: the interval after
the latest, and the window after the one that would otherwise be one too many in it. -/
def threshold (recorded : List Int64) (policy : Policy) : WithBot ℤ :=
  shifted (recorded.max?.map Int64.toInt) policy.minInterval.toInt ⊔
    shifted (nthLargest policy.maxInWindow.toNat (recorded.map Int64.toInt)) policy.window.toInt

theorem bounds_of_validPolicy {policy : Policy} (h : validPolicy policy = true) :
    0 < policy.maxInWindow.toNat ∧ 0 ≤ policy.minInterval.toInt ∧
      policy.minInterval.toInt ≤ policy.window.toInt := by
  simp only [validPolicy, Bool.and_eq_true, decide_eq_true_eq] at h
  obtain ⟨⟨⟨⟨⟨_, hpositive⟩, _⟩, _⟩, hinterval⟩, hle⟩ := h
  exact ⟨hpositive, Int64.le_iff_toInt_le.mp hinterval, Int64.le_iff_toInt_le.mp hle⟩

/-- No recorded time asks for more than one window after the latest. -/
theorem threshold_le_window {recorded : List Int64} {policy : Policy}
    (hpolicy : validPolicy policy = true) {latest : Int64} (hlatest : recorded.max? = some latest) :
    threshold recorded policy ≤ (latest.toInt + policy.window.toInt : ℤ) := by
  obtain ⟨_, _, hinterval⟩ := bounds_of_validPolicy hpolicy
  refine sup_le (shifted_le_iff.mpr fun ms hms ↦ ?_) (shifted_le_iff.mpr fun ms hms ↦ ?_)
  · rw [hlatest, Option.map_some, Option.some.injEq] at hms
    omega
  · obtain ⟨x, hx, rfl⟩ := List.mem_map.mp (mem_of_nthLargest hms)
    have hle := Int64.le_iff_toInt_le.mp ((List.max?_eq_some_iff.mp hlatest).2 x hx)
    omega

/-! ### The checks of a consumption -/

theorem accepted_iff_passes {recorded : List Int64} {now : TimePoint} {policy : Policy} :
    verdict false recorded now policy = .accepted ↔ Passes recorded now policy := by
  constructor
  · exact fun haccepted ↦ (passes_of_accepted haccepted).2
  · rintro ⟨htotal, hordered, hspaced, hwindowed⟩
    unfold verdict
    rw [if_neg Bool.false_ne_true, if_neg (not_le.mpr htotal), if_neg, if_neg, if_neg]
    · exact not_le.mpr hwindowed
    · rw [Option.any_eq_true]
      rintro ⟨latest, hlatest, hclose⟩
      rw [decide_eq_true_eq, Int64.lt_iff_toInt_lt] at hclose
      have hfar := Int64.le_iff_toInt_le.mp (hspaced latest hlatest)
      omega
    · rw [Option.any_eq_true]
      rintro ⟨latest, hlatest, hback⟩
      rw [decide_eq_true_eq, Int64.lt_iff_toInt_lt] at hback
      have hle := Int64.le_iff_toInt_le.mp (hordered latest (List.max?_mem hlatest))
      omega

/-- The interval after the latest time, on the clock. It also excludes a clock that went back. -/
theorem ordered_and_spaced_iff {recorded : List Int64}
    (hrecorded : ∀ ms ∈ recorded, Fits (ms.toInt * 1000000)) {policy : Policy}
    (hpolicy : validPolicy policy = true) (now : TimePoint) :
    ((∀ ms ∈ recorded, ms ≤ milliseconds now) ∧
      ∀ latest, recorded.max? = some latest → policy.minInterval ≤ milliseconds now - latest) ↔
    shifted (recorded.max?.map Int64.toInt) policy.minInterval.toInt ≤
      ((milliseconds now).toInt : ℤ) := by
  obtain ⟨_, hinterval, _⟩ := bounds_of_validPolicy hpolicy
  have hspaced : ∀ latest, recorded.max? = some latest →
      (policy.minInterval ≤ milliseconds now - latest ↔
        latest.toInt + policy.minInterval.toInt ≤ (milliseconds now).toInt) := by
    intro latest hlatest
    rw [Int64.le_iff_toInt_le, toInt_milliseconds_sub (hrecorded latest (List.max?_mem hlatest))]
    omega
  rw [shifted_le_iff]
  constructor
  · rintro ⟨_, hall⟩ ms hms
    obtain ⟨latest, hlatest, rfl⟩ := Option.map_eq_some_iff.mp hms
    exact (hspaced latest hlatest).mp (hall latest hlatest)
  · intro hall
    have hlatest : ∀ latest, recorded.max? = some latest →
        latest.toInt + policy.minInterval.toInt ≤ (milliseconds now).toInt :=
      fun latest hlatest ↦ hall latest.toInt (by rw [hlatest, Option.map_some])
    refine ⟨fun ms hms ↦ ?_, fun latest hmax ↦ (hspaced latest hmax).mpr (hlatest latest hmax)⟩
    cases hmax : recorded.max? with
    | none =>
      rw [List.max?_eq_none_iff.mp hmax] at hms
      cases hms
    | some latest =>
      have hle := Int64.le_iff_toInt_le.mp ((List.max?_eq_some_iff.mp hmax).2 ms hms)
      have hbound := hlatest latest hmax
      rw [Int64.le_iff_toInt_le]
      omega

/-- The count after the moving cutoff, as a bound on one recorded time. -/
theorem windowed_iff {recorded : List Int64} {policy : Policy}
    (hpolicy : validPolicy policy = true) (hwindow : Fits (policy.window.toInt * 1000000))
    {now : TimePoint} (hepoch : policy.window.toInt * 1000000 ≤ now.toInt) :
    recorded.countP (fun ms ↦ decide (milliseconds (cutoff now policy) < ms)) <
        policy.maxInWindow.toNat ↔
      shifted (nthLargest policy.maxInWindow.toNat (recorded.map Int64.toInt))
        policy.window.toInt ≤ ((milliseconds now).toInt : ℤ) := by
  obtain ⟨hpositive, _, _⟩ := bounds_of_validPolicy hpolicy
  have hcutoff := toInt_cutoff (toInt_pos_window hpolicy) hwindow hepoch
  have hcount : recorded.countP (fun ms ↦ decide (milliseconds (cutoff now policy) < ms)) =
      (recorded.map Int64.toInt).countP
        fun ms ↦ decide ((milliseconds now).toInt - policy.window.toInt < ms) := by
    rw [List.countP_map]
    refine List.countP_congr fun ms _ ↦ ?_
    simp only [Function.comp_apply, decide_eq_true_eq, Int64.lt_iff_toInt_lt, hcutoff]
  rw [hcount, countP_lt_iff hpositive, shifted_le_iff]
  refine forall_congr' fun ms ↦ imp_congr_right fun _ ↦ ?_
  omega

/-- Below the total, the checks are one comparison with the threshold. -/
theorem accepted_iff_threshold {recorded : List Int64}
    (hrecorded : ∀ ms ∈ recorded, Fits (ms.toInt * 1000000)) {policy : Policy}
    (hpolicy : validPolicy policy = true) (hwindow : Fits (policy.window.toInt * 1000000))
    (htotal : recorded.length < policy.maxTotal.toNat) {now : TimePoint}
    (hepoch : policy.window.toInt * 1000000 ≤ now.toInt) :
    verdict false recorded now policy = .accepted ↔
      threshold recorded policy ≤ ((milliseconds now).toInt : ℤ) := by
  rw [accepted_iff_passes, threshold, sup_le_iff,
    ← ordered_and_spaced_iff hrecorded hpolicy now, ← windowed_iff hpolicy hwindow hepoch]
  constructor
  · rintro ⟨_, hordered, hspaced, hwindowed⟩
    exact ⟨⟨hordered, hspaced⟩, hwindowed⟩
  · rintro ⟨⟨hordered, hspaced⟩, hwindowed⟩
    exact ⟨htotal, hordered, hspaced, hwindowed⟩

/-! ### Reachable tables -/

theorem representable_times (calls : List Call) (scope : CText) :
    ∀ ms ∈ times (machine.run (Table.empty budgetSchema) calls) scope,
      Fits (ms.toInt * 1000000) := by
  intro ms hms
  obtain ⟨row, hrow, rfl⟩ := List.mem_map.mp hms
  exact representable_run calls row (List.mem_filter.mp hrow).1

/-- Calls that grant nothing on a scope leave its rows. -/
theorem scopeRows_run_of_quiet {t : BudgetTable} {calls : List Call} {scope : CText}
    (hquiet : ∀ e ∈ machine.history t calls, ∀ identity, Grants identity e →
      bindText identity.1 ≠ scope) :
    scopeRows (machine.run t calls) scope = scopeRows t scope := by
  have hnone : ((machine.history t calls).filterMap grantedRow).filter
      (fun row ↦ row.scope = scope) = [] := by
    refine List.filter_eq_nil_iff.mpr fun row hrow hscope ↦ ?_
    obtain ⟨e, he, hgranted⟩ := List.mem_filterMap.mp hrow
    obtain ⟨identity, hgrants, hfst, _⟩ := mem_grantedRow hgranted
    exact hquiet e he identity hgrants (hfst.symm.trans (of_decide_eq_true hscope))
  rw [scopeRows, rows_run, List.filter_append, hnone, List.append_nil, scopeRows]

/-- On every reachable table with room in the total of a scope: from epoch plus window on, a new
key is accepted exactly when the clock has reached the threshold of the recorded times; what is
accepted at a time is accepted at every later one until a grant on the scope; and the threshold is
at most one window after the latest recorded time. -/
theorem admission_threshold (calls : List Call) {scope : Bytes} (hscope : scope ≠ [])
    {policy : Policy} (hpolicy : validPolicy policy = true)
    (hwindow : Fits (policy.window.toInt * 1000000))
    (htotal : countTotal (machine.run (Table.empty budgetSchema) calls) (bindText scope) <
      policy.maxTotal.toNat) :
    let t := machine.run (Table.empty budgetSchema) calls
    let recorded := times t (bindText scope)
    (∀ (key : Bytes) (now : TimePoint), key ≠ [] →
      granted t (bindText scope) (bindText key) = false →
      policy.window.toInt * 1000000 ≤ now.toInt →
        ((consume t scope key now policy).2 = .ok .accepted ↔
          threshold recorded policy ≤ ((milliseconds now).toInt : ℤ))) ∧
    (∀ (key : Bytes) (now now' : TimePoint) (more : List Call), key ≠ [] →
      granted t (bindText scope) (bindText key) = false →
      policy.window.toInt * 1000000 ≤ now.toInt → now ≤ now' →
      (∀ e ∈ machine.history t more, ∀ identity, Grants identity e →
        bindText identity.1 ≠ bindText scope) →
      (consume t scope key now policy).2 = .ok .accepted →
        (consume (machine.run t more) scope key now' policy).2 = .ok .accepted) ∧
    ∀ latest, recorded.max? = some latest →
      threshold recorded policy ≤ (latest.toInt + policy.window.toInt : ℤ) := by
  intro t recorded
  have hrecorded := representable_times calls (bindText scope)
  have haccepted : ∀ {t' : BudgetTable} {key : Bytes} {now : TimePoint}, key ≠ [] →
      granted t' (bindText scope) (bindText key) = false → times t' (bindText scope) = recorded →
      policy.window.toInt * 1000000 ≤ now.toInt →
        ((consume t' scope key now policy).2 = .ok .accepted ↔
          threshold recorded policy ≤ ((milliseconds now).toInt : ℤ)) := by
    intro t' key now hkey hnew htimes hepoch
    rw [consume_of_valid ⟨hscope, hpolicy, hkey⟩, consumeTransaction_result, hnew, htimes,
      Except.ok.injEq]
    exact accepted_iff_threshold hrecorded hpolicy hwindow htotal hepoch
  refine ⟨fun key now hkey hnew hepoch ↦ haccepted hkey hnew rfl hepoch, ?_,
    fun latest hlatest ↦ threshold_le_window hpolicy hlatest⟩
  intro key now now' more hkey hnew hepoch hle hquiet hnow
  have hrows := scopeRows_run_of_quiet hquiet
  have hnew' : granted (machine.run t more) (bindText scope) (bindText key) = false :=
    (granted_congr hrows _).trans hnew
  have hepoch' := hepoch.trans (Int64.le_iff_toInt_le.mp hle)
  have hlater := Int64.le_iff_toInt_le.mp (toMilliseconds_le_of_le hle)
  rw [haccepted hkey hnew' (times_congr hrows) hepoch']
  refine ((haccepted hkey hnew rfl hepoch).mp hnow).trans ?_
  exact WithBot.coe_le_coe.mpr hlater

/-- After two grants a new key waits for the window of the first. -/
theorem admission_threshold_probe :
    let t := machine.run (Table.empty budgetSchema) (probeRun.take 4)
    (consume t (ascii "probe") (ascii "third") (ofMilliseconds 2999) probePolicy).2 ≠
        .ok .accepted ∧
      (consume t (ascii "probe") (ascii "third") (ofMilliseconds 3000) probePolicy).2 =
        .ok .accepted := by
  have hscope : ascii "probe" ≠ [] := by decide
  have hpolicy : validPolicy probePolicy = true := by decide
  obtain ⟨hthreshold, _, _⟩ := admission_threshold (probeRun.take 4) hscope hpolicy
    ⟨by decide, by decide⟩ (by decide)
  constructor
  · rw [ne_eq, hthreshold _ _ (by decide) (by decide) (by decide)]
    decide
  · rw [hthreshold _ _ (by decide) (by decide) (by decide)]
    decide

end Gaudere.Budget
