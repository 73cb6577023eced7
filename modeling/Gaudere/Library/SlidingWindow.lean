import Mathlib.Algebra.Order.Group.Defs
import Mathlib.Algebra.Order.Sub.Basic
import Mathlib.Data.List.Count
import Mathlib.Data.List.Perm.Subperm
import Mathlib.Order.Interval.Set.Defs

/-!
# Sliding windows over recorded times

A limiter that looks back from each admission bounds every window of the same length, wherever it
starts. `WindowBounded w n times` says that no half-open interval `(a, a + w]` holds more than `n`
of the recorded times, and `WindowBounded.concat` that it survives one more time when fewer than
`n` of the earlier ones lie after `t - w`: a window that holds the new time starts at `t - w` or
later.
-/

set_option autoImplicit false
set_option relaxedAutoImplicit false

namespace Gaudere.Library

variable {Time : Type*} [AddCommGroup Time] [LinearOrder Time] [IsOrderedAddMonoid Time]

/-- Every half-open interval `(a, a + w]` holds at most `n` of the times. -/
def WindowBounded (w : Time) (n : ℕ) (times : List Time) : Prop :=
  ∀ a, times.countP (fun t ↦ decide (a < t ∧ t ≤ a + w)) ≤ n

omit [IsOrderedAddMonoid Time] in
theorem WindowBounded.nil (w : Time) (n : ℕ) : WindowBounded w n [] := fun _ ↦ Nat.zero_le n

theorem WindowBounded.concat {w t : Time} {n : ℕ} {times : List Time}
    (h : WindowBounded w n times) (hcount : times.countP (fun x ↦ decide (t - w < x)) < n) :
    WindowBounded w n (times ++ [t]) := by
  intro a
  rw [List.countP_append, List.countP_singleton]
  by_cases hin : a < t ∧ t ≤ a + w
  · have hstart : t - w ≤ a := sub_le_iff_le_add.mpr hin.2
    have hle : times.countP (fun x ↦ decide (a < x ∧ x ≤ a + w)) ≤
        times.countP (fun x ↦ decide (t - w < x)) := by
      refine List.countP_mono_left fun x _ hx ↦ ?_
      simp only [decide_eq_true_eq] at hx ⊢
      exact lt_of_le_of_lt hstart hx.1
    simp only [hin, and_self, decide_true, ↓reduceIte]
    omega
  · simp only [hin, decide_false, Bool.false_eq_true, ↓reduceIte]
    exact h a

omit [IsOrderedAddMonoid Time] in
/-- Some of the times, in any order. -/
theorem WindowBounded.subperm {w : Time} {n : ℕ} {times some : List Time}
    (h : WindowBounded w n times) (hsome : some.Subperm times) : WindowBounded w n some :=
  fun a ↦ (hsome.countP_le _).trans (h a)

end Gaudere.Library
