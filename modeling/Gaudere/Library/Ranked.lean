import Mathlib.Data.List.Sort
import Mathlib.Order.Defs.LinearOrder

/-!
# The n-th largest of some values

`nthLargest n values` is the value at position `n` when the values are listed from the largest
down, counting from one. Fewer than `n` values lie above a bound exactly when the n-th largest, if
there is one, does not (`countP_lt_iff`), so a limit on a count can be read as a limit on one value.
-/

set_option autoImplicit false
set_option relaxedAutoImplicit false

namespace Gaudere.Library

variable {α : Type*} [LinearOrder α]

/-- The `n`-th largest value, for `n` at least one. -/
def nthLargest (n : ℕ) (values : List α) : Option α :=
  (values.insertionSort fun a b ↦ b ≤ a)[n - 1]?

theorem mem_of_nthLargest {n : ℕ} {values : List α} {x : α} (h : nthLargest n values = some x) :
    x ∈ values :=
  (List.mem_insertionSort _).mp (List.mem_of_getElem? h)

/-- In a list that goes down, at most `k` values lie above a bound exactly when the one at position
`k` does not. -/
theorem countP_le_iff_of_descending {values : List α} (h : values.Pairwise fun a b ↦ b ≤ a) (k : ℕ)
    (c : α) : values.countP (fun x ↦ c < x) ≤ k ↔ ∀ x, values[k]? = some x → x ≤ c := by
  induction values generalizing k with
  | nil => simp
  | cons a values ih =>
    rw [List.pairwise_cons] at h
    obtain ⟨hhead, htail⟩ := h
    cases k with
    | zero =>
      simp only [Nat.le_zero, List.countP_eq_zero, decide_eq_true_eq, not_lt, List.forall_mem_cons,
        List.getElem?_cons_zero, Option.some.injEq, forall_eq']
      constructor
      · exact And.left
      · intro ha
        exact ⟨ha, fun x hx ↦ (hhead x hx).trans ha⟩
    | succ k =>
      rw [List.getElem?_cons_succ, ← ih htail k, List.countP_cons]
      split_ifs with ha
      · exact Nat.succ_le_succ_iff
      · -- Nothing lies above the bound, as the first value does not.
        have hnone : values.countP (fun x ↦ decide (c < x)) = 0 := by
          refine List.countP_eq_zero.mpr fun x hx ↦ ?_
          rw [decide_eq_true_eq, not_lt] at ha ⊢
          exact (hhead x hx).trans ha
        omega

/-- Fewer than `n` values lie above a bound exactly when the n-th largest does not. -/
theorem countP_lt_iff {n : ℕ} (hn : 0 < n) (values : List α) (c : α) :
    values.countP (fun x ↦ c < x) < n ↔ ∀ x, nthLargest n values = some x → x ≤ c := by
  have hsorted : (values.insertionSort fun a b ↦ b ≤ a).Pairwise fun a b ↦ b ≤ a :=
    List.pairwise_insertionSort _ values
  have hcount := (List.perm_insertionSort (fun a b ↦ b ≤ a) values).countP_eq
    fun x ↦ decide (c < x)
  have hiff := countP_le_iff_of_descending hsorted (n - 1) c
  rw [hcount] at hiff
  rw [nthLargest, ← hiff]
  omega

end Gaudere.Library
