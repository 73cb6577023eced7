import Gaudere.Library.Cpp

/-!
# Signed arithmetic without overflow

The language gives a signed computation a value only when the mathematical result fits in its 64
bits. `checked` says so: it is the value of a computation over the integers, or nothing. A model
that computes with it shows where an overflow could happen, and one that computes with wraparound
is compared with it. `floorMilliseconds` is `chrono::floor`, which rounds down also before the
epoch.
-/

set_option autoImplicit false
set_option relaxedAutoImplicit false

namespace Gaudere.Library

/-- The value of a signed 64-bit computation with a mathematical result; nothing on overflow. -/
def checked (n : ℤ) : Option Int64 := if Fits n then some (Int64.ofInt n) else none

theorem checked_eq_some_iff {n : ℤ} {x : Int64} : checked n = some x ↔ x.toInt = n := by
  unfold checked
  split_ifs with hfits
  · have hvalue : (Int64.ofInt n).toInt = n := Int64.toInt_ofInt.trans (bmod_eq_of_fits hfits)
    rw [Option.some.injEq, ← Int64.toInt_inj, hvalue, eq_comm]
  · constructor
    · intro hnone
      cases hnone
    · rintro rfl
      exact absurd (fits_toInt x) hfits

/-- A computation has a value exactly when its result fits. -/
theorem exists_checked_iff {n : ℤ} : (∃ x, checked n = some x) ↔ Fits n := by
  unfold checked
  split_ifs with hfits
  · exact iff_of_true ⟨_, rfl⟩ hfits
  · exact iff_of_false (fun ⟨_, hnone⟩ ↦ by cases hnone) hfits

def addChecked (a b : Int64) : Option Int64 := checked (a.toInt + b.toInt)

def subChecked (a b : Int64) : Option Int64 := checked (a.toInt - b.toInt)

/-- The conversion of a millisecond count to nanoseconds. -/
def ofMillisecondsChecked (ms : Milliseconds) : Option TimePoint := checked (ms.toInt * 1000000)

/-- Wraparound is harmless exactly where there is no overflow. -/
theorem ofMillisecondsChecked_eq_iff {ms : Milliseconds} :
    ofMillisecondsChecked ms = some (ofMilliseconds ms) ↔ Fits (ms.toInt * 1000000) := by
  rw [ofMillisecondsChecked, checked_eq_some_iff]
  constructor
  · intro hexact
    rw [← hexact]
    exact fits_toInt _
  · exact toInt_ofMilliseconds

/-- A whole number of milliseconds survives storage, without overflow. -/
theorem aligned_of_toInt {t : TimePoint} {n : ℤ} (h : t.toInt = n * 1000000) :
    Aligned t ∧ ofMillisecondsChecked (toMilliseconds t) = some t := by
  have hvalue : (toMilliseconds t).toInt = n := by
    rw [toInt_toMilliseconds, h]
    exact Int.mul_tdiv_cancel n (by decide)
  have hexact : ofMillisecondsChecked (toMilliseconds t) = some t := by
    rw [ofMillisecondsChecked, checked_eq_some_iff, hvalue, h]
  refine ⟨?_, hexact⟩
  have hwrapped := ofMillisecondsChecked_eq_iff.mpr (fits_toMilliseconds_mul t)
  exact Option.some.inj (hwrapped.symm.trans hexact)

theorem subChecked_eq_iff {a b : Int64} :
    subChecked a b = some (a - b) ↔ Fits (a.toInt - b.toInt) := by
  rw [subChecked, checked_eq_some_iff]
  constructor
  · intro hexact
    rw [← hexact]
    exact fits_toInt _
  · exact toInt_sub_of_fits

theorem addChecked_eq_iff {a b : Int64} :
    addChecked a b = some (a + b) ↔ Fits (a.toInt + b.toInt) := by
  rw [addChecked, checked_eq_some_iff]
  constructor
  · intro hexact
    rw [← hexact]
    exact fits_toInt _
  · intro hfits
    rw [Int64.toInt_add, bmod_eq_of_fits hfits]

/-- The sum of two counts that are not negative is exact up to the largest count, and wraps to a
negative one past it. -/
theorem toInt_add_of_nonneg {a b : Int64} (ha : 0 ≤ a.toInt) (hb : 0 ≤ b.toInt) :
    (a + b).toInt =
      if a.toInt + b.toInt ≤ 2 ^ 63 - 1 then a.toInt + b.toInt else a.toInt + b.toInt - 2 ^ 64 := by
  have haBound := a.toInt_lt
  have hbBound := b.toInt_lt
  rw [Int64.toInt_add, Int.bmod_def]
  split_ifs <;> omega

/-- A count of milliseconds is a count of nanoseconds up to a bound. -/
theorem fits_mul_million_iff {n : ℤ} :
    Fits (n * 1000000) ↔ -9223372036854 ≤ n ∧ n ≤ 9223372036854 := by
  unfold Fits
  omega

/-! ### Rounding down -/

/-- `floor<milliseconds>`: the truncated count, or the one below it where truncation went up. -/
def floorMilliseconds (t : TimePoint) : Option Milliseconds := do
  let truncated := toMilliseconds t
  let back ← ofMillisecondsChecked truncated
  if t < back then subChecked truncated 1 else some truncated

/-- The conversion back that is compared with the clock value never leaves its range. -/
theorem floorMilliseconds_eq (t : TimePoint) : floorMilliseconds t =
    if t.toInt < t.toInt.tdiv 1000000 * 1000000 then subChecked (toMilliseconds t) 1
    else some (toMilliseconds t) := by
  have hback := ofMillisecondsChecked_eq_iff.mpr (fits_toMilliseconds_mul t)
  have hvalue : (ofMilliseconds (toMilliseconds t)).toInt = t.toInt.tdiv 1000000 * 1000000 := by
    rw [toInt_ofMilliseconds (fits_toMilliseconds_mul t), toInt_toMilliseconds]
  rw [← hvalue, floorMilliseconds, hback, Option.bind_eq_bind, Option.bind_some]
  exact if_congr Int64.lt_iff_toInt_lt rfl rfl

/-- Rounding down has a value for every clock value, the quotient that is rounded down. -/
theorem floorMilliseconds_eq_some_iff {t : TimePoint} {ms : Milliseconds} :
    floorMilliseconds t = some ms ↔ ms.toInt = t.toInt / 1000000 := by
  have hbounds := tdiv_million_bounds t.toInt
  have hone : (1 : Int64).toInt = 1 := by decide
  have htruncated := toInt_toMilliseconds t
  rw [floorMilliseconds_eq]
  split_ifs with hup
  · rw [subChecked, checked_eq_some_iff, htruncated, hone]
    omega
  · rw [Option.some.injEq, ← Int64.toInt_inj, htruncated]
    omega

end Gaudere.Library
