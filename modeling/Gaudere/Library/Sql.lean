import Gaudere.Library.Cpp
import Mathlib.Algebra.Order.Ring.Cast
import Mathlib.Algebra.Order.Ring.Rat
import Mathlib.Order.WithBot

/-!
# SQL values and three-valued logic

An expression over a row is true, false or NULL (`Truth`). A CHECK constraint rejects a row only
when it is false (`Truth.passes`), and a WHEN or WHERE clause selects a row only when it is true
(`Truth.holds`).

The values a column can hold depend on its affinity: a TEXT column stores NULL, text or a BLOB,
and an INTEGER column in addition any number, since only text that reads as a number is converted.
Numbers are compared by value, whether they are stored as integers or as floating point, infinities
included, and any number is below any text, which is below any BLOB.
-/

set_option autoImplicit false
set_option relaxedAutoImplicit false

namespace Gaudere.Library.Sql

/-! ### Truth values -/

/-- True, false or NULL. -/
abbrev Truth := Option Bool

namespace Truth

def and : Truth → Truth → Truth
  | some false, _ => some false
  | _, some false => some false
  | some true, some true => some true
  | _, _ => none

def or : Truth → Truth → Truth
  | some true, _ => some true
  | _, some true => some true
  | some false, some false => some false
  | _, _ => none

def not (t : Truth) : Truth := t.map Bool.not

/-- The comparison of two truth values as the numbers 0 and 1. -/
def eq : Truth → Truth → Truth
  | some a, some b => some (a == b)
  | _, _ => none

/-- A CHECK accepts a row unless its expression is false. -/
def passes (t : Truth) : Bool := t != some false

/-- A WHEN or WHERE clause selects a row when its expression is true. -/
def holds (t : Truth) : Bool := t == some true

@[simp] theorem and_some (a b : Bool) : and (some a) (some b) = some (a && b) := by
  cases a <;> cases b <;> rfl

@[simp] theorem or_some (a b : Bool) : or (some a) (some b) = some (a || b) := by
  cases a <;> cases b <;> rfl

@[simp] theorem and_none_none : and none none = none := rfl

/-- A CHECK on a NULL alternative rejects nothing. -/
@[simp] theorem passes_or_none (t : Truth) : passes (or t none) = true := by
  rcases t with _ | _ | _ <;> rfl

@[simp] theorem not_some (a : Bool) : not (some a) = some !a := rfl

@[simp] theorem eq_some (a b : Bool) : eq (some a) (some b) = some (a == b) := rfl

@[simp] theorem passes_some (a : Bool) : passes (some a) = a := by
  cases a <;> rfl

@[simp] theorem holds_some (a : Bool) : holds (some a) = a := by
  cases a <;> rfl

/-- A disjunction is true exactly when one side is. -/
@[simp] theorem holds_or (a b : Truth) : holds (or a b) = (holds a || holds b) := by
  rcases a with _ | _ | _ <;> rcases b with _ | _ | _ <;> rfl

end Truth

/-! ### Columns of TEXT affinity -/

inductive TextCell
  | null
  | text (s : Bytes)
  | blob (s : Bytes)
deriving DecidableEq, Repr

namespace TextCell

/-- `length(CAST(cell AS BLOB))`: the number of bytes. -/
def byteLength : TextCell → Option ℕ
  | null => none
  | text s => some s.length
  | blob s => some s.length

/-- `IS NOT`, which is never NULL. -/
def isNot (a b : TextCell) : Truth := some (decide (a ≠ b))

@[simp] theorem byteLength_text (s : Bytes) : (text s).byteLength = some s.length := rfl

end TextCell

/-- `length BETWEEN low AND high`. -/
def lengthBetween (length : Option ℕ) (low high : ℕ) : Truth :=
  length.map fun n ↦ decide (low ≤ n ∧ n ≤ high)

/-- `length = n`. -/
def lengthEq (length : Option ℕ) (n : ℕ) : Truth := length.map fun m ↦ decide (m = n)

/-- `length <= n`. -/
def lengthLe (length : Option ℕ) (n : ℕ) : Truth := length.map fun m ↦ decide (m ≤ n)

/-! ### Columns of INTEGER affinity -/

/-- The value of an INTEGER or a REAL. -/
abbrev Number := WithBot (WithTop ℚ)

inductive IntegerCell
  | null
  | number (n : Number)
  | text (s : Bytes)
  | blob (s : Bytes)
deriving DecidableEq

namespace IntegerCell

/-- The cell of an integer. -/
def ofInt (n : ℤ) : IntegerCell := number (((n : ℚ) : WithTop ℚ) : Number)

def isNull (a : IntegerCell) : Truth := some (decide (a = null))

/-- `IS NOT`, which is never NULL. -/
def isNot (a b : IntegerCell) : Truth := some (decide (a ≠ b))

def eq : IntegerCell → IntegerCell → Truth
  | null, _ => none
  | _, null => none
  | a, b => some (decide (a = b))

def lt : IntegerCell → IntegerCell → Truth
  | null, _ => none
  | _, null => none
  | number a, number b => some (decide (a < b))
  | number _, _ => some true
  | text _, number _ => some false
  | text a, text b => some (decide (a < b))
  | text _, blob _ => some true
  | blob a, blob b => some (decide (a < b))
  | blob _, _ => some false

/-- `a <= b`, which is not `b < a`. -/
def le (a b : IntegerCell) : Truth := (lt b a).not

/-- `a BETWEEN low AND high`. -/
def between (a low high : IntegerCell) : Truth := (le low a).and (le a high)

theorem ofInt_injective {a b : ℤ} (h : ofInt a = ofInt b) : a = b := by
  simpa [ofInt] using h

@[simp] theorem ofInt_inj {a b : ℤ} : ofInt a = ofInt b ↔ a = b :=
  ⟨ofInt_injective, fun h ↦ h ▸ rfl⟩

@[simp] theorem ofInt_ne_null (a : ℤ) : ofInt a ≠ null := by
  simp [ofInt]

@[simp] theorem eq_ofInt (a b : ℤ) : eq (ofInt a) (ofInt b) = some (decide (a = b)) := by
  rw [← decide_eq_decide.mpr (@ofInt_inj a b)]
  rfl

@[simp] theorem lt_ofInt (a b : ℤ) : lt (ofInt a) (ofInt b) = some (decide (a < b)) := by
  simp only [ofInt, lt, WithBot.coe_lt_coe, WithTop.coe_lt_coe, Int.cast_lt]

@[simp] theorem le_ofInt (a b : ℤ) : le (ofInt a) (ofInt b) = some (decide (a ≤ b)) := by
  simp only [le, lt_ofInt, Truth.not_some, ← decide_not, not_lt]

@[simp] theorem le_null (a : IntegerCell) : le a null = none := by
  cases a <;> rfl

@[simp] theorem null_lt (a : IntegerCell) : lt null a = none := by
  cases a <;> rfl

@[simp] theorem isNull_null : isNull null = some true := rfl

@[simp] theorem isNull_ofInt (a : ℤ) : isNull (ofInt a) = some false := by
  simp [isNull]

/-- Any value but NULL and the literal differs from the literal. -/
theorem holds_not_eq {a b : IntegerCell} (ha : a ≠ null) (hb : b ≠ null) :
    (eq a b).not.holds = decide (a ≠ b) := by
  cases a <;> cases b <;> simp_all [eq]

end IntegerCell

end Gaudere.Library.Sql
