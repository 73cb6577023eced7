import Mathlib.Data.List.TakeWhile
import Mathlib.Algebra.Order.Ring.Int

/-!
# C++ byte strings and clock values

A `std::string` is a list of bytes, with no restriction on their values; `cString` is what a
function that takes its `c_str()` and no length reads of it. A clock value is a signed 64-bit
count of nanoseconds, and a duration in milliseconds a signed 64-bit count: `toMilliseconds` is
`duration_cast` from the first to the second, which truncates towards zero, and `ofMilliseconds`
the conversion back, which multiplies and so can leave the 64 bits. `Aligned` singles out the
clock values that are whole milliseconds; on those the conversions are inverse and keep the
order.
-/

set_option autoImplicit false
set_option relaxedAutoImplicit false

namespace Gaudere.Library

/-! ### Byte strings -/

/-- The bytes of a `std::string`. -/
abbrev Bytes := List UInt8

/-- The bytes of an ASCII literal. -/
def ascii (s : String) : Bytes := s.toList.map fun c ↦ c.toNat.toUInt8

/-- The C string at the start of a byte string: everything before the first NUL. -/
def cString (s : Bytes) : Bytes := s.takeWhile fun b ↦ b ≠ 0

theorem cString_eq_self_iff {s : Bytes} : cString s = s ↔ (0 : UInt8) ∉ s := by
  rw [cString, List.takeWhile_eq_self_iff]
  constructor
  · intro h hmem
    simpa using h 0 hmem
  · intro h b hb
    simpa using fun hzero : b = 0 ↦ h (hzero ▸ hb)

theorem zero_notMem_cString (s : Bytes) : (0 : UInt8) ∉ cString s := by
  intro h
  simpa using List.mem_takeWhile_imp h

@[simp] theorem cString_cString (s : Bytes) : cString (cString s) = cString s :=
  cString_eq_self_iff.mpr (zero_notMem_cString s)

/-- A byte string without NUL, which is what a binding by `c_str()` can store. -/
abbrev CText := { s : Bytes // (0 : UInt8) ∉ s }

/-- The C string of a byte string, as stored text. -/
def toCText (s : Bytes) : CText := ⟨cString s, zero_notMem_cString s⟩

@[simp] theorem val_toCText (s : Bytes) : (toCText s).val = cString s := rfl

@[simp] theorem toCText_val (s : CText) : toCText s.val = s :=
  Subtype.ext (cString_eq_self_iff.mpr s.property)

/-! ### Clock values -/

/-- A signed 64-bit count of nanoseconds since the epoch. -/
abbrev TimePoint := Int64

instance lawfulOrderMaxInt64 : Std.LawfulOrderMax Int64 where
  max_le_iff a b c := by
    change (if a ≤ b then b else a) ≤ c ↔ _
    split <;> simp only [Int64.le_iff_toInt_le] at * <;> omega
  max_eq_or a b := by
    change (if a ≤ b then b else a) = a ∨ (if a ≤ b then b else a) = b
    split <;> simp

instance lawfulOrderMinInt64 : Std.LawfulOrderMin Int64 where
  le_min_iff a b c := by
    change a ≤ (if b ≤ c then b else c) ↔ _
    split <;> simp only [Int64.le_iff_toInt_le] at * <;> omega
  min_eq_or a b := by
    change (if a ≤ b then a else b) = a ∨ (if a ≤ b then a else b) = b
    split <;> simp

/-- A conversion that is monotone on the values commutes with the least of them. -/
theorem min?_map_of_monotone {f : Int64 → Int64} {values : List Int64}
    (hf : ∀ a ∈ values, ∀ b ∈ values, a ≤ b → f a ≤ f b) :
    (values.map f).min? = values.min?.map f := by
  cases hmin : values.min? with
  | none =>
    rw [List.min?_eq_none_iff.mp hmin]
    rfl
  | some least =>
    obtain ⟨hmem, hleast⟩ := List.min?_eq_some_iff.mp hmin
    refine List.min?_eq_some_iff.mpr ⟨List.mem_map_of_mem hmem, fun b hb ↦ ?_⟩
    obtain ⟨a, ha, rfl⟩ := List.mem_map.mp hb
    exact hf least hmem a ha (hleast a ha)

theorem min?_of_perm {first second : List Int64} (h : first.Perm second) :
    first.min? = second.min? := by
  apply Option.ext
  intro least
  simp only [List.min?_eq_some_iff, h.mem_iff]

/-- A loop that keeps the least value so far finds the least value. -/
theorem foldl_least (values : List Int64) :
    values.foldl (fun least x ↦ if least.all fun y ↦ x < y then some x else least) none =
      values.min? := by
  have hloop (values : List Int64) (least : Int64) :
      values.foldl (fun least x ↦ if least.all fun y ↦ x < y then some x else least) (some least) =
        some (values.foldl min least) := by
    induction values generalizing least with
    | nil => rfl
    | cons x values ih =>
      have hmin : (if (some least).all fun y ↦ x < y then some x else some least) =
          some (min least x) := by
        change _ = some (if least ≤ x then least else x)
        by_cases hle : least ≤ x
        · simp [hle, Int64.not_lt.mpr hle]
        · simp [hle, Int64.not_le.mp hle]
      rw [List.foldl_cons, List.foldl_cons, hmin, ih]
  cases values with
  | nil => rfl
  | cons x values => exact hloop values x

/-- The least value is at most a bound exactly when some value is. -/
theorem exists_min?_le_iff {values : List Int64} {bound : Int64} :
    (∃ least, values.min? = some least ∧ least ≤ bound) ↔ ∃ x ∈ values, x ≤ bound := by
  constructor
  · rintro ⟨least, hmin, hle⟩
    exact ⟨least, List.min?_mem hmin, hle⟩
  · rintro ⟨x, hx, hle⟩
    cases hmin : values.min? with
    | none =>
      rw [List.min?_eq_none_iff.mp hmin] at hx
      cases hx
    | some least =>
      exact ⟨least, rfl, Int64.le_trans ((List.min?_eq_some_iff.mp hmin).2 x hx) hle⟩

/-- A value below every other becomes the least element. -/
theorem min?_concat_of_lt {values : List Int64} {x : Int64}
    (h : ∀ least, values.min? = some least → x < least) : (values ++ [x]).min? = some x := by
  refine List.min?_eq_some_iff.mpr ⟨List.mem_append_right _ (List.mem_singleton_self x), ?_⟩
  intro b hb
  rcases List.mem_append.mp hb with hb | hb
  · cases hmin : values.min? with
    | none =>
      rw [List.min?_eq_none_iff.mp hmin] at hb
      cases hb
    | some least =>
      have hleast := (List.min?_eq_some_iff.mp hmin).2 b hb
      exact Int64.le_of_lt (Int64.lt_of_lt_of_le (h least hmin) hleast)
  · rw [List.mem_singleton.mp hb]
    exact Int64.le_refl x

theorem min?_concat_of_le {values : List Int64} {least x : Int64}
    (hmin : values.min? = some least) (hle : least ≤ x) :
    (values ++ [x]).min? = some least := by
  obtain ⟨hmem, hleast⟩ := List.min?_eq_some_iff.mp hmin
  refine List.min?_eq_some_iff.mpr ⟨List.mem_append_left _ hmem, fun b hb ↦ ?_⟩
  rcases List.mem_append.mp hb with hb | hb
  · exact hleast b hb
  · rwa [List.mem_singleton.mp hb]

/-- A value at or above every other becomes the greatest element. -/
theorem max?_concat_of_le {values : List Int64} {x : Int64} (h : ∀ y ∈ values, y ≤ x) :
    (values ++ [x]).max? = some x := by
  refine List.max?_eq_some_iff.mpr ⟨List.mem_append_right _ (List.mem_singleton_self x), ?_⟩
  intro y hy
  rcases List.mem_append.mp hy with hy | hy
  · exact h y hy
  · rw [List.mem_singleton.mp hy]
    exact Int64.le_refl x

/-- A signed 64-bit count of milliseconds. -/
abbrev Milliseconds := Int64

/-- `duration_cast<milliseconds>`: truncation towards zero. -/
def toMilliseconds (t : TimePoint) : Milliseconds := t / 1000000

/-- The conversion of a millisecond count to nanoseconds. -/
def ofMilliseconds (ms : Milliseconds) : TimePoint := ms * 1000000

/-- A clock value that is a whole number of milliseconds. -/
def Aligned (t : TimePoint) : Prop := ofMilliseconds (toMilliseconds t) = t

instance (t : TimePoint) : Decidable (Aligned t) :=
  inferInstanceAs (Decidable (ofMilliseconds (toMilliseconds t) = t))

/-- An integer in the range of a signed 64-bit count. -/
def Fits (n : ℤ) : Prop := -2 ^ 63 ≤ n ∧ n < 2 ^ 63

instance : DecidablePred Fits := fun n ↦ inferInstanceAs (Decidable (-2 ^ 63 ≤ n ∧ n < 2 ^ 63))

theorem fits_toInt (t : Int64) : Fits t.toInt := ⟨t.le_toInt, t.toInt_lt⟩

theorem bmod_eq_of_fits {n : ℤ} (h : Fits n) : n.bmod (2 ^ 64) = n := by
  obtain ⟨hlower, hupper⟩ := h
  exact Int.bmod_eq_of_le (by omega) (by omega)

theorem toInt_sub_of_fits {a b : Int64} (h : Fits (a.toInt - b.toInt)) :
    (a - b).toInt = a.toInt - b.toInt := by
  rw [Int64.toInt_sub, bmod_eq_of_fits h]

theorem toInt_million : (1000000 : Int64).toInt = 1000000 := by decide

/-- Truncated division by a million stays within a million of its argument, on the side of
zero. -/
theorem tdiv_million_bounds (n : ℤ) :
    (0 ≤ n → 0 ≤ n.tdiv 1000000 ∧ n.tdiv 1000000 * 1000000 ≤ n ∧
      n < n.tdiv 1000000 * 1000000 + 1000000) ∧
    (n ≤ 0 → n.tdiv 1000000 ≤ 0 ∧ n ≤ n.tdiv 1000000 * 1000000 ∧
      n.tdiv 1000000 * 1000000 - 1000000 < n) := by
  constructor
  · intro h
    rw [Int.tdiv_eq_ediv_of_nonneg h]
    omega
  · intro h
    have hneg : n.tdiv 1000000 = -(-n / 1000000) := by
      rw [← Int.tdiv_eq_ediv_of_nonneg (by omega), Int.neg_tdiv, neg_neg]
    rw [hneg]
    omega

theorem toInt_toMilliseconds (t : TimePoint) :
    (toMilliseconds t).toInt = t.toInt.tdiv 1000000 := by
  obtain ⟨hlower, hupper⟩ := fits_toInt t
  have hbounds := tdiv_million_bounds t.toInt
  rw [toMilliseconds, Int64.toInt_div, toInt_million]
  apply bmod_eq_of_fits
  constructor <;> omega

theorem toInt_ofMilliseconds {ms : Milliseconds} (h : Fits (ms.toInt * 1000000)) :
    (ofMilliseconds ms).toInt = ms.toInt * 1000000 := by
  rw [ofMilliseconds, Int64.toInt_mul, toInt_million, bmod_eq_of_fits h]

theorem fits_toMilliseconds_mul (t : TimePoint) :
    Fits ((toMilliseconds t).toInt * 1000000) := by
  obtain ⟨hlower, hupper⟩ := fits_toInt t
  have hbounds := tdiv_million_bounds t.toInt
  rw [toInt_toMilliseconds]
  constructor <;> omega

/-- The milliseconds that a clock value can be stored as. -/
abbrev ClockMilliseconds := { ms : Milliseconds // Fits (ms.toInt * 1000000) }

instance : Inhabited ClockMilliseconds := ⟨0, by decide⟩

/-- A clock value in stored milliseconds. -/
def toClockMilliseconds (t : TimePoint) : ClockMilliseconds :=
  ⟨toMilliseconds t, fits_toMilliseconds_mul t⟩

theorem toMilliseconds_ofMilliseconds {ms : Milliseconds} (h : Fits (ms.toInt * 1000000)) :
    toMilliseconds (ofMilliseconds ms) = ms := by
  apply Int64.toInt_inj.mp
  rw [toInt_toMilliseconds, toInt_ofMilliseconds h]
  exact Int.mul_tdiv_cancel _ (by decide)

@[simp] theorem toClockMilliseconds_ofMilliseconds (ms : ClockMilliseconds) :
    toClockMilliseconds (ofMilliseconds ms.val) = ms :=
  Subtype.ext (toMilliseconds_ofMilliseconds ms.property)

theorem toInt_of_aligned {t : TimePoint} (h : Aligned t) :
    t.toInt = (toMilliseconds t).toInt * 1000000 := by
  conv_lhs => rw [← h]
  exact toInt_ofMilliseconds (fits_toMilliseconds_mul t)

theorem toMilliseconds_le_of_le {t u : TimePoint} (h : t ≤ u) :
    toMilliseconds t ≤ toMilliseconds u := by
  rw [Int64.le_iff_toInt_le] at h ⊢
  rw [toInt_toMilliseconds, toInt_toMilliseconds]
  have ht := tdiv_million_bounds t.toInt
  have hu := tdiv_million_bounds u.toInt
  omega

theorem ofMilliseconds_le_of_le {first second : ClockMilliseconds} (h : first.val ≤ second.val) :
    ofMilliseconds first.val ≤ ofMilliseconds second.val := by
  rw [Int64.le_iff_toInt_le] at h ⊢
  rw [toInt_ofMilliseconds first.property, toInt_ofMilliseconds second.property]
  omega

/-- From the epoch on, where truncation rounds down, the truncated clock reaches a number of
milliseconds exactly when the clock does. -/
theorem le_toMilliseconds_iff {ms : ClockMilliseconds} {t : TimePoint} (ht : 0 ≤ t.toInt) :
    ms.val ≤ toMilliseconds t ↔ ofMilliseconds ms.val ≤ t := by
  have hbounds := tdiv_million_bounds t.toInt
  rw [Int64.le_iff_toInt_le, Int64.le_iff_toInt_le, toInt_toMilliseconds,
    toInt_ofMilliseconds ms.property]
  omega

/-- A stored time that the clock has reached stays reached. -/
theorem any_reached_of_le {α : Type*} {stored : Option α} {ms : α → Milliseconds} {t u : TimePoint}
    (hle : t ≤ u) (h : (stored.any fun value ↦ decide (ms value ≤ toMilliseconds t)) = true) :
    (stored.any fun value ↦ decide (ms value ≤ toMilliseconds u)) = true := by
  rw [Option.any_eq_true] at h ⊢
  obtain ⟨value, hvalue, hreached⟩ := h
  rw [decide_eq_true_eq] at hreached
  exact ⟨value, hvalue, decide_eq_true (Int64.le_trans hreached (toMilliseconds_le_of_le hle))⟩

theorem toMilliseconds_lt_iff {t u : TimePoint} (ht : Aligned t) (hu : Aligned u) :
    toMilliseconds t < toMilliseconds u ↔ t < u := by
  rw [Int64.lt_iff_toInt_lt, Int64.lt_iff_toInt_lt, toInt_of_aligned ht, toInt_of_aligned hu]
  omega

theorem toMilliseconds_le_iff {t u : TimePoint} (ht : Aligned t) (hu : Aligned u) :
    toMilliseconds t ≤ toMilliseconds u ↔ t ≤ u := by
  rw [Int64.le_iff_toInt_le, Int64.le_iff_toInt_le, toInt_of_aligned ht, toInt_of_aligned hu]
  omega

/-! ### Casts of unsigned counts -/

/-- An unsigned count cast to a signed one keeps its value below 2^63, and becomes negative from
there on. -/
theorem toInt_toInt64 (x : UInt64) :
    x.toInt64.toInt = if x.toNat < 2 ^ 63 then (x.toNat : ℤ) else x.toNat - 2 ^ 64 := by
  have hcast : x.toInt64.toInt = (x.toNat : ℤ).bmod (2 ^ 64) := BitVec.toInt_eq_toNat_bmod _
  have hlt := x.toNat_lt
  rw [hcast, Int.bmod_def]
  split_ifs <;> omega

theorem toInt_toInt64_pos_iff {x : UInt64} :
    0 < x.toInt64.toInt ↔ 0 < x.toNat ∧ x.toNat < 2 ^ 63 := by
  have hlt := x.toNat_lt
  rw [toInt_toInt64]
  split_ifs <;> omega

/-- A 32-bit count cast to a signed 64-bit one keeps its value. -/
theorem toInt_toInt64_of_uint32 (x : UInt32) : x.toUInt64.toInt64.toInt = x.toNat := by
  have hlt := x.toNat_lt
  rw [toInt_toInt64, UInt32.toNat_toUInt64, if_pos (by omega)]

/-- A signed value cast to 32 bits keeps its value when it is in range. -/
theorem toNat_toUInt32_of_range {x : Int64} (h : 0 ≤ x.toInt) (hmax : x.toInt ≤ 4294967295) :
    (x.toUInt64.toUInt32.toNat : ℤ) = x.toInt := by
  have hcast := toInt_toInt64 x.toUInt64
  have hlt := x.toUInt64.toNat_lt
  rw [Int64.toInt64_toUInt64] at hcast
  rw [UInt64.toNat_toUInt32]
  split_ifs at hcast <;> omega

end Gaudere.Library
