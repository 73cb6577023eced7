import Mathlib.Data.List.Nodup
import Mathlib.Data.List.Count

/-!
# Tables under constraints

A `Schema` names what a relational table checks of its rows: a primary key, a second unique key
and a row predicate. A `Table` is a list of rows, in row order, that carries the proof that the
constraints hold, so no statement can be reasoned about on an inconsistent table.

A statement computes the rows it wants and `Table.commit`s them: it succeeds exactly when the
result satisfies every constraint, and otherwise the table is left as it was. `Table.insert` and
`Table.upsert` are the two row statements, `Table.updateWhere` the set-wise one. The lemmas say
when each succeeds, what it returns and what `Table.lookup` finds afterwards.
-/

set_option autoImplicit false
set_option relaxedAutoImplicit false

namespace Gaudere.Library

/-- The constraints of a table: its primary key, a second unique key and its row checks. -/
structure Schema (Row Key Alternate : Type*) where
  key : Row → Key
  alternate : Row → Alternate
  check : Row → Bool

variable {Row Key Alternate : Type*}

/-- The constraints hold of a list of rows. -/
structure Schema.Consistent (S : Schema Row Key Alternate) (rows : List Row) : Prop where
  key_nodup : (rows.map S.key).Nodup
  alternate_nodup : (rows.map S.alternate).Nodup
  checked : ∀ row ∈ rows, S.check row = true

instance [DecidableEq Key] [DecidableEq Alternate] (S : Schema Row Key Alternate)
    (rows : List Row) : Decidable (S.Consistent rows) :=
  decidable_of_iff ((rows.map S.key).Nodup ∧ (rows.map S.alternate).Nodup ∧
      ∀ row ∈ rows, S.check row = true)
    ⟨fun ⟨hkey, halternate, hcheck⟩ ↦ ⟨hkey, halternate, hcheck⟩,
      fun h ↦ ⟨h.key_nodup, h.alternate_nodup, h.checked⟩⟩

/-- A table: rows in row order, satisfying the constraints. -/
structure Table (S : Schema Row Key Alternate) where
  rows : List Row
  consistent : S.Consistent rows

namespace Table

variable {S : Schema Row Key Alternate}

@[ext] theorem ext {first second : Table S} (h : first.rows = second.rows) : first = second := by
  cases first
  cases second
  cases h
  rfl

instance [DecidableEq Row] : DecidableEq (Table S) := fun first second ↦
  decidable_of_iff (first.rows = second.rows) ⟨Table.ext, fun h ↦ by rw [h]⟩

/-- The table without rows. -/
def empty (S : Schema Row Key Alternate) : Table S where
  rows := []
  consistent := ⟨List.nodup_nil, List.nodup_nil, fun _ h ↦ absurd h List.not_mem_nil⟩

@[simp] theorem rows_empty : (empty S).rows = [] := rfl

section Keys

variable [DecidableEq Key]

/-- The row with a primary key. -/
def lookup (t : Table S) (k : Key) : Option Row :=
  t.rows.find? fun row ↦ decide (S.key row = k)

omit [DecidableEq Key] in
theorem key_injective (t : Table S) {first second : Row} (hfirst : first ∈ t.rows)
    (hsecond : second ∈ t.rows) (h : S.key first = S.key second) : first = second :=
  List.inj_on_of_nodup_map t.consistent.key_nodup hfirst hsecond h

theorem lookup_eq_some_iff {t : Table S} {k : Key} {row : Row} :
    t.lookup k = some row ↔ row ∈ t.rows ∧ S.key row = k := by
  constructor
  · intro h
    exact ⟨List.mem_of_find?_eq_some h, by simpa using List.find?_some h⟩
  · rintro ⟨hmem, rfl⟩
    cases hfound : t.lookup (S.key row) with
    | none => simpa using List.find?_eq_none.mp hfound row hmem
    | some other =>
      have hkey : S.key other = S.key row := by simpa using List.find?_some hfound
      rw [t.key_injective (List.mem_of_find?_eq_some hfound) hmem hkey]

theorem lookup_eq_none_iff {t : Table S} {k : Key} :
    t.lookup k = none ↔ ∀ row ∈ t.rows, S.key row ≠ k := by
  simp [lookup, List.find?_eq_none]

@[simp] theorem lookup_empty (k : Key) : (empty S).lookup k = none := rfl

end Keys

section Alternates

variable [DecidableEq Alternate]

/-- The row with a value of the second unique key. -/
def lookupAlternate (t : Table S) (u : Alternate) : Option Row :=
  t.rows.find? fun row ↦ decide (S.alternate row = u)

omit [DecidableEq Alternate] in
theorem alternate_injective (t : Table S) {first second : Row} (hfirst : first ∈ t.rows)
    (hsecond : second ∈ t.rows) (h : S.alternate first = S.alternate second) : first = second :=
  List.inj_on_of_nodup_map t.consistent.alternate_nodup hfirst hsecond h

theorem lookupAlternate_eq_some_iff {t : Table S} {u : Alternate} {row : Row} :
    t.lookupAlternate u = some row ↔ row ∈ t.rows ∧ S.alternate row = u := by
  constructor
  · intro h
    exact ⟨List.mem_of_find?_eq_some h, by simpa using List.find?_some h⟩
  · rintro ⟨hmem, rfl⟩
    cases hfound : t.lookupAlternate (S.alternate row) with
    | none => simpa using List.find?_eq_none.mp hfound row hmem
    | some other =>
      have hkey : S.alternate other = S.alternate row := by simpa using List.find?_some hfound
      rw [t.alternate_injective (List.mem_of_find?_eq_some hfound) hmem hkey]

theorem lookupAlternate_eq_none_iff {t : Table S} {u : Alternate} :
    t.lookupAlternate u = none ↔ ∀ row ∈ t.rows, S.alternate row ≠ u := by
  simp [lookupAlternate, List.find?_eq_none]

end Alternates

/-! ### Statements -/

variable [DecidableEq Key] [DecidableEq Alternate]

/-- The table with the given rows, when they satisfy the constraints. -/
def commit (S : Schema Row Key Alternate) (rows : List Row) : Option (Table S) :=
  if h : S.Consistent rows then some ⟨rows, h⟩ else none

theorem commit_eq_some_iff {rows : List Row} {t : Table S} :
    commit S rows = some t ↔ t.rows = rows := by
  unfold commit
  split_ifs with h
  · rw [Option.some.injEq, Table.ext_iff, eq_comm]
  · constructor
    · intro hnone
      cases hnone
    · intro hrows
      exact absurd (hrows ▸ t.consistent) h

theorem commit_of_consistent {rows : List Row} (h : S.Consistent rows) :
    ∃ t, commit S rows = some t ∧ t.rows = rows :=
  ⟨⟨rows, h⟩, commit_eq_some_iff.mpr rfl, rfl⟩

/-- `INSERT`: append the row, or fail on a constraint. -/
def insert (t : Table S) (row : Row) : Option (Table S) := commit S (t.rows ++ [row])

omit [DecidableEq Key] [DecidableEq Alternate] in
theorem consistent_append (t : Table S) {row : Row} (hkey : ∀ r ∈ t.rows, S.key r ≠ S.key row)
    (halternate : ∀ r ∈ t.rows, S.alternate r ≠ S.alternate row) (hcheck : S.check row = true) :
    S.Consistent (t.rows ++ [row]) := by
  refine ⟨?_, ?_, ?_⟩
  · rw [List.map_append, List.map_singleton, List.nodup_append]
    refine ⟨t.consistent.key_nodup, List.nodup_singleton _, ?_⟩
    rintro _ hmem _ hrow rfl
    obtain ⟨r, hr, hrk⟩ := List.mem_map.mp hmem
    exact hkey r hr (hrk.trans (List.mem_singleton.mp hrow))
  · rw [List.map_append, List.map_singleton, List.nodup_append]
    refine ⟨t.consistent.alternate_nodup, List.nodup_singleton _, ?_⟩
    rintro _ hmem _ hrow rfl
    obtain ⟨r, hr, hra⟩ := List.mem_map.mp hmem
    exact halternate r hr (hra.trans (List.mem_singleton.mp hrow))
  · intro r hr
    rcases List.mem_append.mp hr with hr | hr
    · exact t.consistent.checked r hr
    · rw [List.mem_singleton.mp hr]
      exact hcheck

theorem insert_of_fresh {t : Table S} {row : Row} (hkey : ∀ r ∈ t.rows, S.key r ≠ S.key row)
    (halternate : ∀ r ∈ t.rows, S.alternate r ≠ S.alternate row) (hcheck : S.check row = true) :
    ∃ t', t.insert row = some t' ∧ t'.rows = t.rows ++ [row] :=
  commit_of_consistent (t.consistent_append hkey halternate hcheck)

/-- The rows after an upsert: the row with the same primary key replaced in place, or the row
appended. -/
def upsertRows (S : Schema Row Key Alternate) (rows : List Row) (row : Row) : List Row :=
  if rows.any fun r ↦ decide (S.key r = S.key row) then
    rows.map fun r ↦ if S.key r = S.key row then row else r
  else rows ++ [row]

/-- `INSERT ... ON CONFLICT(key) DO UPDATE SET` every column, or fail on a constraint. -/
def upsert (t : Table S) (row : Row) : Option (Table S) := commit S (upsertRows S t.rows row)

omit [DecidableEq Alternate] in
theorem mem_upsertRows {rows : List Row} {row r : Row} :
    r ∈ upsertRows S rows row ↔ r = row ∨ (r ∈ rows ∧ S.key r ≠ S.key row) := by
  unfold upsertRows
  split_ifs with hany
  · simp only [List.any_eq_true, decide_eq_true_eq] at hany
    obtain ⟨old, hold, hkey⟩ := hany
    rw [List.mem_map]
    constructor
    · rintro ⟨source, hsource, rfl⟩
      split_ifs with hs
      · exact Or.inl rfl
      · exact Or.inr ⟨hsource, hs⟩
    · rintro (rfl | ⟨hr, hne⟩)
      · exact ⟨old, hold, if_pos hkey⟩
      · exact ⟨r, hr, if_neg hne⟩
  · simp only [List.any_eq_true, decide_eq_true_eq, not_exists, not_and] at hany
    rw [List.mem_append, List.mem_singleton, or_comm]
    constructor
    · rintro (rfl | hr)
      · exact Or.inl rfl
      · exact Or.inr ⟨hr, hany r hr⟩
    · rintro (rfl | ⟨hr, _⟩)
      · exact Or.inl rfl
      · exact Or.inr hr

theorem mem_upsert {t t' : Table S} {row : Row} (h : t.upsert row = some t') {r : Row} :
    r ∈ t'.rows ↔ r = row ∨ (r ∈ t.rows ∧ S.key r ≠ S.key row) := by
  rw [commit_eq_some_iff.mp h]
  exact mem_upsertRows

theorem lookup_upsert {t t' : Table S} {row : Row} (h : t.upsert row = some t') (k : Key) :
    t'.lookup k = if S.key row = k then some row else t.lookup k := by
  apply Option.ext
  intro r
  rw [lookup_eq_some_iff, mem_upsert h]
  split_ifs with hk
  · subst hk
    constructor
    · rintro ⟨rfl | ⟨_, hne⟩, hkey⟩
      · rfl
      · exact absurd hkey hne
    · intro hr
      rw [Option.some.inj hr]
      exact ⟨Or.inl rfl, rfl⟩
  · rw [lookup_eq_some_iff]
    constructor
    · rintro ⟨rfl | ⟨hr, _⟩, hkey⟩
      · exact absurd hkey hk
      · exact ⟨hr, hkey⟩
    · rintro ⟨hr, hkey⟩
      exact ⟨Or.inr ⟨hr, fun heq ↦ hk (heq.symm.trans hkey)⟩, hkey⟩

omit [DecidableEq Alternate] in
theorem upsertRows_fresh {rows : List Row} {row : Row} (h : ∀ r ∈ rows, S.key r ≠ S.key row) :
    upsertRows S rows row = rows ++ [row] := by
  refine if_neg ?_
  simpa only [List.any_eq_true, decide_eq_true_eq, not_exists, not_and] using h

omit [DecidableEq Alternate] in
theorem map_key_upsertRows {rows : List Row} {row : Row}
    (h : ∃ r ∈ rows, S.key r = S.key row) :
    (upsertRows S rows row).map S.key = rows.map S.key := by
  unfold upsertRows
  rw [if_pos (by simpa only [List.any_eq_true, decide_eq_true_eq] using h), List.map_map]
  apply List.map_congr_left
  intro r _
  simp only [Function.comp_apply]
  split_ifs with hr
  · exact hr.symm
  · rfl

/-- An upsert that replaces a row keeps every row in its place. -/
theorem map_key_upsert {t t' : Table S} {row : Row} (h : t.upsert row = some t')
    (hstored : S.key row ∈ t.rows.map S.key) : t'.rows.map S.key = t.rows.map S.key := by
  rw [commit_eq_some_iff.mp h]
  exact map_key_upsertRows (List.mem_map.mp hstored)

omit [DecidableEq Alternate] in
theorem consistent_upsertRows (t : Table S) {row : Row} (hcheck : S.check row = true)
    (halternate : ∀ r ∈ t.rows, S.alternate r = S.alternate row → S.key r = S.key row) :
    S.Consistent (upsertRows S t.rows row) := by
  by_cases hfresh : ∀ r ∈ t.rows, S.key r ≠ S.key row
  · rw [upsertRows_fresh hfresh]
    exact t.consistent_append hfresh (fun r hr heq ↦ hfresh r hr (halternate r hr heq)) hcheck
  · simp only [not_forall, not_not] at hfresh
    obtain ⟨old, hold, hkey⟩ := hfresh
    have hkeys : ((upsertRows S t.rows row).map S.key).Nodup := by
      rw [map_key_upsertRows ⟨old, hold, hkey⟩]
      exact t.consistent.key_nodup
    refine ⟨hkeys, List.Nodup.map_on ?_ (List.Nodup.of_map S.key hkeys), ?_⟩
    · intro first hfirst second hsecond heq
      rcases mem_upsertRows.mp hfirst with hf | ⟨hf, hfirstKey⟩ <;>
        rcases mem_upsertRows.mp hsecond with hs | ⟨hs, hsecondKey⟩
      · rw [hf, hs]
      · exact absurd (halternate second hs (by rw [← heq, hf])) hsecondKey
      · exact absurd (halternate first hf (by rw [heq, hs])) hfirstKey
      · exact t.alternate_injective hf hs heq
    · intro r hr
      rcases mem_upsertRows.mp hr with rfl | ⟨hr, _⟩
      · exact hcheck
      · exact t.consistent.checked r hr

/-- An upsert succeeds exactly when the row passes its checks and no other row holds its second
key. -/
theorem upsert_isSome_iff {t : Table S} {row : Row} :
    (t.upsert row).isSome ↔ S.check row = true ∧
      ∀ r ∈ t.rows, S.alternate r = S.alternate row → S.key r = S.key row := by
  constructor
  · intro h
    obtain ⟨t', ht'⟩ := Option.isSome_iff_exists.mp h
    have hrow : row ∈ t'.rows := (mem_upsert ht').mpr (Or.inl rfl)
    refine ⟨t'.consistent.checked row hrow, fun r hr halternate ↦ ?_⟩
    by_contra hne
    have hr' : r ∈ t'.rows := (mem_upsert ht').mpr (Or.inr ⟨hr, hne⟩)
    exact hne (by rw [t'.alternate_injective hr' hrow halternate])
  · rintro ⟨hcheck, halternate⟩
    obtain ⟨t', ht', _⟩ := commit_of_consistent (t.consistent_upsertRows hcheck halternate)
    exact Option.isSome_iff_exists.mpr ⟨t', ht'⟩

/-- A loop that upserts its rows one after the other and stops at the first failure; the flag
says whether it got through. -/
def upsertAll (t : Table S) : List Row → Table S × Bool
  | [] => (t, true)
  | row :: rows =>
    match t.upsert row with
    | some t' => upsertAll t' rows
    | none => (t, false)

/-- A loop adds no rows but its own. -/
theorem mem_upsertAll {rows : List Row} {t : Table S} {r : Row}
    (h : r ∈ (t.upsertAll rows).1.rows) : r ∈ rows ∨ r ∈ t.rows := by
  induction rows generalizing t with
  | nil => exact Or.inr h
  | cons row rows ih =>
    cases hupsert : t.upsert row with
    | none =>
      simp only [upsertAll, hupsert] at h
      exact Or.inr h
    | some t' =>
      simp only [upsertAll, hupsert] at h
      rcases ih h with hloop | hstored
      · exact Or.inl (List.mem_cons_of_mem _ hloop)
      · rcases (mem_upsert hupsert).mp hstored with rfl | ⟨hr, _⟩
        · exact Or.inl List.mem_cons_self
        · exact Or.inr hr

/-- A loop over rows whose keys are stored keeps every row in its place, also when it stops. -/
theorem map_key_upsertAll {rows : List Row} {t : Table S}
    (hstored : ∀ row ∈ rows, S.key row ∈ t.rows.map S.key) :
    (t.upsertAll rows).1.rows.map S.key = t.rows.map S.key := by
  induction rows generalizing t with
  | nil => rfl
  | cons row rows ih =>
    rw [List.forall_mem_cons] at hstored
    cases hupsert : t.upsert row with
    | none => simp only [upsertAll, hupsert]
    | some t' =>
      have hkeys := map_key_upsert hupsert hstored.1
      simp only [upsertAll, hupsert]
      rw [ih (by rw [hkeys]; exact hstored.2), hkeys]

/-- A loop over rows that each pass their checks and take the place of a stored row with the same
keys gets through. -/
theorem upsertAll_of_stored {rows : List Row} {t : Table S}
    (hcheck : ∀ row ∈ rows, S.check row = true)
    (hstored : ∀ row ∈ rows, ∃ old ∈ t.rows, S.key old = S.key row ∧
      S.alternate old = S.alternate row) :
    (t.upsertAll rows).2 = true := by
  induction rows generalizing t with
  | nil => rfl
  | cons row rows ih =>
    obtain ⟨old, hold, hkey, halternate⟩ := hstored row List.mem_cons_self
    have hsome : (t.upsert row).isSome := by
      refine upsert_isSome_iff.mpr ⟨hcheck row List.mem_cons_self, fun r hr heq ↦ ?_⟩
      rw [t.alternate_injective hr hold (heq.trans halternate.symm), hkey]
    obtain ⟨t', ht'⟩ := Option.isSome_iff_exists.mp hsome
    simp only [upsertAll, ht']
    refine ih (fun other hother ↦ hcheck other (List.mem_cons_of_mem _ hother)) ?_
    intro other hother
    obtain ⟨source, hsource, hsourceKey, hsourceAlternate⟩ :=
      hstored other (List.mem_cons_of_mem _ hother)
    by_cases hsame : S.key source = S.key row
    · have hsourceOld : source = old := t.key_injective hsource hold (hsame.trans hkey.symm)
      exact ⟨row, (mem_upsert ht').mpr (Or.inl rfl), hsame.symm.trans hsourceKey,
        by rw [← halternate, ← hsourceOld, hsourceAlternate]⟩
    · exact ⟨source, (mem_upsert ht').mpr (Or.inr ⟨hsource, hsame⟩), hsourceKey,
        hsourceAlternate⟩

/-- After a loop that got through, over rows with distinct keys, a key finds its row of the loop,
or what it found before. -/
theorem lookup_upsertAll {rows : List Row} {t : Table S} (hdone : (t.upsertAll rows).2 = true)
    (hnodup : (rows.map S.key).Nodup) (k : Key) :
    (t.upsertAll rows).1.lookup k =
      (rows.find? fun row ↦ decide (S.key row = k)).or (t.lookup k) := by
  induction rows generalizing t with
  | nil => rfl
  | cons row rows ih =>
    simp only [List.map_cons, List.nodup_cons, List.mem_map, not_exists, not_and] at hnodup
    cases hupsert : t.upsert row with
    | none => simp [upsertAll, hupsert] at hdone
    | some t' =>
      simp only [upsertAll, hupsert] at hdone ⊢
      rw [ih hdone hnodup.2, lookup_upsert hupsert]
      by_cases hk : S.key row = k
      · have hlater : rows.find? (fun r ↦ decide (S.key r = k)) = none := by
          refine List.find?_eq_none.mpr fun r hr ↦ ?_
          simpa using fun h ↦ hnodup.1 r hr (h.trans hk.symm)
        simp [hk, hlater]
      · simp [hk]

/-- `UPDATE ... WHERE`: rewrite the selected rows, or fail on a constraint. -/
def updateWhere (t : Table S) (selected : Row → Bool) (rewrite : Row → Row) : Option (Table S) :=
  commit S (t.rows.map fun row ↦ if selected row then rewrite row else row)

/-- A rewrite that keeps both keys and passes the checks of every selected row succeeds. -/
theorem updateWhere_isSome {t : Table S} {selected : Row → Bool} {rewrite : Row → Row}
    (hkey : ∀ row, S.key (rewrite row) = S.key row)
    (halternate : ∀ row, S.alternate (rewrite row) = S.alternate row)
    (hcheck : ∀ row ∈ t.rows, selected row = true → S.check (rewrite row) = true) :
    ∃ t', t.updateWhere selected rewrite = some t' ∧
      t'.rows = t.rows.map fun row ↦ if selected row then rewrite row else row := by
  apply commit_of_consistent
  refine ⟨?_, ?_, ?_⟩
  · rw [List.map_map]
    convert t.consistent.key_nodup using 2
    funext row
    simp only [Function.comp_apply, apply_ite S.key, hkey, ite_self]
  · rw [List.map_map]
    convert t.consistent.alternate_nodup using 2
    funext row
    simp only [Function.comp_apply, apply_ite S.alternate, halternate, ite_self]
  · intro row hrow
    obtain ⟨old, hold, rfl⟩ := List.mem_map.mp hrow
    split_ifs with hselected
    · exact hcheck old hold hselected
    · exact t.consistent.checked old hold

end Table

end Gaudere.Library
