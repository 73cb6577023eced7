import Mathlib.Data.List.Perm.Subperm
import Gaudere.Library.Table

/-!
# Records kept in a table

A program keeps values of its own type in a table by writing each to a row and reading rows back.
An `Encoding` is the pair of the two directions, with the keys that the rows carry; `bind` may
round, so what is read back of a saved record is `stored` of it. The operations below are the ones
of the table, seen through the encoding: `find`, `save` of one record by upsert, and `reviseAll`,
a loop that saves a revision of every selected record.
-/

set_option autoImplicit false
set_option relaxedAutoImplicit false

namespace Gaudere.Library

variable {Row Key Alternate Record : Type*}

/-- How the records of a program are written to the rows of a table and read back. -/
structure Encoding (S : Schema Row Key Alternate) (Record : Type*) where
  bind : Record → Row
  read : Row → Record
  key : Record → Key
  alternate : Record → Alternate
  key_bind : ∀ record, S.key (bind record) = key record
  key_read : ∀ row, key (read row) = S.key row
  alternate_bind : ∀ record, S.alternate (bind record) = alternate record
  alternate_read : ∀ row, alternate (read row) = S.alternate row

namespace Encoding

variable {S : Schema Row Key Alternate} (e : Encoding S Record)

/-- The record that reading back a saved record gives. -/
def stored (record : Record) : Record := e.read (e.bind record)

/-- The records of a table, in row order. -/
def records (t : Table S) : List Record := t.rows.map e.read

@[simp] theorem records_empty : e.records (Table.empty S) = [] := rfl

variable {e}

theorem keys_injective {t : Table S} {a b : Record} (ha : a ∈ e.records t) (hb : b ∈ e.records t)
    (h : e.key a = e.key b) : a = b := by
  obtain ⟨first, hfirst, rfl⟩ := List.mem_map.mp ha
  obtain ⟨second, hsecond, rfl⟩ := List.mem_map.mp hb
  rw [e.key_read, e.key_read] at h
  rw [t.key_injective hfirst hsecond h]

theorem alternates_injective {t : Table S} {a b : Record} (ha : a ∈ e.records t)
    (hb : b ∈ e.records t) (h : e.alternate a = e.alternate b) : a = b := by
  obtain ⟨first, hfirst, rfl⟩ := List.mem_map.mp ha
  obtain ⟨second, hsecond, rfl⟩ := List.mem_map.mp hb
  rw [e.alternate_read, e.alternate_read] at h
  rw [t.alternate_injective hfirst hsecond h]

theorem map_key_records (t : Table S) : (e.records t).map e.key = t.rows.map S.key := by
  rw [records, List.map_map]
  exact List.map_congr_left fun row _ ↦ e.key_read row

theorem keys_nodup (t : Table S) : ((e.records t).map e.key).Nodup := by
  rw [map_key_records]
  exact t.consistent.key_nodup

@[simp] theorem key_stored (a : Record) : e.key (e.stored a) = e.key a :=
  (e.key_read _).trans (e.key_bind a)

@[simp] theorem alternate_stored (a : Record) : e.alternate (e.stored a) = e.alternate a :=
  (e.alternate_read _).trans (e.alternate_bind a)

variable [DecidableEq Key] [DecidableEq Alternate]

/-! ### Lookups -/

variable (e) in
/-- The record with a primary key. -/
def find (t : Table S) (k : Key) : Option Record := (t.lookup k).map e.read

variable (e) in
/-- The record with a value of the second unique key. -/
def findAlternate (t : Table S) (u : Alternate) : Option Record := (t.lookupAlternate u).map e.read

omit [DecidableEq Alternate] in
theorem find_eq_some_iff {t : Table S} {k : Key} {a : Record} :
    e.find t k = some a ↔ a ∈ e.records t ∧ e.key a = k := by
  rw [find, Option.map_eq_some_iff, records, List.mem_map]
  constructor
  · rintro ⟨row, hrow, rfl⟩
    obtain ⟨hmem, hkey⟩ := Table.lookup_eq_some_iff.mp hrow
    exact ⟨⟨row, hmem, rfl⟩, (e.key_read row).trans hkey⟩
  · rintro ⟨⟨row, hmem, rfl⟩, hkey⟩
    exact ⟨row, Table.lookup_eq_some_iff.mpr ⟨hmem, (e.key_read row).symm.trans hkey⟩, rfl⟩

omit [DecidableEq Key] in
theorem findAlternate_eq_some_iff {t : Table S} {u : Alternate} {a : Record} :
    e.findAlternate t u = some a ↔ a ∈ e.records t ∧ e.alternate a = u := by
  rw [findAlternate, Option.map_eq_some_iff, records, List.mem_map]
  constructor
  · rintro ⟨row, hrow, rfl⟩
    obtain ⟨hmem, hkey⟩ := Table.lookupAlternate_eq_some_iff.mp hrow
    exact ⟨⟨row, hmem, rfl⟩, (e.alternate_read row).trans hkey⟩
  · rintro ⟨⟨row, hmem, rfl⟩, hkey⟩
    exact ⟨row, Table.lookupAlternate_eq_some_iff.mpr
      ⟨hmem, (e.alternate_read row).symm.trans hkey⟩, rfl⟩

omit [DecidableEq Key] in
theorem findAlternate_eq_none_iff {t : Table S} {u : Alternate} :
    e.findAlternate t u = none ↔ ∀ a ∈ e.records t, e.alternate a ≠ u := by
  rw [Option.eq_none_iff_forall_ne_some]
  constructor
  · intro h a ha hkey
    exact h a (findAlternate_eq_some_iff.mpr ⟨ha, hkey⟩)
  · intro h a ha
    obtain ⟨hmem, hkey⟩ := findAlternate_eq_some_iff.mp ha
    exact h a hmem hkey

omit [DecidableEq Alternate] in
/-- The records of a table are what its keys find, in their order. -/
theorem records_eq_filterMap_find (t : Table S) :
    e.records t = ((e.records t).map e.key).filterMap (e.find t) := by
  rw [List.filterMap_map]
  have hfound : (e.records t).filterMap (e.find t ∘ e.key) = (e.records t).filterMap some :=
    List.filterMap_congr fun a ha ↦ find_eq_some_iff.mpr ⟨ha, rfl⟩
  rw [hfound, List.filterMap_some]

omit [DecidableEq Alternate] in
/-- A property that a record has in a table only when the record of its key already had it in
another is not more frequent in the first table. -/
theorem countP_records_le {t t' : Table S} {p : Record → Bool}
    (h : ∀ k b, e.find t' k = some b → p b = true → ∃ a, e.find t k = some a ∧ p a = true) :
    (e.records t').countP p ≤ (e.records t).countP p := by
  have hnodup : (((e.records t').filter p).map e.key).Nodup :=
    (keys_nodup t').sublist (List.filter_sublist.map e.key)
  have hsubset : ((e.records t').filter p).map e.key ⊆ ((e.records t).filter p).map e.key := by
    intro k hk
    obtain ⟨b, hb, rfl⟩ := List.mem_map.mp hk
    obtain ⟨hmem, hp⟩ := List.mem_filter.mp hb
    obtain ⟨a, ha, hpa⟩ := h _ b (find_eq_some_iff.mpr ⟨hmem, rfl⟩) hp
    obtain ⟨hmem', hkey⟩ := find_eq_some_iff.mp ha
    exact hkey ▸ List.mem_map_of_mem (List.mem_filter.mpr ⟨hmem', hpa⟩)
  calc (e.records t').countP p = (((e.records t').filter p).map e.key).length := by
        rw [List.length_map, List.countP_eq_length_filter]
    _ ≤ (((e.records t).filter p).map e.key).length := (hnodup.subperm hsubset).length_le
    _ = (e.records t).countP p := by rw [List.length_map, List.countP_eq_length_filter]

/-! ### Saving -/

variable (e) in
/-- The upsert of one record; `none` when it fails on a constraint. -/
def save (t : Table S) (record : Record) : Option (Table S) := t.upsert (e.bind record)

theorem find_save {t t' : Table S} {a : Record} (h : e.save t a = some t') (k : Key) :
    e.find t' k = if e.key a = k then some (e.stored a) else e.find t k := by
  rw [find, Table.lookup_upsert h, apply_ite (Option.map e.read), e.key_bind]
  rfl

theorem mem_records_save {t t' : Table S} {a : Record} (h : e.save t a = some t') {b : Record} :
    b ∈ e.records t' ↔ b = e.stored a ∨ (b ∈ e.records t ∧ e.key b ≠ e.key a) := by
  simp only [records, List.mem_map, Table.mem_upsert h, e.key_bind]
  constructor
  · rintro ⟨row, rfl | ⟨hrow, hkey⟩, rfl⟩
    · exact Or.inl rfl
    · exact Or.inr ⟨⟨row, hrow, rfl⟩, by rwa [e.key_read]⟩
  · rintro (rfl | ⟨⟨row, hrow, rfl⟩, hkey⟩)
    · exact ⟨e.bind a, Or.inl rfl, rfl⟩
    · exact ⟨row, Or.inr ⟨hrow, by rwa [e.key_read] at hkey⟩, rfl⟩

/-- Up to their order, a save puts its record in the place of the one with its key. -/
theorem records_save_perm {t t' : Table S} {a : Record} (h : e.save t a = some t') :
    (e.records t').Perm (e.stored a :: (e.records t).filter fun b ↦ e.key b ≠ e.key a) := by
  have hnodup (t : Table S) : (e.records t).Nodup := (keys_nodup t).of_map e.key
  have hfresh : e.stored a ∉ (e.records t).filter fun b ↦ e.key b ≠ e.key a := by
    intro hmem
    exact of_decide_eq_true (List.mem_filter.mp hmem).2 (key_stored a)
  refine (List.perm_ext_iff_of_nodup (hnodup t') ((hnodup t).filter _ |>.cons hfresh)).mpr
    fun b ↦ ?_
  rw [mem_records_save h, List.mem_cons, List.mem_filter, decide_eq_true_eq]

/-- A save under a stored key keeps every record in its place. -/
theorem keys_save_stored {t t' : Table S} {a b : Record} (h : e.save t b = some t')
    (ha : a ∈ e.records t) (hkey : e.key b = e.key a) :
    (e.records t').map e.key = (e.records t).map e.key := by
  have hstored : S.key (e.bind b) ∈ t.rows.map S.key := by
    rw [e.key_bind, hkey, ← map_key_records]
    exact List.mem_map_of_mem ha
  rw [map_key_records, map_key_records, Table.map_key_upsert h hstored]

/-- A save under a fresh key puts its record last. -/
theorem keys_save_fresh {t t' : Table S} {a : Record} (h : e.save t a = some t')
    (hfresh : e.find t (e.key a) = none) :
    (e.records t').map e.key = (e.records t).map e.key ++ [e.key a] := by
  rw [find, Option.map_eq_none_iff, Table.lookup_eq_none_iff] at hfresh
  have hrows : t'.rows = t.rows ++ [e.bind a] := by
    rw [Table.commit_eq_some_iff.mp h]
    refine Table.upsertRows_fresh fun row hrow ↦ ?_
    rw [e.key_bind]
    exact hfresh row hrow
  rw [map_key_records, map_key_records, hrows, List.map_append, List.map_singleton, e.key_bind]

/-- A save puts its record under its second key, and takes away the one its first key found. -/
theorem findAlternate_save {t t' : Table S} {a : Record} (h : e.save t a = some t')
    (u : Alternate) :
    e.findAlternate t' u =
      if e.alternate a = u then some (e.stored a)
      else (e.findAlternate t u).filter fun b ↦ e.key b ≠ e.key a := by
  have hstored : e.stored a ∈ e.records t' := (mem_records_save h).mpr (Or.inl rfl)
  split_ifs with hu
  · exact findAlternate_eq_some_iff.mpr ⟨hstored, (alternate_stored a).trans hu⟩
  · apply Option.ext
    intro b
    rw [Option.filter_eq_some_iff, decide_eq_true_eq, findAlternate_eq_some_iff,
      findAlternate_eq_some_iff, mem_records_save h]
    constructor
    · rintro ⟨rfl | ⟨hb, hkey⟩, halternate⟩
      · exact absurd ((alternate_stored a).symm.trans halternate) hu
      · exact ⟨⟨hb, halternate⟩, hkey⟩
    · rintro ⟨⟨hb, halternate⟩, hkey⟩
      exact ⟨Or.inr ⟨hb, hkey⟩, halternate⟩

/-- A save succeeds exactly when the row passes its checks and no other record holds the second
key. -/
theorem save_isSome_iff {t : Table S} {a : Record} :
    (e.save t a).isSome ↔ S.check (e.bind a) = true ∧
      ∀ b ∈ e.records t, e.alternate b = e.alternate a → e.key b = e.key a := by
  rw [save, Table.upsert_isSome_iff, records, List.forall_mem_map]
  simp only [e.key_bind, e.key_read, e.alternate_bind, e.alternate_read]

/-- The save of a revision that keeps the keys succeeds when its row passes the checks. -/
theorem save_revised {t : Table S} {a b : Record} (ha : a ∈ e.records t)
    (hcheck : S.check (e.bind b) = true) (hkey : e.key b = e.key a)
    (halternate : e.alternate b = e.alternate a) : ∃ t', e.save t b = some t' := by
  refine Option.isSome_iff_exists.mp (save_isSome_iff.mpr ⟨hcheck, fun c hc heq ↦ ?_⟩)
  rw [alternates_injective hc ha (heq.trans halternate), hkey]

/-- The save of a record with fresh keys succeeds when its row passes the checks. -/
theorem save_fresh {t : Table S} {a : Record} (hcheck : S.check (e.bind a) = true)
    (halternate : e.findAlternate t (e.alternate a) = none) : ∃ t', e.save t a = some t' :=
  Option.isSome_iff_exists.mp (save_isSome_iff.mpr
    ⟨hcheck, fun b hb heq ↦ absurd heq (findAlternate_eq_none_iff.mp halternate b hb)⟩)

/-! ### Revising the selected records -/

variable (e) in
/-- The selected records, read before the first save, saved one after the other in a revision; the
flag says whether the loop got through. -/
def reviseAll (t : Table S) (selected : Row → Bool) (revise : Record → Record) :
    Table S × Bool :=
  t.upsertAll ((((t.rows.filter selected).map e.read).map revise).map e.bind)

section Revisions

variable {t : Table S} {selected : Row → Bool} {revise : Record → Record}
  (hkey : ∀ a, e.key (revise a) = e.key a)

include hkey

theorem reviseAll_done (halternate : ∀ a, e.alternate (revise a) = e.alternate a)
    (hcheck : ∀ row ∈ t.rows, selected row = true →
      S.check (e.bind (revise (e.read row))) = true) :
    (e.reviseAll t selected revise).2 = true := by
  refine Table.upsertAll_of_stored ?_ ?_ <;> intro row hrow <;>
    obtain ⟨_, hrevised, rfl⟩ := List.mem_map.mp hrow <;>
    obtain ⟨_, hmem, rfl⟩ := List.mem_map.mp hrevised <;>
    obtain ⟨old, hold, rfl⟩ := List.mem_map.mp hmem <;>
    obtain ⟨hrows, hselected⟩ := List.mem_filter.mp hold
  · exact hcheck old hrows hselected
  · exact ⟨old, hrows, by rw [e.key_bind, hkey, e.key_read],
      by rw [e.alternate_bind, halternate, e.alternate_read]⟩

/-- Revisions keep every record in its place. -/
theorem keys_reviseAll :
    (e.records (e.reviseAll t selected revise).1).map e.key = (e.records t).map e.key := by
  rw [map_key_records, map_key_records]
  refine Table.map_key_upsertAll ?_
  simp only [List.forall_mem_map, e.key_bind, hkey, e.key_read]
  intro row hrow
  exact List.mem_map_of_mem (List.mem_filter.mp hrow).1

/-- After a loop that got through, a key of a selected row finds the revision of its record, and
any other key what it found before. -/
theorem find_reviseAll (hdone : (e.reviseAll t selected revise).2 = true) (k : Key) :
    (∃ row ∈ t.rows, S.key row = k ∧ selected row = true ∧
      e.find (e.reviseAll t selected revise).1 k = some (e.stored (revise (e.read row)))) ∨
    ((∀ row ∈ t.rows, S.key row = k → selected row = false) ∧
      e.find (e.reviseAll t selected revise).1 k = e.find t k) := by
  have hrevised : ∀ row, S.key (e.bind (revise (e.read row))) = S.key row := fun row ↦ by
    rw [e.key_bind, hkey, e.key_read]
  have hnodup : (((((t.rows.filter selected).map e.read).map revise).map e.bind).map
      S.key).Nodup := by
    simp only [List.map_map, Function.comp_def, hrevised]
    exact t.consistent.key_nodup.sublist (List.filter_sublist.map S.key)
  have hlookup := Table.lookup_upsertAll hdone hnodup k
  rw [find, reviseAll, hlookup]
  cases hfound : ((((t.rows.filter selected).map e.read).map revise).map e.bind).find?
      fun row ↦ decide (S.key row = k) with
  | none =>
    refine Or.inr ⟨fun row hrow hk ↦ ?_, by rw [Option.none_or, find]⟩
    by_contra hselected
    have hmem : e.bind (revise (e.read row)) ∈
        (((t.rows.filter selected).map e.read).map revise).map e.bind :=
      List.mem_map_of_mem (List.mem_map_of_mem (List.mem_map_of_mem
        (List.mem_filter.mpr ⟨hrow, eq_true_of_ne_false hselected⟩)))
    simpa [hrevised, hk] using List.find?_eq_none.mp hfound _ hmem
  | some found =>
    have hk : S.key found = k := by simpa using List.find?_some hfound
    obtain ⟨_, hrecord, rfl⟩ := List.mem_map.mp (List.mem_of_find?_eq_some hfound)
    obtain ⟨_, hmem, rfl⟩ := List.mem_map.mp hrecord
    obtain ⟨row, hrow, rfl⟩ := List.mem_map.mp hmem
    obtain ⟨hrows, hselected⟩ := List.mem_filter.mp hrow
    rw [hrevised] at hk
    exact Or.inl ⟨row, hrows, hk, hselected, rfl⟩

end Revisions

end Encoding

end Gaudere.Library
