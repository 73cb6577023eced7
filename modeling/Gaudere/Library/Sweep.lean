import Mathlib.Data.List.Perm.Basic
import Gaudere.Library.Records

/-!
# Sweeps over a table

A `Sweep` revises the due records of a table: it reads them all before the first save and then
saves the revisions one by one, in the order in which the table answered. A record that is due
stays due as the clock advances, and a revision is never due, so it does not matter which records
an earlier sweep reached before it was interrupted.

`Partly` relates a table to those that interrupted sweeps leave. It is reflexive and kept by every
sweep at an earlier clock value, whatever its order and wherever it stops (`Partly.saves`), and a
sweep that gets through leaves the same table from all of them (`Partly.finish`).
-/

set_option autoImplicit false
set_option relaxedAutoImplicit false

namespace Gaudere.Library

variable {Row Key Alternate Record Clock : Type*} {S : Schema Row Key Alternate}

/-- Which rows of a table are due at a clock value, and what becomes of their records. -/
structure Sweep (e : Encoding S Record) (Clock : Type*) [LE Clock] where
  due : Clock → Row → Bool
  revise : Record → Record
  due_mono : ∀ {now now' : Clock} {row : Row}, now ≤ now' → due now row = true →
    due now' row = true
  settled : ∀ (now : Clock) (a : Record), due now (e.bind (revise a)) = false
  key_revise : ∀ a, e.key (revise a) = e.key a
  alternate_revise : ∀ a, e.alternate (revise a) = e.alternate a
  check_revise : ∀ {now : Clock} {row : Row}, S.check row = true → due now row = true →
    S.check (e.bind (revise (e.read row))) = true

namespace Sweep

variable [LE Clock] {e : Encoding S Record} (sweep : Sweep e Clock)

/-- The due records, in row order. -/
def query (t : Table S) (now : Clock) : List Record := (t.rows.filter (sweep.due now)).map e.read

/-- The row of a revised record. -/
def reviseRow (row : Row) : Row := e.bind (sweep.revise (e.read row))

/-- Sweeps up to a clock value revised some of the rows that are due at it. -/
def Partly (now : Clock) (t t' : Table S) : Prop :=
  ∃ done : Row → Bool, (∀ row ∈ t.rows, done row = true → sweep.due now row = true) ∧
    t'.rows = t.rows.map fun row ↦ if done row then sweep.reviseRow row else row

theorem key_reviseRow (row : Row) : S.key (sweep.reviseRow row) = S.key row := by
  rw [reviseRow, e.key_bind, sweep.key_revise, e.key_read]

theorem alternate_reviseRow (row : Row) : S.alternate (sweep.reviseRow row) = S.alternate row := by
  rw [reviseRow, e.alternate_bind, sweep.alternate_revise, e.alternate_read]

variable {sweep}

/-- The records of an answer in any order are those of the due rows in some order. -/
theorem exists_rows_of_perm {t : Table S} {now : Clock} {order : List Record}
    (horder : order.Perm (sweep.query t now)) :
    ∃ rows : List Row, rows.Perm (t.rows.filter (sweep.due now)) ∧ order = rows.map e.read := by
  have hread : List.Forall₂ (fun a row ↦ a = e.read row) (sweep.query t now)
      (t.rows.filter (sweep.due now)) :=
    List.forall₂_map_left_iff.mpr (List.forall₂_same.mpr fun _ _ ↦ rfl)
  obtain ⟨rows, hrecords, hrows⟩ := List.perm_comp_forall₂ horder hread
  refine ⟨rows, hrows, ?_⟩
  rwa [← List.forall₂_eq_eq_eq, List.forall₂_map_right_iff]

theorem Partly.refl (now : Clock) (t : Table S) : sweep.Partly now t t := by
  refine ⟨fun _ ↦ false, ?_, ?_⟩
  · intro _ _ hdone
    cases hdone
  · simp only [Bool.false_eq_true, if_false, List.map_id']

variable [DecidableEq Key]

/-- An interrupted sweep leaves a record as it was, or as its revision when it was due. -/
theorem Partly.find {now : Clock} {t t' : Table S} (hpartly : sweep.Partly now t t') {k : Key}
    {a : Record} (ha : e.find t k = some a) :
    e.find t' k = some a ∨ (∃ row ∈ t.rows, a = e.read row ∧ sweep.due now row = true) ∧
      e.find t' k = some (e.stored (sweep.revise a)) := by
  obtain ⟨done, hdone, hrows⟩ := hpartly
  obtain ⟨hmem, hkey⟩ := Encoding.find_eq_some_iff.mp ha
  obtain ⟨row, hrow, rfl⟩ := List.mem_map.mp hmem
  have himage : (if done row then sweep.reviseRow row else row) ∈ t'.rows := by
    rw [hrows]
    exact List.mem_map_of_mem hrow
  split_ifs at himage with hrevised
  · refine Or.inr ⟨⟨row, hrow, rfl, hdone row hrow hrevised⟩,
      Encoding.find_eq_some_iff.mpr ⟨List.mem_map_of_mem himage, ?_⟩⟩
    rw [Encoding.key_stored, sweep.key_revise, hkey]
  · exact Or.inl (Encoding.find_eq_some_iff.mpr ⟨List.mem_map_of_mem himage, hkey⟩)

/-- An interrupted sweep adds no record. -/
theorem Partly.find_eq_none {now : Clock} {t t' : Table S} (hpartly : sweep.Partly now t t')
    {k : Key} (hnone : e.find t k = none) : e.find t' k = none := by
  obtain ⟨done, _, hrows⟩ := hpartly
  rw [Encoding.find, Option.map_eq_none_iff, Table.lookup_eq_none_iff] at hnone ⊢
  rw [hrows, List.forall_mem_map]
  intro row hrow
  split_ifs
  · rw [key_reviseRow]
    exact hnone row hrow
  · exact hnone row hrow

variable [DecidableEq Alternate]

variable (sweep) in
/-- The saves of some revised records, one after the other; the flag says whether the loop got
through. -/
def saves (t : Table S) (records : List Record) : Table S × Bool :=
  t.upsertAll ((records.map sweep.revise).map e.bind)

theorem saves_map_read (t : Table S) (rows : List Row) :
    sweep.saves t (rows.map e.read) = t.upsertAll (rows.map sweep.reviseRow) := by
  rw [saves, List.map_map, List.map_map]
  rfl

variable [DecidableEq Row]

/-- The save of one revision puts it in the place of its row. -/
theorem rows_upsert_reviseRow {t : Table S} {row : Row} (hrow : row ∈ t.rows)
    (hcheck : S.check (sweep.reviseRow row) = true) :
    ∃ t', t.upsert (sweep.reviseRow row) = some t' ∧
      t'.rows = t.rows.map fun r ↦ if r = row then sweep.reviseRow r else r := by
  have hsome : (t.upsert (sweep.reviseRow row)).isSome := by
    refine Table.upsert_isSome_iff.mpr ⟨hcheck, fun r hr halternate ↦ ?_⟩
    rw [sweep.alternate_reviseRow] at halternate
    rw [t.alternate_injective hr hrow halternate, sweep.key_reviseRow]
  obtain ⟨t', ht'⟩ := Option.isSome_iff_exists.mp hsome
  refine ⟨t', ht', ?_⟩
  have hany : t.rows.any (fun r ↦ decide (S.key r = S.key (sweep.reviseRow row))) = true :=
    List.any_eq_true.mpr ⟨row, hrow, decide_eq_true (sweep.key_reviseRow row).symm⟩
  rw [Table.commit_eq_some_iff.mp ht', Table.upsertRows, if_pos hany]
  refine List.map_congr_left fun r hr ↦ ?_
  rw [sweep.key_reviseRow]
  by_cases hsame : r = row
  · rw [if_pos (congrArg S.key hsame), if_pos hsame, hsame]
  · rw [if_neg fun hkey ↦ hsame (t.key_injective hr hrow hkey), if_neg hsame]

/-- The saves of the revisions of distinct rows get through and put each in its place. -/
theorem rows_saves {t : Table S} {rows : List Row} (hnodup : rows.Nodup)
    (hmem : ∀ row ∈ rows, row ∈ t.rows)
    (hcheck : ∀ row ∈ rows, S.check (sweep.reviseRow row) = true) :
    ∃ t', t.upsertAll (rows.map sweep.reviseRow) = (t', true) ∧
      t'.rows = t.rows.map fun row ↦ if row ∈ rows then sweep.reviseRow row else row := by
  induction rows generalizing t with
  | nil =>
    refine ⟨t, rfl, ?_⟩
    simp only [List.not_mem_nil, if_false, List.map_id']
  | cons row rows ih =>
    rw [List.nodup_cons] at hnodup
    rw [List.forall_mem_cons] at hmem hcheck
    obtain ⟨t₁, hsave, hrows₁⟩ := rows_upsert_reviseRow hmem.1 hcheck.1
    have hlater : ∀ r ∈ rows, r ∈ t₁.rows := fun r hr ↦ by
      rw [hrows₁, List.mem_map]
      exact ⟨r, hmem.2 r hr, if_neg (ne_of_mem_of_not_mem hr hnodup.1)⟩
    obtain ⟨t', hsaves, hrows⟩ := ih hnodup.2 hlater hcheck.2
    refine ⟨t', ?_, ?_⟩
    · rw [List.map_cons, Table.upsertAll, hsave]
      exact hsaves
    · rw [hrows, hrows₁, List.map_map]
      refine List.map_congr_left fun r hr ↦ ?_
      rw [Function.comp_apply]
      by_cases hsame : r = row
      · -- The revision of a saved row is not saved again: it is none of the rows that follow.
        have hfresh : sweep.reviseRow r ∉ rows := fun hrevised ↦ by
          have hstored := t.key_injective (hmem.2 _ hrevised) hr (sweep.key_reviseRow r)
          rw [hstored, hsame] at hrevised
          exact hnodup.1 hrevised
        rw [if_pos hsame, if_neg hfresh, if_pos (hsame ▸ List.mem_cons_self)]
      · rw [if_neg hsame]
        exact if_congr ⟨List.mem_cons_of_mem row, fun h ↦ List.mem_of_ne_of_mem hsame h⟩ rfl rfl

/-- The saves of some of the due rows, in any order. -/
theorem rows_saves_due {t : Table S} {now : Clock} {rows due : List Row}
    (hdue : due.Perm (t.rows.filter (sweep.due now))) (hrows : rows.Sublist due) :
    ∃ t', sweep.saves t (rows.map e.read) = (t', true) ∧
      t'.rows = t.rows.map fun row ↦ if row ∈ rows then sweep.reviseRow row else row := by
  have hmem : ∀ row ∈ rows, row ∈ t.rows ∧ sweep.due now row = true := fun row hrow ↦
    List.mem_filter.mp (hdue.mem_iff.mp (hrows.subset hrow))
  have hnodup : due.Nodup :=
    hdue.nodup_iff.mpr ((List.Nodup.of_map S.key t.consistent.key_nodup).filter _)
  rw [saves_map_read]
  exact rows_saves (hnodup.sublist hrows) (fun row hrow ↦ (hmem row hrow).1) fun row hrow ↦
    sweep.check_revise (t.consistent.checked row (hmem row hrow).1) (hmem row hrow).2

/-- A sweep at an earlier clock value revises more of the due rows, in whatever order it saves
them and wherever it stops. -/
theorem Partly.saves {now now' : Clock} {t t₁ : Table S} (hpartly : sweep.Partly now' t t₁)
    (hle : now ≤ now') {order : List Record} (horder : order.Perm (sweep.query t₁ now)) (n : ℕ) :
    sweep.Partly now' t (sweep.saves t₁ (order.take n)).1 := by
  obtain ⟨done, hdone, hrows₁⟩ := hpartly
  obtain ⟨rows, hrows, rfl⟩ := exists_rows_of_perm horder
  obtain ⟨t₂, hsaves, hrows₂⟩ := rows_saves_due hrows (List.take_sublist n rows)
  have hdue : ∀ row ∈ rows.take n, sweep.due now row = true := fun row hrow ↦
    (List.mem_filter.mp (hrows.mem_iff.mp (List.mem_of_mem_take hrow))).2
  have hmore : ∀ row, (done row || decide (row ∈ rows.take n)) = true ↔
      done row = true ∨ row ∈ rows.take n := fun row ↦ by
    rw [Bool.or_eq_true, decide_eq_true_eq]
  rw [← List.map_take, hsaves]
  refine ⟨fun row ↦ done row || decide (row ∈ rows.take n), fun row hrow hrevised ↦ ?_, ?_⟩
  · rcases (hmore row).mp hrevised with hbefore | hnow
    · exact hdone row hrow hbefore
    · exact sweep.due_mono hle (hdue row hnow)
  · rw [hrows₂, hrows₁, List.map_map]
    refine List.map_congr_left fun row _ ↦ ?_
    rw [Function.comp_apply]
    by_cases hbefore : done row = true
    · -- What was revised before is not due and stays.
      have hidle : sweep.reviseRow row ∉ rows.take n := fun hrevised ↦ by
        have hagain := hdue _ hrevised
        rw [reviseRow, sweep.settled] at hagain
        cases hagain
      rw [if_pos hbefore, if_neg hidle, if_pos ((hmore row).mpr (Or.inl hbefore))]
    · rw [if_neg hbefore]
      exact if_congr ((hmore row).trans (or_iff_right hbefore)).symm rfl rfl

/-- A sweep that is not interrupted leaves the same table, the one with every due row revised,
whatever earlier sweeps reached. -/
theorem Partly.finish {now : Clock} {t t₁ : Table S} (hpartly : sweep.Partly now t t₁)
    {order : List Record} (horder : order.Perm (sweep.query t₁ now)) :
    ∃ t₂, sweep.saves t₁ order = (t₂, true) ∧
      t₂.rows = t.rows.map fun row ↦ if sweep.due now row then sweep.reviseRow row else row := by
  obtain ⟨done, hdone, hrows₁⟩ := hpartly
  obtain ⟨rows, hrows, rfl⟩ := exists_rows_of_perm horder
  obtain ⟨t₂, hsaves, hrows₂⟩ := rows_saves_due hrows (List.Sublist.refl rows)
  refine ⟨t₂, hsaves, ?_⟩
  have hall : t₂.rows = t₁.rows.map fun row ↦
      if sweep.due now row then sweep.reviseRow row else row := by
    rw [hrows₂]
    refine List.map_congr_left fun row hrow ↦ if_congr ?_ rfl rfl
    rw [hrows.mem_iff, List.mem_filter, and_iff_right hrow]
  rw [hall, hrows₁, List.map_map]
  refine List.map_congr_left fun row hrow ↦ ?_
  rw [Function.comp_apply]
  by_cases hbefore : done row = true
  · have hidle : ¬ sweep.due now (sweep.reviseRow row) = true := by
      rw [reviseRow, sweep.settled]
      decide
    rw [if_pos hbefore, if_neg hidle, if_pos (hdone row hrow hbefore)]
  · rw [if_neg hbefore]

/-- So it leaves what a single sweep leaves, in whatever order. -/
theorem Partly.saves_eq {now : Clock} {t t₁ : Table S} (hpartly : sweep.Partly now t t₁)
    {order : List Record} (horder : order.Perm (sweep.query t₁ now)) :
    sweep.saves t₁ order = ((sweep.saves t (sweep.query t now)).1, true) := by
  obtain ⟨t₂, hagain, hrows⟩ := hpartly.finish horder
  obtain ⟨t₃, honce, hrows'⟩ := (Partly.refl now t).finish (List.Perm.refl (sweep.query t now))
  rw [hagain, honce, Table.ext (hrows.trans hrows'.symm)]

/-- An interrupted sweep leaves under each key what was there, or what a whole sweep leaves. -/
theorem Partly.find_or {now : Clock} {t t' : Table S} (hpartly : sweep.Partly now t t') (k : Key) :
    e.find t' k = e.find t k ∨
      e.find t' k = e.find (sweep.saves t (sweep.query t now)).1 k := by
  obtain ⟨whole, hwhole, hrows⟩ := (Partly.refl now t).finish (List.Perm.refl (sweep.query t now))
  cases hfind : e.find t k with
  | none => exact Or.inl (hpartly.find_eq_none hfind)
  | some a =>
    rcases hpartly.find hfind with hkept | ⟨⟨row, hrow, rfl, hdue⟩, hrevised⟩
    · exact Or.inl hkept
    · have himage : sweep.reviseRow row ∈ whole.rows := by
        rw [hrows]
        exact List.mem_map.mpr ⟨row, hrow, if_pos hdue⟩
      have hkey := (Encoding.find_eq_some_iff.mp hfind).2
      rw [hrevised, hwhole]
      refine Or.inr (Encoding.find_eq_some_iff.mpr ⟨List.mem_map_of_mem himage, ?_⟩).symm
      rw [e.key_read, key_reviseRow, ← e.key_read, hkey]

end Sweep

end Gaudere.Library
