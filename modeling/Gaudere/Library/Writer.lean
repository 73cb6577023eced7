import Gaudere.Library.Machine
import Mathlib.Data.List.Nodup
import Mathlib.Data.List.Pairwise

/-!
# SQL writers against constraints and triggers

A `TableDefinition` is what a rowid table enforces on whoever writes to it: the NOT NULL and CHECK
constraints of a row (on columns without defaults), its uniqueness constraints, and BEFORE triggers
that abort. A statement inserts or updates any rows, with the values it likes and a conflict
clause, or deletes rows, and takes effect as a whole or not at all.

A constraint violation aborts the statement, or skips the row under OR IGNORE. Under OR REPLACE a
uniqueness violation deletes the rows in the way instead, and fires no delete trigger for them, as
recursive triggers are off. A trigger aborts under every clause.

`kept_run` is the general rule for protection by triggers: when updates that pass the triggers keep
what matters of a row and no delete passes, then a run keeps every row, as long as no OR REPLACE
displaces one.
-/

set_option autoImplicit false
set_option relaxedAutoImplicit false

namespace Gaudere.Library.Sql

/-- The constraints and triggers of a table. -/
structure TableDefinition (Row : Type*) where
  /-- The NOT NULL and CHECK constraints. -/
  check : Row → Bool
  /-- The two rows agree in a PRIMARY KEY or UNIQUE constraint. -/
  sharesKey : Row → Row → Bool
  insertAborts : Row → Bool
  updateAborts : Row → Row → Bool
  deleteAborts : Row → Bool

/-- A stored row with its rowid. -/
structure Entry (Row : Type*) where
  rowid : ℤ
  row : Row
deriving DecidableEq

variable {Row : Type*}

/-- The entries cannot be stored together. -/
def TableDefinition.collides (D : TableDefinition Row) (a b : Entry Row) : Bool :=
  a.rowid == b.rowid || D.sharesKey a.row b.row

structure TableDefinition.Consistent (D : TableDefinition Row) (entries : List (Entry Row)) :
    Prop where
  rowids_nodup : (entries.map Entry.rowid).Nodup
  keys_distinct : entries.Pairwise fun a b ↦ D.sharesKey a.row b.row = false
  checked : ∀ e ∈ entries, D.check e.row = true

instance (D : TableDefinition Row) (entries : List (Entry Row)) :
    Decidable (D.Consistent entries) :=
  decidable_of_iff ((entries.map Entry.rowid).Nodup ∧
      (entries.Pairwise fun a b ↦ D.sharesKey a.row b.row = false) ∧
      ∀ e ∈ entries, D.check e.row = true)
    ⟨fun ⟨hrowids, hkeys, hchecked⟩ ↦ ⟨hrowids, hkeys, hchecked⟩,
      fun h ↦ ⟨h.rowids_nodup, h.keys_distinct, h.checked⟩⟩

/-- The contents of a table, with the proof that its constraints hold. -/
structure Contents (D : TableDefinition Row) where
  entries : List (Entry Row)
  consistent : D.Consistent entries

/-- The conflict clause of a statement. -/
inductive Clause
  | abort
  | ignore
  | replace
deriving DecidableEq, Repr

/-- A row-changing statement. An update names the rowid of each row it changes and the entry it
makes of it. -/
inductive Statement (Row : Type*)
  | insert (clause : Clause) (entries : List (Entry Row))
  | update (clause : Clause) (edits : List (ℤ × Entry Row))
  | delete (rowids : List ℤ)

variable {D : TableDefinition Row}

namespace Contents

def empty (D : TableDefinition Row) : Contents D where
  entries := []
  consistent := ⟨List.nodup_nil, List.Pairwise.nil, fun _ h ↦ absurd h List.not_mem_nil⟩

/-- The contents with these entries, when the constraints allow them. -/
def commit (D : TableDefinition Row) (entries : List (Entry Row)) : Option (Contents D) :=
  if h : D.Consistent entries then some ⟨entries, h⟩ else none

theorem entries_commit {entries : List (Entry Row)} {t : Contents D}
    (h : commit D entries = some t) : t.entries = entries := by
  unfold commit at h
  split_ifs at h
  rw [← Option.some.inj h]

/-- The entry with a rowid. -/
def lookup (t : Contents D) (rowid : ℤ) : Option (Entry Row) :=
  t.entries.find? fun e ↦ decide (e.rowid = rowid)

theorem lookup_eq_some {t : Contents D} {rowid : ℤ} {e : Entry Row} (he : e ∈ t.entries)
    (hrowid : e.rowid = rowid) : t.lookup rowid = some e := by
  cases hfound : t.lookup rowid with
  | none => simpa [hrowid] using List.find?_eq_none.mp hfound e he
  | some other =>
    have hother : other.rowid = rowid := by simpa using List.find?_some hfound
    rw [List.inj_on_of_nodup_map t.consistent.rowids_nodup (List.mem_of_find?_eq_some hfound) he
      (hother.trans hrowid.symm)]

theorem mem_of_lookup {t : Contents D} {rowid : ℤ} {e : Entry Row} (h : t.lookup rowid = some e) :
    e ∈ t.entries ∧ e.rowid = rowid :=
  ⟨List.mem_of_find?_eq_some h, by simpa using List.find?_some h⟩

/-- Store an entry beside others under a conflict clause. -/
def place (t : Contents D) (others : List (Entry Row)) (e : Entry Row) :
    Clause → Option (Contents D)
  | .abort => commit D (others ++ [e])
  | .ignore => some ((commit D (others ++ [e])).getD t)
  | .replace => commit D (others.filter (fun other ↦ !D.collides e other) ++ [e])

def insertOne (clause : Clause) (t : Contents D) (e : Entry Row) : Option (Contents D) :=
  if D.insertAborts e.row then none else place t t.entries e clause

/-- A row that the statement itself removed before reaching it is skipped. -/
def updateOne (clause : Clause) (t : Contents D) (edit : ℤ × Entry Row) : Option (Contents D) :=
  match t.lookup edit.1 with
  | none => some t
  | some old =>
    if D.updateAborts old.row edit.2.row then none
    else place t (t.entries.filter fun other ↦ decide (other.rowid ≠ edit.1)) edit.2 clause

def deleteOne (t : Contents D) (rowid : ℤ) : Option (Contents D) :=
  match t.lookup rowid with
  | none => some t
  | some old =>
    if D.deleteAborts old.row then none
    else commit D (t.entries.filter fun other ↦ decide (other.rowid ≠ rowid))

/-- The contents after a statement, or `none` when it is aborted. -/
def execute (t : Contents D) : Statement Row → Option (Contents D)
  | .insert clause entries => entries.foldlM (insertOne clause) t
  | .update clause edits => edits.foldlM (updateOne clause) t
  | .delete rowids => rowids.foldlM deleteOne t

end Contents

/-- The table, as a machine over the statements of its writers. The reply says whether the
statement took effect. -/
def writer (D : TableDefinition Row) : Machine (Contents D) (Statement Row) Bool where
  step t statement :=
    match t.execute statement with
    | some t' => (t', true)
    | none => (t, false)

/-! ### Protection by triggers -/

/-- Updates that pass the triggers keep what matters of a row and take no key of another one, and
no delete passes. -/
structure TableDefinition.Guards (D : TableDefinition Row) (Keeps : Row → Row → Prop) : Prop where
  refl : ∀ row, Keeps row row
  trans : ∀ {first second third}, Keeps first second → Keeps second third → Keeps first third
  update : ∀ {old new}, D.check old = true → D.updateAborts old new = false → Keeps old new
  symm : ∀ {a b}, D.sharesKey a b = true → D.sharesKey b a = true
  keys : ∀ {old new other}, D.check old = true → D.updateAborts old new = false →
    D.sharesKey new other = true → D.sharesKey old other = true
  delete : ∀ {old}, D.check old = true → D.deleteAborts old = true

/-- Every row is kept by some row of the later contents. -/
def Kept (Keeps : Row → Row → Prop) (t t' : Contents D) : Prop :=
  ∀ e ∈ t.entries, ∃ e' ∈ t'.entries, Keeps e.row e'.row

/-- An OR REPLACE statement removes a row to make room for another: an insertion that no trigger and
no CHECK constraint aborts writes an entry that collides with a stored one, or an update gives an
entry the rowid of another one, which is stored or was written by the same update. -/
def Displaces (t : Contents D) : Statement Row → Prop
  | .insert .replace entries =>
    (∀ e ∈ entries, D.insertAborts e.row = false ∧ D.check e.row = true) ∧
      ∃ e ∈ entries, ∃ old ∈ t.entries, D.collides e old = true
  | .update .replace edits =>
    (∃ edit ∈ edits, ∃ old ∈ t.entries, old.rowid ≠ edit.1 ∧ edit.2.rowid = old.rowid) ∨
      ¬ edits.Pairwise fun first second ↦
        first.2.rowid ≠ second.1 → second.2.rowid ≠ first.2.rowid
  | _ => False

instance (t : Contents D) : DecidablePred (Displaces t)
  | .insert .replace entries => inferInstanceAs (Decidable
      ((∀ e ∈ entries, D.insertAborts e.row = false ∧ D.check e.row = true) ∧
        ∃ e ∈ entries, ∃ old ∈ t.entries, D.collides e old = true))
  | .update .replace edits => inferInstanceAs (Decidable
      ((∃ edit ∈ edits, ∃ old ∈ t.entries, old.rowid ≠ edit.1 ∧ edit.2.rowid = old.rowid) ∨
        ¬ edits.Pairwise fun first second ↦
          first.2.rowid ≠ second.1 → second.2.rowid ≠ first.2.rowid))
  | .insert .abort _ => inferInstanceAs (Decidable False)
  | .insert .ignore _ => inferInstanceAs (Decidable False)
  | .update .abort _ => inferInstanceAs (Decidable False)
  | .update .ignore _ => inferInstanceAs (Decidable False)
  | .delete _ => inferInstanceAs (Decidable False)

theorem Kept.refl {Keeps : Row → Row → Prop} (hguards : D.Guards Keeps) (t : Contents D) :
    Kept Keeps t t :=
  fun e he ↦ ⟨e, he, hguards.refl e.row⟩

theorem Kept.trans {Keeps : Row → Row → Prop} (hguards : D.Guards Keeps)
    {first second third : Contents D} (h : Kept Keeps first second) (h' : Kept Keeps second third) :
    Kept Keeps first third := by
  intro e he
  obtain ⟨e', he', hkeeps⟩ := h e he
  obtain ⟨e'', he'', hkeeps'⟩ := h' e' he'
  exact ⟨e'', he'', hguards.trans hkeeps hkeeps'⟩

/-- Storing an entry leaves the other entries in place, except that OR REPLACE removes those it
collides with; and stores the entry, except that OR IGNORE may leave everything as it was. -/
theorem Contents.place_cases {t t' : Contents D} {others : List (Entry Row)} {e : Entry Row}
    {clause : Clause} (h : t.place others e clause = some t') :
    t' = t ∨ (e ∈ t'.entries ∧ ∀ other ∈ others,
      other ∈ t'.entries ∨ clause = .replace ∧ D.collides e other = true) := by
  cases clause with
  | abort =>
    rw [Contents.entries_commit h]
    exact Or.inr ⟨by simp, fun other hother ↦ Or.inl (List.mem_append_left _ hother)⟩
  | ignore =>
    simp only [Contents.place, Option.some.injEq] at h
    cases hcommit : Contents.commit D (others ++ [e]) with
    | none =>
      rw [hcommit] at h
      exact Or.inl h.symm
    | some committed =>
      rw [hcommit, Option.getD_some] at h
      rw [← h, Contents.entries_commit hcommit]
      exact Or.inr ⟨by simp, fun other hother ↦ Or.inl (List.mem_append_left _ hother)⟩
  | replace =>
    rw [Contents.entries_commit h]
    refine Or.inr ⟨by simp, fun other hother ↦ ?_⟩
    by_cases hcollides : D.collides e other = true
    · exact Or.inr ⟨rfl, hcollides⟩
    · exact Or.inl (List.mem_append_left _ (List.mem_filter.mpr ⟨hother, by simpa using hcollides⟩))

/-- The entries of an insertion under OR REPLACE that takes effect pass the trigger and the CHECK
constraints. -/
theorem passed_of_insert {entries : List (Entry Row)} {t t' : Contents D}
    (h : entries.foldlM (Contents.insertOne .replace) t = some t') :
    ∀ e ∈ entries, D.insertAborts e.row = false ∧ D.check e.row = true := by
  induction entries generalizing t with
  | nil => exact fun e he ↦ absurd he List.not_mem_nil
  | cons e entries ih =>
    rw [List.foldlM_cons, Option.bind_eq_bind, Option.bind_eq_some_iff] at h
    obtain ⟨next, hnext, hrest⟩ := h
    refine List.forall_mem_cons.mpr ⟨?_, ih hrest⟩
    unfold Contents.insertOne at hnext
    split_ifs at hnext with haborts
    have hstored : e ∈ next.entries := by
      rw [Contents.entries_commit hnext]
      exact List.mem_append_right _ List.mem_cons_self
    exact ⟨Bool.not_eq_true _ ▸ haborts, next.consistent.checked e hstored⟩

/-- Inserting entries that displace no stored one leaves every stored entry. -/
theorem mem_of_insert {clause : Clause} {entries : List (Entry Row)} {t t' : Contents D}
    (h : entries.foldlM (Contents.insertOne clause) t = some t') {old : Entry Row}
    (hold : old ∈ t.entries)
    (hsafe : clause = .replace → ∀ e ∈ entries, D.collides e old = false) : old ∈ t'.entries := by
  induction entries generalizing t with
  | nil =>
    cases h
    exact hold
  | cons e entries ih =>
    rw [List.foldlM_cons, Option.bind_eq_bind, Option.bind_eq_some_iff] at h
    obtain ⟨next, hnext, hrest⟩ := h
    refine ih hrest ?_ fun hclause other hother ↦
      hsafe hclause other (List.mem_cons_of_mem _ hother)
    unfold Contents.insertOne at hnext
    split_ifs at hnext
    rcases Contents.place_cases hnext with rfl | ⟨_, hothers⟩
    · exact hold
    · rcases hothers old hold with hmem | ⟨hclause, hcollides⟩
      · exact hmem
      · rw [hsafe hclause e List.mem_cons_self] at hcollides
        cases hcollides

/-- An entry that an update writes past the trigger can collide with another stored one on the rowid
only: its keys are those of the entry it replaces. -/
theorem rowid_eq_of_collides {Keeps : Row → Row → Prop} (hguards : D.Guards Keeps)
    {t : Contents D} {found other new : Entry Row} (hfound : found ∈ t.entries)
    (hother : other ∈ t.entries) (hne : other.rowid ≠ found.rowid)
    (hpasses : D.updateAborts found.row new.row = false) (hcollides : D.collides new other = true) :
    new.rowid = other.rowid := by
  rw [TableDefinition.collides, Bool.or_eq_true, beq_iff_eq] at hcollides
  refine hcollides.resolve_right fun hshares ↦ ?_
  have hold := hguards.keys (t.consistent.checked found hfound) hpasses hshares
  have : Std.Symm fun a b : Entry Row ↦ D.sharesKey a.row b.row = false := by
    refine ⟨fun a b h ↦ ?_⟩
    rw [← Bool.not_eq_true] at h ⊢
    exact fun hshares ↦ h (hguards.symm hshares)
  have hdistinct := t.consistent.keys_distinct.forall hfound hother fun hsame ↦ hne (hsame ▸ rfl)
  rw [hdistinct] at hold
  cases hold

/-- Updates that displace no stored entry, nor one another, keep every stored entry: it is still
there, or it is one of the entries written. -/
theorem kept_of_update {Keeps : Row → Row → Prop} (hguards : D.Guards Keeps) {clause : Clause}
    {edits : List (ℤ × Entry Row)} {t t' : Contents D}
    (h : edits.foldlM (Contents.updateOne clause) t = some t') {old kept : Entry Row}
    (hkept : kept ∈ t.entries) (hkeeps : Keeps old.row kept.row)
    (hsafe : clause = .replace →
      (∀ edit ∈ edits, kept.rowid ≠ edit.1 → edit.2.rowid ≠ kept.rowid) ∧
        edits.Pairwise fun first second ↦
          first.2.rowid ≠ second.1 → second.2.rowid ≠ first.2.rowid) :
    ∃ e' ∈ t'.entries, Keeps old.row e'.row := by
  induction edits generalizing t kept with
  | nil =>
    cases h
    exact ⟨kept, hkept, hkeeps⟩
  | cons edit edits ih =>
    rw [List.foldlM_cons, Option.bind_eq_bind, Option.bind_eq_some_iff] at h
    obtain ⟨next, hnext, hrest⟩ := h
    have hlater : clause = .replace →
        (∀ other ∈ edits, kept.rowid ≠ other.1 → other.2.rowid ≠ kept.rowid) ∧
          edits.Pairwise fun first second ↦
            first.2.rowid ≠ second.1 → second.2.rowid ≠ first.2.rowid := fun hclause ↦
      ⟨fun other hother ↦ (hsafe hclause).1 other (List.mem_cons_of_mem _ hother),
        (List.pairwise_cons.mp (hsafe hclause).2).2⟩
    unfold Contents.updateOne at hnext
    cases hlookup : t.lookup edit.1 with
    | none =>
      rw [hlookup] at hnext
      cases hnext
      exact ih hrest hkept hkeeps hlater
    | some found =>
      rw [hlookup] at hnext
      dsimp only at hnext
      split_ifs at hnext with haborts
      rcases Contents.place_cases hnext with rfl | ⟨hwritten, hothers⟩
      · exact ih hrest hkept hkeeps hlater
      · by_cases hrowid : kept.rowid = edit.1
        · -- The entry itself is updated, past the trigger.
          rw [Contents.lookup_eq_some hkept hrowid, Option.some.injEq] at hlookup
          subst hlookup
          have hupdate := hguards.update (t.consistent.checked kept hkept)
            (Bool.not_eq_true _ ▸ haborts)
          exact ih hrest hwritten (hguards.trans hkeeps hupdate) fun hclause ↦
            ⟨(List.pairwise_cons.mp (hsafe hclause).2).1, (hlater hclause).2⟩
        · rcases hothers kept (List.mem_filter.mpr ⟨hkept, by simpa using hrowid⟩) with
            hmem | ⟨hclause, hcollides⟩
          · exact ih hrest hmem hkeeps hlater
          · obtain ⟨hfound, hat⟩ := Contents.mem_of_lookup hlookup
            have hsame := rowid_eq_of_collides hguards hfound hkept (hat ▸ hrowid)
              (Bool.not_eq_true _ ▸ haborts) hcollides
            exact absurd hsame ((hsafe hclause).1 edit List.mem_cons_self hrowid)

/-- A delete that takes effect meets no row. -/
theorem eq_of_delete {Keeps : Row → Row → Prop} (hguards : D.Guards Keeps) {rowids : List ℤ}
    {t t' : Contents D} (h : rowids.foldlM Contents.deleteOne t = some t') : t' = t := by
  induction rowids generalizing t with
  | nil =>
    cases h
    rfl
  | cons rowid rowids ih =>
    rw [List.foldlM_cons, Option.bind_eq_bind, Option.bind_eq_some_iff] at h
    obtain ⟨next, hnext, hrest⟩ := h
    unfold Contents.deleteOne at hnext
    cases hlookup : t.lookup rowid with
    | none =>
      rw [hlookup] at hnext
      cases hnext
      exact ih hrest
    | some found =>
      have hchecked := t.consistent.checked found (Contents.mem_of_lookup hlookup).1
      rw [hlookup] at hnext
      simp [hguards.delete hchecked] at hnext

/-- A statement that displaces nothing keeps every row. -/
theorem kept_step {Keeps : Row → Row → Prop} (hguards : D.Guards Keeps) (t : Contents D)
    (statement : Statement Row) (hsafe : ¬ Displaces t statement) :
    Kept Keeps t ((writer D).event t statement).after := by
  cases hexecute : t.execute statement with
  | none =>
    simp only [Machine.event, writer, hexecute]
    exact Kept.refl hguards t
  | some t' =>
    simp only [Machine.event, writer, hexecute]
    cases statement with
    | insert clause entries =>
      refine fun e he ↦ ⟨e, mem_of_insert hexecute he ?_, hguards.refl e.row⟩
      rintro rfl other hother
      by_contra hcollides
      exact hsafe ⟨passed_of_insert hexecute, other, hother, e, he, by simpa using hcollides⟩
    | update clause edits =>
      refine fun e he ↦ kept_of_update hguards hexecute he (hguards.refl e.row) ?_
      rintro rfl
      rw [Displaces, not_or, not_not] at hsafe
      exact ⟨fun edit hedit hrowid hsame ↦ hsafe.1 ⟨edit, hedit, e, he, hrowid, hsame⟩, hsafe.2⟩
    | delete rowids =>
      rw [eq_of_delete hguards hexecute]
      exact Kept.refl hguards t

/-- A run whose statements displace nothing keeps every row that it started with. -/
theorem kept_run {Keeps : Row → Row → Prop} (hguards : D.Guards Keeps) {t : Contents D}
    {statements : List (Statement Row)}
    (hsafe : ∀ e ∈ (writer D).history t statements, ¬ Displaces e.before e.call) :
    Kept Keeps t ((writer D).run t statements) :=
  Machine.run_invariant (P := fun t' ↦ Kept Keeps t t')
    (fun s statement hdisplaces hkept ↦
      hkept.trans hguards (kept_step hguards s statement hdisplaces))
    hsafe (Kept.refl hguards t)

end Gaudere.Library.Sql
