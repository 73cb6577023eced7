import Mathlib.Data.Set.List
import Gaudere.WakeIntents.Refinement

/-!
# The constraints of the table describe the readable rows

What a wake intent may be is written twice: as CHECK constraints of the table, in SQL's
three-valued logic, and as the C++ validator that `read_intent` applies to what it decodes.
`checks_iff_readable` says that the two agree on every row whose times are clock values in
milliseconds: the database admits the row exactly when the store can read it.

So a table of such rows, whoever wrote it, represents a book (`exists_book_of_representable`).
-/

set_option autoImplicit false
set_option relaxedAutoImplicit false

namespace Gaudere.WakeIntents

open Gaudere.Library Sql WakeIntentStore

/-- The times of the row are clock values in milliseconds. -/
structure IntentRow.Representable (row : IntentRow) : Prop where
  acceptedAt : Fits (row.acceptedAtMs.toInt * 1000000)
  dueAt : Fits (row.dueAtMs.toInt * 1000000)
  terminalAt : ∀ ms, row.terminalAtMs = some ms → Fits (ms.toInt * 1000000)

/-! ### Reading -/

/-- What `read_intent` decodes of a row with a status in range. -/
def decoded (row : IntentRow) (status : WakeIntentStatus) : WakeIntent where
  scope := row.scope
  id := row.id
  sourceId := row.sourceId
  acceptedAt := timePoint row.acceptedAtMs
  dueAt := timePoint row.dueAtMs
  status := status
  terminalAt := row.terminalAtMs.map timePoint
  terminalReason := row.terminalReason

/-- A row is read exactly when its status is in range and what it decodes to is valid. -/
theorem readIntent_eq_ok_iff {row : IntentRow} {intent : WakeIntent} :
    readIntent row = .ok intent ↔ ∃ status, WakeIntentStatus.ofCode? row.status = some status ∧
      decoded row status = intent ∧ intent.Valid := by
  unfold readIntent
  cases hstatus : WakeIntentStatus.ofCode? row.status with
  | none => simp
  | some status =>
    change (if validWakeIntent (decoded row status) then Except.ok (decoded row status) else _) =
      .ok intent ↔ _
    simp only [Option.some.injEq, exists_eq_left']
    split_ifs with hvalid
    · rw [Except.ok.injEq]
      constructor
      · rintro rfl
        exact ⟨rfl, validWakeIntent_iff.mp hvalid⟩
      · exact And.left
    · refine iff_of_false (fun herror ↦ by cases herror) ?_
      rintro ⟨rfl, h⟩
      exact hvalid (validWakeIntent_iff.mpr h)

theorem code_of_ofCode? {code : Int32} {status : WakeIntentStatus}
    (h : WakeIntentStatus.ofCode? code = some status) : status.code = code := by
  unfold WakeIntentStatus.ofCode? at h
  split at h <;> rename_i hcode <;> cases h <;> exact Int32.toInt_inj.mp hcode.symm

theorem exists_ofCode? {code : Int32} (h : 0 ≤ code.toInt ∧ code.toInt ≤ 3) :
    ∃ status, WakeIntentStatus.ofCode? code = some status := by
  obtain ⟨hlower, hupper⟩ := h
  obtain hcode | hcode | hcode | hcode :
      code.toInt = 0 ∨ code.toInt = 1 ∨ code.toInt = 2 ∨ code.toInt = 3 := by omega
  · exact ⟨.scheduled, by simp only [WakeIntentStatus.ofCode?, hcode]⟩
  · exact ⟨.fired, by simp only [WakeIntentStatus.ofCode?, hcode]⟩
  · exact ⟨.revoked, by simp only [WakeIntentStatus.ofCode?, hcode]⟩
  · exact ⟨.manualReview, by simp only [WakeIntentStatus.ofCode?, hcode]⟩

/-- A representable row is read as the intent that it is the row of. -/
theorem encode_decoded {row : IntentRow} (hrow : row.Representable) {status : WakeIntentStatus}
    (hstatus : WakeIntentStatus.ofCode? row.status = some status) :
    encode (decoded row status) = row := by
  have hterminal : (row.terminalAtMs.map timePoint).map milliseconds = row.terminalAtMs := by
    cases hat : row.terminalAtMs with
    | none => rfl
    | some ms =>
      rw [Option.map_some, Option.map_some, milliseconds, timePoint,
        toMilliseconds_ofMilliseconds (hrow.terminalAt ms hat)]
  simp only [encode, decoded, hterminal, milliseconds, timePoint, code_of_ofCode? hstatus,
    toMilliseconds_ofMilliseconds hrow.acceptedAt, toMilliseconds_ofMilliseconds hrow.dueAt]

theorem readable_iff_encode {row : IntentRow} (hrow : row.Representable) {intent : WakeIntent} :
    readIntent row = .ok intent ↔ intent.Valid ∧ encode intent = row := by
  constructor
  · intro hread
    obtain ⟨status, hstatus, rfl, hvalid⟩ := readIntent_eq_ok_iff.mp hread
    exact ⟨hvalid, encode_decoded hrow hstatus⟩
  · rintro ⟨hvalid, rfl⟩
    exact readIntent_encode hvalid

/-! ### The constraints -/

theorem aligned_timePoint {ms : Int64} (h : Fits (ms.toInt * 1000000)) :
    Aligned (timePoint ms) := by
  rw [Aligned, timePoint, toMilliseconds_ofMilliseconds h]

theorem timePoint_le_iff {a b : Int64} (ha : Fits (a.toInt * 1000000))
    (hb : Fits (b.toInt * 1000000)) : timePoint a ≤ timePoint b ↔ a.toInt ≤ b.toInt := by
  rw [Int64.le_iff_toInt_le, timePoint, timePoint, toInt_ofMilliseconds ha,
    toInt_ofMilliseconds hb]
  omega

theorem timePoint_lt_iff {a b : Int64} (ha : Fits (a.toInt * 1000000))
    (hb : Fits (b.toInt * 1000000)) : timePoint a < timePoint b ↔ a.toInt < b.toInt := by
  rw [Int64.lt_iff_toInt_lt, timePoint, timePoint, toInt_ofMilliseconds ha,
    toInt_ofMilliseconds hb]
  omega

/-- The terminal fields that go with a status after the scheduled one. -/
theorem validTerminalShape_of_terminal {intent : WakeIntent} {terminalAt : TimePoint}
    (hat : intent.terminalAt = some terminalAt) (hstatus : intent.status ≠ .scheduled)
    (hreason : intent.status = .fired ↔ intent.terminalReason = [])
    (hfired : intent.status = .fired → intent.dueAt ≤ terminalAt)
    (hrevoked : intent.status = .revoked →
      intent.acceptedAt ≤ terminalAt ∧ terminalAt < intent.dueAt) :
    validTerminalShape intent = true := by
  cases hterminal : intent.status with
  | scheduled => exact absurd hterminal hstatus
  | fired =>
    simp [validTerminalShape, hterminal, hat, hreason.mp hterminal, hfired hterminal]
  | revoked =>
    have hnonempty : intent.terminalReason ≠ [] := fun hempty ↦ by
      have hearly := hreason.mpr hempty
      rw [hterminal] at hearly
      cases hearly
    simp [validTerminalShape, hterminal, hat, hnonempty, hrevoked hterminal]
  | manualReview =>
    have hnonempty : intent.terminalReason ≠ [] := fun hempty ↦ by
      have hearly := hreason.mpr hempty
      rw [hterminal] at hearly
      cases hearly
    simp [validTerminalShape, hterminal, hat, hnonempty]

/-- The terminal fields of an admitted row go with its status. -/
theorem validTerminalShape_decoded {row : IntentRow} (h : row.Admitted)
    (hrow : row.Representable) {status : WakeIntentStatus} (hcode : status.code = row.status) :
    validTerminalShape (decoded row status) = true := by
  have hzero : row.status.toInt = 0 ↔ status = .scheduled := by
    rw [← hcode]
    cases status <;> decide
  have hone : row.status.toInt = 1 ↔ status = .fired := by
    rw [← hcode]
    cases status <;> decide
  cases hat : row.terminalAtMs with
  | none =>
    have hstatus := h.scheduled.mpr hat
    have hempty := h.reason.mp (Or.inl hstatus)
    simp [validTerminalShape, decoded, hzero.mp hstatus, hat, hempty]
  | some ms =>
    have hms := hrow.terminalAt ms hat
    have hscheduled : status ≠ .scheduled := fun hscheduled ↦ by
      rw [h.scheduled.mp (hzero.mpr hscheduled)] at hat
      cases hat
    refine validTerminalShape_of_terminal (congrArg (Option.map timePoint) hat) hscheduled ?_ ?_ ?_
    · have hreason := h.reason
      rw [hzero, hone, or_iff_right hscheduled] at hreason
      exact hreason
    · intro hfired
      exact (timePoint_le_iff hrow.dueAt hms).mpr (h.fired (hone.mpr hfired) ms hat)
    · intro (htwo : status = .revoked)
      obtain ⟨haccepted, hdue⟩ := h.revoked (by rw [← hcode, htwo]; rfl) ms hat
      exact ⟨(timePoint_le_iff hrow.acceptedAt hms).mpr haccepted,
        (timePoint_lt_iff hms hrow.dueAt).mpr hdue⟩

/-- An admitted representable row decodes to a valid intent. -/
theorem valid_decoded {row : IntentRow} (h : row.Admitted) (hrow : row.Representable)
    {status : WakeIntentStatus} (hcode : status.code = row.status) :
    (decoded row status).Valid where
  scope := validWakeIntentIdentifier_iff.mpr h.scope
  id := validWakeIntentIdentifier_iff.mpr h.id
  sourceId := validWakeIntentIdentifier_iff.mpr h.sourceId
  acceptedAt := aligned_timePoint hrow.acceptedAt
  dueAt := aligned_timePoint hrow.dueAt
  ordered := (timePoint_lt_iff hrow.acceptedAt hrow.dueAt).mpr h.ordered
  reason := h.reasonLength
  shape := validTerminalShape_decoded h hrow hcode
  terminalAt terminalAt hat := by
    obtain ⟨ms, hms, rfl⟩ := Option.map_eq_some_iff.mp hat
    exact aligned_timePoint (hrow.terminalAt ms hms)

theorem admitted_iff_readable {row : IntentRow} (hrow : row.Representable) :
    row.Admitted ↔ ∃ intent, readIntent row = .ok intent := by
  constructor
  · intro h
    obtain ⟨status, hstatus⟩ := exists_ofCode? h.status
    exact ⟨_, readIntent_eq_ok_iff.mpr
      ⟨status, hstatus, rfl, valid_decoded h hrow (code_of_ofCode? hstatus)⟩⟩
  · rintro ⟨intent, hread⟩
    obtain ⟨hvalid, rfl⟩ := (readable_iff_encode hrow).mp hread
    exact admitted_encode hvalid

/-- The columns of a row of the store are not NULL, except the terminal time. -/
theorem notNull_cells (row : IntentRow) : row.cells.notNull = true := by
  simp [IntentCells.notNull, IntentRow.cells, IntegerCell.ofInt_ne_null]

/-- For every row with any `int` as its status and times that are clock values in milliseconds: it
passes all CHECK constraints of the table exactly when `read_intent` decodes it, that is, when its
status is in range and the decoded record is valid; and that record is the one whose row it is. -/
theorem checks_iff_readable {row : IntentRow} (hrow : row.Representable) :
    (row.cells.checks.all Truth.passes = true ↔ ∃ intent, readIntent row = .ok intent) ∧
      ((∃ intent, readIntent row = .ok intent) ↔
        ∃ status, WakeIntentStatus.ofCode? row.status = some status ∧
          validWakeIntent (decoded row status) = true) ∧
      ∀ intent, readIntent row = .ok intent ↔
        validWakeIntent intent = true ∧ encode intent = row := by
  refine ⟨?_, ?_, fun intent ↦ ?_⟩
  · rw [← admitted_iff_readable hrow, ← admitted_cells_iff]
    simp only [wakeIntents, IntentCells.admitted, notNull_cells, Bool.true_and]
  · simp only [readIntent_eq_ok_iff, validWakeIntent_iff]
    constructor
    · rintro ⟨intent, status, hstatus, rfl, hvalid⟩
      exact ⟨status, hstatus, hvalid⟩
    · rintro ⟨status, hstatus, hvalid⟩
      exact ⟨_, status, hstatus, rfl, hvalid⟩
  · rw [readable_iff_encode hrow, validWakeIntent_iff]

/-- A revoked intent, in the table's columns. -/
def revokedRow : IntentRow where
  scope := ascii "probe"
  id := ascii "first"
  sourceId := ascii "source"
  acceptedAtMs := -5
  dueAtMs := 5
  status := 2
  terminalAtMs := some 4
  terminalReason := ascii "withdrawn"

theorem checks_iff_readable_revoked :
    (∃ intent, readIntent revokedRow = .ok intent) ∧
      ¬ ∃ intent, readIntent { revokedRow with terminalAtMs := some 5 } = .ok intent := by
  have haccepted : Fits ((-5 : Int64).toInt * 1000000) := by decide
  have hterminal : Fits ((4 : Int64).toInt * 1000000) := by decide
  have hdue : Fits ((5 : Int64).toInt * 1000000) := by decide
  have hrevoked : revokedRow.Representable := by
    refine ⟨haccepted, hdue, ?_⟩
    rintro _ ⟨⟩
    exact hterminal
  have hlate : ({ revokedRow with terminalAtMs := some 5 } : IntentRow).Representable := by
    refine ⟨haccepted, hdue, ?_⟩
    rintro _ ⟨⟩
    exact hdue
  constructor
  · rw [← (checks_iff_readable hrevoked).1]
    decide
  · rw [← (checks_iff_readable hlate).1]
    decide

/-! ### Tables -/

/-- The times in the table are clock values in milliseconds. -/
def RepresentableTable (t : IntentTable) : Prop := ∀ row ∈ t.rows, row.Representable

theorem representable_encode {intent : WakeIntent} : (encode intent).Representable where
  acceptedAt := fits_toMilliseconds_mul _
  dueAt := fits_toMilliseconds_mul _
  terminalAt ms hms := by
    obtain ⟨terminalAt, _, rfl⟩ := Option.map_eq_some_iff.mp hms
    exact fits_toMilliseconds_mul terminalAt

theorem representable_of_represents {t : IntentTable} {b : Book} (h : Represents t b) :
    RepresentableTable t := by
  intro row hrow
  rw [h] at hrow
  obtain ⟨intent, _, rfl⟩ := List.mem_map.mp hrow
  exact representable_encode

/-- The constraints of the table make a book of any representable table. -/
theorem exists_book_of_representable {t : IntentTable} (h : RepresentableTable t) :
    ∃ b, Represents t b := by
  have hread : ∀ row ∈ t.rows, ∃ intent, readIntent row = .ok intent := fun row hrow ↦
    (admitted_iff_readable (h row hrow)).mp (admitted_cells_iff.mp (t.consistent.checked row hrow))
  have hrange : t.rows ∈ Set.range (List.map fun intent : { i : WakeIntent // i.Valid } ↦
      encode intent.val) := by
    rw [Set.range_list_map]
    intro row hrow
    obtain ⟨intent, hintent⟩ := hread row hrow
    obtain ⟨hvalid, hencode⟩ := (readable_iff_encode (h row hrow)).mp hintent
    exact ⟨⟨intent, hvalid⟩, hencode⟩
  obtain ⟨intents, hrows⟩ := hrange
  have hrows' : t.rows = (intents.map Subtype.val).map encode := by
    rw [← hrows, List.map_map]
    rfl
  have hids := t.consistent.key_nodup
  have hsources := t.consistent.alternate_nodup
  rw [hrows', List.map_map] at hids hsources
  refine ⟨⟨intents.map Subtype.val, ?_, hids, hsources⟩, hrows'⟩
  intro intent hintent
  obtain ⟨valid, _, rfl⟩ := List.mem_map.mp hintent
  exact valid.property

end Gaudere.WakeIntents
