import Gaudere.Library.Cpp
import Gaudere.Library.Records

/-!
# Wake actions and their SQLite store

`Action` is the record of one external effect, with its lifecycle status and its effect marker,
and `canTransition` the status graph. The store keeps actions in the table `actions`: a row holds
one column for each bound parameter (`bindAction`), with enumerators as their codes and an absent
lease as two NULLs, and `readAction` decodes it.

Strings are bound through `bindText`, which passes `c_str()` without a length, so SQLite stores
and compares what precedes the first NUL; lease expiries are stored in milliseconds. `stored` is
what reading back a saved action gives. The lemmas describe `find` and `save` by their effect on
the records of the table, and come from those of `actionEncoding`.
-/

set_option autoImplicit false
set_option relaxedAutoImplicit false

namespace Gaudere.Wake

open Gaudere.Library

inductive ActionStatus
  | pending
  | running
  | retryWait
  | succeeded
  | failedPermanent
  | manualReview
deriving DecidableEq, Repr

inductive EffectResult
  | none
  | confirmed
  | unknown
deriving DecidableEq, Repr

structure Lease where
  owner : Bytes
  expiresAt : TimePoint
deriving DecidableEq, Repr

structure Action where
  id : Bytes
  idempotencyKey : Bytes
  critical : Bool
  status : ActionStatus
  effectResult : EffectResult
  lease : Option Lease
deriving DecidableEq, Repr

def canTransition : ActionStatus → ActionStatus → Bool
  | .pending, target => target == .running || target == .failedPermanent
  | .running, target =>
    target == .retryWait || target == .succeeded || target == .failedPermanent ||
      target == .manualReview
  | .retryWait, target => target == .running || target == .failedPermanent
  | .succeeded, _ => false
  | .failedPermanent, _ => false
  | .manualReview, _ => false

/-! ### Columns -/

/-- The integer an enumerator converts to. -/
def ActionStatus.code : ActionStatus → ℤ
  | .pending => 0
  | .running => 1
  | .retryWait => 2
  | .succeeded => 3
  | .failedPermanent => 4
  | .manualReview => 5

/-- The conversion of a stored integer to an enumerator. The CHECK on the column keeps it between
0 and 5. -/
def ActionStatus.ofCode : ℤ → ActionStatus
  | 0 => .pending
  | 1 => .running
  | 2 => .retryWait
  | 3 => .succeeded
  | 4 => .failedPermanent
  | _ => .manualReview

def EffectResult.code : EffectResult → ℤ
  | .none => 0
  | .confirmed => 1
  | .unknown => 2

/-- The conversion of a stored integer to an enumerator. The CHECK on the column keeps it between
0 and 2. -/
def EffectResult.ofCode : ℤ → EffectResult
  | 0 => .none
  | 1 => .confirmed
  | _ => .unknown

@[simp] theorem ActionStatus.ofCode_code (status : ActionStatus) :
    ActionStatus.ofCode status.code = status := by
  cases status <;> rfl

@[simp] theorem EffectResult.ofCode_code (effect : EffectResult) :
    EffectResult.ofCode effect.code = effect := by
  cases effect <;> rfl

/-- A row of the table `actions`. -/
structure ActionRow where
  id : CText
  idempotencyKey : CText
  critical : ℤ
  status : ℤ
  effectResult : ℤ
  leaseOwner : Option CText
  leaseExpiresAtMs : Option Int64
deriving DecidableEq, Repr

/-- The constraints of the table `actions`. -/
def actionSchema : Schema ActionRow CText CText where
  key := ActionRow.id
  alternate := ActionRow.idempotencyKey
  check row :=
    (row.critical == 0 || row.critical == 1) &&
    (0 ≤ row.status && row.status ≤ 5) &&
    (0 ≤ row.effectResult && row.effectResult ≤ 2) &&
    (row.leaseOwner.isNone == row.leaseExpiresAtMs.isNone)

abbrev ActionTable := Table actionSchema

namespace ActionStore

def milliseconds (value : TimePoint) : Int64 := toMilliseconds value

def timePoint (value : Int64) : TimePoint := ofMilliseconds value

/-- `sqlite3_bind_text` with length -1: SQLite reads the string up to its first NUL. -/
def bindText (value : Bytes) : CText := toCText value

/-- The parameters that `save` binds. -/
def bindAction (action : Action) : ActionRow where
  id := bindText action.id
  idempotencyKey := bindText action.idempotencyKey
  critical := if action.critical then 1 else 0
  status := action.status.code
  effectResult := action.effectResult.code
  leaseOwner := action.lease.map fun lease ↦ bindText lease.owner
  leaseExpiresAtMs := action.lease.map fun lease ↦ milliseconds lease.expiresAt

/-- `sqlite3_column_int64` of a NULL is 0. -/
def readAction (row : ActionRow) : Action where
  id := row.id.val
  idempotencyKey := row.idempotencyKey.val
  critical := row.critical != 0
  status := .ofCode row.status
  effectResult := .ofCode row.effectResult
  lease := row.leaseOwner.map fun owner ↦
    { owner := owner.val, expiresAt := timePoint (row.leaseExpiresAtMs.getD 0) }

/-- Actions as rows of the table, under the text that their id and key are bound to. -/
def actionEncoding : Encoding actionSchema Action where
  bind := bindAction
  read := readAction
  key action := bindText action.id
  alternate action := bindText action.idempotencyKey
  key_bind _ := rfl
  key_read row := toCText_val row.id
  alternate_bind _ := rfl
  alternate_read row := toCText_val row.idempotencyKey

def find (t : ActionTable) (id : Bytes) : Option Action :=
  (t.lookup (bindText id)).map readAction

def findByIdempotencyKey (t : ActionTable) (key : Bytes) : Option Action :=
  (t.lookupAlternate (bindText key)).map readAction

/-- `status=?1 AND lease_expires_at_ms<=?2`; a comparison with NULL selects nothing. -/
def expiredRow (now : TimePoint) (row : ActionRow) : Bool :=
  row.status == ActionStatus.running.code &&
    row.leaseExpiresAtMs.any fun expires ↦ decide (expires ≤ milliseconds now)

/-- The query names no order; the actions come in row order here. -/
def runningWithExpiredLease (t : ActionTable) (now : TimePoint) : List Action :=
  (t.rows.filter (expiredRow now)).map readAction

def hasRunning (t : ActionTable) : Bool :=
  t.rows.any fun row ↦ row.status == ActionStatus.running.code

/-- The upsert of one action; `none` when the statement fails on a constraint and `save`
throws. -/
def save (t : ActionTable) (action : Action) : Option ActionTable := t.upsert (bindAction action)

/-- A loop of saves, which stops at the first one that throws; the flag says whether it got
through. -/
def saveAll (t : ActionTable) (actions : List Action) : ActionTable × Bool :=
  t.upsertAll (actions.map bindAction)

/-- The records of the table, in row order. -/
def records (t : ActionTable) : List Action := t.rows.map readAction

/-! ### What is read back -/

/-- The record that reading back a saved action gives. -/
def stored (action : Action) : Action := readAction (bindAction action)

@[simp] theorem stored_id (a : Action) : (stored a).id = cString a.id := rfl

@[simp] theorem stored_idempotencyKey (a : Action) :
    (stored a).idempotencyKey = cString a.idempotencyKey := rfl

@[simp] theorem stored_status (a : Action) : (stored a).status = a.status :=
  ActionStatus.ofCode_code a.status

@[simp] theorem stored_effectResult (a : Action) : (stored a).effectResult = a.effectResult :=
  EffectResult.ofCode_code a.effectResult

theorem stored_lease (a : Action) : (stored a).lease = a.lease.map fun lease ↦
    { owner := cString lease.owner, expiresAt := timePoint (milliseconds lease.expiresAt) } := by
  cases h : a.lease <;> simp [stored, readAction, bindAction, bindText, h]

theorem check_bindAction (a : Action) : actionSchema.check (bindAction a) = true := by
  have hlease : (bindAction a).leaseOwner.isNone = (bindAction a).leaseExpiresAtMs.isNone := by
    simp only [bindAction, Option.isNone_map]
  simp only [actionSchema, hlease, BEq.rfl, Bool.and_true]
  unfold bindAction
  cases a.critical <;> cases a.status <;> cases a.effectResult <;> rfl

theorem runningRow_eq {row : ActionRow} (h : actionSchema.check row = true) :
    (row.status == ActionStatus.running.code) = ((readAction row).status == .running) := by
  simp only [actionSchema, Bool.and_eq_true, decide_eq_true_eq] at h
  obtain ⟨⟨⟨_, hstatus⟩, _⟩, _⟩ := h
  have hcases : row.status = 0 ∨ row.status = 1 ∨ row.status = 2 ∨ row.status = 3 ∨
      row.status = 4 ∨ row.status = 5 := by omega
  unfold readAction
  rcases hcases with hcode | hcode | hcode | hcode | hcode | hcode <;> rw [hcode] <;> rfl

/-- `has_running` asks for the actions whose status is running. -/
theorem hasRunning_eq_false_iff {t : ActionTable} :
    hasRunning t = false ↔ ∀ a ∈ records t, a.status ≠ .running := by
  rw [hasRunning, List.any_eq_false, records, List.forall_mem_map]
  refine forall₂_congr fun row hrow ↦ ?_
  rw [runningRow_eq (t.consistent.checked row hrow), beq_iff_eq]

/-! ### Keys -/

theorem bindText_eq_iff {value other : Bytes} :
    bindText value = bindText other ↔ cString value = cString other :=
  Subtype.ext_iff

@[simp] theorem records_empty : records (Table.empty actionSchema) = [] := rfl

theorem cString_id_of_mem {t : ActionTable} {a : Action} (ha : a ∈ records t) :
    cString a.id = a.id := by
  obtain ⟨row, _, rfl⟩ := List.mem_map.mp ha
  exact cString_eq_self_iff.mpr row.id.property

theorem cString_idempotencyKey_of_mem {t : ActionTable} {a : Action} (ha : a ∈ records t) :
    cString a.idempotencyKey = a.idempotencyKey := by
  obtain ⟨row, _, rfl⟩ := List.mem_map.mp ha
  exact cString_eq_self_iff.mpr row.idempotencyKey.property

theorem record_ids_injective {t : ActionTable} {a b : Action} (ha : a ∈ records t)
    (hb : b ∈ records t) (h : a.id = b.id) : a = b :=
  Encoding.keys_injective (e := actionEncoding) ha hb (congrArg bindText h)

/-! ### Lookups -/

theorem find_eq_some_iff {t : ActionTable} {id : Bytes} {a : Action} :
    find t id = some a ↔ a ∈ records t ∧ a.id = cString id := by
  have hfind : find t id = some a ↔ a ∈ records t ∧ bindText a.id = bindText id :=
    Encoding.find_eq_some_iff (e := actionEncoding)
  rw [hfind]
  refine and_congr_right fun ha ↦ ?_
  rw [bindText_eq_iff, cString_id_of_mem ha]

theorem mem_records_iff {t : ActionTable} {a : Action} :
    a ∈ records t ↔ find t a.id = some a := by
  rw [find_eq_some_iff]
  exact ⟨fun h ↦ ⟨h, (cString_id_of_mem h).symm⟩, And.left⟩

theorem findByIdempotencyKey_eq_none_iff {t : ActionTable} {key : Bytes} :
    findByIdempotencyKey t key = none ↔ ∀ a ∈ records t, a.idempotencyKey ≠ cString key := by
  have hfind : findByIdempotencyKey t key = none ↔
      ∀ a ∈ records t, bindText a.idempotencyKey ≠ bindText key :=
    Encoding.findAlternate_eq_none_iff (e := actionEncoding)
  rw [hfind]
  refine forall₂_congr fun a ha ↦ not_congr ?_
  rw [bindText_eq_iff, cString_idempotencyKey_of_mem ha]

/-! ### Saving -/

theorem find_save {t t' : ActionTable} {a : Action} (h : save t a = some t') (id : Bytes) :
    find t' id = if cString a.id = cString id then some (stored a) else find t id := by
  have hfind : find t' id = if bindText a.id = bindText id then some (stored a) else find t id :=
    Encoding.find_save (e := actionEncoding) h (bindText id)
  rw [hfind]
  simp only [bindText_eq_iff]

/-- A save fails only when another id holds the idempotency key. -/
theorem save_isSome_iff {t : ActionTable} {a : Action} :
    (save t a).isSome ↔ ∀ b ∈ records t, b.idempotencyKey = cString a.idempotencyKey →
      b.id = cString a.id := by
  have hsave : (save t a).isSome ↔ actionSchema.check (bindAction a) = true ∧
      ∀ b ∈ records t, bindText b.idempotencyKey = bindText a.idempotencyKey →
        bindText b.id = bindText a.id := Encoding.save_isSome_iff (e := actionEncoding)
  rw [hsave, and_iff_right (check_bindAction a)]
  refine forall₂_congr fun b hb ↦ ?_
  rw [bindText_eq_iff, bindText_eq_iff, cString_idempotencyKey_of_mem hb, cString_id_of_mem hb]

/-- The save of an edited record that keeps its id and key succeeds. -/
theorem save_edited {t : ActionTable} {a b : Action} (ha : a ∈ records t) (hid : b.id = a.id)
    (hkey : b.idempotencyKey = a.idempotencyKey) : ∃ t', save t b = some t' :=
  Encoding.save_revised (e := actionEncoding) ha (check_bindAction b) (congrArg bindText hid)
    (congrArg bindText hkey)

end ActionStore

end Gaudere.Wake
