import Gaudere.WakeIntents.Constraints
import Gaudere.WakeIntents.Reconciling

/-!
# Revocation and reconciliation at one instant

`revoke` decides on one decoded intent, `reconcile` by two set-wise updates on stored milliseconds.
`revoke_and_reconcile_commute` says that they agree where both would settle an intent, and that at
one clock value their order does not matter; nor does the order of two revocations of different
intents, at any clock values. This holds of every table whose times are clock values, and the
reachable ones are among them.

The reason is local to each intent: two calls commute on it unless they settle it differently
(`advance_comm_of_settle`).
-/

set_option autoImplicit false
set_option relaxedAutoImplicit false

namespace Gaudere.WakeIntents

open Gaudere.Library WakeIntentStore

/-! ### Calls that commute on an intent -/

/-- Two calls commute on an intent unless they settle it differently. -/
theorem advance_comm_of_settle {intent : WakeIntent} {first second : Call}
    (h : ∀ a b, settle intent first = some a → settle intent second = some b → a = b) :
    advance second (advance first intent) = advance first (advance second intent) := by
  have hterminal : ∀ {call other : Call} {settled : WakeIntent},
      settle intent call = some settled → advance other settled = settled := fun hsettle ↦ by
    obtain ⟨_, _, _, hsettles, _⟩ := settle_cases hsettle
    exact advance_eq_self_of_terminal hsettles.terminal
  by_cases hstatus : intent.status = .scheduled
  · cases hfirst : settle intent first with
    | none =>
      have hidle : advance first intent = intent := by
        rw [advance_of_scheduled hstatus, hfirst, Option.getD_none]
      rw [hidle]
      cases hsecond : settle intent second with
      | none =>
        rw [advance_of_scheduled hstatus, hsecond, Option.getD_none, hidle]
      | some b =>
        rw [advance_of_scheduled hstatus, hsecond, Option.getD_some, hterminal hsecond]
    | some a =>
      rw [advance_of_scheduled hstatus, hfirst, Option.getD_some, hterminal hfirst,
        advance_of_scheduled hstatus]
      cases hsecond : settle intent second with
      | none =>
        rw [Option.getD_none, advance_of_scheduled hstatus, hfirst, Option.getD_some]
      | some b => rw [Option.getD_some, hterminal hsecond, h a b hfirst hsecond]
  · rw [advance_eq_self_of_terminal hstatus, advance_eq_self_of_terminal hstatus,
      advance_eq_self_of_terminal hstatus]

/-- Where a reconciliation settles an intent, a revocation at the same clock value settles it the
same way. -/
theorem settle_revoke_of_reconcile {intent settled : WakeIntent} {scope id : Bytes}
    {now : TimePoint} {reason : Bytes}
    (hreconcile : settle intent (.reconcile scope now) = some settled)
    {revoked : WakeIntent} (hrevoke : settle intent (.revoke scope id now reason) = some revoked) :
    settled = revoked := by
  simp only [settle] at hreconcile hrevoke
  split_ifs at hreconcile with hobservation
  split_ifs at hrevoke with hrevocation
  rw [hreconcile, Option.getD_some, Option.some.injEq] at hrevoke
  exact hrevoke

/-- A revocation settles the intent of its scope and id only. -/
theorem keys_of_settle_revoke {intent settled : WakeIntent} {scope id : Bytes} {now : TimePoint}
    {reason : Bytes} (h : settle intent (.revoke scope id now reason) = some settled) :
    (scope, id) = (intent.scope, intent.id) := by
  simp only [settle] at h
  split_ifs at h with hvalid
  rw [hvalid.2.1, hvalid.2.2]

theorem Book.advance_comm {b : Book} {first second : Call}
    (h : ∀ intent ∈ b.intents, ∀ x y, settle intent first = some x →
      settle intent second = some y → x = y) :
    (b.advance first).advance second = (b.advance second).advance first := by
  refine Book.ext ?_
  simp only [Book.advance, List.map_map]
  exact List.map_congr_left fun intent hintent ↦ advance_comm_of_settle (h intent hintent)

/-! ### The table -/

theorem represents_revoke {t : IntentTable} {b : Book} (h : Represents t b) (scope id : Bytes)
    (now : TimePoint) (reason : Bytes) :
    Represents (revoke t scope id now reason).1 (b.advance (.revoke scope id now reason)) :=
  (agrees_revoke h scope id now reason).2

/-- Tables that represent the same book are the same. -/
theorem table_eq_of_represents {t t' : IntentTable} {b b' : Book} (h : Represents t b)
    (h' : Represents t' b') (hsame : b = b') : t = t' := by
  subst hsame
  exact Table.ext (h.trans h'.symm)

/-- What a call settles is found in its place. -/
theorem lookup_of_settle {t : IntentTable} {b : Book} {call : Call}
    (h : Represents t (b.advance call)) {intent settled : WakeIntent} (hintent : intent ∈ b.intents)
    (hstatus : intent.status = .scheduled) (hsettle : settle intent call = some settled) :
    t.lookup (intent.scope, intent.id) = some (encode settled) := by
  obtain ⟨_, _, _, hsettles, _⟩ := settle_cases hsettle
  have hmem : settled ∈ (b.advance call).intents := by
    refine List.mem_map.mpr ⟨intent, hintent, ?_⟩
    rw [advance_of_scheduled hstatus, hsettle, Option.getD_some]
  have hfound := Book.find_eq_some hmem
  rw [hsettles.scope, hsettles.id] at hfound
  rw [lookup_of_represents h, hfound, Option.map_some]

/-- The times in a reachable table are clock values, and of every table of which this holds: a
scheduled intent observed outside its term is given the same row by a revocation and by a
reconciliation; a revocation and a reconciliation of its scope at one clock value commute; and so
do two revocations of different intents. -/
theorem revoke_and_reconcile_commute :
    (∀ calls, RepresentableTable (machine.run (Table.empty intentSchema) calls)) ∧
    ∀ t, RepresentableTable t →
      (∀ scope id now reason intent, find t scope id = .ok (some intent) →
        intent.status = .scheduled → now < intent.acceptedAt ∨ intent.dueAt ≤ now →
        Aligned now → reason ≠ [] → reason.length ≤ wakeIntentReasonMaxBytes →
          ∃ row, row.status ≠ WakeIntentStatus.scheduled.code ∧
            (revoke t scope id now reason).1.lookup (scope, id) = some row ∧
            (reconcile t scope now).1.lookup (scope, id) = some row) ∧
      (∀ scope id now reason,
        (reconcile (revoke t scope id now reason).1 scope now).1 =
          (revoke (reconcile t scope now).1 scope id now reason).1) ∧
      ∀ scope id now reason scope' id' now' reason', (scope, id) ≠ (scope', id') →
        (revoke (revoke t scope id now reason).1 scope' id' now' reason').1 =
          (revoke (revoke t scope' id' now' reason').1 scope id now reason).1 := by
  refine ⟨fun calls ↦ representable_of_represents (refines_run calls).2, fun t ht ↦ ?_⟩
  obtain ⟨b, hb⟩ := exists_book_of_representable ht
  refine ⟨?_, fun scope id now reason ↦ ?_, ?_⟩
  · intro scope id now reason intent hfind hstatus houtside hnow hreason hlength
    rw [find_of_represents hb, Except.ok.injEq] at hfind
    obtain ⟨hintent, rfl, rfl⟩ := Book.mem_of_find hfind
    have hvalid := b.valid intent hintent
    obtain ⟨settled, hsettled⟩ : ∃ settled, intent.observed now = some settled := by
      refine Option.ne_none_iff_exists'.mp fun hnone ↦ ?_
      obtain ⟨haccepted, hdue⟩ := observed_eq_none hnone
      rcases houtside with hbefore | hafter
      · exact Int64.lt_irrefl (Int64.lt_of_lt_of_le hbefore haccepted)
      · exact Int64.lt_irrefl (Int64.lt_of_lt_of_le hdue hafter)
    have hobservation : validObservation intent.scope now = true :=
      validObservation_iff.mpr ⟨hvalid.scope, hnow⟩
    have hreconcile : settle intent (.reconcile intent.scope now) = some settled := by
      rw [settle_reconcile hobservation rfl, hsettled]
    have hrevoke : settle intent (.revoke intent.scope intent.id now reason) = some settled := by
      rw [settle, if_pos ⟨validRevocation_iff.mpr ⟨hobservation, hvalid.id, hreason, hlength⟩,
        rfl, rfl⟩, hsettled, Option.getD_some]
    refine ⟨encode settled, fun hcode ↦ ?_,
      lookup_of_settle (represents_revoke hb _ _ _ _) hintent hstatus hrevoke,
      lookup_of_settle (represents_reconcile hb _ _) hintent hstatus hreconcile⟩
    exact (Settles.of_observed hsettled).terminal (code_eq_scheduled.mp hcode)
  · refine table_eq_of_represents (represents_reconcile (represents_revoke hb _ _ _ _) _ _)
      (represents_revoke (represents_reconcile hb _ _) _ _ _ _) (Book.advance_comm ?_)
    intro intent _ x y hrevoke hreconcile
    exact (settle_revoke_of_reconcile hreconcile hrevoke).symm
  · intro scope id now reason scope' id' now' reason' hdifferent
    refine table_eq_of_represents (represents_revoke (represents_revoke hb _ _ _ _) _ _ _ _)
      (represents_revoke (represents_revoke hb _ _ _ _) _ _ _ _) (Book.advance_comm ?_)
    intro intent _ x y hfirst hsecond
    exact absurd ((keys_of_settle_revoke hfirst).trans (keys_of_settle_revoke hsecond).symm)
      hdifferent

end Gaudere.WakeIntents
