import Gaudere.Wake.EffectOnce

/-!
# What a submission does to stored actions

`submit` refuses an action whose idempotency key is stored and saves every other one by an upsert
on its id, with the status, marker and lease the caller wrote into it. `LeavesExisting` is what a
caller may expect of one submission: the stored records stay, and an accepted action is one new
pending record under an id that was free. `leavesExisting_iff` characterises the submissions that
meet it, in every reachable state. The others carry a stored id under a new key, and overwrite
that record, or carry a definition that is not fresh.
-/

set_option autoImplicit false
set_option relaxedAutoImplicit false

namespace Gaudere.Wake

open Gaudere.Library ActionStore

/-- The records already stored stay as they are, and an accepted action is one new record, pending
and without effect marker or lease, under an id that was not stored. -/
def LeavesExisting (s : System) (a : Action) : Prop :=
  (∀ b ∈ records s.store, b ∈ records (machine.event s (.submit a)).after.store) ∧
    ((machine.event s (.submit a)).reply = .submitted .accepted →
      ∃ b, records (machine.event s (.submit a)).after.store = records s.store ++ [b] ∧
        (∀ c ∈ records s.store, c.id ≠ b.id) ∧ b.Fresh)

/-- The runtime refuses submissions of this kind in its state. -/
def Refuses (s : System) (a : Action) : Prop :=
  (s.state ≠ .running ∧ s.state ≠ .draining) ∨ (s.state = .draining ∧ a.critical = true)

/-- The submission is refused, or its key is stored, or its id is free and its definition
fresh. -/
def HarmlessSubmission (s : System) (a : Action) : Prop :=
  Refuses s a ∨ (∃ b ∈ records s.store, b.idempotencyKey = cString a.idempotencyKey) ∨
    ((∀ b ∈ records s.store, b.id ≠ cString a.id) ∧ a.Fresh)

theorem submit_eq_of_refuses {s : System} {a : Action} (h : Refuses s a) :
    ∃ result, result ≠ .accepted ∧ machine.step s (.submit a) = (s, .submitted result) := by
  simp only [machine, Runtime.submit]
  split_ifs with hstate hcritical hduplicate
  · exact ⟨.unavailable, by decide, rfl⟩
  · exact ⟨.criticalRejected, by decide, rfl⟩
  · exact ⟨.duplicate, by decide, rfl⟩
  · exact absurd h (not_or.mpr ⟨hstate, hcritical⟩)

theorem submit_eq_of_stored_key {s : System} {a : Action}
    (h : ∃ b ∈ records s.store, b.idempotencyKey = cString a.idempotencyKey) :
    ∃ result, result ≠ .accepted ∧ machine.step s (.submit a) = (s, .submitted result) := by
  obtain ⟨b, hb, hkey⟩ := h
  rcases submit_cases s a with hrefused | ⟨hfree, _⟩
  · exact hrefused
  · exact absurd hkey (findByIdempotencyKey_eq_none_iff.mp hfree b hb)

/-- A submission that is not refused and whose key is free is saved and accepted. -/
theorem submit_eq_of_free_key {s : System} {a : Action} (hrefuses : ¬ Refuses s a)
    (hkey : ∀ b ∈ records s.store, b.idempotencyKey ≠ cString a.idempotencyKey) :
    ∃ store, save s.store a = some store ∧
      machine.step s (.submit a) = ({ s with store := store }, .submitted .accepted) := by
  obtain ⟨store, hsave⟩ := Option.isSome_iff_exists.mp
    (save_isSome_iff.mpr fun b hb heq ↦ absurd heq (hkey b hb))
  refine ⟨store, hsave, ?_⟩
  rw [Refuses, not_or] at hrefuses
  simp only [machine, Runtime.submit, if_neg hrefuses.1, if_neg hrefuses.2,
    findByIdempotencyKey_eq_none_iff.mpr hkey, Option.isSome_none, Bool.false_eq_true,
    ↓reduceIte, Runtime.saveThen, hsave]

theorem leavesExisting_of_unchanged {s : System} {a : Action}
    (h : ∃ result, result ≠ .accepted ∧ machine.step s (.submit a) = (s, .submitted result)) :
    LeavesExisting s a := by
  obtain ⟨result, hresult, hstep⟩ := h
  simp only [LeavesExisting, Machine.event, hstep]
  refine ⟨fun b hb ↦ hb, fun hreply ↦ ?_⟩
  cases hreply
  exact absurd rfl hresult

theorem records_save_of_free_id {t t' : ActionTable} {a : Action}
    (hid : ∀ b ∈ records t, b.id ≠ cString a.id) (h : save t a = some t') :
    records t' = records t ++ [stored a] := by
  have hfree : ∀ row ∈ t.rows, actionSchema.key row ≠ actionSchema.key (bindAction a) :=
    fun row hrow hkey ↦ hid (readAction row) (List.mem_map_of_mem hrow) (congrArg Subtype.val hkey)
  rw [records, Table.commit_eq_some_iff.mp h, Table.upsertRows_fresh hfree, List.map_append]
  rfl

/-- A submission leaves the stored records alone, and adds one fresh record when it is accepted,
exactly when it is harmless. -/
theorem leavesExisting_iff (s : System) (a : Action) :
    LeavesExisting s a ↔ HarmlessSubmission s a := by
  constructor
  · rintro ⟨hkept, hadded⟩
    by_contra hharm
    simp only [HarmlessSubmission, not_or, not_exists, not_and] at hharm
    obtain ⟨hrefuses, hkey, hfresh⟩ := hharm
    obtain ⟨store, hsave, hstep⟩ := submit_eq_of_free_key hrefuses hkey
    simp only [Machine.event, hstep] at hkept hadded
    by_cases hid : ∀ b ∈ records s.store, b.id ≠ cString a.id
    · -- The new record is the caller's own definition, so it is fresh only if that was.
      obtain ⟨b, hrecords, _, hb⟩ := hadded trivial
      rw [records_save_of_free_id hid hsave, List.append_cancel_left_eq,
        List.cons.injEq] at hrecords
      rw [← hrecords.1] at hb
      obtain ⟨hstatus, heffect, hlease⟩ := hb
      rw [stored_status] at hstatus
      rw [stored_effectResult] at heffect
      rw [stored_lease, Option.map_eq_none_iff] at hlease
      exact hfresh hid ⟨hstatus, heffect, hlease⟩
    · -- The record with this id is overwritten by one with another key.
      simp only [not_forall, not_not] at hid
      obtain ⟨b, hb, hbid⟩ := hid
      have hnew : find store a.id = some (stored a) := by rw [find_save hsave, if_pos rfl]
      have hsame : b = stored a := record_ids_injective (hkept b hb)
        (find_eq_some_iff.mp hnew).1 (by rw [hbid, stored_id])
      exact hkey b hb (by rw [hsame, stored_idempotencyKey])
  · rintro (hrefuses | hstored | ⟨hid, hfresh⟩)
    · exact leavesExisting_of_unchanged (submit_eq_of_refuses hrefuses)
    · exact leavesExisting_of_unchanged (submit_eq_of_stored_key hstored)
    · by_cases hquiet : Refuses s a ∨
          ∃ b ∈ records s.store, b.idempotencyKey = cString a.idempotencyKey
      · rcases hquiet with hrefuses | hstored
        · exact leavesExisting_of_unchanged (submit_eq_of_refuses hrefuses)
        · exact leavesExisting_of_unchanged (submit_eq_of_stored_key hstored)
      · simp only [not_or, not_exists, not_and] at hquiet
        obtain ⟨store, hsave, hstep⟩ := submit_eq_of_free_key hquiet.1 hquiet.2
        simp only [LeavesExisting, Machine.event, hstep, records_save_of_free_id hid hsave]
        refine ⟨fun b hb ↦ List.mem_append_left _ hb, fun _ ↦ ⟨stored a, rfl, ?_, ?_⟩⟩
        · exact fun c hc ↦ by rw [stored_id]; exact hid c hc
        · obtain ⟨hstatus, heffect, hlease⟩ := hfresh
          exact ⟨by rw [stored_status, hstatus], by rw [stored_effectResult, heffect],
            by rw [stored_lease, hlease, Option.map_none]⟩

/-- In every state a run reaches, a submission leaves existing work alone exactly when it is
harmless; so in a run whose submissions are all harmless, every submission keeps every stored
record. -/
theorem submission_never_touches_existing_iff (calls : List Call) :
    (∀ a, LeavesExisting (machine.run .initial calls) a ↔
      HarmlessSubmission (machine.run .initial calls) a) ∧
    ((∀ e ∈ machine.history .initial calls, ∀ a, e.call = .submit a →
        HarmlessSubmission e.before a) →
      ∀ e ∈ machine.history .initial calls, ∀ a, e.call = .submit a →
        ∀ b ∈ records e.before.store, b ∈ records e.after.store) := by
  refine ⟨fun a ↦ leavesExisting_iff _ a, fun hharmless e he a hcall b hb ↦ ?_⟩
  rw [machine.eq_event_of_mem_history he, hcall]
  exact ((leavesExisting_iff e.before a).mpr (hharmless e he a hcall)).1 b hb

/-- A second order under the id of `charge`. -/
def secondCharge : Action := { charge with idempotencyKey := ascii "other order" }

/-- While the effect of `charge` may have happened, submitting another order under its id is
accepted and turns the running record back into a pending one without marker. -/
theorem submission_overwrites_unknown_effect :
    ¬ LeavesExisting (machine.run .initial (chargeRun.take 4)) secondCharge ∧
    (find (machine.run .initial (chargeRun.take 4)).store (ascii "charge")).map
      (fun a ↦ (a.status, a.effectResult)) = some (.running, .unknown) ∧
    (machine.event (machine.run .initial (chargeRun.take 4)) (.submit secondCharge)).reply =
      .submitted .accepted ∧
    (find (machine.event (machine.run .initial (chargeRun.take 4))
      (.submit secondCharge)).after.store (ascii "charge")).map
        (fun a ↦ (a.status, a.effectResult)) = some (.pending, .none) := by
  refine ⟨fun h ↦ ?_, by decide, by decide, by decide⟩
  have hharmless := (leavesExisting_iff _ _).mp h
  revert hharmless
  unfold HarmlessSubmission Refuses
  decide

end Gaudere.Wake
