import Mathlib.Data.List.Find
import Gaudere.Library.Machine
import Gaudere.Library.Records

/-!
# What a table holds after a sequence of saves

`Encoding.saving` saves one record after the other; its reply says whether the save succeeded, and a
failed one leaves the table as it was. The table is then a finite map of what was saved:
`find_saving` says that a key finds the record last saved under it, and `findAlternate_saving` that
a value of the second key finds the record last saved with it, as long as no other record has taken
its place since.
-/

set_option autoImplicit false
set_option relaxedAutoImplicit false

namespace Gaudere.Library

variable {Row Key Alternate Record : Type*} {S : Schema Row Key Alternate}

/-- The record of the last successful save that satisfies a predicate. -/
def lastSaved {State : Type*} (p : Record → Prop) [DecidablePred p]
    (events : List (Event State Record Bool)) : Option Record :=
  (events.reverse.find? fun e ↦ decide (e.reply = true ∧ p e.call)).map Event.call

section LastSaved

variable {State : Type*} {p q : Record → Prop} [DecidablePred p] [DecidablePred q]
  {events : List (Event State Record Bool)}

theorem lastSaved_append (past : List (Event State Record Bool)) (e : Event State Record Bool) :
    lastSaved p (past ++ [e]) =
      if e.reply = true ∧ p e.call then some e.call else lastSaved p past := by
  rw [lastSaved, List.reverse_append, List.reverse_singleton, List.singleton_append,
    List.find?_cons]
  split_ifs with h
  · rw [decide_eq_true h]
    rfl
  · rw [decide_eq_false h]
    rfl

theorem lastSaved_congr (h : ∀ e ∈ events, p e.call ↔ q e.call) :
    lastSaved p events = lastSaved q events := by
  refine congrArg (Option.map Event.call) (List.find?_congr fun e he ↦ ?_)
  rw [decide_eq_decide, h e (List.mem_reverse.mp he)]

theorem of_lastSaved_eq_some {record : Record} (h : lastSaved p events = some record) :
    p record ∧ ∃ e ∈ events, e.call = record := by
  obtain ⟨e, he, rfl⟩ := Option.map_eq_some_iff.mp h
  have hsaved := of_decide_eq_true
    (List.find?_some (p := fun e : Event State Record Bool ↦
      decide (e.reply = true ∧ p e.call)) he)
  exact ⟨hsaved.2, e, List.mem_reverse.mp (List.mem_of_find?_eq_some he), rfl⟩

end LastSaved

namespace Encoding

variable [DecidableEq Key] [DecidableEq Alternate] (e : Encoding S Record)

/-- One save after the other. -/
def saving : Machine (Table S) Record Bool where
  step t record :=
    match e.save t record with
    | some t' => (t', true)
    | none => (t, false)

variable {e}

theorem saving_cases (t : Table S) (record : Record) :
    (∃ t', e.save t record = some t' ∧ e.saving.step t record = (t', true)) ∨
      e.save t record = none ∧ e.saving.step t record = (t, false) := by
  cases hsave : e.save t record with
  | none => exact Or.inr ⟨rfl, by simp only [saving, hsave]⟩
  | some t' => exact Or.inl ⟨t', rfl, by simp only [saving, hsave]⟩

theorem saving_reply (t : Table S) (record : Record) :
    (e.saving.event t record).reply = (e.save t record).isSome := by
  rcases saving_cases (e := e) t record with ⟨t', hsave, hstep⟩ | ⟨hsave, hstep⟩ <;>
    simp only [Machine.event, hstep, hsave] <;> rfl

/-- A failed save changes nothing. -/
theorem saving_after_of_failed {t : Table S} {record : Record}
    (h : (e.saving.event t record).reply = false) : (e.saving.event t record).after = t := by
  rcases saving_cases (e := e) t record with ⟨t', _, hstep⟩ | ⟨_, hstep⟩
  · simp only [Machine.event, hstep, Bool.true_eq_false] at h
  · simp only [Machine.event, hstep]

theorem find_saving_event (t : Table S) (record : Record) (k : Key) :
    e.find (e.saving.event t record).after k =
      if (e.saving.event t record).reply = true ∧ e.key record = k then some (e.stored record)
      else e.find t k := by
  rcases saving_cases (e := e) t record with ⟨t', hsave, hstep⟩ | ⟨_, hstep⟩
  · simp only [Machine.event, hstep, true_and]
    exact find_save hsave k
  · simp only [Machine.event, hstep, Bool.false_eq_true, false_and, if_false]

/-- After a sequence of saves, a key finds the record last saved under it. -/
theorem find_saving (records : List Record) (k : Key) :
    e.find (e.saving.run (.empty S) records) k =
      (lastSaved (fun record ↦ e.key record = k)
        (e.saving.history (.empty S) records)).map e.stored := by
  refine Machine.history_induction (motive := fun past t ↦ e.find t k =
    (lastSaved (fun record ↦ e.key record = k) past).map e.stored) rfl
    (fun past t record _ ih ↦ ?_) (e.saving.unrestricted _ _)
  rw [find_saving_event, lastSaved_append, ih, Machine.event_call]
  split_ifs <;> rfl

/-- After a sequence of saves, a value of the second key finds the record last saved with it,
unless its first key was saved with another value since. -/
theorem findAlternate_saving (records : List Record) (u : Alternate) :
    e.findAlternate (e.saving.run (.empty S) records) u =
      ((lastSaved (fun record ↦ e.alternate record = u)
        (e.saving.history (.empty S) records)).filter fun record ↦
          (lastSaved (fun other ↦ e.key other = e.key record)
            (e.saving.history (.empty S) records)).any fun last ↦
              e.alternate last = u).map e.stored := by
  refine Machine.history_induction (motive := fun past t ↦ e.findAlternate t u =
    ((lastSaved (fun record ↦ e.alternate record = u) past).filter fun record ↦
      (lastSaved (fun other ↦ e.key other = e.key record) past).any fun last ↦
        e.alternate last = u).map e.stored) rfl
    (fun past t record _ ih ↦ ?_) (e.saving.unrestricted _ _)
  rcases saving_cases (e := e) t record with ⟨t', hsave, hstep⟩ | ⟨_, hstep⟩
  · have hreply : (e.saving.event t record).reply = true := congrArg Prod.snd hstep
    have hafter : (e.saving.event t record).after = t' := congrArg Prod.fst hstep
    simp only [lastSaved_append, Machine.event_call, hreply, hafter, true_and,
      findAlternate_save hsave]
    split_ifs with hu
    · simp [Option.filter, hu]
    · rw [ih]
      cases hlast : lastSaved (fun record ↦ e.alternate record = u) past with
      | none => rfl
      | some last =>
        by_cases hkey : e.key record = e.key last
        · -- The save took the place of the record that was found.
          have htaken : decide (e.alternate record = u) = false := decide_eq_false hu
          simp only [Option.filter_some, hkey, if_true, Option.any_some, htaken,
            Bool.false_eq_true, if_false, Option.map_none]
          split_ifs <;> simp
        · simp only [Option.filter_some, if_neg hkey]
          split_ifs <;> simp [Ne.symm hkey]
  · have hreply : (e.saving.event t record).reply = false := congrArg Prod.snd hstep
    have hafter : (e.saving.event t record).after = t := congrArg Prod.fst hstep
    simp only [lastSaved_append, hreply, hafter, ih, Bool.false_eq_true, false_and, if_false]

end Encoding

end Gaudere.Library
