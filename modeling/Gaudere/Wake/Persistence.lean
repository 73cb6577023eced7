import Gaudere.Library.Saves
import Gaudere.Wake.ActionStore

/-!
# The action store as a finite map

A save upserts one action by its id. `ExactRecords` is what callers rely on over a sequence of
saves: a save that throws changes nothing, a save touches no record but that of its id, and the two
lookups find what was last saved, up to the expiry of the lease, under exactly the id or key asked
for.

Bindings stop at the first NUL, so a string with a NUL is stored and compared as another one.
`action_store_exact_iff` says that this is the only way to lose exactness: the strings that a
program uses are treated exactly in every sequence of saves if and only if none of them contains a
NUL.
-/

set_option autoImplicit false
set_option relaxedAutoImplicit false

namespace Gaudere.Wake

open Gaudere.Library ActionStore

/-- One `save` after the other; the reply says whether it returned or threw. -/
def saves : Machine ActionTable Action Bool := actionEncoding.saving

/-- The action with the expiry of its lease in whole milliseconds. -/
def Action.truncated (a : Action) : Action :=
  { a with lease := a.lease.map fun lease ↦
    { lease with expiresAt := timePoint (milliseconds lease.expiresAt) } }

/-- The id, the idempotency key and the lease owner of the action are strings of the set. -/
structure Action.Uses (strings : Set Bytes) (a : Action) : Prop where
  id : a.id ∈ strings
  idempotencyKey : a.idempotencyKey ∈ strings
  owner : ∀ lease, a.lease = some lease → lease.owner ∈ strings

/-- What callers who use a set of strings rely on over a sequence of saves. A key finds the action
last saved with it, unless the id of that action was saved with another key since. -/
structure ExactRecords (strings : Set Bytes) (actions : List Action) : Prop where
  failed : ∀ e ∈ saves.history (.empty actionSchema) actions, e.reply = false → e.after = e.before
  others : ∀ e ∈ saves.history (.empty actionSchema) actions, ∀ id ∈ strings, id ≠ e.call.id →
    find e.after id = find e.before id
  found : ∀ id ∈ strings, find (saves.run (.empty actionSchema) actions) id =
    (lastSaved (fun a ↦ a.id = id) (saves.history (.empty actionSchema) actions)).map
      Action.truncated
  foundByKey : ∀ key ∈ strings,
    findByIdempotencyKey (saves.run (.empty actionSchema) actions) key =
      ((lastSaved (fun a ↦ a.idempotencyKey = key)
        (saves.history (.empty actionSchema) actions)).filter fun a ↦
          (lastSaved (fun last ↦ last.id = a.id)
            (saves.history (.empty actionSchema) actions)).any fun last ↦
              last.idempotencyKey = key).map Action.truncated

/-! ### Strings without NUL -/

section Exact

variable {strings : Set Bytes} (hplain : ∀ s ∈ strings, (0 : UInt8) ∉ s)

include hplain

theorem bindText_inj {s s' : Bytes} (hs : s ∈ strings) (hs' : s' ∈ strings) :
    bindText s = bindText s' ↔ s = s' := by
  rw [bindText_eq_iff, cString_eq_self_iff.mpr (hplain s hs),
    cString_eq_self_iff.mpr (hplain s' hs')]

theorem stored_eq_truncated {a : Action} (h : a.Uses strings) : stored a = a.truncated := by
  have hid := cString_eq_self_iff.mpr (hplain _ h.id)
  have hkey := cString_eq_self_iff.mpr (hplain _ h.idempotencyKey)
  have hlease : (stored a).lease = a.truncated.lease := by
    rw [stored_lease, Action.truncated]
    refine Option.map_congr fun lease hlease ↦ ?_
    rw [cString_eq_self_iff.mpr (hplain _ (h.owner lease hlease))]
  have hcritical : (stored a).critical = a.critical := by
    simp only [stored, readAction, bindAction]
    cases a.critical <;> rfl
  calc stored a = ⟨(stored a).id, (stored a).idempotencyKey, (stored a).critical,
        (stored a).status, (stored a).effectResult, (stored a).lease⟩ := rfl
    _ = a.truncated := by
      rw [stored_id, stored_idempotencyKey, stored_status, stored_effectResult, hid, hkey,
        hcritical, hlease]
      rfl

section Run

variable {actions : List Action} (huses : ∀ a ∈ actions, a.Uses strings)

include huses

omit hplain in
theorem uses_of_lastSaved {p : Action → Prop} [DecidablePred p] {a : Action}
    (h : lastSaved p (saves.history (.empty actionSchema) actions) = some a) : a.Uses strings := by
  obtain ⟨_, e, he, rfl⟩ := of_lastSaved_eq_some h
  exact huses e.call (saves.call_mem_of_mem_history he)

omit hplain in
theorem lastSaved_eq {p q : Action → Prop} [DecidablePred p] [DecidablePred q]
    (h : ∀ a, a.Uses strings → (p a ↔ q a)) :
    lastSaved p (saves.history (.empty actionSchema) actions) =
      lastSaved q (saves.history (.empty actionSchema) actions) :=
  lastSaved_congr fun _ he ↦ h _ (huses _ (saves.call_mem_of_mem_history he))

theorem others_kept {e : Event ActionTable Action Bool}
    (he : e ∈ saves.history (.empty actionSchema) actions) {id : Bytes} (hid : id ∈ strings)
    (hne : id ≠ e.call.id) : find e.after id = find e.before id := by
  have huse := huses _ (saves.call_mem_of_mem_history he)
  have hfind : find (saves.event e.before e.call).after id =
      if (saves.event e.before e.call).reply = true ∧ bindText e.call.id = bindText id then
        some (stored e.call)
      else find e.before id := Encoding.find_saving_event e.before e.call (bindText id)
  rw [← saves.eq_event_of_mem_history he] at hfind
  rw [hfind, if_neg]
  rintro ⟨_, hsame⟩
  exact hne ((bindText_inj hplain huse.id hid).mp hsame).symm

theorem found_last {id : Bytes} (hid : id ∈ strings) :
    find (saves.run (.empty actionSchema) actions) id =
      (lastSaved (fun a ↦ a.id = id) (saves.history (.empty actionSchema) actions)).map
        Action.truncated := by
  have hfind : find (saves.run (.empty actionSchema) actions) id =
      (lastSaved (fun a ↦ bindText a.id = bindText id)
        (saves.history (.empty actionSchema) actions)).map stored :=
    Encoding.find_saving actions (bindText id)
  rw [hfind, lastSaved_eq huses fun a ha ↦ bindText_inj hplain ha.id hid]
  exact Option.map_congr fun a ha ↦ stored_eq_truncated hplain (uses_of_lastSaved huses ha)

theorem foundByKey_last {key : Bytes} (hkey : key ∈ strings) :
    findByIdempotencyKey (saves.run (.empty actionSchema) actions) key =
      ((lastSaved (fun a ↦ a.idempotencyKey = key)
        (saves.history (.empty actionSchema) actions)).filter fun a ↦
          (lastSaved (fun last ↦ last.id = a.id)
            (saves.history (.empty actionSchema) actions)).any fun last ↦
              last.idempotencyKey = key).map Action.truncated := by
  have hfind : findByIdempotencyKey (saves.run (.empty actionSchema) actions) key =
      ((lastSaved (fun a ↦ bindText a.idempotencyKey = bindText key)
        (saves.history (.empty actionSchema) actions)).filter fun a ↦
          (lastSaved (fun last ↦ bindText last.id = bindText a.id)
            (saves.history (.empty actionSchema) actions)).any fun last ↦
              bindText last.idempotencyKey = bindText key).map stored :=
    Encoding.findAlternate_saving actions (bindText key)
  rw [hfind, lastSaved_eq huses fun a ha ↦ bindText_inj hplain ha.idempotencyKey hkey]
  cases hlast : lastSaved (fun a ↦ a.idempotencyKey = key)
      (saves.history (.empty actionSchema) actions) with
  | none => rfl
  | some a =>
    have ha := uses_of_lastSaved huses hlast
    rw [Option.filter_some, Option.filter_some,
      lastSaved_eq huses fun last hlast ↦ bindText_inj hplain hlast.id ha.id]
    have hheld : ∀ last, lastSaved (fun last ↦ last.id = a.id)
        (saves.history (.empty actionSchema) actions) = some last →
          decide (bindText last.idempotencyKey = bindText key) =
            decide (last.idempotencyKey = key) := fun last hlast ↦
      decide_eq_decide.mpr
        (bindText_inj hplain (uses_of_lastSaved huses hlast).idempotencyKey hkey)
    cases hheldLast : lastSaved (fun last ↦ last.id = a.id)
        (saves.history (.empty actionSchema) actions) with
    | none => rfl
    | some last =>
      rw [Option.any_some, Option.any_some, hheld last hheldLast]
      split_ifs
      · exact congrArg some (stored_eq_truncated hplain ha)
      · rfl

theorem exactRecords_of_plain : ExactRecords strings actions where
  failed e he hfailed := by
    rw [saves.eq_event_of_mem_history he] at hfailed ⊢
    exact Encoding.saving_after_of_failed hfailed
  others _ he _ hid hne := others_kept hplain huses he hid hne
  found _ hid := found_last hplain huses hid
  foundByKey _ hkey := foundByKey_last hplain huses hkey

end Run

end Exact

/-! ### Strings with one -/

/-- A pending action that uses one string for its id and its key. -/
def named (s : Bytes) : Action where
  id := s
  idempotencyKey := s
  critical := false
  status := .pending
  effectResult := .none
  lease := none

/-- An action saved under an id with a NUL is not found as it was saved. -/
theorem not_exactRecords_of_nul {strings : Set Bytes} {s : Bytes} (hs : s ∈ strings)
    (hnul : (0 : UInt8) ∈ s) : ¬ ExactRecords strings [named s] := by
  intro hexact
  have hreply : (saves.event (.empty actionSchema) (named s)).reply = true := by
    have hsave : (saves.event (.empty actionSchema) (named s)).reply =
        (save (.empty actionSchema) (named s)).isSome := Encoding.saving_reply _ _
    rw [hsave]
    exact save_isSome_iff.mpr nofun
  have hlast : lastSaved (fun a ↦ a.id = s) (saves.history (.empty actionSchema) [named s]) =
      some (named s) :=
    (lastSaved_append [] (saves.event (.empty actionSchema) (named s))).trans
      (if_pos ⟨hreply, rfl⟩)
  have hfound := hexact.found s hs
  rw [hlast] at hfound
  have hid : s = cString s := (find_eq_some_iff.mp hfound).2
  exact cString_eq_self_iff.mp hid.symm hnul

/-- The strings of a set are treated exactly in every sequence of saves that uses them if and only
if none of them contains a NUL. -/
theorem action_store_exact_iff (strings : Set Bytes) :
    (∀ actions : List Action, (∀ a ∈ actions, a.Uses strings) → ExactRecords strings actions) ↔
      ∀ s ∈ strings, (0 : UInt8) ∉ s := by
  constructor
  · intro hexact s hs hnul
    refine not_exactRecords_of_nul hs hnul (hexact _ fun a ha ↦ ?_)
    rw [List.mem_singleton.mp ha]
    exact ⟨hs, hs, nofun⟩
  · exact fun hplain actions huses ↦ exactRecords_of_plain hplain huses

/-- Two ids that share what precedes their NUL; the effect of the first may have happened. -/
def conflatedActions : Action × Action :=
  ({ named (ascii "charge" ++ 0 :: ascii "a") with
      idempotencyKey := ascii "first", status := .manualReview, effectResult := .unknown },
    { named (ascii "charge" ++ 0 :: ascii "b") with idempotencyKey := ascii "second" })

/-- Saving the second action overwrites the record of the first, with its effect marker. -/
theorem save_overwrites_other_action :
    conflatedActions.1.id ≠ conflatedActions.2.id ∧
    ¬ ExactRecords {conflatedActions.1.id, conflatedActions.2.id}
      [conflatedActions.1, conflatedActions.2] ∧
    (saves.history (.empty actionSchema) [conflatedActions.1, conflatedActions.2]).map
      (fun e ↦ (find e.after conflatedActions.1.id).map Action.effectResult) =
        [some .unknown, some .none] := by
  refine ⟨by decide, fun h ↦ ?_, by decide⟩
  have hother := h.others _ (List.mem_cons_of_mem _ List.mem_cons_self) conflatedActions.1.id
    (Or.inl rfl) (by decide)
  revert hother
  decide

end Gaudere.Wake
