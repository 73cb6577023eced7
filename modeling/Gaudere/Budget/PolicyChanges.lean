import Gaudere.Budget.Optimality

/-!
# Policies that change during a run

A policy is an argument of each call, so a new version of an application, or two applications on
one scope, may pass different ones. `policy_changes_keep_limits` says what is then granted: a
request with a new key is granted exactly when its own policy admits its time after all the recorded
ones, whatever policies those were granted under. Where every policy of the run is at least as
strict as some bound, the recorded times are within the limits of the bound.
-/

set_option autoImplicit false
set_option relaxedAutoImplicit false

namespace Gaudere.Budget

open Gaudere.Library BudgetStore

/-- A policy that asks for no more than another. -/
structure Policy.Refines (policy bound : Policy) : Prop where
  maxTotal : policy.maxTotal ≤ bound.maxTotal
  maxInWindow : policy.maxInWindow ≤ bound.maxInWindow
  window : bound.window ≤ policy.window
  minInterval : bound.minInterval ≤ policy.minInterval

/-- A consumption on the scope is a valid request whose window the clock can represent, at or after
epoch plus window. -/
def InRange (scope : CText) : Call → Prop
  | .consume s idempotencyKey now policy => bindText s = scope →
    ValidRequest s idempotencyKey policy ∧ Fits (policy.window.toInt * 1000000) ∧
      policy.window.toInt * 1000000 ≤ now.toInt
  | .reopen => True

instance (scope : CText) : DecidablePred (InRange scope)
  | .consume s idempotencyKey now policy => inferInstanceAs (Decidable (bindText s = scope →
      ValidRequest s idempotencyKey policy ∧ Fits (policy.window.toInt * 1000000) ∧
        policy.window.toInt * 1000000 ≤ now.toInt))
  | .reopen => inferInstanceAs (Decidable True)

/-- The consumption passes a policy that refines the bound, if it is on the scope. -/
def RefinesOn (scope : CText) (bound : Policy) : Call → Prop
  | .consume s _ _ policy => bindText s = scope → policy.Refines bound
  | .reopen => True

/-- The recorded times of a scope, in milliseconds. -/
def scopeTimes (t : BudgetTable) (scope : CText) : List ℤ := (times t scope).map Int64.toInt

/-- What a policy admits, a looser one admits. -/
theorem admits_of_refines {policy bound : Policy} (h : policy.Refines bound) {recorded : List ℤ}
    {t : ℤ} (hadmits : AdmitsUnder policy recorded t) : AdmitsUnder bound recorded t :=
  hadmits.loosen (UInt64.le_iff_toNat_le.mp h.maxTotal) (UInt64.le_iff_toNat_le.mp h.maxInWindow)
    (Int64.le_iff_toInt_le.mp h.window) (Int64.le_iff_toInt_le.mp h.minInterval)

/-- A valid request is granted exactly when its key is new and its own policy admits its time after
the recorded ones. -/
theorem granted_iff_admits {t : BudgetTable} {s key : Bytes} {now : TimePoint} {policy : Policy}
    (hrecorded : ∀ ms ∈ times t (bindText s), Fits (ms.toInt * 1000000))
    (hvalid : ValidRequest s key policy) (hwindow : Fits (policy.window.toInt * 1000000))
    (hepoch : policy.window.toInt * 1000000 ≤ now.toInt) :
    (machine.event t (.consume s key now policy)).reply = .consumed .accepted ↔
      granted t (bindText s) (bindText key) = false ∧
        AdmitsUnder policy (scopeTimes t (bindText s)) (milliseconds now).toInt := by
  rw [reply_of_valid hvalid, Reply.consumed.injEq, scopeTimes,
    ← passes_iff_admits hrecorded hvalid.2.1 hwindow hepoch]
  constructor
  · exact fun haccepted ↦ passes_of_accepted haccepted
  · rintro ⟨hnew, hpasses⟩
    rw [hnew]
    exact accepted_iff_passes.mpr hpasses

/-- A call on a scope records its time when it is granted, and else nothing. -/
theorem scopeTimes_after (t : BudgetTable) (s key : Bytes) (now : TimePoint) (policy : Policy) :
    scopeTimes (machine.event t (.consume s key now policy)).after (bindText s) =
      scopeTimes t (bindText s) ++
        if (machine.event t (.consume s key now policy)).reply = .consumed .accepted then
          [(milliseconds now).toInt]
        else [] := by
  rcases step_cases t (.consume s key now policy) with
    ⟨hrefused, hafter⟩ | ⟨s', key', now', policy', hcall, _, _, haccepted, hafter⟩
  · rw [if_neg hrefused, List.append_nil, scopeTimes, hafter, scopeTimes]
  · cases hcall
    rw [if_pos haccepted, scopeTimes, times_append hafter, if_pos rfl, List.map_append,
      List.map_singleton, scopeTimes]

/-- What the calls of a run can do to the recorded times of a scope: nothing, or add a time that a
policy among them admits. -/
theorem scopeTimes_cases {t : BudgetTable} {scope : CText} {call : Call}
    (hrecorded : ∀ ms ∈ times t scope, Fits (ms.toInt * 1000000)) (hcall : InRange scope call) :
    scopeTimes (machine.event t call).after scope = scopeTimes t scope ∨
      ∃ s key now policy, call = .consume s key now policy ∧ bindText s = scope ∧
        AdmitsUnder policy (scopeTimes t scope) (milliseconds now).toInt ∧
        scopeTimes (machine.event t call).after scope =
          scopeTimes t scope ++ [(milliseconds now).toInt] := by
  cases hrequest : call.requestOn scope with
  | none => exact Or.inl (by rw [scopeTimes, times_of_other hrequest, scopeTimes])
  | some request =>
    cases call with
    | reopen => cases hrequest
    | consume s key now policy =>
      obtain rfl : bindText s = scope := by
        simp only [Call.requestOn] at hrequest
        split_ifs at hrequest with hscope
        exact hscope
      obtain ⟨hvalid, hwindow, hepoch⟩ := hcall rfl
      have hafter := scopeTimes_after t s key now policy
      by_cases hgranted :
          (machine.event t (.consume s key now policy)).reply = .consumed .accepted
      · rw [if_pos hgranted] at hafter
        have hadmits := ((granted_iff_admits hrecorded hvalid hwindow hepoch).mp hgranted).2
        exact Or.inr ⟨s, key, now, policy, rfl, rfl, hadmits, hafter⟩
      · rw [if_neg hgranted, List.append_nil] at hafter
        exact Or.inl hafter

/-- The recorded times are within the limits of a bound on the policies. -/
theorem within_bound {scope : CText} {bound : Policy} (hbound : validPolicy bound = true)
    {calls : List Call} (hcalls : ∀ call ∈ calls, InRange scope call)
    (hrefines : ∀ call ∈ calls, RefinesOn scope bound call) :
    WithinPolicy bound (scopeTimes (machine.run (Table.empty budgetSchema) calls) scope) := by
  induction calls using List.reverseRecOn with
  | nil => exact withinLimits_nil
  | append_singleton calls call ih =>
    rw [List.forall_mem_append, List.forall_mem_singleton] at hcalls hrefines
    have hwithin := ih hcalls.1 hrefines.1
    rw [Machine.run_append, Machine.run_cons, Machine.run_nil]
    rcases scopeTimes_cases (representable_times calls scope) hcalls.2 with
      hkept | ⟨s, key, now, policy, rfl, hscope, hadmits, hadded⟩
    · rw [hkept]
      exact hwithin
    · rw [hadded]
      exact (withinLimits_concat_iff (toInt_pos_window hbound) (interval_nonneg hbound)).mpr
        ⟨hwithin, admits_of_refines (hrefines.2 hscope) hadmits⟩

/-- Over any run whose requests on a scope are valid and come from epoch plus window on, each under
a policy of its own: a request is granted exactly when its key is new and its policy admits its time
after all that are recorded, and is then recorded; and for every policy that all the policies of the
run refine, the recorded times are within its limits. -/
theorem policy_changes_keep_limits (scope : CText) (calls : List Call)
    (hcalls : ∀ call ∈ calls, InRange scope call) :
    (∀ e ∈ machine.history (Table.empty budgetSchema) calls,
      ∀ s key now policy, e.call = .consume s key now policy → bindText s = scope →
        (e.reply = .consumed .accepted ↔ granted e.before scope (bindText key) = false ∧
          AdmitsUnder policy (scopeTimes e.before scope) (milliseconds now).toInt) ∧
        scopeTimes e.after scope = scopeTimes e.before scope ++
          if e.reply = .consumed .accepted then [(milliseconds now).toInt] else []) ∧
    ∀ bound, validPolicy bound = true → (∀ call ∈ calls, RefinesOn scope bound call) →
      WithinPolicy bound (scopeTimes (machine.run (Table.empty budgetSchema) calls) scope) := by
  refine ⟨fun e he s key now policy hcall hscope ↦ ?_,
    fun bound hbound hrefines ↦ within_bound hbound hcalls hrefines⟩
  subst hscope
  obtain ⟨earlier, later, hsplit⟩ := List.append_of_mem he
  obtain ⟨past, call, future, rfl, rfl, rfl, rfl⟩ := machine.history_split hsplit
  rw [Machine.event_call] at hcall
  subst hcall
  obtain ⟨hvalid, hwindow, hepoch⟩ :=
    hcalls _ (List.mem_append_right _ List.mem_cons_self) rfl
  exact ⟨granted_iff_admits (representable_times past _) hvalid hwindow hepoch,
    scopeTimes_after _ s key now policy⟩

/-- A run that a stricter policy joins: its own window is already full when the looser one still
grants. -/
def tightenedRun : List Call :=
  [.consume (ascii "probe") (ascii "first") (ofMilliseconds 2000) probePolicy,
    .consume (ascii "probe") (ascii "strict") (ofMilliseconds 2500)
      { probePolicy with maxInWindow := 1 },
    .consume (ascii "probe") (ascii "second") (ofMilliseconds 2500) probePolicy]

theorem policy_changes_keep_limits_tightened :
    WithinPolicy probePolicy (scopeTimes
        (machine.run (Table.empty budgetSchema) tightenedRun) (bindText (ascii "probe"))) ∧
      scopeTimes (machine.run (Table.empty budgetSchema) tightenedRun)
        (bindText (ascii "probe")) = [2000, 2500] := by
  refine ⟨(policy_changes_keep_limits (bindText (ascii "probe")) tightenedRun (by decide)).2
    probePolicy (by decide) ?_, by decide⟩
  simp only [tightenedRun, List.forall_mem_cons, RefinesOn]
  refine ⟨fun _ ↦ ?_, fun _ ↦ ?_, fun _ ↦ ?_, nofun⟩ <;>
    exact ⟨by decide, by decide, by decide, by decide⟩

end Gaudere.Budget
