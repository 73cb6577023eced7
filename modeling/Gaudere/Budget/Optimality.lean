import Mathlib.Data.List.Induction
import Mathlib.Data.List.Nodup
import Gaudere.Budget.Threshold
import Gaudere.Library.Greedy

/-!
# No budget goes to waste

`consume` grants a request whenever the limits allow it, without looking ahead. `admission_optimal`
says that no other way of granting the same requests does better: over any run whose requests on a
scope pass one policy, with clock values that do not go back and a new key each, the number of
grants is the greatest number of these requests whose times are within the limits.

The checks of one call are `AdmitsOne` over the recorded times, so the store serves the scope first
come, first served, and the rest is the general fact about such a server. A key that is tried again
is outside this: once granted it is not granted again, although a later time may have left more
room for the others.
-/

set_option autoImplicit false
set_option relaxedAutoImplicit false

namespace Gaudere.Budget

open Gaudere.Library BudgetStore

/-! ### One call -/

/-- The limits of a policy on recorded times in milliseconds. -/
abbrev WithinPolicy (policy : Policy) : List ℤ → Prop :=
  WithinLimits policy.maxTotal.toNat policy.maxInWindow.toNat policy.window.toInt
    policy.minInterval.toInt

abbrev AdmitsUnder (policy : Policy) : List ℤ → ℤ → Prop :=
  AdmitsOne policy.maxTotal.toNat policy.maxInWindow.toNat policy.window.toInt
    policy.minInterval.toInt

theorem interval_nonneg {policy : Policy} (h : validPolicy policy = true) :
    0 ≤ policy.minInterval.toInt := (bounds_of_validPolicy h).2.1

/-- A policy that the store accepts, as a limit. -/
def policyLimit {policy : Policy} (h : validPolicy policy = true) : Limit ℤ :=
  windowLimit policy.maxTotal.toNat policy.maxInWindow.toNat (toInt_pos_window h)
    (interval_nonneg h)

/-- Where nothing leaves the range of the clock, the checks of a new key are those of one more time
over the recorded ones. -/
theorem passes_iff_admits {recorded : List Int64}
    (hrecorded : ∀ ms ∈ recorded, Fits (ms.toInt * 1000000)) {policy : Policy}
    (hpolicy : validPolicy policy = true) (hwindow : Fits (policy.window.toInt * 1000000))
    {now : TimePoint} (hepoch : policy.window.toInt * 1000000 ≤ now.toInt) :
    Passes recorded now policy ↔
      AdmitsUnder policy (recorded.map Int64.toInt) (milliseconds now).toInt := by
  have hcutoff := toInt_cutoff (toInt_pos_window hpolicy) hwindow hepoch
  have hcount : recorded.countP (fun ms ↦ decide (milliseconds (cutoff now policy) < ms)) =
      (recorded.map Int64.toInt).countP
        fun ms ↦ decide ((milliseconds now).toInt - policy.window.toInt < ms) := by
    rw [List.countP_map]
    refine List.countP_congr fun ms _ ↦ ?_
    simp only [Function.comp_apply, decide_eq_true_eq, Int64.lt_iff_toInt_lt, hcutoff]
  have hspaced := (ordered_and_spaced_iff hrecorded hpolicy now).trans shifted_le_iff
  constructor
  · rintro ⟨htotal, hordered, hlatest, hwindowed⟩
    have hbound := hspaced.mp ⟨hordered, hlatest⟩
    refine ⟨by rw [List.length_map]; exact htotal, List.forall_mem_map.mpr fun ms hms ↦ ?_,
      hcount ▸ hwindowed⟩
    cases hmax : recorded.max? with
    | none =>
      rw [List.max?_eq_none_iff.mp hmax] at hms
      cases hms
    | some latest =>
      have hle := Int64.le_iff_toInt_le.mp ((List.max?_eq_some_iff.mp hmax).2 ms hms)
      have hfar := hbound latest.toInt (by rw [hmax, Option.map_some])
      omega
  · rintro ⟨htotal, hfar, hwindowed⟩
    rw [List.length_map] at htotal
    rw [List.forall_mem_map] at hfar
    obtain ⟨hordered, hlatest⟩ := hspaced.mpr fun ms hms ↦ by
      obtain ⟨latest, hmax, rfl⟩ := Option.map_eq_some_iff.mp hms
      exact hfar latest (List.max?_mem hmax)
    exact ⟨htotal, hordered, hlatest, hcount ▸ hwindowed⟩

/-! ### The requests of a run -/

/-- The key and the clock value of a consumption on a scope. -/
def Call.requestOn (scope : CText) : Call → Option (CText × TimePoint)
  | .consume s idempotencyKey now _ =>
    if bindText s = scope then some (bindText idempotencyKey, now) else none
  | .reopen => none

/-- The requests on a scope, in the order of the run. -/
def requestsOn (scope : CText) (calls : List Call) : List (CText × TimePoint) :=
  calls.filterMap (Call.requestOn scope)

/-- The time that a request is recorded with. -/
def requestTime (request : CText × TimePoint) : ℤ := (milliseconds request.2).toInt

/-- A consumption on the scope is a valid request under the policy, at or after epoch plus
window. -/
def OnPolicy (scope : CText) (policy : Policy) : Call → Prop
  | .consume s idempotencyKey now p => bindText s = scope →
    ValidRequest s idempotencyKey p ∧ p = policy ∧ policy.window.toInt * 1000000 ≤ now.toInt
  | .reopen => True

instance (scope : CText) (policy : Policy) : DecidablePred (OnPolicy scope policy)
  | .consume s idempotencyKey now p => inferInstanceAs (Decidable (bindText s = scope →
      ValidRequest s idempotencyKey p ∧ p = policy ∧ policy.window.toInt * 1000000 ≤ now.toInt))
  | .reopen => inferInstanceAs (Decidable True)

theorem requestsOn_concat (scope : CText) (calls : List Call) (call : Call) :
    requestsOn scope (calls ++ [call]) =
      requestsOn scope calls ++ (call.requestOn scope).toList := by
  rw [requestsOn, List.filterMap_append, ← requestsOn]
  cases h : call.requestOn scope <;> simp [h]

theorem requestOn_of_scope {s : Bytes} {scope : CText} (h : bindText s = scope) (key : Bytes)
    (now : TimePoint) (policy : Policy) :
    (Call.consume s key now policy).requestOn scope = some (bindText key, now) := if_pos h

/-- A call that is no request on a scope leaves its recorded times. -/
theorem times_of_other {t : BudgetTable} {call : Call} {scope : CText}
    (h : call.requestOn scope = none) :
    times (machine.event t call).after scope = times t scope := by
  rcases step_cases t call with ⟨_, hafter⟩ | ⟨s, key, now, policy, rfl, _, _, _, hafter⟩
  · rw [hafter]
  · have hother : bindText s ≠ scope := fun hscope ↦ by
      rw [requestOn_of_scope hscope] at h
      cases h
    rw [times_append hafter, if_neg hother, List.append_nil]

/-- What was granted on a scope was requested. -/
theorem requested_of_granted {calls : List Call} {scope key : CText}
    (h : granted (machine.run (Table.empty budgetSchema) calls) scope key = true) :
    key ∈ (requestsOn scope calls).map Prod.fst := by
  obtain ⟨row, hrow, hscope, hkey⟩ := granted_iff.mp h
  rw [rows_run, Table.rows_empty, List.nil_append] at hrow
  obtain ⟨e, he, hgranted⟩ := List.mem_filterMap.mp hrow
  obtain ⟨identity, ⟨hcall, _⟩, hfst, hsnd⟩ := mem_grantedRow hgranted
  have hmem := machine.call_mem_of_mem_history he
  cases hconsume : e.call with
  | reopen =>
    rw [hconsume] at hcall
    cases hcall
  | consume s k now policy =>
    rw [hconsume] at hcall hmem
    cases hcall
    refine List.mem_map.mpr ⟨(bindText k, now), List.mem_filterMap.mpr ⟨_, hmem, ?_⟩,
      hsnd.symm.trans hkey⟩
    exact requestOn_of_scope (hfst.symm.trans hscope) k now policy

/-! ### Whole runs -/

/-- A request with a new key is granted exactly when its time is within the limits after the
recorded ones, and is then recorded. -/
theorem times_of_request {t : BudgetTable} {s key : Bytes} {now : TimePoint} {policy : Policy}
    (hvalid : ValidRequest s key policy) (hwindow : Fits (policy.window.toInt * 1000000))
    (hepoch : policy.window.toInt * 1000000 ≤ now.toInt)
    (hnew : granted t (bindText s) (bindText key) = false)
    (hrecorded : ∀ ms ∈ times t (bindText s), Fits (ms.toInt * 1000000))
    (hwithin : WithinPolicy policy ((times t (bindText s)).map Int64.toInt)) :
    let recorded := (times t (bindText s)).map Int64.toInt
    let event := machine.event t (.consume s key now policy)
    (WithinPolicy policy (recorded ++ [(milliseconds now).toInt]) ∧
      (times event.after (bindText s)).map Int64.toInt =
        recorded ++ [(milliseconds now).toInt]) ∨
    (¬ WithinPolicy policy (recorded ++ [(milliseconds now).toInt]) ∧
      times event.after (bindText s) = times t (bindText s)) := by
  intro recorded event
  have hverdict : WithinPolicy policy (recorded ++ [(milliseconds now).toInt]) ↔
      verdict (granted t (bindText s) (bindText key)) (times t (bindText s)) now policy =
        .accepted := by
    rw [hnew, accepted_iff_passes, passes_iff_admits hrecorded hvalid.2.1 hwindow hepoch]
    exact (withinLimits_concat_iff (toInt_pos_window hvalid.2.1)
      (interval_nonneg hvalid.2.1)).trans (and_iff_right hwithin)
  rw [hverdict]
  have hreply := reply_of_valid hvalid t now
  rcases step_cases t (.consume s key now policy) with
    ⟨hrefused, hafter⟩ | ⟨s', key', now', policy', hcall, _, _, haccepted, hafter⟩
  · refine Or.inr ⟨fun haccepted ↦ hrefused ?_, by rw [hafter]⟩
    rw [hreply, haccepted]
  · cases hcall
    rw [haccepted, Reply.consumed.injEq] at hreply
    refine Or.inl ⟨hreply.symm, ?_⟩
    rw [times_append hafter, if_pos rfl, List.map_append, List.map_singleton]

/-- The store serves a scope first come, first served. -/
theorem served_run {scope : CText} {policy : Policy} (hpolicy : validPolicy policy = true)
    (hwindow : Fits (policy.window.toInt * 1000000)) {calls : List Call}
    (hvalid : ∀ call ∈ calls, OnPolicy scope policy call)
    (hkeys : ((requestsOn scope calls).map Prod.fst).Nodup) :
    (policyLimit hpolicy).Served ((requestsOn scope calls).map requestTime)
      ((times (machine.run (Table.empty budgetSchema) calls) scope).map Int64.toInt) := by
  induction calls using List.reverseRecOn with
  | nil => exact .nil
  | append_singleton calls call ih =>
    obtain ⟨hbefore, hlast⟩ := List.forall_mem_append.mp hvalid
    rw [requestsOn_concat, List.map_append] at hkeys ⊢
    have hserved := ih hbefore hkeys.of_append_left
    rw [Machine.run_append, Machine.run_cons, Machine.run_nil]
    cases hrequest : call.requestOn scope with
    | none =>
      rw [times_of_other hrequest, Option.toList_none, List.map_nil, List.append_nil]
      exact hserved
    | some request =>
      cases call with
      | reopen => cases hrequest
      | consume s key now p =>
        obtain ⟨rfl, rfl⟩ : bindText s = scope ∧ (bindText key, now) = request := by
          simp only [Call.requestOn] at hrequest
          split_ifs at hrequest with hscope
          exact ⟨hscope, Option.some.inj hrequest⟩
        obtain ⟨hrequested, rfl, hepoch⟩ := hlast _ List.mem_cons_self rfl
        have hnew : granted (machine.run (Table.empty budgetSchema) calls) (bindText s)
            (bindText key) = false := by
          rw [Bool.eq_false_iff]
          intro hgranted
          refine List.disjoint_of_nodup_append hkeys (requested_of_granted hgranted) ?_
          rw [requestOn_of_scope rfl]
          exact List.mem_cons_self
        have hrecorded := representable_times calls (bindText s)
        rcases times_of_request hrequested hwindow hepoch hnew hrecorded hserved.within with
          ⟨hadmitted, htimes⟩ | ⟨hrefuse, htimes⟩
        · rw [htimes]
          exact .admitted hserved hadmitted
        · rw [htimes]
          exact .refused hserved hrefuse

/-- Over any run whose requests on a scope are valid under one policy, come from epoch plus window
on with clock values that do not go back, and have a new key each: the number of grants on the
scope is the greatest number of these requests, in their order, whose recorded times are within the
limits of the policy. Calls on other scopes may stand anywhere in between. -/
theorem admission_optimal (scope : CText) {policy : Policy} (hpolicy : validPolicy policy = true)
    (hwindow : Fits (policy.window.toInt * 1000000)) (calls : List Call)
    (hvalid : ∀ call ∈ calls, OnPolicy scope policy call)
    (hkeys : ((requestsOn scope calls).map Prod.fst).Nodup)
    (hordered : ((requestsOn scope calls).map Prod.snd).Pairwise (· ≤ ·)) :
    IsGreatest {n | ∃ chosen : List (CText × TimePoint), chosen.Sublist (requestsOn scope calls) ∧
        WithinPolicy policy (chosen.map requestTime) ∧ chosen.length = n}
      (countTotal (machine.run (Table.empty budgetSchema) calls) scope) := by
  have hserved := served_run hpolicy hwindow hvalid hkeys
  have htimes : ((requestsOn scope calls).map requestTime).Pairwise (· ≤ ·) := by
    rw [List.pairwise_map] at hordered ⊢
    exact hordered.imp fun hle ↦ Int64.le_iff_toInt_le.mp (toMilliseconds_le_of_le hle)
  obtain ⟨⟨admitted, hsublist, hwithin, hlength⟩, hupper⟩ := hserved.isGreatest htimes
  rw [List.length_map] at hlength hupper
  constructor
  · obtain ⟨chosen, hchosen, rfl⟩ := List.sublist_map_iff.mp hsublist
    rw [List.length_map] at hlength
    exact ⟨chosen, hchosen, hwithin, hlength⟩
  · rintro _ ⟨chosen, hchosen, hwithin', rfl⟩
    exact hupper ⟨chosen.map requestTime, hchosen.map _, hwithin', List.length_map _⟩

/-- Five requests with a new key each, and one for another scope. -/
def distinctRun : List Call :=
  [.consume (ascii "probe") (ascii "first") (ofMilliseconds 2000) probePolicy,
    .consume (ascii "probe") (ascii "early") (ofMilliseconds 2009) probePolicy,
    .consume (ascii "other") (ascii "first") (ofMilliseconds 100) probePolicy,
    .consume (ascii "probe") (ascii "second") (ofMilliseconds 2010) probePolicy,
    .consume (ascii "probe") (ascii "crowded") (ofMilliseconds 2999) probePolicy,
    .consume (ascii "probe") (ascii "third") (ofMilliseconds 3000) probePolicy]

theorem admission_optimal_probe :
    IsGreatest {n | ∃ chosen : List (CText × TimePoint),
        chosen.Sublist (requestsOn (bindText (ascii "probe")) distinctRun) ∧
        WithinPolicy probePolicy (chosen.map requestTime) ∧ chosen.length = n} 3 := by
  have hcount : countTotal (machine.run (Table.empty budgetSchema) distinctRun)
      (bindText (ascii "probe")) = 3 := by decide
  rw [← hcount]
  exact admission_optimal (bindText (ascii "probe")) (by decide) ⟨by decide, by decide⟩
    distinctRun (by decide) (by decide) (by decide)

end Gaudere.Budget
