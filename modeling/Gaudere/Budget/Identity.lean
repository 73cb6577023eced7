import Gaudere.Budget.Store

/-!
# The identities of a budget

A consumption is identified by its scope and its idempotency key. `ExactIdentities` is what
callers rely on over a run: a request is a duplicate exactly when the very same scope and key were
granted before, and the calls on one scope do not notice those on others.

Bindings stop at the first NUL, so two identities can share their stored text (`Conflated`), and
then two calls suffice to break it. `budget_identities_exact_iff` says that this is the only way:
a set of identities is treated exactly in every run if and only if no two of them are conflated.
-/

set_option autoImplicit false
set_option relaxedAutoImplicit false

namespace Gaudere.Budget

open Gaudere.Library BudgetStore

/-- The scope and key of a request. -/
abbrev Identity := Bytes × Bytes

def Call.identity? : Call → Option Identity
  | .consume scope idempotencyKey _ _ => some (scope, idempotencyKey)
  | .reopen => none

/-- The call is a consumption on the scope. -/
def Call.onScope (scope : Bytes) (call : Call) : Bool :=
  call.identity?.any fun identity ↦ identity.1 == scope

/-- The call is not a consumption on another scope. -/
def Call.offOthers (scope : Bytes) (call : Call) : Bool :=
  call.identity?.all fun identity ↦ identity.1 == scope

/-- An accepted consumption with exactly this scope and key. -/
def Grants (identity : Identity) (e : Event BudgetTable Call Reply) : Prop :=
  e.call.identity? = some identity ∧ e.reply = .consumed .accepted

instance (identity : Identity) : DecidablePred (Grants identity) := fun e ↦
  inferInstanceAs (Decidable (e.call.identity? = some identity ∧ e.reply = .consumed .accepted))

/-- In a run, valid requests are duplicates exactly when their identity was granted before, and
the results on a scope do not change when the calls on other scopes are removed. -/
def ExactIdentities (calls : List Call) : Prop :=
  (∀ earlier e later,
    machine.history (Table.empty budgetSchema) calls = earlier ++ e :: later →
      ∀ scope key now policy, e.call = .consume scope key now policy →
        ValidRequest scope key policy →
          (e.reply = .consumed .duplicate ↔ ∃ e' ∈ earlier, Grants (scope, key) e')) ∧
  ∀ scope, Machine.replies (Call.onScope scope)
      (machine.history (Table.empty budgetSchema) calls) =
    Machine.replies (Call.onScope scope)
      (machine.history (Table.empty budgetSchema) (calls.filter (Call.offOthers scope)))

/-- Two identities with non-empty parts that bind to the same text: their scopes differ, or the
scope is the same and their keys differ. -/
def Conflated (a b : Identity) : Prop :=
  (a.1 ≠ [] ∧ a.2 ≠ [] ∧ b.1 ≠ [] ∧ b.2 ≠ []) ∧ cString a.1 = cString b.1 ∧
    (a.1 ≠ b.1 ∨ cString a.2 = cString b.2 ∧ a.2 ≠ b.2)

/-! ### What the store compares -/

/-- The rows of a scope. -/
def scopeRows (t : BudgetTable) (scope : CText) : List ConsumptionRow :=
  t.rows.filter fun row ↦ row.scope = scope

theorem times_congr {t t' : BudgetTable} {scope : CText}
    (h : scopeRows t scope = scopeRows t' scope) : times t scope = times t' scope :=
  congrArg (List.map ConsumptionRow.consumedAtMs) h

theorem granted_congr {t t' : BudgetTable} {scope : CText}
    (h : scopeRows t scope = scopeRows t' scope) (key : CText) :
    granted t scope key = granted t' scope key := by
  have hrow : ∀ (t : BudgetTable), granted t scope key = true ↔
      ∃ row ∈ scopeRows t scope, row.idempotencyKey = key := by
    intro t
    simp only [granted_iff, scopeRows, List.mem_filter, decide_eq_true_eq, and_assoc]
  rw [Bool.eq_iff_iff, hrow, hrow, h]

/-- A request reads the rows of its own scope only. -/
theorem reply_congr {t t' : BudgetTable} {scope key : Bytes} {policy : Policy}
    (hvalid : ValidRequest scope key policy)
    (h : scopeRows t (bindText scope) = scopeRows t' (bindText scope)) (now : TimePoint) :
    (machine.event t (.consume scope key now policy)).reply =
      (machine.event t' (.consume scope key now policy)).reply := by
  rw [reply_of_valid hvalid, reply_of_valid hvalid, times_congr h, granted_congr h]

theorem scopeRows_after (t : BudgetTable) (call : Call) (scope : CText) :
    scopeRows (machine.event t call).after scope = scopeRows t scope ++
      (grantedRow (machine.event t call)).toList.filter fun row ↦ row.scope = scope := by
  rw [scopeRows, rows_after, List.filter_append, scopeRows]

/-- The row of a grant holds the bound texts of its identity. -/
theorem mem_grantedRow {e : Event BudgetTable Call Reply} {row : ConsumptionRow}
    (h : grantedRow e = some row) :
    ∃ identity : Identity, Grants identity e ∧ row.scope = bindText identity.1 ∧
      row.idempotencyKey = bindText identity.2 := by
  unfold grantedRow at h
  split at h
  · rename_i scope key now policy hcall
    split_ifs at h with hreply
    cases h
    exact ⟨(scope, key), ⟨by rw [hcall]; rfl, hreply⟩, rfl, rfl⟩
  · cases h

theorem grantedRow_of_grants {identity : Identity} {e : Event BudgetTable Call Reply}
    (h : Grants identity e) :
    ∃ row, grantedRow e = some row ∧ row.scope = bindText identity.1 ∧
      row.idempotencyKey = bindText identity.2 := by
  obtain ⟨hcall, hreply⟩ := h
  unfold grantedRow
  cases hconsume : e.call with
  | reopen => simp [hconsume, Call.identity?] at hcall
  | consume scope key now policy =>
    rw [hconsume, Call.identity?, Option.some.injEq] at hcall
    subst hcall
    exact ⟨_, if_pos hreply, rfl, rfl⟩

/-- In any run, a valid request is a duplicate exactly when an identity that binds to the same
text was granted before. -/
theorem duplicate_iff_conflated (calls : List Call) {scope key : Bytes} (now : TimePoint)
    {policy : Policy} (hvalid : ValidRequest scope key policy) :
    (machine.event (machine.run (Table.empty budgetSchema) calls)
        (.consume scope key now policy)).reply = .consumed .duplicate ↔
      ∃ e ∈ machine.history (Table.empty budgetSchema) calls, ∃ identity : Identity,
        Grants identity e ∧ cString identity.1 = cString scope ∧
          cString identity.2 = cString key := by
  rw [reply_of_valid hvalid, Reply.consumed.injEq, verdict_eq_duplicate_iff, granted_iff, rows_run,
    Table.rows_empty, List.nil_append]
  constructor
  · rintro ⟨row, hrow, hscope, hkey⟩
    obtain ⟨e, he, hrow⟩ := List.mem_filterMap.mp hrow
    obtain ⟨identity, hgrants, hfst, hsnd⟩ := mem_grantedRow hrow
    exact ⟨e, he, identity, hgrants, congrArg Subtype.val (hfst.symm.trans hscope),
      congrArg Subtype.val (hsnd.symm.trans hkey)⟩
  · rintro ⟨e, he, identity, hgrants, hscope, hkey⟩
    obtain ⟨row, hrow, hfst, hsnd⟩ := grantedRow_of_grants hgrants
    exact ⟨row, List.mem_filterMap.mpr ⟨e, he, hrow⟩, hfst.trans (Subtype.ext hscope),
      hsnd.trans (Subtype.ext hkey)⟩

/-! ### Identities that are not conflated -/

/-- The identities of a run lie in a set. -/
def Uses (requests : Set Identity) (calls : List Call) : Prop :=
  ∀ call ∈ calls, ∀ identity, call.identity? = some identity → identity ∈ requests

/-- A grant belongs to a valid request. -/
theorem valid_of_grants {t : BudgetTable} {call : Call} {identity : Identity}
    (h : Grants identity (machine.event t call)) : identity.1 ≠ [] ∧ identity.2 ≠ [] := by
  rcases step_cases t call with ⟨hreply, _⟩ | ⟨scope, key, now, policy, rfl, hvalid, _, _, _⟩
  · exact absurd h.2 hreply
  · have hidentity : (scope, key) = identity := Option.some.inj h.1
    subst hidentity
    exact ⟨hvalid.1, hvalid.2.2⟩

theorem duplicate_iff_granted {requests : Set Identity} {calls : List Call}
    (hdistinct : ∀ a ∈ requests, ∀ b ∈ requests, ¬ Conflated a b) (huses : Uses requests calls)
    {earlier later : List (Event BudgetTable Call Reply)} {e : Event BudgetTable Call Reply}
    (hsplit : machine.history (Table.empty budgetSchema) calls = earlier ++ e :: later)
    {scope key : Bytes} {now : TimePoint} {policy : Policy}
    (hcall : e.call = .consume scope key now policy) (hvalid : ValidRequest scope key policy) :
    e.reply = .consumed .duplicate ↔ ∃ e' ∈ earlier, Grants (scope, key) e' := by
  obtain ⟨past, call, future, rfl, rfl, rfl, -⟩ := machine.history_split hsplit
  rw [Machine.event_call] at hcall
  subst hcall
  rw [duplicate_iff_conflated past now hvalid]
  constructor
  · rintro ⟨e', he', identity, hgrants, hscope, hkey⟩
    refine ⟨e', he', ?_⟩
    have hmem : identity ∈ requests := huses _ (List.mem_append_left _
      (machine.call_mem_of_mem_history he')) identity hgrants.1
    have hown : (scope, key) ∈ requests := huses _
      (List.mem_append_right _ List.mem_cons_self) _ rfl
    have hnot := hdistinct identity hmem (scope, key) hown
    rw [machine.eq_event_of_mem_history he'] at hgrants
    obtain ⟨hfirst, hsecond⟩ := valid_of_grants hgrants
    simp only [Conflated, hfirst, hsecond, hvalid.1, hvalid.2.2, hscope, hkey, ne_eq,
      not_false_eq_true, and_self, true_and, not_or, not_not] at hnot
    rw [← machine.eq_event_of_mem_history he'] at hgrants
    rwa [show (scope, key) = identity from Prod.ext hnot.1.symm hnot.2.symm]
  · rintro ⟨e', he', hgrants⟩
    exact ⟨e', he', (scope, key), hgrants, rfl, rfl⟩

/-- The results on a scope do not depend on calls on other scopes, when no identity is conflated
with one on the scope. -/
theorem replies_on_scope {requests : Set Identity} {calls : List Call}
    (hdistinct : ∀ a ∈ requests, ∀ b ∈ requests, ¬ Conflated a b) (huses : Uses requests calls)
    (scope : Bytes) :
    Machine.replies (Call.onScope scope) (machine.history (Table.empty budgetSchema) calls) =
      Machine.replies (Call.onScope scope)
        (machine.history (Table.empty budgetSchema) (calls.filter (Call.offOthers scope))) := by
  -- The scope is live when it has a request that can be granted. Only then do its rows matter.
  let Live : Prop := ∃ key, (scope, key) ∈ requests ∧ scope ≠ [] ∧ key ≠ []
  let R : BudgetTable → BudgetTable → Prop := fun t t' ↦
    Live → scopeRows t (bindText scope) = scopeRows t' (bindText scope)
  refine (machine.replies_erase (R := R) ?_ ?_ ?_ huses (fun _ ↦ rfl)).1
  · intro call hon
    cases call with
    | reopen => rfl
    | consume s key now policy => exact hon
  · intro t t' call hmem hkept hR
    cases call with
    | reopen => exact ⟨fun h ↦ by simp [Call.onScope, Call.identity?] at h, hR⟩
    | consume s key now policy =>
      obtain rfl : s = scope := by simpa [Call.offOthers, Call.identity?] using hkept
      by_cases hvalid : ValidRequest s key policy
      · have hlive : Live := ⟨key, hmem _ rfl, hvalid.1, hvalid.2.2⟩
        have hreply := reply_congr hvalid (hR hlive) now
        refine ⟨fun _ ↦ hreply, fun hlive ↦ ?_⟩
        rw [scopeRows_after, scopeRows_after, hR hlive]
        simp only [grantedRow, Machine.event_call, hreply]
      · obtain ⟨failure, hfailure⟩ := consume_of_not_valid hvalid
        simp only [Machine.event, machine, hfailure, implies_true, true_and]
        exact hR
  · intro t t' call hmem herased hR
    rcases step_cases t call with ⟨_, hafter⟩ | ⟨s, key, now, policy, rfl, hvalid, _, hreply, _⟩
    · rw [hafter]
      exact hR
    · rintro ⟨other, hother, hscope, hkey⟩
      rw [scopeRows_after, hR ⟨other, hother, hscope, hkey⟩]
      have hne : s ≠ scope := by simpa [Call.offOthers, Call.identity?] using herased
      have hnot := hdistinct (s, key) (hmem _ rfl) (scope, other) hother
      have htext : bindText s ≠ bindText scope := by
        intro heq
        exact hnot ⟨⟨hvalid.1, hvalid.2.2, hscope, hkey⟩, congrArg Subtype.val heq, Or.inl hne⟩
      simp only [grantedRow, Machine.event_call, hreply, ↓reduceIte, Option.toList_some,
        List.filter_singleton, htext, decide_false, cond_false, List.append_nil]

/-! ### Conflated identities -/

/-- One permit, ever. -/
def onePermit : Policy where
  maxTotal := 1
  maxInWindow := 1
  window := 1
  minInterval := 0

/-- Two requests at the epoch for one permit each. -/
def twoRequests (a b : Identity) : List Call :=
  [.consume a.1 a.2 0 onePermit, .consume b.1 b.2 0 onePermit]

theorem reply_on_empty {identity : Identity} (hscope : identity.1 ≠ []) (hkey : identity.2 ≠ []) :
    (machine.event (Table.empty budgetSchema)
      (.consume identity.1 identity.2 0 onePermit)).reply = .consumed .accepted := by
  rw [reply_of_valid ⟨hscope, by decide, hkey⟩]
  rfl

/-- A second request that binds to the scope of the first finds its one permit taken. -/
theorem second_not_accepted {a b : Identity} (hvalid : ValidRequest b.1 b.2 onePermit)
    (hfirst : (machine.event (Table.empty budgetSchema)
      (.consume a.1 a.2 0 onePermit)).reply = .consumed .accepted)
    (htext : cString a.1 = cString b.1) :
    (machine.event (machine.event (Table.empty budgetSchema) (.consume a.1 a.2 0 onePermit)).after
      (.consume b.1 b.2 0 onePermit)).reply ≠ .consumed .accepted := by
  have hrows := rows_after (Table.empty budgetSchema) (.consume a.1 a.2 0 onePermit)
  simp only [grantedRow, Machine.event_call, hfirst, ↓reduceIte, Option.toList_some,
    Table.rows_empty, List.nil_append] at hrows
  have hscope : bindText a.1 = bindText b.1 := Subtype.ext htext
  rw [reply_of_valid hvalid, ne_eq, Reply.consumed.injEq]
  intro haccepted
  have htotal := (passes_of_accepted haccepted).2.total
  simp only [times, hrows, hscope, decide_true, List.filter_cons_of_pos, List.filter_nil,
    List.map_cons, List.map_nil, List.length_singleton] at htotal
  exact absurd htotal (by decide)

/-- Two requests with conflated identities are not treated exactly. -/
theorem not_exactIdentities_of_conflated {a b : Identity} (h : Conflated a b) :
    ¬ ExactIdentities (twoRequests a b) := by
  obtain ⟨⟨hscope, hkey, hscope', hkey'⟩, htext, hdiffer⟩ := h
  rintro ⟨hduplicate, hisolated⟩
  have hfirst := reply_on_empty hscope hkey
  have hvalid : ValidRequest b.1 b.2 onePermit := ⟨hscope', by decide, hkey'⟩
  rcases hdiffer with hne | ⟨hsame, hne⟩
  · -- Alone, the second request is accepted.
    have hreplies := hisolated b.1
    simp only [twoRequests, Machine.history_cons, Machine.history_nil, Call.offOthers,
      Call.identity?, Option.all_some, beq_iff_eq, hne, not_false_eq_true, List.filter_cons_of_neg,
      BEq.rfl, List.filter_cons_of_pos, List.filter_nil, Machine.replies_cons, Machine.event_call,
      Call.onScope, Option.any_some, ↓reduceIte, Machine.replies_nil, List.nil_append,
      List.append_nil, List.cons.injEq, and_true, reply_on_empty hscope' hkey'] at hreplies
    exact second_not_accepted hvalid hfirst htext hreplies
  · -- The second key was never granted, and is reported as a duplicate.
    have hreply := (duplicate_iff_conflated [.consume a.1 a.2 0 onePermit] 0 hvalid).mpr
      ⟨_, List.mem_cons_self, a, ⟨rfl, hfirst⟩, htext, hsame⟩
    obtain ⟨e, he, hgrants⟩ := (hduplicate [_] _ [] rfl _ _ _ _ rfl hvalid).mp hreply
    rw [List.mem_singleton.mp he] at hgrants
    exact hne (congrArg Prod.snd (Option.some.inj hgrants.1))

/-- A set of identities is treated exactly in every run that uses it if and only if no two of
them are conflated. -/
theorem budget_identities_exact_iff (requests : Set Identity) :
    (∀ calls, Uses requests calls → ExactIdentities calls) ↔
      ∀ a ∈ requests, ∀ b ∈ requests, ¬ Conflated a b := by
  constructor
  · intro hexact a ha b hb hconflated
    refine not_exactIdentities_of_conflated hconflated (hexact _ ?_)
    simp only [Uses, twoRequests, List.forall_mem_cons, Call.identity?, Option.some.injEq,
      forall_eq', List.not_mem_nil, false_implies, implies_true, and_true]
    exact ⟨ha, hb⟩
  · intro hdistinct calls huses
    exact ⟨fun earlier e later hsplit scope key now policy hcall hvalid ↦
      duplicate_iff_granted hdistinct huses hsplit hcall hvalid,
      replies_on_scope hdistinct huses⟩

/-- Two keys of one scope that share what precedes their NUL. -/
def truncatedRequests : Identity × Identity :=
  ((ascii "probe", ascii "order" ++ 0 :: ascii "a"),
    (ascii "probe", ascii "order" ++ 0 :: ascii "b"))

/-- The second of two different keys is reported as a duplicate although it was never granted. -/
theorem ungranted_key_reported_duplicate :
    ¬ ExactIdentities (twoRequests truncatedRequests.1 truncatedRequests.2) ∧
    (machine.history (Table.empty budgetSchema)
      (twoRequests truncatedRequests.1 truncatedRequests.2)).map Event.reply =
        [.consumed .accepted, .consumed .duplicate] := by
  refine ⟨not_exactIdentities_of_conflated ?_, by decide⟩
  unfold Conflated
  decide

end Gaudere.Budget
