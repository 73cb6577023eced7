import Gaudere.Work.Transitions

/-!
# Attempts and cancellation

`attempts_bounded` follows the attempts of a task over any run: the successful starts number the
attempts its record counts, never more than its limit; between two of them a recovery found the
lease expired; after an accepted request to cancel there are none; and a finished task refuses
every call.
-/

set_option autoImplicit false
set_option relaxedAutoImplicit false

namespace Gaudere.Work

open Gaudere.Library TaskStore

/-! ### Starts -/

def Call.start? : Call → Option Bytes
  | .start id _ _ => some id
  | _ => none

def Call.cancel? : Call → Option Bytes
  | .requestCancel id _ => some id
  | _ => none

/-- A call of one kind on a task returned true. -/
def returnedTrue (kind : Call → Option Bytes) (id : Bytes) (e : Event System Call Reply) : Bool :=
  kind e.call == some id && e.reply == .flag true

theorem returnedTrue_iff {kind : Call → Option Bytes} {id : Bytes} {e : Event System Call Reply} :
    returnedTrue kind id e = true ↔ kind e.call = some id ∧ e.reply = .flag true := by
  rw [returnedTrue, Bool.and_eq_true, beq_iff_eq, beq_iff_eq]

theorem start?_eq_some {call : Call} {id : Bytes} (h : call.start? = some id) :
    ∃ leaseOwner now, call = .start id leaseOwner now := by
  cases call <;> cases h
  exact ⟨_, _, rfl⟩

theorem cancel?_eq_some {call : Call} {id : Bytes} (h : call.cancel? = some id) :
    ∃ reason, call = .requestCancel id reason := by
  cases call <;> cases h
  exact ⟨_, rfl⟩

/-- An edit adds one to the attempts exactly when it is a start. -/
theorem Edited.attempts {s : System} {call : Call} {id : Bytes} {a b : Task}
    (h : Edited s.state call a b (machine.event s call).reply) (htarget : call.target = some id) :
    b.attemptsStarted.toNat = a.attemptsStarted.toNat +
      if returnedTrue Call.start? id (machine.event s call) then 1 else 0 := by
  generalize hreply : (machine.event s call).reply = reply at h
  have hquiet : call.start? = none → ¬ returnedTrue Call.start? id (machine.event s call) := by
    intro hnone
    rw [returnedTrue_iff, Machine.event_call, hnone]
    exact fun h ↦ Option.some_ne_none _ h.1.symm
  cases h with
  | started argument leaseOwner now hcall hstate howner hstatus hattempts =>
    subst hcall
    have hstarted : returnedTrue Call.start? id
        (machine.event s (.start argument leaseOwner now)) = true :=
      returnedTrue_iff.mpr ⟨htarget, hreply⟩
    rw [if_pos hstarted]
    exact toNat_succ_of_lt hattempts
  | finished status result _ hstart hcancel hactive hresult hacted =>
    have hnone : call.start? = none := by
      cases call <;> first | rfl | exact absurd rfl (hstart _ _ _)
    rw [if_neg (hquiet hnone)]
    rfl
  | cancelledPending argument reason hcall hstatus =>
    rw [if_neg (hquiet (by rw [hcall]; rfl))]
    rfl
  | cancelRequested argument reason hcall hstatus =>
    rw [if_neg (hquiet (by rw [hcall]; rfl))]
    rfl
  | cancelRepeated argument reason hcall hstatus =>
    rw [if_neg (hquiet (by rw [hcall]; rfl))]
    rfl

theorem recovered_attempts (a : Task) :
    (Runtime.recovered a).attemptsStarted = a.attemptsStarted := by
  unfold Runtime.recovered
  split_ifs <;> rfl

/-- The successful starts of a run number the attempts of the records at its end. -/
def StartsCounted (past : List (Event System Call Reply)) (s : System) : Prop :=
  ∀ id, (find s.store id = none → past.countP (returnedTrue Call.start? id) = 0) ∧
    ∀ task, find s.store id = some task →
      past.countP (returnedTrue Call.start? id) = task.attemptsStarted.toNat

theorem startsCounted_step {past : List (Event System Call Reply)} {s : System}
    (h : StartsCounted past s) (call : Call) :
    StartsCounted (past ++ [machine.event s call]) (machine.event s call).after := by
  intro id
  obtain ⟨hnone, hsome⟩ := h id
  rw [List.countP_append, List.countP_singleton]
  have hquiet : ((call.target = some id → (machine.event s call).reply = call.refusal)) →
      ¬ returnedTrue Call.start? id (machine.event s call) = true := by
    intro hrefused hstarted
    obtain ⟨hstart, hreply⟩ := returnedTrue_iff.mp hstarted
    obtain ⟨_, _, rfl⟩ := start?_eq_some hstart
    rw [hrefused rfl] at hreply
    cases hreply
  have hstep := recordStep s call id
  generalize find (machine.event s call).after.store id = after at hstep ⊢
  cases hstep with
  | kept hrefused _ _ =>
    rw [if_neg (hquiet hrefused), Nat.add_zero]
    exact ⟨hnone, hsome⟩
  | submitted task hcall _ hfresh hfind _ _ =>
    rw [if_neg (hquiet fun htarget ↦ by rw [hcall] at htarget; cases htarget), hnone hfind]
    refine ⟨nofun, ?_⟩
    rintro _ ⟨⟩
    rw [hfresh.attempts]
    rfl
  | edited a b reply htarget hfind hedited hreply =>
    subst hreply
    refine ⟨nofun, ?_⟩
    rintro _ ⟨⟩
    rw [hsome a hfind, stored_eq]
    exact (hedited.attempts htarget).symm
  | recovered a now hcall hfind hexpired =>
    have hno : call.target = some id → (machine.event s call).reply = call.refusal := by
      intro htarget
      rw [recoveryAt_of_target htarget] at hcall
      cases hcall
    rw [if_neg (hquiet hno), Nat.add_zero, hsome a hfind]
    refine ⟨nofun, ?_⟩
    rintro _ ⟨⟩
    rw [recovered_attempts]

theorem startsCounted_run (calls : List Call) :
    StartsCounted (machine.history System.initial calls) (machine.run System.initial calls) := by
  refine Machine.history_induction (motive := StartsCounted) ?_
    (fun _ _ call _ h ↦ startsCounted_step h call) (machine.unrestricted _ _)
  intro id
  rw [find_initial]
  exact ⟨fun _ ↦ rfl, nofun⟩

/-- A start that returned true found the task pending, and counted and leased the attempt. -/
theorem start_cases {s : System} {id leaseOwner : Bytes} {now : TimePoint}
    (hreply : (machine.event s (.start id leaseOwner now)).reply = .flag true) :
    ∃ a, find s.store id = some a ∧ a.status = .pending ∧
      find (machine.event s (.start id leaseOwner now)).after.store id =
        some (stored { a with
          attemptsStarted := a.attemptsStarted + 1
          status := .running
          lease := some
            { owner := leaseOwner, expiresAt := now + ofMilliseconds a.limits.maxRuntime } }) := by
  have htaken : (machine.event s (.start id leaseOwner now)).reply ≠ .flag false := by
    rw [hreply]
    decide
  obtain ⟨a, b, hfind, hedited, hafter⟩ := edited_of_not_refused rfl htaken
  refine ⟨a, hfind, ?_⟩
  rw [hafter]
  generalize (machine.event s (.start id leaseOwner now)).reply = reply at hedited
  cases hedited with
  | started _ _ _ hcall hstate howner hstatus hattempts =>
    cases hcall
    exact ⟨hstatus, rfl⟩
  | finished _ _ _ hother _ _ _ _ => exact absurd rfl (hother _ _ _)
  | cancelledPending _ _ hcall _ => cases hcall
  | cancelRequested _ _ hcall _ => cases hcall
  | cancelRepeated _ _ hcall _ => cases hcall

theorem started_cases {s : System} {call : Call} {id : Bytes}
    (h : returnedTrue Call.start? id (machine.event s call) = true) :
    ∃ a b, find s.store id = some a ∧ a.status = .pending ∧
      find (machine.event s call).after.store id = some b ∧ b.status = .running := by
  obtain ⟨hstart, hreply⟩ := returnedTrue_iff.mp h
  obtain ⟨leaseOwner, now, rfl⟩ := start?_eq_some hstart
  obtain ⟨a, hfind, hstatus, hafter⟩ := start_cases hreply
  refine ⟨a, _, hfind, hstatus, hafter, ?_⟩
  rw [stored_eq]

/-! ### Between two starts -/

/-- A recovery found the lease of the task of an id expired. -/
def RecoveredLease (id : Bytes) (e : Event System Call Reply) : Prop :=
  ∃ now a, e.call.recoveryAt = some now ∧ find e.before.store id = some a ∧ expired now a = true

/-- A stored task becomes pending only by a recovery that finds its lease expired. -/
theorem pending_cause {s : System} {call : Call} {id : Bytes} {a b : Task}
    (ha : find s.store id = some a)
    (hb : find (machine.event s call).after.store id = some b) (hstatus : b.status = .pending) :
    a.status = .pending ∨ RecoveredLease id (machine.event s call) := by
  rcases found_after ha call with ⟨hkept, _, _⟩ | ⟨c, _, _, hedited, _, hafter⟩ |
    ⟨now, hcall, hexpired, hafter⟩
  · obtain rfl : a = b := Option.some.inj (hkept.symm.trans hb)
    exact Or.inl hstatus
  · obtain rfl : stored c = b := Option.some.inj (hafter.symm.trans hb)
    rw [stored_eq] at hstatus
    cases hedited with
    | finished status result _ _ _ _ hresult _ =>
      obtain rfl : status = .pending := hstatus
      exact absurd hresult.terminal (by decide)
    | cancelRepeated _ _ _ hrequested => exact Or.inl hstatus
    | _ => cases hstatus
  · exact Or.inr ⟨now, a, hcall, ha, hexpired⟩

theorem recovery_between_starts {calls : List Call} {id : Bytes}
    {earlier middle later : List (Event System Call Reply)}
    {first second : Event System Call Reply}
    (hsplit : machine.history System.initial calls =
      earlier ++ first :: middle ++ second :: later)
    (hfirst : returnedTrue Call.start? id first = true)
    (hsecond : returnedTrue Call.start? id second = true) :
    ∃ e ∈ middle, RecoveredLease id e := by
  rw [List.append_assoc, List.cons_append] at hsplit
  obtain ⟨past, call, future, rfl, rfl, rfl, hrest⟩ := machine.history_split hsplit
  obtain ⟨between, call', future', rfl, rfl, rfl, rfl⟩ := machine.history_split hrest.symm
  obtain ⟨_, b, _, _, hrunning, hstatus⟩ := started_cases hfirst
  obtain ⟨c, _, hpending, hstatus', _, _⟩ := started_cases hsecond
  refine Machine.exists_cause (P := fun s : System ↦ ∃ a, find s.store id = some a)
    (Q := fun s : System ↦ ∃ a, find s.store id = some a ∧ a.status = .pending) ?_ ?_
    (machine.unrestricted _ _) ⟨b, hrunning⟩ ?_ ⟨c, hpending, hstatus'⟩
  · rintro s call _ ⟨a, ha⟩
    obtain ⟨b, hb, _⟩ := sameDefinition_after ha call
    exact ⟨b, hb⟩
  · rintro s call _ ⟨a, ha⟩ ⟨b, hb, hb'⟩
    exact (pending_cause ha hb hb').imp_left fun ha' ↦ ⟨a, ha, ha'⟩
  · rintro ⟨a, ha, ha'⟩
    obtain rfl : b = a := Option.some.inj (hrunning.symm.trans ha)
    rw [hstatus] at ha'
    cases ha'

/-! ### After a cancellation -/

/-- The task of an id will not run again. -/
def Closed (id : Bytes) (s : System) : Prop :=
  ∃ a, find s.store id = some a ∧ a.status ≠ .pending ∧ a.status ≠ .running

theorem closed_step {s : System} {id : Bytes} (h : Closed id s) (call : Call) :
    Closed id (machine.event s call).after := by
  obtain ⟨a, ha, hpending, hrunning⟩ := h
  rcases found_after ha call with ⟨hkept, _, _⟩ | ⟨b, _, _, hedited, _, hafter⟩ |
    ⟨now, _, hexpired, hafter⟩
  · exact ⟨a, hkept, hpending, hrunning⟩
  · refine ⟨stored b, hafter, ?_⟩
    rw [stored_eq]
    cases hedited with
    | started _ _ _ _ _ _ hstatus _ => exact absurd hstatus hpending
    | finished status result _ _ _ _ hresult _ =>
      have hterminal := hresult.terminal
      constructor <;> rintro rfl <;> exact absurd hterminal (by decide)
    | cancelledPending _ _ _ hstatus => exact absurd hstatus hpending
    | cancelRequested _ _ _ hstatus => exact absurd hstatus hrunning
    | cancelRepeated _ _ _ _ => exact ⟨hpending, hrunning⟩
  · refine ⟨_, hafter, ?_⟩
    rcases recovered_cases (active_of_expired hexpired) with
      ⟨hstatus, _, _⟩ | ⟨status, result, hresult, _, heq⟩
    · exact absurd hstatus hrunning
    · have hterminal := hresult.terminal
      rw [heq]
      constructor <;> rintro rfl <;> exact absurd hterminal (by decide)

/-- An accepted request to cancel closes the task. -/
theorem closed_of_cancel {s : System} {call : Call} {id : Bytes}
    (h : returnedTrue Call.cancel? id (machine.event s call) = true) :
    Closed id (machine.event s call).after := by
  obtain ⟨hcancel, hreply⟩ := returnedTrue_iff.mp h
  obtain ⟨reason, rfl⟩ := cancel?_eq_some hcancel
  have htaken : (machine.event s (.requestCancel id reason)).reply ≠ .flag false := by
    rw [hreply]
    decide
  obtain ⟨a, b, hfind, hedited, hafter⟩ := edited_of_not_refused rfl htaken
  refine ⟨stored b, hafter, ?_⟩
  rw [stored_eq]
  generalize (machine.event s (.requestCancel id reason)).reply = reply at hedited
  cases hedited with
  | started _ _ _ hcall _ _ _ _ => cases hcall
  | finished _ _ _ _ hother _ _ _ => exact absurd rfl (hother _ _)
  | cancelledPending _ _ _ _ => exact ⟨nofun, nofun⟩
  | cancelRequested _ _ _ _ => exact ⟨nofun, nofun⟩
  | cancelRepeated _ _ _ hstatus => rw [hstatus]; exact ⟨nofun, nofun⟩

theorem no_restart_after_cancel {calls : List Call} {id : Bytes}
    {earlier later : List (Event System Call Reply)} {e : Event System Call Reply}
    (hsplit : machine.history System.initial calls = earlier ++ e :: later)
    (hcancel : returnedTrue Call.cancel? id e = true) :
    (∀ e' ∈ later, ¬ returnedTrue Call.start? id e' = true) ∧
      ∀ s ∈ e.after :: later.map Event.after, Closed id s := by
  have hclosed : Closed id e.after := by
    obtain ⟨past, call, _, _, _, rfl, _⟩ := machine.history_split hsplit
    exact closed_of_cancel hcancel
  obtain ⟨hlater, -⟩ := Machine.invariant_after (P := Closed id)
    (fun _ call _ h ↦ closed_step h call) (machine.unrestricted _ _) hsplit hclosed
  refine ⟨fun e' he' hstarted ↦ ?_, List.forall_mem_cons.mpr ⟨hclosed, ?_⟩⟩
  · obtain ⟨heq, ⟨a, ha, hpending, _⟩, _⟩ := hlater e' he'
    rw [heq] at hstarted
    obtain ⟨b, _, hb, hstatus, _⟩ := started_cases hstarted
    obtain rfl : a = b := Option.some.inj (ha.symm.trans hb)
    exact hpending hstatus
  · exact List.forall_mem_map.mpr fun e' he' ↦ (hlater e' he').2.2

/-! ### Over every run -/

/-- Over any run from an empty store: the successful starts of an accepted task number the attempts
its record counts, and do not exceed its limit; between two of them a recovery found its lease
expired; after an accepted request to cancel there is none, and the task is never again pending or
running; and every call on a finished task refuses. -/
theorem attempts_bounded (calls : List Call) :
    (∀ e ∈ machine.history System.initial calls, ∀ task, e.call = .submit task →
      e.reply = .submitted .accepted →
        ∃ final, find (machine.run System.initial calls).store task.id = some final ∧
          (machine.history System.initial calls).countP (returnedTrue Call.start? task.id) =
            final.attemptsStarted.toNat ∧
          final.attemptsStarted.toNat ≤ task.limits.maxAttempts.toNat) ∧
    (∀ id earlier first middle second later,
      machine.history System.initial calls = earlier ++ first :: middle ++ second :: later →
        returnedTrue Call.start? id first = true → returnedTrue Call.start? id second = true →
          ∃ e ∈ middle, RecoveredLease id e) ∧
    (∀ id earlier e later, machine.history System.initial calls = earlier ++ e :: later →
      returnedTrue Call.cancel? id e = true →
        (∀ e' ∈ later, ¬ returnedTrue Call.start? id e' = true) ∧
          ∀ s ∈ e.after :: later.map Event.after, Closed id s) ∧
    ∀ earlier e later, machine.history System.initial calls = earlier ++ e :: later →
      ∀ id task, find e.before.store id = some task → isTerminal task.status = true →
        ∀ e' ∈ e :: later, e'.call.target = some id → e'.reply = e'.call.refusal := by
  refine ⟨?_, ?_, ?_, ?_⟩
  · intro e he task hcall hreply
    obtain ⟨final, hfinal, hsame⟩ := accepted_task_after_run he hcall hreply
    refine ⟨final, hfinal, (startsCounted_run calls task.id).2 final hfinal, ?_⟩
    rw [← hsame.limits]
    exact (storable_of_mem (find_eq_some_iff.mp hfinal).1).attempts
  · intro id earlier first middle second later hsplit hfirst hsecond
    exact recovery_between_starts hsplit hfirst hsecond
  · intro id earlier e later hsplit hcancel
    exact no_restart_after_cancel hsplit hcancel
  · intro earlier e later hsplit id task hfind hterminal
    exact fun e' he' ↦ (terminal_from hsplit hfind hterminal e' he').2

end Gaudere.Work
