import Gaudere.Wake.EffectOnce

/-!
# Actions stranded in running

Recovery picks a running action by its lease, so a running action without one is out of its reach
and blocks the shutdown. `start` sets a lease, and every edit that leaves `running` clears it, but
`transition` to `running` sets none: on a pending or waiting action (`RunsUnleased`) it makes a
running action that recovery never finds. `no_action_stranded_iff` says that these transitions are
the only cause: over runs from an empty store with fresh submissions, no action is ever stranded
exactly when no call of the run is one of them.
-/

set_option autoImplicit false
set_option relaxedAutoImplicit false

namespace Gaudere.Wake

open Gaudere.Library ActionStore

/-- A transition to running of an action that is not running yet. -/
def RunsUnleased (e : Event System Call Reply) : Prop :=
  (match e.call with
    | .transition id .running =>
      (find e.before.store id).any fun a ↦ canTransition a.status .running
    | _ => false) = true

instance : DecidablePred RunsUnleased := fun _ ↦ inferInstanceAs (Decidable (_ = true))

/-- A running action carries a lease, and no other does. -/
def LeaseConsistent (a : Action) : Prop := a.status = .running ↔ a.lease.isSome = true

def LeasesConsistent (s : System) : Prop := ∀ id a, find s.store id = some a → LeaseConsistent a

/-- Every stored lease has expired at a clock value. -/
def AllExpired (now : TimePoint) (t : ActionTable) : Prop :=
  ∀ a ∈ records t, ∀ lease, a.lease = some lease → lease.expiresAt ≤ now

/-- The actions that are running are those with a lease, and once every lease has expired a
recovery leaves none running, so that a draining runtime on the store can be marked safe. -/
def Unstranded (s : System) : Prop :=
  (∀ a ∈ records s.store, a.status = .running ↔ a.lease.isSome = true) ∧
  ∀ now, AllExpired now s.store →
    (∀ a ∈ records (machine.event s (.recover now)).after.store, a.status ≠ .running) ∧
    (machine.event
      { state := .draining
        store := (machine.event s (.recover now)).after.store } .tryMarkSafe).reply = .flag true

/-! ### Leases go with the status -/

theorem LeaseConsistent.of_no_lease {a : Action} (hstatus : a.status ≠ .running)
    (hlease : a.lease = none) : LeaseConsistent a := by
  simp [LeaseConsistent, hstatus, hlease]

theorem LeaseConsistent.stored {a : Action} (h : LeaseConsistent a) :
    LeaseConsistent (stored a) := by
  rw [LeaseConsistent, stored_status, stored_lease, Option.isSome_map]
  exact h

theorem recovered_not_running (a : Action) : (Runtime.recovered a).status ≠ .running := by
  cases heffect : a.effectResult <;> simp [Runtime.recovered, heffect]

theorem LeaseConsistent.recovered (a : Action) : LeaseConsistent (Runtime.recovered a) :=
  .of_no_lease (recovered_not_running a) rfl

/-- Every edit but the transition to running of an action that is not running keeps lease and
status together. -/
theorem LeaseConsistent.edit {state : RuntimeState} {call : Call} {a b : Action}
    (ha : LeaseConsistent a) (h : call.edit state a = some b)
    (hcall : ∀ id, call = .transition id .running → canTransition a.status .running = false) :
    LeaseConsistent b := by
  cases call <;> simp only [Call.edit, reduceCtorEq] at h
  case start id leaseOwner leaseDuration now =>
    unfold Runtime.startEdit at h
    split_ifs at h with hstate hcan
    cases h
    exact iff_of_true rfl rfl
  case transition id status =>
    unfold Runtime.transitionEdit at h
    split_ifs at h with hcan hunknown hconfirmed hleaves <;> cases h
    · exact .of_no_lease hleaves rfl
    · rw [not_not] at hleaves
      subst hleaves
      rw [hcall id rfl] at hcan
      cases hcan
  case recordEffectStarted id =>
    unfold Runtime.effectStartedEdit at h
    split_ifs at h
    cases h
    exact ha
  case recordConfirmedResult id =>
    unfold Runtime.confirmedResultEdit at h
    split_ifs at h
    cases h
    exact .of_no_lease (by simp) rfl
  case recordUnknownResult id =>
    unfold Runtime.unknownResultEdit at h
    split_ifs at h
    cases h
    exact .of_no_lease (by simp) rfl

theorem leasesConsistent_step (s : System) (call : Call)
    (hfresh : FreshSubmission (machine.event s call))
    (hleased : ¬ RunsUnleased (machine.event s call)) (hs : LeasesConsistent s) :
    LeasesConsistent (machine.event s call).after := by
  intro id a ha
  have hstep := recordStep s call id
  rw [ha] at hstep
  generalize hafter : some a = after at hstep
  cases hstep with
  | kept => exact hs id a hafter.symm
  | submitted b hcall _ _ _ =>
    cases hafter
    obtain ⟨hstatus, _, hlease⟩ := (hfresh.of_submit hcall).2
    exact (LeaseConsistent.of_no_lease (by rw [hstatus]; decide) hlease).stored
  | edited before b hnames hfind hedit _ =>
    cases hafter
    refine ((hs id before hfind).edit hedit fun argument hcall ↦ ?_).stored
    subst hcall
    obtain ⟨_, htarget, hid⟩ := hnames
    cases htarget
    have hquiet : ¬ (find s.store argument).any (fun a ↦ canTransition a.status .running) = true :=
      hleased
    rw [find_congr hid, hfind, Option.any_some, Bool.not_eq_true] at hquiet
    exact hquiet
  | recovered before now _ hfind _ =>
    cases hafter
    exact (LeaseConsistent.recovered before).stored

theorem leasesConsistent_initial : LeasesConsistent .initial := by
  intro id a ha
  simp [System.initial, ActionStore.find] at ha

theorem transitionEdit_running {a : Action} (h : EffectConsistent a)
    (hcan : canTransition a.status .running = true) :
    Runtime.transitionEdit .running a = some { a with status := .running } := by
  obtain ⟨hunknown, hconfirmed⟩ := h
  have heffect : a.effectResult = .none := by
    cases hmarker : a.effectResult with
    | none => rfl
    | unknown => rcases hunknown hmarker with h | h <;> rw [h] at hcan <;> cases hcan
    | confirmed => rw [hconfirmed hmarker] at hcan; cases hcan
  simp [Runtime.transitionEdit, hcan, heffect]

/-- A transition to running of an action that is not running leaves it running without a lease. -/
theorem not_leasesConsistent_of_runsUnleased {s : System} {call : Call}
    (heffects : EffectsConsistent s) (hs : LeasesConsistent s)
    (h : RunsUnleased (machine.event s call)) :
    ¬ LeasesConsistent (machine.event s call).after := by
  intro hafter
  unfold RunsUnleased at h
  split at h
  · rename_i id hcall
    obtain rfl : call = .transition id .running := hcall
    obtain ⟨a, ha, hcan⟩ := (Option.any_eq_true _ _).mp h
    have hedit := transitionEdit_running (heffects id a ha) hcan
    have hlease : a.lease = none := by
      refine Option.not_isSome_iff_eq_none.mp fun hleased ↦ ?_
      rw [(hs id a ha).mpr hleased] at hcan
      cases hcan
    have htarget : (Call.transition id .running).target = some id := rfl
    have hfound := hafter id _ (find_after_edit htarget ha hedit)
    rw [LeaseConsistent, stored_status, stored_lease, Option.isSome_map] at hfound
    have hleased := hfound.mp rfl
    rw [hlease] at hleased
    cases hleased
  · cases h

/-! ### Recovery past every expiry -/

/-- Every row was written by a save, so its expiry is a clock value in milliseconds. -/
def Written (t : ActionTable) : Prop := ∀ row ∈ t.rows, ∃ a, bindAction a = row

theorem written_save {t t' : ActionTable} {a : Action} (h : Written t)
    (hsave : save t a = some t') : Written t' := by
  intro row hrow
  rcases (Table.mem_upsert hsave).mp hrow with rfl | ⟨hstored, _⟩
  · exact ⟨a, rfl⟩
  · exact h row hstored

theorem written_saveAll {t : ActionTable} {actions : List Action} (h : Written t) :
    Written (saveAll t actions).1 := by
  intro row hrow
  rcases Table.mem_upsertAll hrow with hloop | hstored
  · obtain ⟨a, _, rfl⟩ := List.mem_map.mp hloop
    exact ⟨a, rfl⟩
  · exact h row hstored

theorem written_step (s : System) (call : Call) (h : Written s.store) :
    Written (machine.event s call).after.store := by
  have hstep := storeStep s call
  generalize (machine.event s call).reply = reply at hstep
  generalize (machine.event s call).after.store = store at hstep ⊢
  cases hstep with
  | kept _ => exact h
  | submitted a _ _ _ hsave => exact written_save h hsave
  | edited _ _ _ _ _ _ _ hsave => exact written_save h hsave
  | recovered now _ =>
    rw [recover_eq]
    exact written_saveAll h

/-- Recovery picks the row of a running action whose lease has expired. -/
theorem expiredRow_of_lease {now : TimePoint} {a : Action} {lease : Lease}
    (hrunning : (stored a).status = .running) (hlease : (stored a).lease = some lease)
    (hexpired : lease.expiresAt ≤ now) : expiredRow now (bindAction a) = true := by
  rw [stored_status] at hrunning
  rw [stored_lease, Option.map_eq_some_iff] at hlease
  obtain ⟨original, horiginal, rfl⟩ := hlease
  have hms : milliseconds (timePoint (milliseconds original.expiresAt)) =
      milliseconds original.expiresAt :=
    toMilliseconds_ofMilliseconds (fits_toMilliseconds_mul original.expiresAt)
  have hle : milliseconds original.expiresAt ≤ milliseconds now := by
    rw [← hms]
    exact toMilliseconds_le_of_le hexpired
  rw [expiredRow, bindAction, horiginal, hrunning, Bool.and_eq_true]
  exact ⟨rfl, decide_eq_true hle⟩

theorem not_running_after_recover {s : System} {now : TimePoint} (hwritten : Written s.store)
    (hleases : LeasesConsistent s) (hexpired : AllExpired now s.store) :
    ∀ a ∈ records (machine.event s (.recover now)).after.store, a.status ≠ .running := by
  intro a ha hrunning
  have hkeys : ∀ a, actionEncoding.key (Runtime.recovered a) = actionEncoding.key a := fun _ ↦ rfl
  have hfind := mem_records_iff.mp ha
  simp only [Machine.event, machine, recover_eq] at hfind
  rcases Encoding.find_reviseAll hkeys (recovery_done s.store now) (bindText a.id) with
    ⟨row, _, _, _, hfound⟩ | ⟨hquiet, hfound⟩
  · have hrevised : stored (Runtime.recovered (readAction row)) = a :=
      Option.some.inj (hfound.symm.trans hfind)
    rw [← hrevised, stored_status] at hrunning
    exact recovered_not_running _ hrunning
  · -- A record that recovery kept was running before, under a lease that has expired.
    have hbefore : find s.store a.id = some a := hfound.symm.trans hfind
    obtain ⟨lease, hlease⟩ := Option.isSome_iff_exists.mp ((hleases a.id a hbefore).mp hrunning)
    obtain ⟨hmem, _⟩ := find_eq_some_iff.mp hbefore
    obtain ⟨row, hrow, rfl⟩ := List.mem_map.mp hmem
    obtain ⟨original, rfl⟩ := hwritten row hrow
    have hselected := expiredRow_of_lease hrunning hlease (hexpired _ hmem lease hlease)
    rw [hquiet _ hrow (toCText_val (bindAction original).id).symm] at hselected
    cases hselected

theorem tryMarkSafe_of_none_running {t : ActionTable} (h : ∀ a ∈ records t, a.status ≠ .running) :
    machine.step { state := .draining, store := t } .tryMarkSafe =
      ({ state := .safe, store := t }, .flag true) := by
  refine if_neg (not_or.mpr ⟨not_not.mpr rfl, ?_⟩)
  rw [hasRunning_eq_false_iff.mpr h]
  exact Bool.false_ne_true

theorem unstranded_of_leasesConsistent {s : System} (hwritten : Written s.store)
    (hleases : LeasesConsistent s) : Unstranded s := by
  refine ⟨fun a ha ↦ hleases a.id a (mem_records_iff.mp ha),
    fun now hexpired ↦ ?_⟩
  have hquiet := not_running_after_recover hwritten hleases hexpired
  exact ⟨hquiet, congrArg Prod.snd (tryMarkSafe_of_none_running hquiet)⟩

theorem Unstranded.leasesConsistent {s : System} (h : Unstranded s) : LeasesConsistent s :=
  fun _ a ha ↦ h.1 a (find_eq_some_iff.mp ha).1

/-! ### Over every run -/

/-- Over any run from an empty store whose submissions are fresh: every state reached has its
running actions under leases that a recovery finds, exactly when no call of the run is a transition
to running of an action that is not running. -/
theorem no_action_stranded_iff (calls : List Call)
    (hfresh : ∀ e ∈ machine.history .initial calls, FreshSubmission e) :
    (∀ e ∈ machine.history .initial calls, Unstranded e.after) ↔
      ∀ e ∈ machine.history .initial calls, ¬ RunsUnleased e := by
  refine Machine.forall_event_iff
    (P := fun s ↦ EffectsConsistent s ∧ Written s.store ∧ Unstranded s) ?_ ?_ hfresh ?_
  · intro s call hfresh ⟨heffects, hwritten, hs⟩
    constructor
    · intro hafter hrun
      exact not_leasesConsistent_of_runsUnleased heffects hs.leasesConsistent hrun
        hafter.leasesConsistent
    · intro hleased
      exact unstranded_of_leasesConsistent (written_step s call hwritten)
        (leasesConsistent_step s call hfresh hleased hs.leasesConsistent)
  · intro s call hfresh ⟨heffects, hwritten, _⟩ hafter
    exact ⟨effectsConsistent_step s call hfresh heffects, written_step s call hwritten, hafter⟩
  · exact ⟨effectsConsistent_initial, nofun,
      unstranded_of_leasesConsistent nofun leasesConsistent_initial⟩

theorem no_action_stranded_iff_charge :
    (∀ e ∈ machine.history .initial chargeRun, FreshSubmission e) ∧
    ∀ e ∈ machine.history .initial chargeRun, Unstranded e.after :=
  ⟨by decide, (no_action_stranded_iff chargeRun (by decide)).mpr (by decide)⟩

/-- `charge` is moved to running without having been started. -/
def unleasedRun : List Call :=
  [.recover 0, .submit charge, .transition (ascii "charge") .running]

/-- It then runs without a lease, no recovery at any clock value ends it, and a draining runtime is
never safe. -/
theorem transition_strands_action :
    ¬ Unstranded (machine.run .initial unleasedRun) ∧
    ∀ now,
      (records (machine.event (machine.run .initial unleasedRun) (.recover now)).after.store).map
        (fun a ↦ (a.status, a.lease)) = [(.running, none)] ∧
      (machine.event
        { state := .draining
          store := (machine.event (machine.run .initial unleasedRun) (.recover now)).after.store }
        .tryMarkSafe).reply = .flag false := by
  refine ⟨fun h ↦ ?_, fun now ↦ ⟨rfl, rfl⟩⟩
  have hstored : { charge with status := .running } ∈
      records (machine.run .initial unleasedRun).store := by decide
  exact absurd ((h.1 _ hstored).mp rfl) (by decide)

end Gaudere.Wake
