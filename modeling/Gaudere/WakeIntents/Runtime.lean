import Gaudere.Library.Checked
import Gaudere.WakeIntents.Store

/-!
# The wake-intent runtime

The runtime fixes one scope and policy and stands between an application and the store. Its
`accept` samples the clock, rounds it down to a millisecond, and computes the deadline from a delay
in milliseconds; each guard keeps the expression after it inside 64 bits. The model computes with
`checked` arithmetic, so a call without a value would be one with an overflow.

`accept_deadline_exact` says that there is none, which calls the guards refuse, and that any other
call hands an intent with the exact deadline to the store.
-/

set_option autoImplicit false
set_option relaxedAutoImplicit false

namespace Gaudere.WakeIntents

open Gaudere.Library

/-- A constructed runtime. -/
structure WakeIntentRuntime where
  scope : Bytes
  policy : WakeIntentPolicy
  validScope : validWakeIntentIdentifier scope = true
  validPolicy : validWakeIntentPolicy policy = true

/-- What `accept` does after its own checks: return `invalid`, or ask the store. -/
inductive AcceptRequest
  | invalid
  | ask (intent : WakeIntent) (policy : WakeIntentPolicy)
deriving DecidableEq, Repr

namespace WakeIntentRuntime

/-- `floor<Milliseconds>(now_())`, converted to a time point of the clock. -/
def nowMilliseconds (now : TimePoint) : Option TimePoint := do
  let floored ← floorMilliseconds now
  ofMillisecondsChecked floored

/-- The intent that `accept` builds. -/
def newIntent (scope id sourceId : Bytes) (acceptedAt dueAt : TimePoint) : WakeIntent where
  scope := scope
  id := id
  sourceId := sourceId
  acceptedAt := acceptedAt
  dueAt := dueAt
  status := .scheduled
  terminalAt := none
  terminalReason := []

/-- The deadline of an intent and the checks of `accept`, from the sampled clock on. -/
def requestAt (runtime : WakeIntentRuntime) (acceptedAt : TimePoint) (id sourceId : Bytes)
    (delay : Milliseconds) : Option AcceptRequest :=
  if toMilliseconds Int64.maxValue < delay then some .invalid
  else do
    let systemDelay ← ofMillisecondsChecked delay
    if systemDelay ≤ 0 ∨ toMilliseconds systemDelay ≠ delay then some .invalid
    else
      let latest ← subChecked Int64.maxValue systemDelay
      if latest < acceptedAt then some .invalid
      else
        let dueAt ← addChecked acceptedAt systemDelay
        let intent := newIntent runtime.scope id sourceId acceptedAt dueAt
        if ¬ validNewWakeIntent intent then some .invalid
        else some (.ask intent runtime.policy)

/-- `accept` up to its call of the store; nothing where a computation overflows. -/
def acceptRequest (runtime : WakeIntentRuntime) (now : TimePoint) (id sourceId : Bytes)
    (delay : Milliseconds) : Option AcceptRequest :=
  if ¬ validWakeIntentIdentifier id ∨ ¬ validWakeIntentIdentifier sourceId ∨ delay ≤ 0 then
    some .invalid
  else do
    let acceptedAt ← nowMilliseconds now
    runtime.requestAt acceptedAt id sourceId delay

def accept (runtime : WakeIntentRuntime) (t : IntentTable) (now : TimePoint) (id sourceId : Bytes)
    (delay : Milliseconds) : Option (IntentTable × Except Failure WakeIntentAcceptResult) :=
  (runtime.acceptRequest now id sourceId delay).map fun
    | .invalid => (t, .ok .invalid)
    | .ask intent policy => WakeIntentStore.accept t intent policy

def reconcile (runtime : WakeIntentRuntime) (t : IntentTable) (now : TimePoint) :
    Option (IntentTable × Except Failure WakeIntentReconcileResult) :=
  (nowMilliseconds now).map fun now ↦ WakeIntentStore.reconcile t runtime.scope now

def revoke (runtime : WakeIntentRuntime) (t : IntentTable) (now : TimePoint) (id reason : Bytes) :
    Option (IntentTable × Except Failure WakeIntentRevokeResult) :=
  if ¬ validWakeIntentIdentifier id ∨ reason = [] ∨ wakeIntentReasonMaxBytes < reason.length then
    some (t, .ok .invalid)
  else (nowMilliseconds now).map fun now ↦ WakeIntentStore.revoke t runtime.scope id now reason

def find (runtime : WakeIntentRuntime) (t : IntentTable) (id : Bytes) :
    Except Failure (Option WakeIntent) :=
  if ¬ validWakeIntentIdentifier id then .ok none else WakeIntentStore.find t runtime.scope id

def inspectScope (runtime : WakeIntentRuntime) (t : IntentTable) :
    Except Failure WakeIntentScopeInspection :=
  WakeIntentStore.inspectScope t runtime.scope

def nextScheduledAt (runtime : WakeIntentRuntime) (t : IntentTable) :
    Except Failure (Option TimePoint) :=
  WakeIntentStore.nextScheduledAt t runtime.scope

/-! ### The sampled clock -/

/-- The sample is the clock value rounded down to a millisecond. -/
theorem nowMilliseconds_eq_some_iff {now acceptedAt : TimePoint} :
    nowMilliseconds now = some acceptedAt ↔
      acceptedAt.toInt = now.toInt / 1000000 * 1000000 := by
  obtain ⟨floored, hfloored⟩ : ∃ floored, checked (now.toInt / 1000000) = some floored := by
    obtain ⟨hlower, hupper⟩ := fits_toInt now
    refine exists_checked_iff.mpr ⟨?_, ?_⟩ <;> omega
  rw [checked_eq_some_iff] at hfloored
  rw [nowMilliseconds, floorMilliseconds_eq_some_iff.mpr hfloored, Option.bind_eq_bind,
    Option.bind_some, ofMillisecondsChecked, checked_eq_some_iff, hfloored]

/-- The store accepts the scope and the sample of every reconciliation. -/
theorem validObservation_of_sample (runtime : WakeIntentRuntime) {now sample : TimePoint}
    (h : nowMilliseconds now = some sample) : validObservation runtime.scope sample = true := by
  rw [nowMilliseconds_eq_some_iff] at h
  rw [validObservation, runtime.validScope, Bool.true_and]
  exact decide_eq_true (aligned_of_toInt h).1

/-! ### The deadline -/

/-- What the guards leave: the delay is a positive count of nanoseconds, and the deadline a time
point. -/
structure InRange (acceptedAt : TimePoint) (delay : Milliseconds) : Prop where
  positive : 0 < delay.toInt
  duration : delay.toInt * 1000000 ≤ 2 ^ 63 - 1
  deadline : acceptedAt.toInt + delay.toInt * 1000000 ≤ 2 ^ 63 - 1

theorem toInt_toMilliseconds_maxValue :
    (toMilliseconds Int64.maxValue).toInt = 9223372036854 := by decide

theorem toInt_maxValue : Int64.maxValue.toInt = 2 ^ 63 - 1 := by decide

/-- An intent with a deadline after its acceptance is valid when new. -/
theorem validNewWakeIntent_newIntent {scope id sourceId : Bytes} {acceptedAt dueAt : TimePoint}
    (hscope : validWakeIntentIdentifier scope = true) (hid : validWakeIntentIdentifier id = true)
    (hsource : validWakeIntentIdentifier sourceId = true) (haccepted : Aligned acceptedAt)
    (hdue : Aligned dueAt) (hordered : acceptedAt < dueAt) :
    validNewWakeIntent (newIntent scope id sourceId acceptedAt dueAt) = true := by
  rw [validNewWakeIntent_iff]
  refine ⟨⟨hscope, hid, hsource, haccepted, hdue, hordered, Nat.zero_le _, rfl, ?_⟩, rfl⟩
  intro terminalAt hterminal
  cases hterminal

/-- Each guard keeps the next computation in range, and the last one never refuses. -/
theorem requestAt_eq (runtime : WakeIntentRuntime) {acceptedAt : TimePoint} {n : ℤ}
    (haccepted : acceptedAt.toInt = n * 1000000) {id sourceId : Bytes}
    (hid : validWakeIntentIdentifier id = true)
    (hsource : validWakeIntentIdentifier sourceId = true) {delay : Milliseconds}
    (hpositive : 0 < delay.toInt) :
    (¬ InRange acceptedAt delay ∧
      runtime.requestAt acceptedAt id sourceId delay = some .invalid) ∨
    (InRange acceptedAt delay ∧ ∃ dueAt : TimePoint,
      validNewWakeIntent (newIntent runtime.scope id sourceId acceptedAt dueAt) = true ∧
      dueAt.toInt = acceptedAt.toInt + delay.toInt * 1000000 ∧
      runtime.requestAt acceptedAt id sourceId delay =
        some (.ask (newIntent runtime.scope id sourceId acceptedAt dueAt) runtime.policy)) := by
  obtain ⟨hlower, hupper⟩ := fits_toInt acceptedAt
  have hmax := toInt_toMilliseconds_maxValue
  have hmax' := toInt_maxValue
  unfold requestAt
  by_cases hlong : toMilliseconds Int64.maxValue < delay
  · rw [if_pos hlong]
    rw [Int64.lt_iff_toInt_lt, hmax] at hlong
    exact Or.inl ⟨fun hrange ↦ by have := hrange.duration; omega, rfl⟩
  rw [if_neg hlong]
  rw [Int64.lt_iff_toInt_lt, hmax] at hlong
  -- The delay converts, and its round trip gives it back.
  have hfits : Fits (delay.toInt * 1000000) := by constructor <;> omega
  have hdelay := ofMillisecondsChecked_eq_iff.mpr hfits
  have hvalue := toInt_ofMilliseconds hfits
  have hround : ¬ (ofMilliseconds delay ≤ 0 ∨ toMilliseconds (ofMilliseconds delay) ≠ delay) := by
    rintro (hnonpositive | hdiffer)
    · rw [Int64.le_iff_toInt_le, hvalue, Int64.toInt_zero] at hnonpositive
      omega
    · exact hdiffer (toMilliseconds_ofMilliseconds hfits)
  rw [hdelay, Option.bind_eq_bind, Option.bind_some, if_neg hround]
  -- The largest acceptance for the delay is a time point.
  have hlatest : subChecked Int64.maxValue (ofMilliseconds delay) =
      some (Int64.maxValue - ofMilliseconds delay) := by
    rw [subChecked_eq_iff, hmax', hvalue]
    constructor <;> omega
  have hbound : (Int64.maxValue - ofMilliseconds delay).toInt =
      2 ^ 63 - 1 - delay.toInt * 1000000 := by
    rw [subChecked, checked_eq_some_iff, hmax', hvalue] at hlatest
    exact hlatest
  rw [hlatest, Option.bind_some]
  by_cases hlate : Int64.maxValue - ofMilliseconds delay < acceptedAt
  · rw [if_pos hlate]
    rw [Int64.lt_iff_toInt_lt, hbound] at hlate
    exact Or.inl ⟨fun hrange ↦ by have := hrange.deadline; omega, rfl⟩
  rw [if_neg hlate]
  rw [Int64.lt_iff_toInt_lt, hbound] at hlate
  have hdue : addChecked acceptedAt (ofMilliseconds delay) =
      some (acceptedAt + ofMilliseconds delay) := by
    rw [addChecked_eq_iff, hvalue]
    constructor <;> omega
  have hexact : (acceptedAt + ofMilliseconds delay).toInt =
      acceptedAt.toInt + delay.toInt * 1000000 := by
    rw [addChecked, checked_eq_some_iff, hvalue] at hdue
    exact hdue
  have haligned : Aligned (acceptedAt + ofMilliseconds delay) :=
    (aligned_of_toInt (n := n + delay.toInt) (by rw [hexact, haccepted]; omega)).1
  have hordered : acceptedAt < acceptedAt + ofMilliseconds delay := by
    rw [Int64.lt_iff_toInt_lt, hexact]
    omega
  have hvalid := validNewWakeIntent_newIntent runtime.validScope hid hsource
    (aligned_of_toInt haccepted).1 haligned hordered
  rw [hdue, Option.bind_some, if_neg (not_not.mpr hvalid)]
  exact Or.inr ⟨⟨hpositive, by omega, by omega⟩, _, hvalid, hexact, rfl⟩

/-- The conditions under which a call is refused before the store. -/
def Refused (now : TimePoint) (delay : Milliseconds) : Prop :=
  delay.toInt ≤ 0 ∨ 2 ^ 63 - 1 < delay.toInt * 1000000 ∨
    2 ^ 63 - 1 < now.toInt / 1000000 * 1000000 + delay.toInt * 1000000

/-- A call with valid identifiers is refused, or asks the store with the exact deadline. -/
theorem acceptRequest_eq (runtime : WakeIntentRuntime) {now : TimePoint}
    (hnow : Fits (now.toInt / 1000000 * 1000000)) {id sourceId : Bytes}
    (hid : validWakeIntentIdentifier id = true)
    (hsource : validWakeIntentIdentifier sourceId = true) (delay : Milliseconds) :
    (Refused now delay ∧ runtime.acceptRequest now id sourceId delay = some .invalid) ∨
    (¬ Refused now delay ∧ ∃ acceptedAt dueAt : TimePoint,
      validNewWakeIntent (newIntent runtime.scope id sourceId acceptedAt dueAt) = true ∧
      acceptedAt.toInt = now.toInt / 1000000 * 1000000 ∧
      dueAt.toInt = acceptedAt.toInt + delay.toInt * 1000000 ∧
      runtime.acceptRequest now id sourceId delay =
        some (.ask (newIntent runtime.scope id sourceId acceptedAt dueAt) runtime.policy)) := by
  by_cases hpositive : delay.toInt ≤ 0
  · have hle : delay ≤ 0 := by
      rw [Int64.le_iff_toInt_le, Int64.toInt_zero]
      exact hpositive
    exact Or.inl ⟨Or.inl hpositive, by rw [acceptRequest, if_pos (Or.inr (Or.inr hle))]⟩
  · have hchecked : ¬ (¬ validWakeIntentIdentifier id = true ∨
        ¬ validWakeIntentIdentifier sourceId = true ∨ delay ≤ 0) := by
      rw [Int64.le_iff_toInt_le, Int64.toInt_zero, not_or, not_or, not_not, not_not]
      exact ⟨hid, hsource, hpositive⟩
    obtain ⟨acceptedAt, haccepted⟩ := exists_checked_iff.mpr hnow
    rw [checked_eq_some_iff] at haccepted
    rw [acceptRequest, if_neg hchecked, nowMilliseconds_eq_some_iff.mpr haccepted,
      Option.bind_eq_bind, Option.bind_some]
    rcases runtime.requestAt_eq haccepted hid hsource (not_le.mp hpositive) with
      ⟨hout, hrequest⟩ | ⟨⟨_, hduration, hdeadline⟩, dueAt, hvalid, hdue, hrequest⟩
    · refine Or.inl ⟨?_, hrequest⟩
      by_contra hrefused
      simp only [Refused, not_or, not_lt] at hrefused
      exact hout ⟨not_le.mp hpositive, hrefused.2.1, by rw [haccepted]; exact hrefused.2.2⟩
    · refine Or.inr ⟨?_, acceptedAt, dueAt, hvalid, haccepted, hdue, hrequest⟩
      unfold Refused
      omega

/-- For every clock value whose floor to a millisecond is a time point, and every delay: no
computation of `accept` overflows; the call ends as `invalid` before the store exactly when the
delay is not positive, or is no count of nanoseconds, or the deadline is no time point; and
otherwise the store is asked with the floor of the clock as the acceptance and the exact sum as the
deadline, a valid new intent whose times survive storage. -/
theorem accept_deadline_exact (runtime : WakeIntentRuntime) {now : TimePoint}
    (hnow : Fits (now.toInt / 1000000 * 1000000)) {id sourceId : Bytes}
    (hid : validWakeIntentIdentifier id = true)
    (hsource : validWakeIntentIdentifier sourceId = true) (delay : Milliseconds) :
    ∃ request, runtime.acceptRequest now id sourceId delay = some request ∧
      (request = .invalid ↔ delay.toInt ≤ 0 ∨ 2 ^ 63 - 1 < delay.toInt * 1000000 ∨
        2 ^ 63 - 1 < now.toInt / 1000000 * 1000000 + delay.toInt * 1000000) ∧
      ∀ intent policy, request = .ask intent policy →
        policy = runtime.policy ∧ intent.scope = runtime.scope ∧ intent.id = id ∧
        intent.sourceId = sourceId ∧
        intent.acceptedAt.toInt = now.toInt / 1000000 * 1000000 ∧
        intent.dueAt.toInt = intent.acceptedAt.toInt + delay.toInt * 1000000 ∧
        Aligned intent.acceptedAt ∧ Aligned intent.dueAt ∧
        validNewWakeIntent intent = true ∧
        ∀ time ∈ [intent.acceptedAt, intent.dueAt],
          WakeIntentStore.timePoint (WakeIntentStore.milliseconds time) = time ∧
          ofMillisecondsChecked (WakeIntentStore.milliseconds time) = some time := by
  rcases runtime.acceptRequest_eq hnow hid hsource delay with
    ⟨hrefused, hrequest⟩ | ⟨hnot, acceptedAt, dueAt, hvalid, haccepted, hdue, hrequest⟩
  · refine ⟨_, hrequest, iff_of_true rfl hrefused, fun intent policy hask ↦ ?_⟩
    cases hask
  · refine ⟨_, hrequest, iff_of_false (fun hinvalid ↦ by cases hinvalid) hnot, ?_⟩
    rintro intent policy ⟨⟩
    have halignedAccepted := aligned_of_toInt haccepted
    have halignedDue := aligned_of_toInt (t := dueAt)
      (n := now.toInt / 1000000 + delay.toInt) (by rw [hdue, haccepted]; omega)
    refine ⟨rfl, rfl, rfl, rfl, haccepted, hdue, halignedAccepted.1, halignedDue.1, hvalid, ?_⟩
    rw [List.forall_mem_cons, List.forall_mem_singleton]
    exact ⟨halignedAccepted, halignedDue⟩

/-- One intent for one scope. -/
def probeRuntime : WakeIntentRuntime where
  scope := ascii "probe"
  policy := { maxTotal := 1 }
  validScope := by decide
  validPolicy := by decide

/-- A nanosecond before the epoch the acceptance is rounded down, not towards zero. -/
theorem accept_deadline_exact_before_epoch :
    ∃ intent, probeRuntime.acceptRequest (-1) (ascii "first") (ascii "source") 5 =
        some (.ask intent probeRuntime.policy) ∧
      intent.acceptedAt.toInt = -1000000 ∧ intent.dueAt.toInt = 4000000 := by
  have hnow : Fits ((-1 : TimePoint).toInt / 1000000 * 1000000) := by decide
  have hid : validWakeIntentIdentifier (ascii "first") = true := by decide
  have hsource : validWakeIntentIdentifier (ascii "source") = true := by decide
  obtain ⟨request, hrequest, hinvalid, hask⟩ :=
    accept_deadline_exact probeRuntime hnow hid hsource 5
  cases request with
  | invalid => exact absurd (hinvalid.mp rfl) (by decide)
  | ask intent policy =>
    obtain ⟨rfl, _, _, _, haccepted, hdue, _⟩ := hask intent policy rfl
    have hfloor : (-1 : TimePoint).toInt / 1000000 * 1000000 = -1000000 := by decide
    have hdelay : (5 : Milliseconds).toInt * 1000000 = 5000000 := by decide
    rw [hfloor] at haccepted
    rw [haccepted, hdelay] at hdue
    exact ⟨intent, hrequest, haccepted, hdue⟩

end WakeIntentRuntime

end Gaudere.WakeIntents
