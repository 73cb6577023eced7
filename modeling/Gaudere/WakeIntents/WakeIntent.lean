import Gaudere.Library.Cpp

/-!
# Wake intents

A `WakeIntent` is a durable promise to wake one scope at one exact deadline. `validWakeIntent` is
the C++ validator that guards what enters the store and what is read back from it: identifiers of
bounded length, times that are whole milliseconds, a deadline after the acceptance, and the
terminal fields that go with the status.
-/

set_option autoImplicit false
set_option relaxedAutoImplicit false

namespace Gaudere.WakeIntents

open Gaudere.Library

abbrev wakeIntentIdentifierMaxBytes : ℕ := 128

abbrev wakeIntentReasonMaxBytes : ℕ := 1024

inductive WakeIntentStatus
  | scheduled
  | fired
  | revoked
  | manualReview
deriving DecidableEq, Repr

structure WakeIntentPolicy where
  maxTotal : UInt64
deriving DecidableEq, Repr

structure WakeIntent where
  scope : Bytes
  id : Bytes
  sourceId : Bytes
  acceptedAt : TimePoint
  dueAt : TimePoint
  status : WakeIntentStatus
  terminalAt : Option TimePoint
  terminalReason : Bytes
deriving DecidableEq, Repr

inductive WakeIntentAcceptResult
  | accepted
  | duplicate
  | totalExhausted
  | conflict
  | invalid
deriving DecidableEq, Repr

inductive WakeIntentRevokeResult
  | revoked
  | fired
  | manualReview
  | notFound
  | terminal
  | invalid
deriving DecidableEq, Repr

structure WakeIntentReconcileResult where
  fired : ℕ
  manualReview : ℕ
deriving DecidableEq, Repr

def isTerminal (status : WakeIntentStatus) : Bool :=
  status == .fired || status == .revoked || status == .manualReview

def millisecondAligned (value : TimePoint) : Bool := decide (Aligned value)

def validTerminalShape (intent : WakeIntent) : Bool :=
  match intent.status with
  | .scheduled => intent.terminalAt.isNone && intent.terminalReason.isEmpty
  | .fired =>
    intent.terminalAt.any (fun terminalAt ↦ intent.dueAt ≤ terminalAt) &&
      intent.terminalReason.isEmpty
  | .revoked =>
    intent.terminalAt.any (fun terminalAt ↦
      decide (intent.acceptedAt ≤ terminalAt) && decide (terminalAt < intent.dueAt)) &&
      !intent.terminalReason.isEmpty
  | .manualReview => intent.terminalAt.isSome && !intent.terminalReason.isEmpty

def validWakeIntentIdentifier (value : Bytes) : Bool :=
  !value.isEmpty && value.length ≤ wakeIntentIdentifierMaxBytes

def validWakeIntentPolicy (policy : WakeIntentPolicy) : Bool :=
  0 < policy.maxTotal.toNat && policy.maxTotal.toNat ≤ 2 ^ 63 - 1

def validWakeIntent (intent : WakeIntent) : Bool :=
  validWakeIntentIdentifier intent.scope && validWakeIntentIdentifier intent.id &&
    validWakeIntentIdentifier intent.sourceId && millisecondAligned intent.acceptedAt &&
    millisecondAligned intent.dueAt && decide (intent.acceptedAt < intent.dueAt) &&
    intent.terminalReason.length ≤ wakeIntentReasonMaxBytes && validTerminalShape intent &&
    intent.terminalAt.all millisecondAligned

def validNewWakeIntent (intent : WakeIntent) : Bool :=
  validWakeIntent intent && intent.status == .scheduled

/-- The checks of `reconcile` and `revoke` on their scope and clock value. -/
def validObservation (scope : Bytes) (now : TimePoint) : Bool :=
  validWakeIntentIdentifier scope && millisecondAligned now

/-! ### Codes -/

/-- The `int` an enumerator converts to. -/
def WakeIntentStatus.code : WakeIntentStatus → Int32
  | .scheduled => 0
  | .fired => 1
  | .revoked => 2
  | .manualReview => 3

/-- The enumerator of an `int`, when it is in range. -/
def WakeIntentStatus.ofCode? (code : Int32) : Option WakeIntentStatus :=
  match code.toInt with
  | 0 => some .scheduled
  | 1 => some .fired
  | 2 => some .revoked
  | 3 => some .manualReview
  | _ => none

@[simp] theorem WakeIntentStatus.ofCode?_code (status : WakeIntentStatus) :
    WakeIntentStatus.ofCode? status.code = some status := by
  cases status <;> rfl

theorem WakeIntentStatus.code_injective {a b : WakeIntentStatus} (h : a.code = b.code) : a = b := by
  have hcode : some a = some b := by rw [← ofCode?_code, ← ofCode?_code, h]
  exact Option.some.inj hcode

theorem isTerminal_iff {status : WakeIntentStatus} :
    isTerminal status = true ↔ status ≠ .scheduled := by
  cases status <;> simp [isTerminal]

theorem validWakeIntentIdentifier_iff {value : Bytes} :
    validWakeIntentIdentifier value = true ↔ 1 ≤ value.length ∧ value.length ≤ 128 := by
  rw [validWakeIntentIdentifier, Bool.and_eq_true, decide_eq_true_eq, wakeIntentIdentifierMaxBytes,
    Bool.not_eq_true', List.isEmpty_eq_false_iff, ← List.length_pos_iff, Nat.succ_le_iff]

/-- What `validWakeIntent` says, as a structure. -/
structure WakeIntent.Valid (intent : WakeIntent) : Prop where
  scope : validWakeIntentIdentifier intent.scope = true
  id : validWakeIntentIdentifier intent.id = true
  sourceId : validWakeIntentIdentifier intent.sourceId = true
  acceptedAt : Aligned intent.acceptedAt
  dueAt : Aligned intent.dueAt
  ordered : intent.acceptedAt < intent.dueAt
  reason : intent.terminalReason.length ≤ 1024
  shape : validTerminalShape intent = true
  terminalAt : ∀ terminalAt, intent.terminalAt = some terminalAt → Aligned terminalAt

theorem validWakeIntent_iff {intent : WakeIntent} :
    validWakeIntent intent = true ↔ intent.Valid := by
  unfold validWakeIntent millisecondAligned wakeIntentReasonMaxBytes
  simp only [Bool.and_eq_true, decide_eq_true_eq, Option.all_eq_true]
  constructor
  · rintro ⟨⟨⟨⟨⟨⟨⟨⟨hscope, hid⟩, hsource⟩, haccepted⟩, hdue⟩, hordered⟩, hreason⟩, hshape⟩,
      hterminal⟩
    exact ⟨hscope, hid, hsource, haccepted, hdue, hordered, hreason, hshape, hterminal⟩
  · rintro ⟨hscope, hid, hsource, haccepted, hdue, hordered, hreason, hshape, hterminal⟩
    exact ⟨⟨⟨⟨⟨⟨⟨⟨hscope, hid⟩, hsource⟩, haccepted⟩, hdue⟩, hordered⟩, hreason⟩, hshape⟩,
      hterminal⟩

/-- A scheduled valid intent has no terminal fields. -/
theorem WakeIntent.Valid.scheduled {intent : WakeIntent} (h : intent.Valid)
    (hstatus : intent.status = .scheduled) :
    intent.terminalAt = none ∧ intent.terminalReason = [] := by
  have hshape := h.shape
  simpa [validTerminalShape, hstatus] using hshape

theorem validNewWakeIntent_iff {intent : WakeIntent} :
    validNewWakeIntent intent = true ↔ intent.Valid ∧ intent.status = .scheduled := by
  rw [validNewWakeIntent, Bool.and_eq_true, validWakeIntent_iff, beq_iff_eq]

end Gaudere.WakeIntents
