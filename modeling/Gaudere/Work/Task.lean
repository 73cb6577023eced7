import Gaudere.Library.Cpp

/-!
# Tasks

A `Task` is one piece of admitted work: an immutable definition with its resource limits, and the
fields the runtime moves, which are the attempts it started, the status, the lease of the current
attempt, the reason of a requested cancellation and the result. `validDefinition` is the check a
submission passes, `Fresh` says what it checks, and `Storable` what the table asks of a task.
-/

set_option autoImplicit false
set_option relaxedAutoImplicit false

namespace Gaudere.Work

open Gaudere.Library

structure ResourceLimits where
  maxInputBytes : UInt64 := 64 * 1024
  maxOutputBytes : UInt64 := 64 * 1024
  maxRuntime : Milliseconds := 5 * 60 * 1000
  maxAttempts : UInt32 := 1
deriving DecidableEq, Repr

inductive TaskStatus
  | pending
  | running
  | cancelRequested
  | succeeded
  | failed
  | cancelled
  | manualReview
deriving DecidableEq, Repr

structure Lease where
  owner : Bytes
  expiresAt : TimePoint
deriving DecidableEq, Repr

structure TaskResult where
  contentType : Bytes
  output : Bytes
  failureCode : Bytes
  failureMessage : Bytes
  metadataContentType : Bytes := []
  metadata : Bytes := []
deriving DecidableEq, Repr

structure Task where
  id : Bytes
  idempotencyKey : Bytes
  kind : Bytes
  inputContentType : Bytes
  input : Bytes
  limits : ResourceLimits
  attemptsStarted : UInt32 := 0
  status : TaskStatus := .pending
  lease : Option Lease := none
  cancelReason : Bytes := []
  result : Option TaskResult := none
deriving DecidableEq, Repr

def active (status : TaskStatus) : Bool := status == .running || status == .cancelRequested

def isTerminal (status : TaskStatus) : Bool :=
  status == .succeeded || status == .failed || status == .cancelled || status == .manualReview

abbrev sqliteIntegerMax : ℕ := 2 ^ 63 - 1

def validDefinition (task : Task) : Bool :=
  if task.id.isEmpty || task.idempotencyKey.isEmpty || task.kind.isEmpty ||
      task.inputContentType.isEmpty then false
  else if task.limits.maxInputBytes == 0 || task.limits.maxOutputBytes == 0 ||
      sqliteIntegerMax < task.limits.maxInputBytes.toNat ||
      sqliteIntegerMax < task.limits.maxOutputBytes.toNat ||
      task.limits.maxRuntime ≤ 0 || task.limits.maxAttempts == 0 then false
  else if task.limits.maxInputBytes.toNat < task.input.length then false
  else
    task.status == .pending && task.attemptsStarted == 0 && task.lease.isNone &&
      task.cancelReason.isEmpty && task.result.isNone

/-! ### The table's constraints on a task -/

/-- What the constraints of the table `tasks` ask of a task. -/
structure Task.Storable (task : Task) : Prop where
  maxInputBytes : 0 < task.limits.maxInputBytes.toNat ∧ task.limits.maxInputBytes.toNat < 2 ^ 63
  maxOutputBytes : 0 < task.limits.maxOutputBytes.toNat ∧ task.limits.maxOutputBytes.toNat < 2 ^ 63
  maxRuntime : 0 < task.limits.maxRuntime.toInt
  maxAttempts : 0 < task.limits.maxAttempts.toNat
  attempts : task.attemptsStarted.toNat ≤ task.limits.maxAttempts.toNat
  lease : task.lease.isSome = active task.status
  result : task.result.isSome = isTerminal task.status

/-- What `validDefinition` checks. -/
structure Task.Fresh (task : Task) : Prop where
  names : task.id ≠ [] ∧ task.idempotencyKey ≠ [] ∧ task.kind ≠ [] ∧ task.inputContentType ≠ []
  storable : task.Storable
  input : task.input.length ≤ task.limits.maxInputBytes.toNat
  status : task.status = .pending
  attempts : task.attemptsStarted = 0
  cancelReason : task.cancelReason = []

theorem fresh_of_validDefinition {task : Task} (h : validDefinition task = true) : task.Fresh := by
  unfold validDefinition at h
  split_ifs at h with hnames hlimits hinput
  simp only [Bool.and_eq_true, beq_iff_eq, Option.isNone_iff_eq_none, List.isEmpty_iff] at h
  obtain ⟨⟨⟨⟨hstatus, hattempts⟩, hlease⟩, hreason⟩, hresult⟩ := h
  simp only [Bool.or_eq_true, List.isEmpty_iff, beq_iff_eq, decide_eq_true_eq, not_or, not_lt,
    sqliteIntegerMax] at hnames hlimits hinput
  obtain ⟨⟨⟨hid, hkey⟩, hkind⟩, htype⟩ := hnames
  obtain ⟨⟨⟨⟨⟨hin, hout⟩, hinMax⟩, houtMax⟩, hruntime⟩, hmax⟩ := hlimits
  rw [← UInt64.toNat_inj] at hin hout
  rw [← UInt32.toNat_inj] at hmax
  rw [Int64.le_iff_toInt_le] at hruntime
  have hzero : (0 : UInt64).toNat = 0 ∧ (0 : UInt32).toNat = 0 ∧ (0 : Int64).toInt = 0 := by decide
  obtain ⟨hzero64, hzero32, hzeroInt⟩ := hzero
  refine ⟨⟨hid, hkey, hkind, htype⟩, ?_, hinput, hstatus, hattempts, hreason⟩
  refine ⟨by omega, by omega, by omega, by omega, ?_, ?_, ?_⟩
  · rw [hattempts, hzero32]
    exact Nat.zero_le _
  · rw [hlease, hstatus]
    rfl
  · rw [hresult, hstatus]
    rfl

end Gaudere.Work
