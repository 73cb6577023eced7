import Gaudere.Library.Machine
import Gaudere.Work.TaskStore

/-!
# The task runtime

A `Runtime` keeps one of four states in memory and everything else in the task store it refers to;
`System` is the pair. The operations on one task load its record, check a guard, edit a copy and
save it (`modify`), each with its own edit. `submit` saves a definition under fresh identities, and
`recoverExpired` edits every task whose lease has expired and saves the copies one by one.

`machine` runs the operations in any order; a crash between two of them is the call `restart`,
which replaces the runtime by a new one on the same store.
-/

set_option autoImplicit false
set_option relaxedAutoImplicit false

namespace Gaudere.Work

open Gaudere.Library

inductive RuntimeState
  | recovering
  | running
  | draining
  | safe
deriving DecidableEq, Repr

inductive SubmitResult
  | accepted
  | duplicate
  | invalid
  | unavailable
deriving DecidableEq, Repr

inductive FinishResult
  | accepted
  | outputLimitExceeded
  | unavailable
deriving DecidableEq, Repr

/-- A runtime and the store it refers to. -/
structure System where
  state : RuntimeState
  store : TaskTable
deriving DecidableEq

/-- What an operation returns. `threw` stands for an exception of the store. -/
inductive Reply
  | done
  | flag (value : Bool)
  | submitted (result : SubmitResult)
  | finished (result : FinishResult)
  | recovered (count : ℕ)
  | recoveryAt (deadline : Option TimePoint)
  | threw
deriving DecidableEq, Repr

def failureResult (code message : Bytes) (metadataContentType metadata : Bytes := []) :
    TaskResult where
  contentType := ascii "text/plain"
  output := []
  failureCode := code
  failureMessage := message
  metadataContentType := metadataContentType
  metadata := metadata

namespace Runtime

/-- A save followed by a return. -/
def saveThen (s : System) (task : Task) (reply : Reply) : System × Reply :=
  match TaskStore.save s.store task with
  | some store => ({ s with store := store }, reply)
  | none => (s, .threw)

/-- The shape the operations on one task share: load it, refuse when it is missing or the guard of
the edit fails, and otherwise save the edited copy and reply. -/
def modify (s : System) (id : Bytes) (refusal : Reply) (edit : Task → Option (Task × Reply)) :
    System × Reply :=
  match TaskStore.find s.store id with
  | none => (s, refusal)
  | some task =>
    match edit task with
    | none => (s, refusal)
    | some (edited, reply) => saveThen s edited reply

/-- What recovery makes of an active task whose lease has expired. -/
def recovered (task : Task) : Task :=
  if task.status = .cancelRequested then
    { task with
      lease := none
      status := .cancelled
      result := some (failureResult (ascii "cancelled") task.cancelReason) }
  else if task.attemptsStarted < task.limits.maxAttempts then
    { task with
      lease := none
      status := .pending }
  else
    { task with
      lease := none
      status := .failed
      result := some (failureResult (ascii "attempt_limit_exhausted")
        (ascii "task lease expired after the maximum number of attempts")) }

def recoverExpired (s : System) (now : TimePoint) : System × Reply :=
  let tasks := TaskStore.leasedWithExpiredLease s.store now
  match TaskStore.saveAll s.store (tasks.map recovered) with
  | (store, true) => ({ s with store := store }, .recovered tasks.length)
  | (store, false) => ({ s with store := store }, .threw)

def recover (s : System) (now : TimePoint) : System × Reply :=
  match recoverExpired s now with
  | (s', .threw) => (s', .threw)
  | (s', _) => ({ s' with state := .running }, .done)

def nextRecoveryAt (s : System) : System × Reply :=
  (s, .recoveryAt (TaskStore.nextLeaseExpiry s.store))

def submit (s : System) (task : Task) : System × Reply :=
  if s.state ≠ .running then (s, .submitted .unavailable)
  else if ¬ validDefinition task then (s, .submitted .invalid)
  else if (TaskStore.find s.store task.id).isSome ∨
      (TaskStore.findByIdempotencyKey s.store task.idempotencyKey).isSome then
    (s, .submitted .duplicate)
  else saveThen s task (.submitted .accepted)

def startEdit (leaseOwner : Bytes) (now : TimePoint) (task : Task) : Option (Task × Reply) :=
  if task.status ≠ .pending ∨ task.limits.maxAttempts ≤ task.attemptsStarted then none
  else
    -- The expiry wraps where the addition of the clock type would overflow.
    some ({ task with
      attemptsStarted := task.attemptsStarted + 1
      status := .running
      lease := some
        { owner := leaseOwner, expiresAt := now + ofMilliseconds task.limits.maxRuntime } },
      .flag true)

def start (s : System) (id leaseOwner : Bytes) (now : TimePoint) : System × Reply :=
  if s.state ≠ .running ∨ leaseOwner.isEmpty then (s, .flag false)
  else modify s id (.flag false) (startEdit leaseOwner now)

def succeedEdit (output contentType metadataContentType metadata : Bytes) (task : Task) :
    Option (Task × Reply) :=
  if ¬ active task.status ∨ contentType.isEmpty ∨
      metadataContentType.isEmpty ≠ metadata.isEmpty then none
  else if task.limits.maxOutputBytes.toNat < output.length then
    some ({ task with
      status := .failed
      lease := none
      result := some (failureResult (ascii "output_limit_exceeded")
        (ascii "task output exceeded max_output_bytes")) },
      .finished .outputLimitExceeded)
  else
    some ({ task with
      status := .succeeded
      lease := none
      result := some
        { contentType := contentType
          output := output
          failureCode := []
          failureMessage := []
          metadataContentType := metadataContentType
          metadata := metadata } },
      .finished .accepted)

def succeed (s : System) (id output contentType metadataContentType metadata : Bytes) :
    System × Reply :=
  modify s id (.finished .unavailable)
    (succeedEdit output contentType metadataContentType metadata)

def finishFailureEdit (status : TaskStatus)
    (failureCode failureMessage metadataContentType metadata : Bytes) (task : Task) :
    Option (Task × Reply) :=
  if ¬ active task.status ∨ failureCode.isEmpty ∨
      metadataContentType.isEmpty ≠ metadata.isEmpty then none
  else
    some ({ task with
      status := status
      lease := none
      result := some (failureResult failureCode failureMessage metadataContentType metadata) },
      .flag true)

def finishFailure (s : System) (id : Bytes) (status : TaskStatus)
    (failureCode failureMessage metadataContentType metadata : Bytes) : System × Reply :=
  modify s id (.flag false)
    (finishFailureEdit status failureCode failureMessage metadataContentType metadata)

def fail (s : System) (id failureCode failureMessage metadataContentType metadata : Bytes) :
    System × Reply :=
  finishFailure s id .failed failureCode failureMessage metadataContentType metadata

def requireManualReview (s : System)
    (id failureCode failureMessage metadataContentType metadata : Bytes) : System × Reply :=
  finishFailure s id .manualReview failureCode failureMessage metadataContentType metadata

/-- A pending task is cancelled at once, a running one when its worker gives it up; a repeated
request saves the task as it is. -/
def requestCancelEdit (reason : Bytes) (task : Task) : Option (Task × Reply) :=
  if isTerminal task.status then none
  else
    match task.status with
    | .pending =>
      some ({ task with
        status := .cancelled
        cancelReason := reason
        result := some (failureResult (ascii "cancelled") reason) },
        .flag true)
    | .running =>
      some ({ task with
        status := .cancelRequested
        cancelReason := reason },
        .flag true)
    | .cancelRequested => some (task, .flag true)
    | _ => none

def requestCancel (s : System) (id reason : Bytes) : System × Reply :=
  modify s id (.flag false) (requestCancelEdit reason)

def markCancelledEdit (task : Task) : Option (Task × Reply) :=
  if task.status ≠ .cancelRequested then none
  else
    some ({ task with
      status := .cancelled
      lease := none
      result := some (failureResult (ascii "cancelled") task.cancelReason) },
      .flag true)

def markCancelled (s : System) (id : Bytes) : System × Reply :=
  modify s id (.flag false) markCancelledEdit

def requestShutdown (s : System) : System × Reply :=
  if s.state = .running then ({ s with state := .draining }, .done) else (s, .done)

def tryMarkSafe (s : System) : System × Reply :=
  if s.state ≠ .draining ∨ TaskStore.hasActive s.store then (s, .flag false)
  else ({ s with state := .safe }, .flag true)

/-- A new runtime on the same store. -/
def restart (s : System) : System × Reply := ({ s with state := .recovering }, .done)

end Runtime

/-- An operation with its arguments and the clock value it samples. -/
inductive Call
  | recover (now : TimePoint)
  | recoverExpired (now : TimePoint)
  | nextRecoveryAt
  | submit (task : Task)
  | start (id leaseOwner : Bytes) (now : TimePoint)
  | succeed (id output contentType metadataContentType metadata : Bytes)
  | fail (id failureCode failureMessage metadataContentType metadata : Bytes)
  | requireManualReview (id failureCode failureMessage metadataContentType metadata : Bytes)
  | requestCancel (id reason : Bytes)
  | markCancelled (id : Bytes)
  | requestShutdown
  | tryMarkSafe
  | restart
deriving DecidableEq, Repr

/-- The runtime with its store, as a machine over its operations. -/
def machine : Machine System Call Reply where
  step s
    | .recover now => Runtime.recover s now
    | .recoverExpired now => Runtime.recoverExpired s now
    | .nextRecoveryAt => Runtime.nextRecoveryAt s
    | .submit task => Runtime.submit s task
    | .start id leaseOwner now => Runtime.start s id leaseOwner now
    | .succeed id output contentType metadataContentType metadata =>
      Runtime.succeed s id output contentType metadataContentType metadata
    | .fail id failureCode failureMessage metadataContentType metadata =>
      Runtime.fail s id failureCode failureMessage metadataContentType metadata
    | .requireManualReview id failureCode failureMessage metadataContentType metadata =>
      Runtime.requireManualReview s id failureCode failureMessage metadataContentType metadata
    | .requestCancel id reason => Runtime.requestCancel s id reason
    | .markCancelled id => Runtime.markCancelled s id
    | .requestShutdown => Runtime.requestShutdown s
    | .tryMarkSafe => Runtime.tryMarkSafe s
    | .restart => Runtime.restart s

/-- A new runtime on an empty store. -/
def System.initial : System where
  state := .recovering
  store := Table.empty taskSchema

@[simp] theorem find_initial (id : Bytes) : TaskStore.find System.initial.store id = none := rfl

end Gaudere.Work
