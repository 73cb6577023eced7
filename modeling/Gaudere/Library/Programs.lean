import Mathlib.Data.List.Basic
import Gaudere.Library.Machine

/-!
# Programs over an interface

A `Program` does one operation through the requests of an interface, and knows nothing else of the
store behind it. An `Implementation` serves the requests on a store of its own; a request that
throws ends the program without a reply. The same program thus runs on every implementation, and
`run` says what comes of it. It cannot tell implementations apart that answer its requests alike
(`run_of_follows`).

A process can die between any two requests of an operation, and `cut` is the store that is then
left. A program that writes at most once, and at its end, is `Atomic`; a loop of requests is left
after the first of them.

A `Process` has its memory and its operations as programs. `Process.machine` is the process over an
implementation. In `Process.mortal` it may also die within an operation, and is then started again
with nothing but the store.
-/

set_option autoImplicit false
set_option relaxedAutoImplicit false

namespace Gaudere.Library

universe u v w

variable {Request : Type u} {Answer : Request → Type v} {Reply : Type w}
variable {Store Memory Call Item : Type*}

/-- An operation on a store that is used through requests only. -/
inductive Program (Answer : Request → Type v) (Reply : Type w) : Type (max u v w)
  | done (reply : Reply)
  | ask (request : Request) (next : Answer request → Program Answer Reply)

/-- A way to serve the requests: the store after one, and its answer unless it throws. -/
structure Implementation (Answer : Request → Type v) (Store : Type*) where
  serve : Store → (request : Request) → Store × Option (Answer request)

namespace Program

variable (i : Implementation Answer Store)

/-- The whole program. -/
def run : Program Answer Reply → Store → Store × Option Reply
  | .done reply, store => (store, some reply)
  | .ask request next, store =>
    match i.serve store request with
    | (store', some answer) => run (next answer) store'
    | (store', none) => (store', none)

/-- The store that is left when the process dies after a number of requests. -/
def cut : ℕ → Program Answer Reply → Store → Store
  | 0, _, store => store
  | _ + 1, .done _, store => store
  | n + 1, .ask request next, store =>
    match i.serve store request with
    | (store', some answer) => cut n (next answer) store'
    | (store', none) => store'

/-- One request for each element of a list, in its order. -/
def each (request : Item → Request) : List Item → Program Answer Reply → Program Answer Reply
  | [], next => next
  | item :: items, next => .ask (request item) fun _ ↦ each request items next

variable {i} {request : Request} {next : Answer request → Program Answer Reply}
variable {store store' : Store}

@[simp] theorem run_done (reply : Reply) :
    (done reply : Program Answer Reply).run i store = (store, some reply) := rfl

theorem run_ask_of_answer {answer : Answer request}
    (h : i.serve store request = (store', some answer)) :
    (ask request next).run i store = (next answer).run i store' := by
  rw [run, h]

theorem run_ask_of_throw (h : i.serve store request = (store', none)) :
    (ask request next).run i store = (store', none) := by
  rw [run, h]

/-! ### Where a program can be interrupted -/

@[simp] theorem cut_zero (program : Program Answer Reply) : program.cut i 0 store = store := by
  cases program <;> rfl

@[simp] theorem cut_done (n : ℕ) (reply : Reply) :
    (done reply : Program Answer Reply).cut i n store = store := by
  cases n <;> rfl

theorem cut_ask_of_answer {answer : Answer request}
    (h : i.serve store request = (store', some answer)) (n : ℕ) :
    (ask request next).cut i (n + 1) store = (next answer).cut i n store' := by
  rw [cut, h]

theorem cut_ask_of_throw (h : i.serve store request = (store', none)) (n : ℕ) :
    (ask request next).cut i (n + 1) store = store' := by
  rw [cut, h]

variable (i) in
/-- The program takes the store to another and gives the reply, and whenever it is interrupted the
store is the one or the other. -/
structure Atomic (program : Program Answer Reply) (store store' : Store) (reply : Option Reply) :
    Prop where
  run : program.run i store = (store', reply)
  cut : ∀ n, program.cut i n store = store ∨ program.cut i n store = store'

theorem Atomic.done (reply : Reply) :
    (done reply : Program Answer Reply).Atomic i store store (some reply) :=
  ⟨rfl, fun n ↦ Or.inl (cut_done n reply)⟩

/-- A request that leaves the store can precede. -/
theorem Atomic.read {answer : Answer request} {reply : Option Reply}
    (hserve : i.serve store request = (store, some answer))
    (hnext : (next answer).Atomic i store store' reply) :
    (ask request next).Atomic i store store' reply := by
  refine ⟨(run_ask_of_answer hserve).trans hnext.run, fun n ↦ ?_⟩
  cases n with
  | zero => exact Or.inl (cut_zero _)
  | succ n =>
    rw [cut_ask_of_answer hserve]
    exact hnext.cut n

/-- A request that changes the store comes last. -/
theorem Atomic.write {answer : Answer request} {reply : Reply}
    (hserve : i.serve store request = (store', some answer)) (hnext : next answer = .done reply) :
    (ask request next).Atomic i store store' (some reply) := by
  constructor
  · rw [run_ask_of_answer hserve, hnext, run_done]
  · intro n
    cases n with
    | zero => exact Or.inl (cut_zero _)
    | succ n =>
      rw [cut_ask_of_answer hserve, hnext, cut_done]
      exact Or.inr rfl

theorem Atomic.throw (hserve : i.serve store request = (store, none)) :
    (ask request next).Atomic i store store none := by
  refine ⟨run_ask_of_throw hserve, fun n ↦ Or.inl ?_⟩
  cases n with
  | zero => exact cut_zero _
  | succ n => exact cut_ask_of_throw hserve n

/-! ### Loops -/

/-- The requests of a loop one by one, up to the first that throws; the flag says whether the loop
got through. -/
def serveEach (i : Implementation Answer Store) : Store → List Request → Store × Bool
  | store, [] => (store, true)
  | store, request :: requests =>
    match i.serve store request with
    | (store', some _) => serveEach i store' requests
    | (store', none) => (store', false)

theorem run_each {asked : Item → Request} {items : List Item} {rest : Program Answer Reply}
    (h : (serveEach i store (items.map asked)).2 = true) :
    (each asked items rest).run i store =
      rest.run i (serveEach i store (items.map asked)).1 := by
  induction items generalizing store with
  | nil => rfl
  | cons item items ih =>
    rcases hserve : i.serve store (asked item) with ⟨store', answer⟩
    rw [List.map_cons, serveEach, hserve] at h ⊢
    cases answer with
    | none => cases h
    | some answer =>
      rw [each, run_ask_of_answer hserve]
      exact ih h

/-- An interrupted loop has made the first of its requests. -/
theorem cut_each (asked : Item → Request) (items : List Item) (reply : Reply) (n : ℕ) :
    (each asked items (.done reply) : Program Answer Reply).cut i n store =
      (serveEach i store ((items.take n).map asked)).1 := by
  induction items generalizing store n with
  | nil =>
    rw [each, cut_done, List.take_nil]
    rfl
  | cons item items ih =>
    cases n with
    | zero =>
      rw [cut_zero, List.take_zero]
      rfl
    | succ n =>
      rcases hserve : i.serve store (asked item) with ⟨store', answer⟩
      rw [List.take_succ_cons, List.map_cons, serveEach, hserve]
      cases answer with
      | none => exact cut_ask_of_throw hserve n
      | some answer =>
        rw [each, cut_ask_of_answer hserve]
        exact ih n

/-! ### One implementation for another -/

section Following

variable {Store' : Type*} {j : Implementation Answer Store'}
variable {R : Store → Store' → Prop} {Asked : Request → Prop}

variable (j) in
/-- All requests that the program makes over the implementation are of a kind. -/
def Asks (Asked : Request → Prop) : Program Answer Reply → Store' → Prop
  | .done _, _ => True
  | .ask request next, store =>
    Asked request ∧ ∀ store' answer, j.serve store request = (store', some answer) →
      Asks Asked (next answer) store'

variable (i j R) in
/-- From related stores the first implementation answers a request as the second one does, whenever
that one does not throw. -/
def Follows (request : Request) : Prop :=
  ∀ store other other' answer, R store other → j.serve other request = (other', some answer) →
    ∃ store', i.serve store request = (store', some answer) ∧ R store' other'

/-- A program cannot tell an implementation from one that follows it. -/
theorem run_of_follows (hfollows : ∀ request, Asked request → Follows i j R request)
    {program : Program Answer Reply} {store : Store} {other : Store'} {reply : Reply}
    (hasks : program.Asks j Asked other) (hrelated : R store other)
    (hreply : (program.run j other).2 = some reply) :
    ∃ store', program.run i store = (store', some reply) ∧ R store' (program.run j other).1 := by
  induction program generalizing store other with
  | done _ => exact ⟨store, congrArg (Prod.mk store) hreply, hrelated⟩
  | ask request next ih =>
    obtain ⟨hasked, hnext⟩ := hasks
    rcases hserve : j.serve other request with ⟨other', answer⟩
    cases answer with
    | none =>
      rw [run_ask_of_throw hserve] at hreply
      cases hreply
    | some answer =>
      obtain ⟨store', hserve', hrelated'⟩ := hfollows request hasked _ _ _ _ hrelated hserve
      rw [run_ask_of_answer hserve] at hreply ⊢
      rw [run_ask_of_answer hserve']
      exact ih answer (hnext other' answer hserve) hrelated' hreply

/-- A loop gets through where it does over the implementation that is followed. -/
theorem serveEach_of_follows {requests : List Request}
    (hfollows : ∀ request ∈ requests, Follows i j R request) {store : Store} {other : Store'}
    (hrelated : R store other) (hthrough : (serveEach j other requests).2 = true) :
    (serveEach i store requests).2 = true ∧
      R (serveEach i store requests).1 (serveEach j other requests).1 := by
  induction requests generalizing store other with
  | nil => exact ⟨rfl, hrelated⟩
  | cons request requests ih =>
    rw [List.forall_mem_cons] at hfollows
    rcases hserve : j.serve other request with ⟨other', answer⟩
    cases answer with
    | none =>
      rw [serveEach, hserve] at hthrough
      cases hthrough
    | some answer =>
      obtain ⟨store', hserve', hrelated'⟩ := hfollows.1 _ _ _ _ hrelated hserve
      simp only [serveEach, hserve, hserve'] at hthrough ⊢
      exact ih hfollows.2 hrelated' hthrough

end Following

end Program

/-! ### Processes -/

/-- An object with operations: what it keeps in memory, and each operation as a program over its
store, which ends with the new memory and a reply. -/
structure Process (Answer : Request → Type v) (Memory Call Reply : Type*) where
  /-- The memory of a new object. -/
  boot : Memory
  operation : Memory → Call → Program Answer (Memory × Reply)

/-- A call, or one within which the process dies after a number of requests. -/
inductive Attempt (Call : Type*)
  | served (call : Call)
  | died (call : Call) (requests : ℕ)
deriving DecidableEq, Repr

/-- The call, answered or not. -/
def Attempt.call : Attempt Call → Call
  | .served call => call
  | .died call _ => call

namespace Process

variable {Reply : Type*} (p : Process Answer Memory Call Reply) (i : Implementation Answer Store)

/-- The process over an implementation. A request that throws leaves the memory. -/
def machine : Machine (Memory × Store) Call (Option Reply) where
  step s call :=
    match (p.operation s.1 call).run i s.2 with
    | (store, some (memory, reply)) => ((memory, store), some reply)
    | (store, none) => ((s.1, store), none)

/-- The process with deaths. -/
def mortal : Machine (Memory × Store) (Attempt Call) (Option Reply) where
  step s
    | .served call => (p.machine i).step s call
    | .died call requests =>
      ((p.boot, (p.operation s.1 call).cut i requests s.2), none)

end Process

end Gaudere.Library
