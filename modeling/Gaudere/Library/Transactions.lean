import Mathlib.Data.List.Perm.Subperm
import Mathlib.Logic.Function.Basic
import Gaudere.Library.Machine

/-!
# Transactions of several connections

A `Transaction` is what a program still has to send to a database inside one transaction, statement
by statement, up to its `COMMIT` or `ROLLBACK`; `alone` is what it does when nothing else runs. A
`Client` gives each call its transaction and says whether the call takes the write lock first.

`Client.server` interleaves the statements of any number of connections on one database. A locking
transaction works on a private copy of what was committed when it took the lock, and publishes it
when it commits; the others read what was committed when they began. A connection can fail, which
undoes its transaction and throws, or crash, which also loses an answer that was not delivered.

`serializable` says that nothing else than whole calls in some order can be observed: the committed
data is that of a run of a machine of atomic calls, and the answers that each connection gets are
replies of that run, in the order of its calls. `exists_answering` says that no call is blocked for
ever.
-/

set_option autoImplicit false
set_option relaxedAutoImplicit false

namespace Gaudere.Library

variable {Conn Data Call Reply : Type*}

/-- What is left of a transaction. What follows a statement depends on the data before it. -/
inductive Transaction (Data Reply : Type*)
  | commit (reply : Reply)
  | rollback (reply : Reply)
  | statement (effect : Data → Data) (next : Data → Transaction Data Reply)

namespace Transaction

/-- The data that is committed in the end and the reply, from the data that the transaction began
with and the data it has come to. -/
def outcome (base : Data) : Transaction Data Reply → Data → Data × Reply
  | .commit reply, work => (work, reply)
  | .rollback reply, _ => (base, reply)
  | .statement effect next, work => outcome base (next work) (effect work)

/-- The transaction run by itself. -/
def alone (transaction : Transaction Data Reply) (data : Data) : Data × Reply :=
  transaction.outcome data data

/-- A query, followed by what depends on its result. -/
def select {α : Type*} (query : Data → α) (next : α → Transaction Data Reply) :
    Transaction Data Reply :=
  .statement id fun data ↦ next (query data)

/-- A statement that may throw, which rolls the transaction back. -/
def attempt {ε α : Type*} (run : Data → Except ε (Data × α)) (threw : ε → Reply)
    (next : α → Transaction Data Reply) : Transaction Data Reply :=
  .statement
    (fun data ↦
      match run data with
      | .ok (data', _) => data'
      | .error _ => data)
    fun data ↦
      match run data with
      | .ok (_, result) => next result
      | .error failure => .rollback (threw failure)

/-- The transaction on a part of the data. -/
def embed {Whole Answer : Type*} (view : Whole → Data) (put : Whole → Data → Whole)
    (answer : Reply → Answer) : Transaction Data Reply → Transaction Whole Answer
  | .commit reply => .commit (answer reply)
  | .rollback reply => .rollback (answer reply)
  | .statement effect next =>
    .statement (fun whole ↦ put whole (effect (view whole))) fun whole ↦
      embed view put answer (next (view whole))

section Outcome

variable (base work : Data)

@[simp] theorem outcome_commit (reply : Reply) :
    (commit reply).outcome base work = (work, reply) := rfl

@[simp] theorem outcome_rollback (reply : Reply) :
    (rollback reply).outcome base work = (base, reply) := rfl

@[simp] theorem outcome_statement (effect : Data → Data)
    (next : Data → Transaction Data Reply) :
    (statement effect next).outcome base work = (next work).outcome base (effect work) := rfl

@[simp] theorem outcome_select {α : Type*} (query : Data → α)
    (next : α → Transaction Data Reply) :
    (select query next).outcome base work = (next (query work)).outcome base work := rfl

theorem outcome_ite (p : Prop) [Decidable p] (first second : Transaction Data Reply) :
    (if p then first else second).outcome base work =
      if p then first.outcome base work else second.outcome base work :=
  apply_ite (fun transaction ↦ transaction.outcome base work) p first second

theorem outcome_attempt {ε α : Type*} (run : Data → Except ε (Data × α)) (threw : ε → Reply)
    (next : α → Transaction Data Reply) :
    (attempt run threw next).outcome base work =
      match run work with
      | .ok (work', result) => (next result).outcome base work'
      | .error failure => (base, threw failure) := by
  rw [attempt, outcome_statement]
  cases run work with
  | ok result => rfl
  | error failure => rfl

end Outcome

/-- Run by itself on a part, a transaction changes the part as it does alone, and nothing else. -/
theorem alone_embed {Whole Answer : Type*} (view : Whole → Data) (put : Whole → Data → Whole)
    (answer : Reply → Answer) (hview : ∀ whole data, view (put whole data) = data)
    (hput : ∀ whole first second, put (put whole first) second = put whole second) {whole : Whole}
    (hwhole : put whole (view whole) = whole) (transaction : Transaction Data Reply) :
    (transaction.embed view put answer).alone whole =
      (put whole (transaction.alone (view whole)).1,
        answer (transaction.alone (view whole)).2) := by
  have houtcome : ∀ data, (transaction.embed view put answer).outcome whole (put whole data) =
      (put whole (transaction.outcome (view whole) data).1,
        answer (transaction.outcome (view whole) data).2) := by
    induction transaction with
    | commit reply => exact fun data ↦ rfl
    | rollback reply =>
      intro data
      rw [embed, outcome_rollback, outcome_rollback, hwhole]
    | statement effect next ih =>
      intro data
      rw [embed, outcome_statement, outcome_statement, hview, hput, ih]
  have halone := houtcome (view whole)
  rwa [hwhole] at halone

end Transaction

/-- How a program talks to its database. -/
structure Client (Data Call Reply : Type*) where
  /-- The call takes the write lock before its first statement. -/
  locks : Call → Bool
  body : Call → Transaction Data Reply

/-- The client does what a machine does in one step: its transactions, run by themselves, are the
steps, and a call that does not lock leaves the data. -/
structure Client.Implements (client : Client Data Call Reply) (m : Machine Data Call Reply) :
    Prop where
  alone : ∀ call data, (client.body call).alone data = m.step data call
  reads : ∀ call data, client.locks call = false → (m.step data call).1 = data

/-- Where a connection is in its call. -/
inductive Session (Data Call Reply : Type*)
  | idle
  | called (call : Call)
  | opened (call : Call) (base work : Data) (rest : Transaction Data Reply)
  | answering (call : Call) (reply : Reply)

/-- The call of a session that has no answer yet. -/
def Session.unanswered {Data Call Reply : Type*} : Session Data Call Reply → Option Call
  | .called call => some call
  | .opened call _ _ _ => some call
  | _ => none

/-- The database with its connections. -/
structure Server (Conn Data Call Reply : Type*) where
  committed : Data
  writer : Option Conn
  session : Conn → Session Data Call Reply

/-- What a connection does next. -/
inductive Act (Call : Type*)
  | invoke (call : Call)
  | begin
  | execute
  | close
  | answer
  | fail
  | crash

/-- The acts of a call that goes on without a failure. -/
def Act.Proceeds : Act Call → Prop
  | .begin | .execute | .close => True
  | _ => False

/-- What can be observed of a step. -/
inductive Output (Call Reply : Type*)
  | quiet
  | invoked (call : Call)
  | tookEffect (call : Call)
  | answered (call : Call) (reply : Reply)
  | failed (call : Call)

namespace Output

def invocation : Output Call Reply → Option Call
  | .invoked call => some call
  | _ => none

def effect : Output Call Reply → Option Call
  | .tookEffect call => some call
  | _ => none

def answer : Output Call Reply → Option (Call × Reply)
  | .answered call reply => some (call, reply)
  | _ => none

end Output

namespace Server

variable [DecidableEq Conn]

/-- No connection does anything. -/
def start (data : Data) : Server Conn Data Call Reply where
  committed := data
  writer := none
  session _ := .idle

def set (s : Server Conn Data Call Reply) (c : Conn) (session : Session Data Call Reply) :
    Server Conn Data Call Reply :=
  { s with session := Function.update s.session c session }

@[simp] theorem set_committed (s : Server Conn Data Call Reply) (c : Conn)
    (session : Session Data Call Reply) : (s.set c session).committed = s.committed := rfl

@[simp] theorem set_writer (s : Server Conn Data Call Reply) (c : Conn)
    (session : Session Data Call Reply) : (s.set c session).writer = s.writer := rfl

@[simp] theorem session_set_self (s : Server Conn Data Call Reply) (c : Conn)
    (session : Session Data Call Reply) : (s.set c session).session c = session :=
  Function.update_self ..

theorem session_set_of_ne (s : Server Conn Data Call Reply) {c c' : Conn} (h : c' ≠ c)
    (session : Session Data Call Reply) : (s.set c session).session c' = s.session c' :=
  Function.update_of_ne h ..

/-- The connection gives the write lock back, if it has it. -/
def release (s : Server Conn Data Call Reply) (c : Conn) : Server Conn Data Call Reply :=
  { s with writer := if s.writer = some c then none else s.writer }

end Server

namespace Client

variable [DecidableEq Conn] (client : Client Data Call Reply)

/-- The next step of a connection. One that is not possible now does nothing. -/
def step (s : Server Conn Data Call Reply) (c : Conn) :
    Act Call → Server Conn Data Call Reply × Output Call Reply
  | .invoke call =>
    match s.session c with
    | .idle => (s.set c (.called call), .invoked call)
    | _ => (s, .quiet)
  | .begin =>
    match s.session c with
    | .called call =>
      let opened := s.set c (.opened call s.committed s.committed (client.body call))
      if client.locks call then
        -- A connection that finds the lock taken waits for it.
        if s.writer.isSome then (s, .quiet) else ({ opened with writer := some c }, .quiet)
      else (opened, .tookEffect call)
    | _ => (s, .quiet)
  | .execute =>
    match s.session c with
    | .opened call base work (.statement effect next) =>
      (s.set c (.opened call base (effect work) (next work)), .quiet)
    | _ => (s, .quiet)
  | .close =>
    match s.session c with
    | .opened call _ work (.commit reply) =>
      let answering := s.set c (.answering call reply)
      if client.locks call then
        ({ answering with committed := work, writer := none }, .tookEffect call)
      else (answering, .quiet)
    | .opened call _ _ (.rollback reply) =>
      let answering := s.set c (.answering call reply)
      if client.locks call then ({ answering with writer := none }, .tookEffect call)
      else (answering, .quiet)
    | _ => (s, .quiet)
  | .answer =>
    match s.session c with
    | .answering call reply => (s.set c .idle, .answered call reply)
    | _ => (s, .quiet)
  | .fail =>
    match s.session c with
    | .called call => ((s.release c).set c .idle, .failed call)
    | .opened call _ _ _ => ((s.release c).set c .idle, .failed call)
    | _ => (s, .quiet)
  | .crash => ((s.release c).set c .idle, .quiet)

/-- The database with its connections, as a machine over their steps. -/
def server : Machine (Server Conn Data Call Reply) (Conn × Act Call) (Output Call Reply) where
  step s act := client.step s act.1 act.2

/-! ### What a step does -/

/-- The step of one connection `c` from `s` to `s'`. -/
inductive Step (s : Server Conn Data Call Reply) (c : Conn) (s' : Server Conn Data Call Reply) :
    Output Call Reply → Prop
  | quiet (hafter : s' = s) : Step s c s' .quiet
  | invoked (call : Call) (hsession : s.session c = .idle) (hafter : s' = s.set c (.called call)) :
      Step s c s' (.invoked call)
  | locked (call : Call) (hsession : s.session c = .called call) (hlocks : client.locks call = true)
      (hfree : s.writer = none)
      (hafter : s' = { s.set c (.opened call s.committed s.committed (client.body call)) with
        writer := some c }) : Step s c s' .quiet
  | read (call : Call) (hsession : s.session c = .called call) (hlocks : client.locks call = false)
      (hafter : s' = s.set c (.opened call s.committed s.committed (client.body call))) :
      Step s c s' (.tookEffect call)
  | executed (call : Call) (base work work' : Data) (rest rest' : Transaction Data Reply)
      (hsession : s.session c = .opened call base work rest)
      (hrest : rest.outcome base work = rest'.outcome base work')
      (hafter : s' = s.set c (.opened call base work' rest')) : Step s c s' .quiet
  | written (call : Call) (base work : Data) (rest : Transaction Data Reply)
      (hsession : s.session c = .opened call base work rest) (hlocks : client.locks call = true)
      (hafter : s' = { s.set c (.answering call (rest.outcome base work).2) with
        committed := (rest.outcome base work).1
        writer := none } ∨
        (rest.outcome base work).1 = base ∧
          s' = { s.set c (.answering call (rest.outcome base work).2) with writer := none }) :
      Step s c s' (.tookEffect call)
  | finished (call : Call) (base work : Data) (rest : Transaction Data Reply)
      (hsession : s.session c = .opened call base work rest) (hlocks : client.locks call = false)
      (hafter : s' = s.set c (.answering call (rest.outcome base work).2)) : Step s c s' .quiet
  | answered (call : Call) (reply : Reply) (hsession : s.session c = .answering call reply)
      (hafter : s' = s.set c .idle) : Step s c s' (.answered call reply)
  | undone (output : Output Call Reply) (hquiet : output = .quiet ∨ ∃ call, output = .failed call)
      (hafter : s' = (s.release c).set c .idle) : Step s c s' output

theorem step_cases (s : Server Conn Data Call Reply) (c : Conn) (act : Act Call) :
    client.Step s c (client.step s c act).1 (client.step s c act).2 := by
  cases act with
  | invoke call =>
    cases hsession : s.session c with
    | idle => simpa only [step, hsession] using .invoked call hsession rfl
    | called _ | opened _ _ _ _ | answering _ _ =>
      simpa only [step, hsession] using .quiet rfl
  | begin =>
    cases hsession : s.session c with
    | called call =>
      cases hlocks : client.locks call with
      | false =>
        simpa only [step, hsession, hlocks, Bool.false_eq_true, ↓reduceIte] using
          .read call hsession hlocks rfl
      | true =>
        cases hwriter : s.writer with
        | none =>
          simpa only [step, hsession, hlocks, hwriter, Option.isSome_none, Bool.false_eq_true,
            ↓reduceIte] using .locked call hsession hlocks hwriter rfl
        | some w =>
          simpa only [step, hsession, hlocks, hwriter, Option.isSome_some, ↓reduceIte] using
            .quiet rfl
    | idle | opened _ _ _ _ | answering _ _ => simpa only [step, hsession] using .quiet rfl
  | execute =>
    cases hsession : s.session c with
    | opened call base work rest =>
      cases rest with
      | statement effect next =>
        simpa only [step, hsession] using
          .executed call base work (effect work) (.statement effect next) (next work) hsession rfl
            rfl
      | commit _ | rollback _ => simpa only [step, hsession] using .quiet rfl
    | idle | called _ | answering _ _ => simpa only [step, hsession] using .quiet rfl
  | close =>
    cases hsession : s.session c with
    | opened call base work rest =>
      cases rest with
      | commit reply =>
        cases hlocks : client.locks call with
        | false =>
          simpa only [step, hsession, hlocks, Bool.false_eq_true, ↓reduceIte] using
            .finished call base work (.commit reply) hsession hlocks rfl
        | true =>
          simpa only [step, hsession, hlocks, ↓reduceIte] using
            .written call base work (.commit reply) hsession hlocks (Or.inl rfl)
      | rollback reply =>
        cases hlocks : client.locks call with
        | false =>
          simpa only [step, hsession, hlocks, Bool.false_eq_true, ↓reduceIte] using
            .finished call base work (.rollback reply) hsession hlocks rfl
        | true =>
          simpa only [step, hsession, hlocks, ↓reduceIte] using
            .written call base work (.rollback reply) hsession hlocks (Or.inr ⟨rfl, rfl⟩)
      | statement _ _ => simpa only [step, hsession] using .quiet rfl
    | idle | called _ | answering _ _ => simpa only [step, hsession] using .quiet rfl
  | answer =>
    cases hsession : s.session c with
    | answering call reply =>
      simpa only [step, hsession] using .answered call reply hsession rfl
    | idle | called _ | opened _ _ _ _ => simpa only [step, hsession] using .quiet rfl
  | fail =>
    cases hsession : s.session c with
    | called call | opened call _ _ _ =>
      simpa only [step, hsession] using .undone (.failed call) (Or.inr ⟨call, rfl⟩) rfl
    | idle | answering _ _ => simpa only [step, hsession] using .quiet rfl
  | crash => exact .undone .quiet (Or.inl rfl) rfl

end Client

/-! ### What is observed -/

section Observed

variable [DecidableEq Conn]

/-- The calls that took effect, each with its connection, in the order in which they did. -/
def serialised (events : List (Event (Server Conn Data Call Reply) (Conn × Act Call)
    (Output Call Reply))) : List (Conn × Call) :=
  events.filterMap fun e ↦ e.reply.effect.map fun call ↦ (e.call.1, call)

/-- The calls that a connection made. -/
def invocationsOf (c : Conn) (events : List (Event (Server Conn Data Call Reply) (Conn × Act Call)
    (Output Call Reply))) : List Call :=
  events.filterMap fun e ↦ if e.call.1 = c then e.reply.invocation else none

/-- The answers that a connection got, each with its call. -/
def answersOf (c : Conn) (events : List (Event (Server Conn Data Call Reply) (Conn × Act Call)
    (Output Call Reply))) : List (Call × Reply) :=
  events.filterMap fun e ↦ if e.call.1 = c then e.reply.answer else none

/-- All answers that were delivered, each with its connection. -/
def answers (events : List (Event (Server Conn Data Call Reply) (Conn × Act Call)
    (Output Call Reply))) : List (Conn × Call × Reply) :=
  events.filterMap fun e ↦ e.reply.answer.map fun answer ↦ (e.call.1, answer)

/-- The calls of one connection among those of all. -/
def callsOf (c : Conn) (calls : List (Conn × Call)) : List Call :=
  (calls.filter fun call ↦ call.1 = c).map Prod.snd

/-- A machine whose calls say which connection makes them. -/
def Machine.tagged (Conn : Type*) (m : Machine Data Call Reply) :
    Machine Data (Conn × Call) Reply where
  step data call := m.step data call.2

/-- The calls and replies of a run of atomic calls. -/
def Machine.traces (m : Machine Data Call Reply) (init : Data) (calls : List (Conn × Call)) :
    List (Conn × Call × Reply) :=
  ((m.tagged Conn).history init calls).map fun e ↦ (e.call.1, e.call.2, e.reply)

/-- The part of a run of atomic calls that concerns one connection. -/
def Machine.traceOf (m : Machine Data Call Reply) (init : Data) (c : Conn)
    (calls : List (Conn × Call)) : List (Call × Reply) :=
  ((m.traces init calls).filter fun answer ↦ answer.1 = c).map Prod.snd

variable {m : Machine Data Call Reply} {init : Data}
  {past : List (Event (Server Conn Data Call Reply) (Conn × Act Call) (Output Call Reply))}

omit [DecidableEq Conn] in
theorem serialised_concat (e : Event (Server Conn Data Call Reply) (Conn × Act Call)
    (Output Call Reply)) :
    serialised (past ++ [e]) =
      serialised past ++ e.reply.effect.toList.map fun call ↦ (e.call.1, call) := by
  rw [serialised, List.filterMap_append, ← serialised]
  cases h : e.reply.effect <;> simp [h]

theorem invocationsOf_concat (c : Conn) (e : Event (Server Conn Data Call Reply) (Conn × Act Call)
    (Output Call Reply)) :
    invocationsOf c (past ++ [e]) =
      invocationsOf c past ++ if e.call.1 = c then e.reply.invocation.toList else [] := by
  rw [invocationsOf, List.filterMap_append, ← invocationsOf]
  cases h : e.reply.invocation <;> by_cases hc : e.call.1 = c <;> simp [h, hc]

theorem answersOf_concat (c : Conn) (e : Event (Server Conn Data Call Reply) (Conn × Act Call)
    (Output Call Reply)) :
    answersOf c (past ++ [e]) =
      answersOf c past ++ if e.call.1 = c then e.reply.answer.toList else [] := by
  rw [answersOf, List.filterMap_append, ← answersOf]
  cases h : e.reply.answer <;> by_cases hc : e.call.1 = c <;> simp [h, hc]

omit [DecidableEq Conn] in
theorem Machine.run_tagged (calls : List (Conn × Call)) :
    (m.tagged Conn).run init calls = m.run init (calls.map Prod.snd) := by
  induction calls generalizing init with
  | nil => rfl
  | cons call calls ih => exact ih

theorem Machine.traceOf_concat (c c' : Conn) (call : Option Call) (calls : List (Conn × Call)) :
    m.traceOf init c (calls ++ call.toList.map fun call ↦ (c', call)) = m.traceOf init c calls ++
      if c' = c then call.toList.map fun call ↦
        (call, (m.step (m.run init (calls.map Prod.snd)) call).2) else [] := by
  rw [Machine.traceOf, Machine.traces, Machine.history_append, List.map_append, List.filter_append,
    List.map_append, ← Machine.traces, ← Machine.traceOf, Machine.run_tagged]
  cases call with
  | none => simp
  | some call => split_ifs with h <;> simp [h, Machine.event, Machine.tagged]

theorem callsOf_concat (c c' : Conn) (call : Option Call) (calls : List (Conn × Call)) :
    callsOf c (calls ++ call.toList.map fun call ↦ (c', call)) =
      callsOf c calls ++ if c' = c then call.toList else [] := by
  rw [callsOf, List.filter_append, List.map_append, ← callsOf]
  cases call with
  | none => simp
  | some call => split_ifs with h <;> simp [h]

theorem answersOf_eq (c : Conn) (events : List (Event (Server Conn Data Call Reply)
    (Conn × Act Call) (Output Call Reply))) :
    answersOf c events = ((answers events).filter fun answer ↦ answer.1 = c).map Prod.snd := by
  induction events with
  | nil => rfl
  | cons e events ih =>
    simp only [answersOf, answers, List.filterMap_cons] at ih ⊢
    cases e.reply.answer <;> by_cases hc : e.call.1 = c <;> simp [hc, ih]

omit [DecidableEq Conn] in
theorem nodup_map_of_subperm {α β : Type*} {first second : List α} {f : α → β}
    (h : first.Subperm second) (hsecond : (second.map f).Nodup) : (first.map f).Nodup := by
  obtain ⟨l, hperm, hsublist⟩ := h
  exact (hperm.map f).nodup_iff.mp (hsecond.sublist (hsublist.map f))

/-- Lists of tagged elements are one a part of the other when they are so tag by tag. -/
theorem subperm_of_tags {Tagged : Type*} {first second : List (Conn × Tagged)}
    (h : ∀ c, ((first.filter fun x ↦ x.1 = c).map Prod.snd).Subperm
      ((second.filter fun x ↦ x.1 = c).map Prod.snd)) : first.Subperm second := by
  classical
  have hcount : ∀ (l : List (Conn × Tagged)) (x : Conn × Tagged),
      l.count x = ((l.filter fun y ↦ y.1 = x.1).map Prod.snd).count x.2 := by
    intro l x
    rw [List.count_eq_countP, List.count_eq_countP, List.countP_map, List.countP_filter]
    refine List.countP_congr fun y _ ↦ ?_
    simp [Prod.ext_iff, and_comm]
  refine List.subperm_ext_iff.mpr fun x _ ↦ ?_
  rw [hcount, hcount]
  exact (h x.1).count_le x.2

end Observed

namespace Client

variable [DecidableEq Conn] {client : Client Data Call Reply} {m : Machine Data Call Reply}
  {init : Data}

/-! ### The invariant -/

/-- The call of a session that did not take effect yet. -/
def waiting (client : Client Data Call Reply) : Session Data Call Reply → List Call
  | .called call => [call]
  | .opened call _ _ _ => if client.locks call then [call] else []
  | _ => []

/-- The answer of a session whose call took effect. -/
def pending (client : Client Data Call Reply) : Session Data Call Reply → List (Call × Reply)
  | .opened call base work rest =>
    if client.locks call then [] else [(call, (rest.outcome base work).2)]
  | .answering call reply => [(call, reply)]
  | _ => []

/-- The state of the server: every open transaction is on its way to the outcome of its call on
what it began with, and the write lock is held by the one connection that has a locking
transaction, which began with what is still committed. -/
structure Sound (client : Client Data Call Reply) (m : Machine Data Call Reply)
    (s : Server Conn Data Call Reply) : Prop where
  opened : ∀ c call base work rest, s.session c = .opened call base work rest →
    rest.outcome base work = m.step base call
  locking : ∀ c call base work rest, s.session c = .opened call base work rest →
    client.locks call = true → base = s.committed ∧ s.writer = some c
  writer : ∀ c, s.writer = some c → ∃ call base work rest,
    s.session c = .opened call base work rest ∧ client.locks call = true

/-- What was observed so far is explained by the calls that took effect, one after the other. -/
structure Serial (client : Client Data Call Reply) (m : Machine Data Call Reply) (init : Data)
    (past : List (Event (Server Conn Data Call Reply) (Conn × Act Call) (Output Call Reply)))
    (s : Server Conn Data Call Reply) : Prop where
  sound : Sound client m s
  committed : s.committed = m.run init ((serialised past).map Prod.snd)
  answers : ∀ c, (answersOf c past ++ client.pending (s.session c)).Sublist
    (m.traceOf init c (serialised past))
  calls : ∀ c, (callsOf c (serialised past) ++ client.waiting (s.session c)).Sublist
    (invocationsOf c past)

section Steps

variable {s s' : Server Conn Data Call Reply} {c : Conn} {output : Output Call Reply}

/-- Only the session of `c` changes, and whoever else has the lock keeps it. -/
theorem Sound.update (h : Sound client m s) (session : Session Data Call Reply)
    (hafter : s'.session = (s.set c session).session)
    (hopened : ∀ call base work rest, session = .opened call base work rest →
      rest.outcome base work = m.step base call ∧
        (client.locks call = true → base = s'.committed ∧ s'.writer = some c))
    (hothers : ∀ c', c' ≠ c → s.writer = some c' →
      s'.writer = some c' ∧ s'.committed = s.committed)
    (hholder : s'.writer = some c → ∃ call base work rest,
      session = .opened call base work rest ∧ client.locks call = true)
    (hfrom : ∀ c', c' ≠ c → s'.writer = some c' → s.writer = some c') : Sound client m s' := by
  have hself : s'.session c = session := by rw [hafter, Server.session_set_self]
  have hother : ∀ c', c' ≠ c → s'.session c' = s.session c' := fun c' hne ↦ by
    rw [hafter, Server.session_set_of_ne s hne]
  constructor
  · intro c' call base work rest hsession
    by_cases hc : c' = c
    · rw [hc, hself] at hsession
      exact (hopened call base work rest hsession).1
    · exact h.opened c' call base work rest ((hother c' hc).symm.trans hsession)
  · intro c' call base work rest hsession hlocks
    by_cases hc : c' = c
    · rw [hc, hself] at hsession
      rw [hc]
      exact (hopened call base work rest hsession).2 hlocks
    · obtain ⟨hbase, hwriter⟩ :=
        h.locking c' call base work rest ((hother c' hc).symm.trans hsession) hlocks
      obtain ⟨hwriter', hcommitted⟩ := hothers c' hc hwriter
      exact ⟨hbase.trans hcommitted.symm, hwriter'⟩
  · intro c' hwriter
    by_cases hc : c' = c
    · rw [hc] at hwriter ⊢
      rw [hself]
      exact hholder hwriter
    · rw [hother c' hc]
      exact h.writer c' (hfrom c' hc hwriter)

/-- A step that changes only the session of `c`, which does not have the lock. -/
theorem Sound.set (h : Sound client m s) (hfree : s.writer ≠ some c)
    {session : Session Data Call Reply}
    (hopened : ∀ call base work rest, session = .opened call base work rest →
      rest.outcome base work = m.step base call ∧ client.locks call = false) :
    Sound client m (s.set c session) := by
  refine h.update _ rfl (fun call base work rest hsession ↦ ?_) (fun c' _ hwriter ↦ ⟨hwriter, rfl⟩)
    (fun hwriter ↦ absurd hwriter hfree) fun c' _ hwriter ↦ hwriter
  obtain ⟨houtcome, hlocks⟩ := hopened call base work rest hsession
  exact ⟨houtcome, fun hlocks' ↦ absurd hlocks' (by rw [hlocks]; exact Bool.false_ne_true)⟩

omit [DecidableEq Conn] in
/-- A connection whose session is no locking transaction does not have the lock. -/
theorem Sound.not_writer (h : Sound client m s)
    (hsession : ∀ call base work rest, s.session c = .opened call base work rest →
      client.locks call = false) : s.writer ≠ some c := by
  intro hwriter
  obtain ⟨call, base, work, rest, hopened, hlocks⟩ := h.writer c hwriter
  rw [hsession call base work rest hopened] at hlocks
  exact Bool.false_ne_true hlocks

theorem Sound.step (himplements : client.Implements m) (h : Sound client m s)
    (hstep : client.Step s c s' output) : Sound client m s' := by
  cases hstep with
  | quiet hafter => rwa [hafter]
  | invoked call hsession hafter =>
    rw [hafter]
    exact h.set (h.not_writer fun _ _ _ _ hopened ↦ by rw [hsession] at hopened; cases hopened)
      fun _ _ _ _ hopened ↦ by cases hopened
  | locked call hsession hlocks hfree hafter =>
    rw [hafter]
    refine h.update _ rfl ?_ (fun c' _ hwriter ↦ ?_) (fun _ ↦ ⟨_, _, _, _, rfl, hlocks⟩) ?_
    · intro call' base work rest hopened
      cases hopened
      exact ⟨himplements.alone call s.committed, fun _ ↦ ⟨rfl, rfl⟩⟩
    · rw [hfree] at hwriter
      cases hwriter
    · intro c' hne hwriter
      cases hwriter
      exact absurd rfl hne
  | read call hsession hlocks hafter =>
    rw [hafter]
    refine h.set (h.not_writer fun _ _ _ _ hopened ↦ by rw [hsession] at hopened; cases hopened) ?_
    intro call' base work rest hopened
    cases hopened
    exact ⟨himplements.alone call s.committed, hlocks⟩
  | executed call base work work' rest rest' hsession hrest hafter =>
    rw [hafter]
    have houtcome := h.opened c call base work rest hsession
    refine h.update _ rfl ?_ (fun c' _ hwriter ↦ ⟨hwriter, rfl⟩) (fun hwriter ↦ ?_)
      fun c' _ hwriter ↦ hwriter
    · intro call' base' work'' rest'' hopened
      cases hopened
      exact ⟨hrest ▸ houtcome, fun hlocks ↦ h.locking c call base work rest hsession hlocks⟩
    · obtain ⟨call', base', work'', rest'', hopened, hlocks⟩ := h.writer c hwriter
      rw [hsession] at hopened
      cases hopened
      exact ⟨_, _, _, _, rfl, hlocks⟩
  | written call base work rest hsession hlocks hafter =>
    obtain ⟨_, hwriter⟩ := h.locking c call base work rest hsession hlocks
    have hunlocked : Sound client m { s.set c (.answering call (rest.outcome base work).2) with
        committed := s'.committed
        writer := none } := by
      refine h.update _ rfl (fun _ _ _ _ hopened ↦ by cases hopened) (fun c' hne hwriter' ↦ ?_)
        (fun hnone ↦ by cases hnone) fun c' _ hnone ↦ by cases hnone
      rw [hwriter, Option.some.injEq] at hwriter'
      exact absurd hwriter'.symm hne
    rcases hafter with hafter | ⟨-, hafter⟩ <;> rw [hafter] at hunlocked ⊢ <;> exact hunlocked
  | finished call base work rest hsession hlocks hafter =>
    rw [hafter]
    refine h.set (h.not_writer fun _ _ _ _ hopened ↦ ?_) fun _ _ _ _ hopened ↦ by cases hopened
    rw [hsession] at hopened
    cases hopened
    exact hlocks
  | answered call reply hsession hafter =>
    rw [hafter]
    exact h.set (h.not_writer fun _ _ _ _ hopened ↦ by rw [hsession] at hopened; cases hopened)
      fun _ _ _ _ hopened ↦ by cases hopened
  | undone _ _ hafter =>
    rw [hafter]
    refine h.update .idle rfl (fun _ _ _ _ hopened ↦ by cases hopened) ?_ ?_ ?_
    · intro c' hne hwriter
      refine ⟨?_, rfl⟩
      simp only [Server.set_writer, Server.release, hwriter, Option.some.injEq, hne, ↓reduceIte]
    · intro hwriter
      simp only [Server.set_writer, Server.release] at hwriter
      split_ifs at hwriter with hheld
      exact absurd hwriter hheld
    · intro c' _ hwriter
      simp only [Server.set_writer, Server.release] at hwriter
      split_ifs at hwriter with hheld
      exact hwriter

/-! ### Runs -/

variable {past : List (Event (Server Conn Data Call Reply) (Conn × Act Call) (Output Call Reply))}
  {e : Event (Server Conn Data Call Reply) (Conn × Act Call) (Output Call Reply)}

/-- One step of `c` extends what was observed: it is enough to account for `c`, since the others
neither see nor do anything. -/
theorem Serial.extend (h : Serial client m init past s) (hsound : Sound client m s')
    (hothers : ∀ c', c' ≠ e.call.1 → s'.session c' = s.session c')
    (hcommitted : s'.committed = m.run s.committed e.reply.effect.toList)
    (hanswers : (e.reply.answer.toList ++ client.pending (s'.session e.call.1)).Sublist
      (client.pending (s.session e.call.1) ++
        e.reply.effect.toList.map fun call ↦ (call, (m.step s.committed call).2)))
    (hcalls : (e.reply.effect.toList ++ client.waiting (s'.session e.call.1)).Sublist
      (client.waiting (s.session e.call.1) ++ e.reply.invocation.toList)) :
    Serial client m init (past ++ [e]) s' := by
  constructor
  · exact hsound
  · rw [serialised_concat, List.map_append, Machine.run_append, ← h.committed, hcommitted,
      List.map_map]
    simp
  · intro c'
    rw [answersOf_concat, serialised_concat, Machine.traceOf_concat, ← h.committed]
    by_cases hc : e.call.1 = c'
    · subst hc
      rw [if_pos rfl, if_pos rfl, List.append_assoc]
      refine ((List.Sublist.refl _).append hanswers).trans ?_
      rw [← List.append_assoc]
      exact (h.answers _).append (List.Sublist.refl _)
    · rw [if_neg hc, if_neg hc, List.append_nil, List.append_nil, hothers c' (Ne.symm hc)]
      exact h.answers c'
  · intro c'
    rw [serialised_concat, callsOf_concat, invocationsOf_concat]
    by_cases hc : e.call.1 = c'
    · subst hc
      rw [if_pos rfl, if_pos rfl, List.append_assoc]
      refine ((List.Sublist.refl _).append hcalls).trans ?_
      rw [← List.append_assoc]
      exact (h.calls _).append (List.Sublist.refl _)
    · rw [if_neg hc, if_neg hc, List.append_nil, List.append_nil, hothers c' (Ne.symm hc)]
      exact h.calls c'

theorem Serial.step (himplements : client.Implements m) (h : Serial client m init past s)
    (hstep : client.Step s e.call.1 s' e.reply) : Serial client m init (past ++ [e]) s' := by
  have hsound := h.sound.step himplements hstep
  generalize hreply : e.reply = output at hstep
  cases hstep with
  | quiet hafter =>
    refine h.extend hsound (fun c' _ ↦ by rw [hafter]) ?_ ?_ ?_ <;>
      simp [hreply, hafter, Output.effect, Output.answer, Output.invocation]
  | invoked call hsession hafter =>
    refine h.extend hsound (fun c' hne ↦ by rw [hafter, Server.session_set_of_ne s hne])
      ?_ ?_ ?_ <;>
      simp [hreply, hafter, hsession, Output.effect, Output.answer, Output.invocation, pending,
        waiting]
  | locked call hsession hlocks hfree hafter =>
    refine h.extend hsound (fun c' hne ↦ ?_) ?_ ?_ ?_
    · rw [hafter]
      exact Server.session_set_of_ne s hne _
    · simp [hreply, hafter, Output.effect]
    · simp [hreply, hafter, Output.effect, Output.answer, pending, hlocks, Server.set]
    · simp [hreply, hafter, hsession, Output.effect, Output.invocation, waiting, hlocks,
        Server.set]
  | read call hsession hlocks hafter =>
    refine h.extend hsound (fun c' hne ↦ by rw [hafter, Server.session_set_of_ne s hne]) ?_ ?_ ?_
    · -- The call leaves the data.
      simp [hreply, hafter, Output.effect, Machine.event, himplements.reads call _ hlocks]
    · have halone := himplements.alone call s.committed
      rw [Transaction.alone] at halone
      simp [hreply, hafter, hsession, Output.effect, Output.answer, pending, hlocks, halone]
    · simp [hreply, hafter, hsession, Output.effect, waiting, hlocks]
  | executed call base work work' rest rest' hsession hrest hafter =>
    refine h.extend hsound (fun c' hne ↦ by rw [hafter, Server.session_set_of_ne s hne]) ?_ ?_ ?_
    · simp [hreply, hafter, Output.effect]
    · simp [hreply, hafter, hsession, Output.effect, Output.answer, pending, hrest]
    · simp [hreply, hafter, hsession, Output.effect, Output.invocation, waiting]
  | written call base work rest hsession hlocks hafter =>
    obtain ⟨hbase, _⟩ := h.sound.locking _ call base work rest hsession hlocks
    have houtcome := h.sound.opened _ call base work rest hsession
    have hafter' : s'.session = (s.set e.call.1 (.answering call (m.step base call).2)).session ∧
        s'.committed = (m.step base call).1 := by
      rw [← houtcome]
      rcases hafter with hafter | ⟨hundone, hafter⟩ <;> rw [hafter]
      · exact ⟨rfl, rfl⟩
      · exact ⟨rfl, hbase.symm.trans hundone.symm⟩
    obtain ⟨hsessions, hcommitted⟩ := hafter'
    refine h.extend hsound (fun c' hne ↦ by rw [hsessions, Server.session_set_of_ne s hne]) ?_ ?_ ?_
    · simp [hreply, hcommitted, Output.effect, Machine.event, ← hbase]
    · simp [hreply, hsessions, hsession, Output.effect, Output.answer, pending, hlocks, ← hbase]
    · simp [hreply, hsessions, hsession, Output.effect, waiting, hlocks]
  | finished call base work rest hsession hlocks hafter =>
    refine h.extend hsound (fun c' hne ↦ by rw [hafter, Server.session_set_of_ne s hne]) ?_ ?_ ?_
    · simp [hreply, hafter, Output.effect]
    · simp [hreply, hafter, hsession, Output.effect, Output.answer, pending, hlocks]
    · simp [hreply, hafter, hsession, Output.effect, Output.invocation, waiting, hlocks]
  | answered call reply hsession hafter =>
    refine h.extend hsound (fun c' hne ↦ by rw [hafter, Server.session_set_of_ne s hne])
      ?_ ?_ ?_ <;>
      simp [hreply, hafter, hsession, Output.effect, Output.answer, Output.invocation, pending,
        waiting]
  | undone _ hquiet hafter =>
    -- What was pending is lost.
    refine h.extend hsound (fun c' hne ↦ ?_) ?_ ?_ ?_
    · rw [hafter]
      exact Server.session_set_of_ne (s.release e.call.1) hne _
    all_goals
      rcases hquiet with rfl | ⟨call, rfl⟩ <;>
        simp [hreply, hafter, Output.effect, Output.answer, Output.invocation, pending, waiting,
          Server.release]

end Steps

omit [DecidableEq Conn] in
theorem sound_start : Sound client m (Server.start init : Server Conn Data Call Reply) where
  opened _ _ _ _ _ hsession := by cases hsession
  locking _ _ _ _ _ hsession := by cases hsession
  writer _ hwriter := by cases hwriter

theorem serial_run (himplements : client.Implements m) (init : Data)
    (acts : List (Conn × Act Call)) :
    Serial client m init (client.server.history (.start init) acts)
      (client.server.run (.start init) acts) := by
  refine Machine.history_induction
    ⟨sound_start, rfl, fun c ↦ List.Sublist.refl _, fun c ↦ List.Sublist.refl _⟩
    (fun past s act _ h ↦ ?_) (client.server.unrestricted _ _)
  exact h.step himplements (client.step_cases s act.1 act.2)

/-- Whatever the connections do in whatever order: the committed data is that of a run of whole
calls, the answers that a connection got are among its replies in that run, in their order, and
each of its calls took effect at most once, in the order in which it made them. -/
theorem serializable (himplements : client.Implements m) (init : Data)
    (acts : List (Conn × Act Call)) :
    let events := client.server.history (.start init) acts
    (client.server.run (.start init) acts).committed =
        m.run init ((serialised events).map Prod.snd) ∧
      (∀ c, (answersOf c events).Sublist (m.traceOf init c (serialised events))) ∧
      ∀ c, (callsOf c (serialised events)).Sublist (invocationsOf c events) := by
  have h := serial_run himplements init acts
  exact ⟨h.committed, fun c ↦ (List.sublist_append_left _ _).trans (h.answers c),
    fun c ↦ (List.sublist_append_left _ _).trans (h.calls c)⟩

/-- The answers of all connections together are among the replies of the run of whole calls. -/
theorem answers_subperm (himplements : client.Implements m) (init : Data)
    (acts : List (Conn × Act Call)) :
    let events := client.server.history (.start init) acts
    (answers events).Subperm (m.traces init (serialised events)) := by
  refine subperm_of_tags fun c ↦ ?_
  rw [← answersOf_eq]
  exact ((serializable himplements init acts).2.1 c).subperm

/-- Only an invocation invokes. -/
theorem act_of_invocation {s : Server Conn Data Call Reply} {c : Conn} {act : Act Call}
    {call : Call} (h : (client.step s c act).2.invocation = some call) : act = .invoke call := by
  cases act with
  | invoke other =>
    cases hsession : s.session c <;> simp only [step, hsession, Output.invocation] at h <;> cases h
    rfl
  | begin | execute | close | answer | fail | crash =>
    exfalso
    revert h
    simp only [step]
    repeat' split
    all_goals simp [Output.invocation]

/-- A call that took effect was made. -/
theorem invoked_of_serialised (himplements : client.Implements m) {acts : List (Conn × Act Call)}
    {c : Conn} {call : Call}
    (h : (c, call) ∈ serialised (client.server.history (.start init) acts)) :
    (c, Act.invoke call) ∈ acts := by
  have hcall : call ∈ callsOf c (serialised (client.server.history (.start init) acts)) :=
    List.mem_map.mpr ⟨_, List.mem_filter.mpr ⟨h, decide_eq_true rfl⟩, rfl⟩
  have hinvoked := ((serializable himplements init acts).2.2 c).subset hcall
  obtain ⟨e, he, hreply⟩ := List.mem_filterMap.mp hinvoked
  split_ifs at hreply with hconn
  have hact := client.server.call_mem_of_mem_history he
  rw [client.server.eq_event_of_mem_history he] at hreply
  obtain ⟨before, ⟨c', act⟩, reply, after⟩ := e
  subst hconn
  rw [← act_of_invocation hreply]
  exact hact

/-! ### Progress -/

/-- At its end a transaction closes, and gives the lock back. -/
theorem step_close (client : Client Data Call Reply) {s : Server Conn Data Call Reply} {c : Conn}
    {call : Call} {base work : Data} {rest : Transaction Data Reply} {reply : Reply}
    (hsession : s.session c = .opened call base work rest)
    (hend : rest = .commit reply ∨ rest = .rollback reply) :
    (client.step s c .close).1.session = (s.set c (.answering call reply)).session ∧
      (client.step s c .close).1.writer = if client.locks call then none else s.writer := by
  rcases hend with rfl | rfl <;> simp only [step, hsession] <;> split_ifs <;> exact ⟨rfl, rfl⟩

/-- An open transaction comes to its end, and gives the lock back. -/
theorem exists_closing (client : Client Data Call Reply) {s : Server Conn Data Call Reply}
    {c : Conn} {call : Call} {base work : Data} {rest : Transaction Data Reply}
    (hsession : s.session c = .opened call base work rest) :
    ∃ acts : List (Conn × Act Call), (∀ act ∈ acts, act.1 = c ∧ act.2.Proceeds) ∧
      (∃ reply, (client.server.run s acts).session c = .answering call reply) ∧
      (∀ c', c' ≠ c → (client.server.run s acts).session c' = s.session c') ∧
      (client.server.run s acts).writer = if client.locks call then none else s.writer := by
  have hclose : ∀ {s : Server Conn Data Call Reply} {work : Data} {rest : Transaction Data Reply}
      {reply : Reply}, s.session c = .opened call base work rest →
      rest = .commit reply ∨ rest = .rollback reply →
      ∃ acts : List (Conn × Act Call), (∀ act ∈ acts, act.1 = c ∧ act.2.Proceeds) ∧
        (∃ reply, (client.server.run s acts).session c = .answering call reply) ∧
        (∀ c', c' ≠ c → (client.server.run s acts).session c' = s.session c') ∧
        (client.server.run s acts).writer = if client.locks call then none else s.writer := by
    intro s work rest reply hsession hend
    obtain ⟨hsessions, hwriter⟩ := step_close client hsession hend
    refine ⟨[(c, .close)], List.forall_mem_singleton.mpr ⟨rfl, trivial⟩, ⟨reply, ?_⟩, ?_, hwriter⟩
    · exact (congrFun hsessions c).trans (Server.session_set_self ..)
    · exact fun c' hne ↦ (congrFun hsessions c').trans (Server.session_set_of_ne s hne _)
  induction rest generalizing s work with
  | commit reply => exact hclose hsession (Or.inl rfl)
  | rollback reply => exact hclose hsession (Or.inr rfl)
  | statement effect next ih =>
    have hafter : (client.server.event s (c, .execute)).after =
        s.set c (.opened call base (effect work) (next work)) := by
      simp only [Machine.event, server, step, hsession]
    have hnext : (s.set c (.opened call base (effect work) (next work))).session c =
        .opened call base (effect work) (next work) := Server.session_set_self ..
    obtain ⟨acts, hacts, hreply, hothers, hwriter⟩ := ih work hnext
    refine ⟨(c, .execute) :: acts, ?_, ?_, ?_, ?_⟩
    · exact List.forall_mem_cons.mpr ⟨⟨rfl, trivial⟩, hacts⟩
    · rwa [Machine.run_cons, hafter]
    · intro c' hne
      rw [Machine.run_cons, hafter, hothers c' hne, Server.session_set_of_ne s hne]
    · rw [Machine.run_cons, hafter, hwriter, Server.set_writer]

/-- A connection that finds the lock free gets its answer by its own steps. -/
theorem exists_answering_of_free (client : Client Data Call Reply)
    {s : Server Conn Data Call Reply} {c : Conn} {call : Call}
    (hsession : s.session c = .called call) (hfree : client.locks call = true → s.writer = none) :
    ∃ acts : List (Conn × Act Call), (∀ act ∈ acts, act.1 = c ∧ act.2.Proceeds) ∧
      ∃ reply, (client.server.run s acts).session c = .answering call reply := by
  have hopened : (client.server.event s (c, .begin)).after.session c =
      .opened call s.committed s.committed (client.body call) := by
    cases hlocks : client.locks call with
    | false =>
      simp only [Machine.event, server, step, hsession, hlocks, Bool.false_eq_true, ↓reduceIte]
      exact Server.session_set_self ..
    | true =>
      simp only [Machine.event, server, step, hsession, hlocks, hfree hlocks, Option.isSome_none,
        Bool.false_eq_true, ↓reduceIte]
      exact Server.session_set_self ..
  obtain ⟨acts, hacts, hreply, _⟩ := exists_closing client hopened
  exact ⟨(c, .begin) :: acts, List.forall_mem_cons.mpr ⟨⟨rfl, trivial⟩, hacts⟩, hreply⟩

/-- A call that waits for the lock gets its answer when the connection that has the lock, if any,
goes on to the end of its transaction, and then its own does. -/
theorem exists_answering_of_called (himplements : client.Implements m)
    {acts : List (Conn × Act Call)} {c : Conn} {call : Call}
    (hsession : (client.server.run (.start init) acts).session c = .called call) :
    ∃ more : List (Conn × Act Call), (∀ act ∈ more, act.2.Proceeds ∧
        (act.1 = c ∨ (client.server.run (.start init) acts).writer = some act.1)) ∧
      ∃ reply, (client.server.run (.start init) (acts ++ more)).session c =
        .answering call reply := by
  have hsound := (serial_run himplements init acts).sound
  simp only [Machine.run_append]
  generalize client.server.run (.start init) acts = s at hsession hsound ⊢
  cases hwriter : s.writer with
  | none =>
    obtain ⟨more, hmore, hreply⟩ := exists_answering_of_free client hsession
      fun _ ↦ hwriter
    exact ⟨more, fun act hact ↦ ⟨(hmore act hact).2, Or.inl (hmore act hact).1⟩, hreply⟩
  | some w =>
    obtain ⟨held, base, work, rest, hopened, hlocks⟩ := hsound.writer w hwriter
    have hne : c ≠ w := by
      rintro rfl
      rw [hsession] at hopened
      cases hopened
    obtain ⟨first, hfirst, _, hothers, hreleased⟩ := exists_closing client hopened
    rw [hlocks, if_pos rfl] at hreleased
    obtain ⟨second, hsecond, hreply⟩ := exists_answering_of_free client
      ((hothers c hne).trans hsession) fun _ ↦ hreleased
    refine ⟨first ++ second, fun act hact ↦ ?_, by rwa [Machine.run_append]⟩
    rcases List.mem_append.mp hact with hact | hact
    · obtain ⟨hconn, hproceeds⟩ := hfirst act hact
      exact ⟨hproceeds, Or.inr (by rw [hconn])⟩
    · exact ⟨(hsecond act hact).2, Or.inl (hsecond act hact).1⟩

/-- No call is blocked for ever: an open transaction goes on to its end, and a call that waits for
the lock gets it. -/
theorem exists_answering (himplements : client.Implements m) {acts : List (Conn × Act Call)}
    {c : Conn} {call : Call}
    (hcall : ((client.server.run (.start init) acts).session c).unanswered = some call) :
    ∃ more : List (Conn × Act Call), (∀ act ∈ more, act.2.Proceeds ∧
        (act.1 = c ∨ (client.server.run (.start init) acts).writer = some act.1)) ∧
      ∃ reply, (client.server.run (.start init) (acts ++ more)).session c =
        .answering call reply := by
  cases hsession : (client.server.run (.start init) acts).session c with
  | idle | answering _ _ =>
    rw [hsession] at hcall
    cases hcall
  | called waiting =>
    rw [hsession] at hcall
    cases hcall
    exact exists_answering_of_called himplements hsession
  | opened running base work rest =>
    rw [hsession] at hcall
    cases hcall
    obtain ⟨more, hmore, hreply, _⟩ := exists_closing client hsession
    exact ⟨more, fun act hact ↦ ⟨(hmore act hact).2, Or.inl (hmore act hact).1⟩,
      by rwa [Machine.run_append]⟩

end Client

end Gaudere.Library
