import Gaudere.Library.Transactions

/-!
# Linearizability

`serializable` puts whole calls in some order. That order is one of real time: a call that was
answered took effect at one instant between its invocation and its answer, and the answer is its
reply on the data that the calls which had taken effect before left (`answered_at`). An answer
therefore takes account of all that was answered before its call was invoked, whichever connections
made the calls (`answered_after_invocation`).
-/

set_option autoImplicit false
set_option relaxedAutoImplicit false

namespace Gaudere.Library

variable {Conn Data Call Reply : Type*}

/-- An event of the server. -/
abbrev Observation (Conn Data Call Reply : Type*) :=
  Event (Server Conn Data Call Reply) (Conn × Act Call) (Output Call Reply)

/-- Nothing that the connection did can be observed. -/
def QuietOn (c : Conn) (events : List (Observation Conn Data Call Reply)) : Prop :=
  ∀ e ∈ events, e.call.1 = c → e.reply = .quiet

/-- The connection invoked the call, and has done nothing observable since. -/
def InvokedIn (past : List (Observation Conn Data Call Reply)) (c : Conn) (call : Call) : Prop :=
  ∃ before e after, past = before ++ e :: after ∧ e.call.1 = c ∧ e.reply = .invoked call ∧
    QuietOn c after

/-- The call of the connection took effect after its invocation, with the reply that it has on what
the calls before it left, and the connection has done nothing observable since. -/
def EffectiveIn (m : Machine Data Call Reply) (init : Data)
    (past : List (Observation Conn Data Call Reply)) (c : Conn) (call : Call) (reply : Reply) :
    Prop :=
  ∃ before e after, past = before ++ e :: after ∧ e.call.1 = c ∧ e.reply = .tookEffect call ∧
    QuietOn c after ∧ InvokedIn before c call ∧
    reply = (m.step (m.run init ((serialised before).map Prod.snd)) call).2

theorem Output.invocation_eq_some_iff {output : Output Call Reply} {call : Call} :
    output.invocation = some call ↔ output = .invoked call := by
  cases output <;> simp [invocation]

theorem Output.answer_eq_some_iff {output : Output Call Reply} {call : Call} {reply : Reply} :
    output.answer = some (call, reply) ↔ output = .answered call reply := by
  cases output <;> simp [answer]

section Concat

variable {m : Machine Data Call Reply} {init : Data}
  {past : List (Observation Conn Data Call Reply)} {e : Observation Conn Data Call Reply}
  {c : Conn} {call : Call} {reply : Reply}

theorem QuietOn.concat (h : QuietOn c past) (he : e.call.1 = c → e.reply = .quiet) :
    QuietOn c (past ++ [e]) := by
  intro e' he'
  rcases List.mem_append.mp he' with he' | he'
  · exact h e' he'
  · rw [List.mem_singleton.mp he']
    exact he

theorem InvokedIn.concat (h : InvokedIn past c call) (he : e.call.1 = c → e.reply = .quiet) :
    InvokedIn (past ++ [e]) c call := by
  obtain ⟨before, i, after, rfl, hconn, hreply, hquiet⟩ := h
  exact ⟨before, i, after ++ [e], by simp, hconn, hreply, hquiet.concat he⟩

theorem EffectiveIn.concat (h : EffectiveIn m init past c call reply)
    (he : e.call.1 = c → e.reply = .quiet) : EffectiveIn m init (past ++ [e]) c call reply := by
  obtain ⟨before, t, after, rfl, hconn, hreply, hquiet, hinvoked, hvalue⟩ := h
  exact ⟨before, t, after ++ [e], by simp, hconn, hreply, hquiet.concat he, hinvoked, hvalue⟩

theorem invokedIn_invocation (hconn : e.call.1 = c) (hreply : e.reply = .invoked call) :
    InvokedIn (past ++ [e]) c call :=
  ⟨past, e, [], rfl, hconn, hreply, fun _ h ↦ absurd h List.not_mem_nil⟩

theorem effectiveIn_effect (hinvoked : InvokedIn past c call) (hconn : e.call.1 = c)
    (hreply : e.reply = .tookEffect call)
    (hvalue : reply = (m.step (m.run init ((serialised past).map Prod.snd)) call).2) :
    EffectiveIn m init (past ++ [e]) c call reply :=
  ⟨past, e, [], rfl, hconn, hreply, fun _ h ↦ absurd h List.not_mem_nil, hinvoked, hvalue⟩

end Concat

theorem serialised_append (first second : List (Observation Conn Data Call Reply)) :
    serialised (first ++ second) = serialised first ++ serialised second :=
  List.filterMap_append

theorem serialised_cons_effect {e : Observation Conn Data Call Reply} {call : Call}
    (h : e.reply = .tookEffect call) (rest : List (Observation Conn Data Call Reply)) :
    serialised (e :: rest) = (e.call.1, call) :: serialised rest :=
  List.filterMap_cons_some (by rw [h]; rfl)

/-- An answer of a run of atomic calls is the reply on what the calls before it left. -/
theorem Machine.exists_of_mem_traces {m : Machine Data Call Reply} {init : Data}
    {calls : List (Conn × Call)} {answer : Conn × Call × Reply}
    (h : answer ∈ m.traces init calls) :
    ∃ past future, calls.map Prod.snd = past ++ answer.2.1 :: future ∧
      answer.2.2 = (m.step (m.run init past) answer.2.1).2 := by
  obtain ⟨e, he, rfl⟩ := List.mem_map.mp h
  obtain ⟨earlier, later, hsplit⟩ := List.append_of_mem he
  obtain ⟨past, call, future, rfl, -, rfl, -⟩ := (m.tagged Conn).history_split hsplit
  refine ⟨past.map Prod.snd, future.map Prod.snd, by simp, ?_⟩
  rw [← run_tagged]
  rfl

namespace Client

variable [DecidableEq Conn] {client : Client Data Call Reply} {m : Machine Data Call Reply}
  {init : Data}

/-! ### The invariant -/

/-- What the past says about a connection, by where it is in its call. -/
def Accounted (client : Client Data Call Reply) (m : Machine Data Call Reply) (init : Data)
    (past : List (Observation Conn Data Call Reply)) (c : Conn) :
    Session Data Call Reply → Prop
  | .idle => True
  | .called call => InvokedIn past c call
  | .opened call base work rest =>
    if client.locks call then InvokedIn past c call
    else EffectiveIn m init past c call (rest.outcome base work).2
  | .answering call reply => EffectiveIn m init past c call reply

section Steps

variable {s s' : Server Conn Data Call Reply}
  {past : List (Observation Conn Data Call Reply)} {e : Observation Conn Data Call Reply}

omit [DecidableEq Conn] in
theorem Accounted.concat {c : Conn} {session : Session Data Call Reply}
    (h : client.Accounted m init past c session) (he : e.call.1 = c → e.reply = .quiet) :
    client.Accounted m init (past ++ [e]) c session := by
  cases session with
  | idle => trivial
  | called call => exact InvokedIn.concat h he
  | opened call base work rest =>
    simp only [Accounted] at h ⊢
    split_ifs at h ⊢ with hlocks
    · exact h.concat he
    · exact h.concat he
  | answering call reply => exact EffectiveIn.concat h he

/-- One step of a connection, seen by that connection. -/
theorem accounted_step (himplements : client.Implements m) (hserial : Serial client m init past s)
    (h : client.Accounted m init past e.call.1 (s.session e.call.1))
    (hstep : client.Step s e.call.1 s' e.reply) :
    client.Accounted m init (past ++ [e]) e.call.1 (s'.session e.call.1) := by
  generalize hreply : e.reply = output at hstep
  cases hstep with
  | quiet hafter =>
    rw [hafter]
    exact h.concat fun _ ↦ hreply
  | invoked call hsession hafter =>
    rw [hafter, Server.session_set_self]
    exact invokedIn_invocation rfl hreply
  | locked call hsession hlocks hfree hafter =>
    have hopened : s'.session e.call.1 =
        .opened call s.committed s.committed (client.body call) := by
      rw [hafter]
      exact Server.session_set_self ..
    rw [hsession] at h
    rw [hopened]
    simp only [Accounted, hlocks, if_true] at h ⊢
    exact h.concat fun _ ↦ hreply
  | read call hsession hlocks hafter =>
    rw [hsession] at h
    rw [hafter, Server.session_set_self]
    have halone := himplements.alone call s.committed
    rw [Transaction.alone] at halone
    simp only [Accounted, hlocks, Bool.false_eq_true, if_false] at h ⊢
    exact effectiveIn_effect h rfl hreply (by rw [halone, hserial.committed])
  | executed call base work work' rest rest' hsession hrest hafter =>
    rw [hsession] at h
    rw [hafter, Server.session_set_self]
    simp only [Accounted, hrest] at h ⊢
    split_ifs at h ⊢ with hlocks
    · exact h.concat fun _ ↦ hreply
    · exact h.concat fun _ ↦ hreply
  | written call base work rest hsession hlocks hafter =>
    obtain ⟨hbase, _⟩ := hserial.sound.locking _ call base work rest hsession hlocks
    have houtcome := hserial.sound.opened _ call base work rest hsession
    have hanswering : s'.session e.call.1 = .answering call (rest.outcome base work).2 := by
      rcases hafter with hafter | ⟨-, hafter⟩ <;> rw [hafter] <;>
        exact Server.session_set_self ..
    rw [hsession] at h
    rw [hanswering]
    simp only [Accounted, hlocks, if_true] at h ⊢
    exact effectiveIn_effect h rfl hreply (by rw [houtcome, hbase, hserial.committed])
  | finished call base work rest hsession hlocks hafter =>
    rw [hsession] at h
    rw [hafter, Server.session_set_self]
    simp only [Accounted, hlocks, Bool.false_eq_true, if_false] at h ⊢
    exact h.concat fun _ ↦ hreply
  | answered call reply hsession hafter =>
    rw [hafter, Server.session_set_self]
    trivial
  | undone _ _ hafter =>
    rw [hafter, Server.session_set_self]
    trivial

/-- The other connections are where they were. -/
theorem session_of_step {c c' : Conn} {output : Output Call Reply}
    (hstep : client.Step s c s' output) (hne : c' ≠ c) : s'.session c' = s.session c' := by
  cases hstep with
  | quiet hafter => rw [hafter]
  | written call base work rest hsession hlocks hafter =>
    rcases hafter with hafter | ⟨-, hafter⟩ <;> rw [hafter] <;>
      exact Server.session_set_of_ne s hne _
  | undone _ _ hafter =>
    rw [hafter]
    exact Server.session_set_of_ne (s.release c) hne _
  | invoked call hsession hafter | locked call hsession hlocks hfree hafter
  | read call hsession hlocks hafter | answered call reply hsession hafter
  | executed call base work work' rest rest' hsession hrest hafter
  | finished call base work rest hsession hlocks hafter =>
    rw [hafter]
    exact Server.session_set_of_ne s hne _

end Steps

/-! ### Runs -/

theorem accounted_run (himplements : client.Implements m) (init : Data)
    (acts : List (Conn × Act Call)) :
    Serial client m init (client.server.history (.start init) acts)
        (client.server.run (.start init) acts) ∧
      ∀ c, client.Accounted m init (client.server.history (.start init) acts) c
        ((client.server.run (.start init) acts).session c) := by
  refine Machine.history_induction (motive := fun past s ↦ Serial client m init past s ∧
      ∀ c, client.Accounted m init past c (s.session c))
    ⟨serial_run himplements init [], fun c ↦ trivial⟩
    (fun past s act _ ⟨hserial, h⟩ ↦ ?_) (client.server.unrestricted _ _)
  have hstep := client.step_cases s act.1 act.2
  refine ⟨hserial.step himplements hstep, fun c ↦ ?_⟩
  by_cases hc : c = act.1
  · subst hc
    exact accounted_step himplements hserial (h act.1) hstep
  · have hsame : (client.server.event s act).after.session c = s.session c :=
      session_of_step hstep hc
    rw [hsame]
    exact (h c).concat fun hconn ↦ absurd hconn.symm hc

/-- A call that was answered took effect between its invocation and its answer, and the answer is
its reply on what the calls that had taken effect before it left. -/
theorem answered_at (himplements : client.Implements m) {acts : List (Conn × Act Call)}
    {earlier later : List (Observation Conn Data Call Reply)}
    {e : Observation Conn Data Call Reply} {call : Call} {reply : Reply}
    (h : client.server.history (.start init) acts = earlier ++ e :: later)
    (hreply : e.reply = .answered call reply) :
    EffectiveIn m init earlier e.call.1 call reply := by
  obtain ⟨past, act, future, rfl, rfl, rfl, -⟩ := client.server.history_split h
  obtain ⟨-, haccounted⟩ := accounted_run himplements init past
  have hstep := client.step_cases (client.server.run (.start init) past) act.1 act.2
  have houtput : (client.step (client.server.run (.start init) past) act.1 act.2).2 =
      .answered call reply := hreply
  rw [houtput] at hstep
  have hsession : (client.server.run (.start init) past).session act.1 =
      .answering call reply := by
    cases hstep with
    | answered _ _ hsession _ => exact hsession
    | undone _ hquiet _ => rcases hquiet with hquiet | ⟨_, hquiet⟩ <;> cases hquiet
  have h := haccounted act.1
  rw [hsession] at h
  exact h

/-- Real time: an answer takes account of all that took effect before its call was invoked, by
whichever connections, and with that of every answer that was delivered before. -/
theorem answered_after_invocation (himplements : client.Implements m)
    {acts : List (Conn × Act Call)}
    {first middle rest : List (Observation Conn Data Call Reply)}
    {i e : Observation Conn Data Call Reply} {opened call : Call} {reply : Reply}
    (h : client.server.history (.start init) acts = first ++ i :: (middle ++ e :: rest))
    (hconn : i.call.1 = e.call.1) (hinvoked : i.reply = .invoked opened)
    (hreply : e.reply = .answered call reply) :
    (answers first).Subperm (m.traces init (serialised first)) ∧
      ∃ between after : List Call,
        (serialised (client.server.history (.start init) acts)).map Prod.snd =
          (serialised first).map Prod.snd ++ (between ++ call :: after) ∧
        reply = (m.step (m.run init ((serialised first).map Prod.snd ++ between)) call).2 := by
  constructor
  · obtain ⟨past, _, _, -, hfirst, -, -⟩ := client.server.history_split h
    rw [hfirst]
    exact answers_subperm himplements init past
  · have hregrouped : client.server.history (.start init) acts =
        (first ++ i :: middle) ++ e :: rest := by
      rw [h, List.append_assoc, List.cons_append]
    obtain ⟨before, t, quiet, hsplit, -, heffect, hquiet, -, hvalue⟩ :=
      answered_at himplements hregrouped hreply
    -- The call takes effect after its connection invoked it.
    have hbefore : ∃ between, before = first ++ between := by
      rcases List.append_eq_append_iff.mp hsplit with ⟨between, hbefore, -⟩ | ⟨between, -, htail⟩
      · exact ⟨between, hbefore⟩
      · cases between with
        | nil =>
          obtain ⟨rfl, -⟩ := List.cons.inj htail
          rw [hinvoked] at heffect
          cases heffect
        | cons t' between =>
          obtain ⟨-, rfl⟩ := List.cons.inj htail
          have hi := hquiet i (List.mem_append_right _ List.mem_cons_self) hconn
          rw [hinvoked] at hi
          cases hi
    obtain ⟨between, rfl⟩ := hbefore
    refine ⟨(serialised between).map Prod.snd, (serialised (quiet ++ e :: rest)).map Prod.snd, ?_,
      ?_⟩
    · rw [hregrouped, hsplit]
      simp only [List.append_assoc, List.cons_append, serialised_append,
        serialised_cons_effect heffect, List.map_append, List.map_cons]
    · rw [hvalue, serialised_append, List.map_append]

end Client

end Gaudere.Library
