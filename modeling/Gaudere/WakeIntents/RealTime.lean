import Gaudere.Library.Linearizability
import Gaudere.WakeIntents.Readable
import Gaudere.WakeIntents.Transactions

/-!
# What the connections were told of wake intents

An application that was told that its intent is scheduled, revoked or fired relies on it when it
asks again, on whichever connection. `outcomes_seen_by_later_calls` says that it may: the answer to
a call agrees with every answer that any connection got before the call was made. An intent that was
reported is found again, under its source and with its times; a record that was reported as ended
does not change; no identity that was reported is accepted again; and no revocation succeeds on an
intent that was reported as ended.

The book keeps what was reported (`BookKnows`), since a call at most settles a scheduled intent
(`Continues`), and every answer is read off the book.
-/

set_option autoImplicit false
set_option relaxedAutoImplicit false

namespace Gaudere.WakeIntents

open Gaudere.Library

variable {Conn : Type}

/-! ### What an answer tells -/

/-- The later record is the earlier one, or what a settlement made of it. -/
structure Continues (earlier later : WakeIntent) : Prop where
  identity : later.identity = earlier.identity
  acceptedAt : later.acceptedAt = earlier.acceptedAt
  dueAt : later.dueAt = earlier.dueAt
  settled : later = earlier ∨ earlier.status = .scheduled ∧ later.status ≠ .scheduled

/-- The record that a reply reports as stored. -/
def reportedRecord : Call → Reply → Option WakeIntent
  | .accept intent _, .accepted result => if result = .accepted then some intent else none
  | .find _ _, .found record => record
  | .findBySource _ _, .found record => record
  | .inspectScope _, .inspected inspection => inspection.intent
  | _, _ => none

/-- Some answer reports the record. -/
def ReportsRecord (known : List (Conn × Call × Reply)) (record : WakeIntent) : Prop :=
  ∃ answer ∈ known, reportedRecord answer.2.1 answer.2.2 = some record

/-- The statuses that the answer to a revocation says the intent may be in. -/
def WakeIntentRevokeResult.Leaves : WakeIntentRevokeResult → WakeIntentStatus → Prop
  | .revoked, status => status = .revoked
  | .fired, status => status = .fired
  | .manualReview, status => status = .manualReview
  | .terminal, status => status ≠ .scheduled
  | .notFound, _ => False
  | .invalid, _ => False

/-- Some revocation of the identity was answered with the result, for an intent that it found. -/
def ReportsEnd (known : List (Conn × Call × Reply)) (scope id : Bytes)
    (result : WakeIntentRevokeResult) : Prop :=
  (∃ status, result.Leaves status) ∧
    ∃ c now reason, (c, .revoke scope id now reason, .revoked result) ∈ known

/-- The answers speak of an intent with the identity. -/
def KnowsIntent (known : List (Conn × Call × Reply)) (scope id : Bytes) : Prop :=
  (∃ record, ReportsRecord known record ∧ record.scope = scope ∧ record.id = id) ∨
    ∃ result, ReportsEnd known scope id result

/-- The answers say that the intent has ended. -/
def KnowsEnded (known : List (Conn × Call × Reply)) (scope id : Bytes) : Prop :=
  (∃ record, ReportsRecord known record ∧ record.scope = scope ∧ record.id = id ∧
      record.status ≠ .scheduled) ∨
    ∃ result, ReportsEnd known scope id result

/-- The record agrees with all that the answers say of its identity. -/
structure Agreeing (known : List (Conn × Call × Reply)) (record : WakeIntent) : Prop where
  continues : ∀ earlier, ReportsRecord known earlier → earlier.scope = record.scope →
    earlier.id = record.id → Continues earlier record
  ended : ∀ result, ReportsEnd known record.scope record.id result → result.Leaves record.status

/-- The arguments are such that the store throws. -/
def Call.refused : Call → Bool
  | .reconcile scope now => !validObservation scope now
  | .nextScheduledAt scope => !validWakeIntentIdentifier scope
  | .inspectScope scope => !validWakeIntentIdentifier scope
  | _ => false

/-- The reply takes account of what is known; it is an exception only for arguments that the store
refuses. -/
def AccountsFor (known : List (Conn × Call × Reply)) : Call → Reply → Prop
  | .accept intent policy, .accepted result =>
    result = .accepted → ¬ KnowsIntent known intent.scope intent.id ∧
      (∀ record, ReportsRecord known record → record.scope = intent.scope →
        record.sourceId ≠ intent.sourceId) ∧
      ((acceptedIntents (known.map Prod.snd)).countP fun other ↦ other.scope = intent.scope) <
        policy.maxTotal.toNat
  | .revoke scope id _ _, .revoked result =>
    (result = .notFound → ¬ KnowsIntent known scope id) ∧
      (KnowsEnded known scope id → result = .terminal ∨ result = .invalid)
  | .find scope id, .found found =>
    (found = none → ¬ KnowsIntent known scope id) ∧
      ∀ record, found = some record → Agreeing known record
  | .findBySource scope sourceId, .found found =>
    (found = none → ∀ record, ReportsRecord known record → record.scope = scope →
        record.sourceId ≠ sourceId) ∧
      ∀ record, found = some record → Agreeing known record
  | .inspectScope scope, .inspected inspection =>
    (inspection.result = .empty → ∀ id, ¬ KnowsIntent known scope id) ∧
      ∀ record, inspection.intent = some record →
        Agreeing known record ∧ ∀ id, KnowsIntent known scope id → id = record.id
  | .reconcile _ _, .reconciled _ => True
  | .nextScheduledAt _, .scheduledAt _ => True
  | .reopen, .opened => True
  | call, .threw _ => call.refused = true
  | _, _ => False

/-! ### What the book keeps -/

theorem Continues.refl (intent : WakeIntent) : Continues intent intent :=
  ⟨rfl, rfl, rfl, Or.inl rfl⟩

theorem continues_foldl (intent : WakeIntent) (calls : List Call) :
    Continues intent (calls.foldl (fun i call ↦ advance call i) intent) := by
  by_cases hstatus : intent.status = .scheduled
  · rw [foldl_advance hstatus]
    cases hsettled : calls.findSome? (settle intent) with
    | none => exact Continues.refl intent
    | some settled =>
      obtain ⟨call, _, hsettle⟩ := List.exists_of_findSome?_eq_some hsettled
      obtain ⟨_, _, _, hsettles, _⟩ := settle_cases hsettle
      refine ⟨?_, hsettles.acceptedAt, hsettles.dueAt, Or.inr ⟨hstatus, hsettles.terminal⟩⟩
      rw [Option.getD_some, WakeIntent.identity, WakeIntent.identity, hsettles.scope, hsettles.id,
        hsettles.sourceId]
  · rw [foldl_advance_of_terminal hstatus]
    exact Continues.refl intent

theorem Continues.keys {earlier later : WakeIntent} (h : Continues earlier later) :
    later.scope = earlier.scope ∧ later.id = earlier.id ∧ later.sourceId = earlier.sourceId :=
  ⟨congrArg Identity.scope h.identity, congrArg Identity.id h.identity,
    congrArg Identity.sourceId h.identity⟩

/-- What ended does not change any more. -/
theorem Continues.status {earlier later : WakeIntent} (h : Continues earlier later)
    (hended : earlier.status ≠ .scheduled) : later = earlier := by
  rcases h.settled with hsame | ⟨hscheduled, -⟩
  · exact hsame
  · exact absurd hscheduled hended

theorem Book.inScope_of_inspected {b : Book} {scope : Bytes} {record : WakeIntent}
    (h : (b.inspectScope scope).intent = some record) : b.inScope scope = [record] := by
  unfold Book.inspectScope at h
  split at h
  · cases h
  · rename_i intent hone
    rw [hone, Option.some.inj h]
  · cases h

/-- A record that a reply reports is in the book. -/
theorem mem_of_reported {b : Book} {call : Call} {record : WakeIntent}
    (h : reportedRecord call (bookMachine.event b call).reply = some record) :
    record ∈ (bookMachine.event b call).after.intents := by
  cases call with
  | accept intent policy =>
    have haccepted := reply_accept b intent policy
    rw [haccepted, reportedRecord, Option.ite_none_right_eq_some, Option.some.injEq] at h
    obtain ⟨hadmitted, rfl⟩ := h
    rw [hadmitted] at haccepted
    exact (accepted_of_reply haccepted).2
  | find scope id => exact (Book.mem_of_find h).1
  | findBySource scope sourceId => exact (Book.mem_of_findBySource h).1
  | inspectScope scope =>
    simp only [Machine.event, bookMachine] at h ⊢
    split_ifs at h
    · have hone := Book.inScope_of_inspected h
      exact (List.mem_filter.mp (hone ▸ List.mem_singleton_self record)).1
    · cases h
  | reconcile scope now | nextScheduledAt scope =>
    simp only [Machine.event, bookMachine] at h
    split_ifs at h <;> cases h
  | revoke _ _ _ _ | reopen => cases h

/-- What a revocation reports of the intent that it found holds after it. -/
theorem mem_of_revoked {b : Book} {scope id : Bytes} {now : TimePoint} {reason : Bytes}
    {result : WakeIntentRevokeResult} {status : WakeIntentStatus}
    (h : (bookMachine.event b (.revoke scope id now reason)).reply = .revoked result)
    (hstatus : result.Leaves status) :
    ∃ record ∈ (bookMachine.event b (.revoke scope id now reason)).after.intents,
      record.scope = scope ∧ record.id = id ∧ result.Leaves record.status := by
  have hresult : b.revocation scope id now reason = result := Reply.revoked.inj h
  rw [intents_after]
  unfold Book.revocation at hresult
  split_ifs at hresult with hvalid
  · cases hfind : b.find scope id with
    | none =>
      rw [hfind] at hresult
      rw [← hresult] at hstatus
      cases hstatus
    | some intent =>
      obtain ⟨hmem, rfl, rfl⟩ := Book.mem_of_find hfind
      refine ⟨advance (.revoke intent.scope intent.id now reason) intent,
        List.mem_append_left _ (List.mem_map_of_mem hmem), (advance_keys _ _).1,
        (advance_keys _ _).2.1, ?_⟩
      rw [hfind] at hresult
      simp only [] at hresult
      split_ifs at hresult with hended hbefore hdue
      all_goals rw [← hresult]
      · rw [advance_eq_self_of_terminal hended]
        exact hended
      all_goals rw [ne_eq, not_not] at hended
      · simp [advance_of_scheduled hended, settle, hvalid, WakeIntent.observed, hbefore,
          WakeIntent.settled, WakeIntentRevokeResult.Leaves]
      · simp [advance_of_scheduled hended, settle, hvalid, WakeIntent.observed, hbefore, hdue,
          WakeIntent.settled, WakeIntentRevokeResult.Leaves]
      · simp [advance_of_scheduled hended, settle, hvalid, WakeIntent.observed, hbefore, hdue,
          WakeIntent.settled, WakeIntentRevokeResult.Leaves]
  · rw [← hresult] at hstatus
    cases hstatus

/-- The book bears out what the answers say. -/
structure BookKnows (known : List (Conn × Call × Reply)) (b : Book) : Prop where
  record : ∀ earlier, ReportsRecord known earlier →
    ∃ record ∈ b.intents, Continues earlier record
  ended : ∀ scope id result, ReportsEnd known scope id result →
    ∃ record ∈ b.intents, record.scope = scope ∧ record.id = id ∧ result.Leaves record.status
  accepted : ((acceptedIntents (known.map Prod.snd)).map WakeIntent.identity).Subperm
    (b.intents.map WakeIntent.identity)

/-- A run keeps the identities of the book. -/
theorem identities_sublist_run (b : Book) (calls : List Call) :
    (b.intents.map WakeIntent.identity).Sublist
      ((bookMachine.run b calls).intents.map WakeIntent.identity) := by
  induction calls generalizing b with
  | nil => exact List.Sublist.refl _
  | cons call calls ih =>
    refine List.Sublist.trans ?_ (ih _)
    rw [identities_after]
    exact List.sublist_append_left _ _

theorem leaves_not_scheduled {result : WakeIntentRevokeResult} {status : WakeIntentStatus}
    (h : result.Leaves status) : status ≠ .scheduled := by
  rintro rfl
  cases result <;> simp [WakeIntentRevokeResult.Leaves] at h

/-- The book that the store represents after the calls behind the known answers, and maybe others,
bears these out. -/
theorem bookKnows_run {prior : List (Conn × Call)} {known : List (Conn × Call × Reply)}
    (hknown : known.Subperm (machine.traces (Table.empty intentSchema) prior))
    (between : List Call) :
    BookKnows known (bookMachine.run Book.empty (prior.map Prod.snd ++ between)) := by
  -- Each answer is one of the book, and what it says is then true of the book.
  have hanswer : ∀ answer ∈ known, ∃ past future,
      prior.map Prod.snd ++ between = past ++ answer.2.1 :: future ∧
        answer.2.2 = (bookMachine.event (bookMachine.run Book.empty past) answer.2.1).reply := by
    intro answer hmem
    obtain ⟨past, future, hprior, hreply⟩ := Machine.exists_of_mem_traces (hknown.subset hmem)
    refine ⟨past, future ++ between, ?_, ?_⟩
    · rw [hprior, List.append_assoc, List.cons_append]
    · rw [hreply]
      exact (refines_step (refines_run past).2 answer.2.1).1
  constructor
  · rintro earlier ⟨answer, hmem, hrecord⟩
    obtain ⟨past, future, hcalls, hreply⟩ := hanswer answer hmem
    rw [hreply] at hrecord
    rw [hcalls, Machine.run_append, Machine.run_cons]
    exact ⟨_, mem_run (mem_of_reported hrecord) future, continues_foldl earlier future⟩
  · rintro scope id result ⟨⟨status, hstatus⟩, c, now, reason, hmem⟩
    obtain ⟨past, future, hcalls, hreply⟩ := hanswer _ hmem
    obtain ⟨record, hrecord, rfl, rfl, hleaves⟩ := mem_of_revoked hreply.symm hstatus
    rw [hcalls, Machine.run_append, Machine.run_cons]
    refine ⟨record, ?_, rfl, rfl, hleaves⟩
    have hlast := mem_run hrecord future
    rwa [foldl_advance_of_terminal (leaves_not_scheduled hleaves)] at hlast
  · obtain ⟨l, hperm, hsublist⟩ := hknown
    have haccepted : (acceptedIntents (known.map Prod.snd)).Subperm
        (acceptedIntents (Machine.trace
          (machine.history (Table.empty intentSchema) (prior.map Prod.snd)))) := by
      rw [← traces_eq_trace]
      exact ⟨acceptedIntents (l.map Prod.snd), (hperm.map _).filterMap _,
        (hsublist.map _).filterMap _⟩
    rw [(refines_run (prior.map Prod.snd)).1] at haccepted
    obtain ⟨l, hperm, hsublist⟩ := haccepted
    have hidentities := hsublist.map WakeIntent.identity
    rw [← identities_run] at hidentities
    rw [Machine.run_append]
    exact ⟨l.map WakeIntent.identity, hperm.map _,
      hidentities.trans (identities_sublist_run _ between)⟩

/-! ### The answers -/

namespace BookKnows

variable {known : List (Conn × Call × Reply)} {b : Book} (h : BookKnows known b)

include h

theorem agreeing {record : WakeIntent} (hrecord : record ∈ b.intents) : Agreeing known record := by
  have hsame : ∀ other ∈ b.intents, other.scope = record.scope → other.id = record.id →
      other = record := fun other hother hscope hid ↦
    List.inj_on_of_nodup_map b.ids_nodup hother hrecord (Prod.ext hscope hid)
  constructor
  · intro earlier hreported hscope hid
    obtain ⟨other, hother, hcontinues⟩ := h.record earlier hreported
    obtain ⟨hotherScope, hotherId, -⟩ := hcontinues.keys
    rwa [← hsame other hother (hotherScope.trans hscope) (hotherId.trans hid)]
  · intro result hreported
    obtain ⟨other, hother, hscope, hid, hleaves⟩ := h.ended _ _ result hreported
    rwa [← hsame other hother hscope hid]

/-- An intent that the answers speak of is in the book. -/
theorem exists_mem {scope id : Bytes} (hknows : KnowsIntent known scope id) :
    ∃ record ∈ b.intents, record.scope = scope ∧ record.id = id := by
  rcases hknows with ⟨earlier, hreported, rfl, rfl⟩ | ⟨result, hreported⟩
  · obtain ⟨record, hrecord, hcontinues⟩ := h.record earlier hreported
    exact ⟨record, hrecord, hcontinues.keys.1, hcontinues.keys.2.1⟩
  · obtain ⟨record, hrecord, hscope, hid, -⟩ := h.ended scope id result hreported
    exact ⟨record, hrecord, hscope, hid⟩

theorem exists_ended {scope id : Bytes} (hknows : KnowsEnded known scope id) :
    ∃ record ∈ b.intents, record.scope = scope ∧ record.id = id ∧ record.status ≠ .scheduled := by
  rcases hknows with ⟨earlier, hreported, rfl, rfl, hended⟩ | ⟨result, hreported⟩
  · obtain ⟨record, hrecord, hcontinues⟩ := h.record earlier hreported
    refine ⟨record, hrecord, hcontinues.keys.1, hcontinues.keys.2.1, ?_⟩
    rwa [hcontinues.status hended]
  · obtain ⟨record, hrecord, hscope, hid, hleaves⟩ := h.ended scope id result hreported
    exact ⟨record, hrecord, hscope, hid, leaves_not_scheduled hleaves⟩

theorem not_knowsIntent {scope id : Bytes} (hnone : b.find scope id = none) :
    ¬ KnowsIntent known scope id := by
  intro hknows
  obtain ⟨record, hrecord, rfl, rfl⟩ := h.exists_mem hknows
  rw [Book.find_eq_some hrecord] at hnone
  cases hnone

theorem source_ne {scope sourceId : Bytes} (hnone : b.findBySource scope sourceId = none)
    {earlier : WakeIntent} (hreported : ReportsRecord known earlier)
    (hscope : earlier.scope = scope) : earlier.sourceId ≠ sourceId := by
  rintro rfl
  obtain ⟨record, hrecord, hcontinues⟩ := h.record earlier hreported
  obtain ⟨hrecordScope, -, hrecordSource⟩ := hcontinues.keys
  have hfound := Book.findBySource_eq_some hrecord
  rw [hrecordScope, hscope, hrecordSource, hnone] at hfound
  cases hfound

theorem accountsFor_accept (intent : WakeIntent) (policy : WakeIntentPolicy) :
    AccountsFor known (.accept intent policy) (.accepted (b.admission intent policy)) := by
  intro haccepted
  obtain ⟨-, -, hid, hsource, htotal⟩ := Book.admission_eq_accepted haccepted
  refine ⟨h.not_knowsIntent hid, fun record hreported hscope ↦ h.source_ne hsource hreported hscope,
    ?_⟩
  rw [Book.inScope, ← List.countP_eq_length_filter] at htotal
  refine lt_of_le_of_lt ?_ htotal
  rw [countP_identity, countP_identity]
  exact h.accepted.countP_le _

theorem accountsFor_revoke (scope id : Bytes) (now : TimePoint) (reason : Bytes) :
    AccountsFor known (.revoke scope id now reason)
      (.revoked (b.revocation scope id now reason)) := by
  constructor
  · intro hresult
    refine h.not_knowsIntent ?_
    cases hfind : b.find scope id with
    | none => rfl
    | some intent =>
      rw [Book.revocation, hfind] at hresult
      split_ifs at hresult
      simp only [] at hresult
      split_ifs at hresult
  · intro hknows
    obtain ⟨record, hrecord, rfl, rfl, hended⟩ := h.exists_ended hknows
    rw [Book.revocation, Book.find_eq_some hrecord]
    split_ifs with hvalid
    · exact Or.inl (if_pos hended)
    · exact Or.inr rfl

theorem accountsFor_inspect (scope : Bytes) :
    AccountsFor known (.inspectScope scope) (.inspected (b.inspectScope scope)) := by
  have hscope : ∀ {id}, KnowsIntent known scope id →
      ∃ record ∈ b.inScope scope, record.id = id := by
    intro id hknows
    obtain ⟨record, hrecord, hscope, hid⟩ := h.exists_mem hknows
    exact ⟨record, List.mem_filter.mpr ⟨hrecord, decide_eq_true hscope⟩, hid⟩
  constructor
  · intro hempty id hknows
    obtain ⟨record, hrecord, -⟩ := hscope hknows
    unfold Book.inspectScope at hempty
    split at hempty
    · rename_i hnone
      rw [hnone] at hrecord
      exact absurd hrecord List.not_mem_nil
    · cases hempty
    · cases hempty
  · intro record hone
    have hlist := Book.inScope_of_inspected hone
    refine ⟨h.agreeing (List.mem_filter.mp (hlist ▸ List.mem_singleton_self record)).1, ?_⟩
    intro id hknows
    obtain ⟨other, hother, rfl⟩ := hscope hknows
    rw [hlist, List.mem_singleton] at hother
    rw [hother]

/-- Every answer of the book takes account of what it bears out. -/
theorem accountsFor (call : Call) :
    AccountsFor known call (bookMachine.event b call).reply := by
  cases call with
  | accept intent policy =>
    rw [reply_accept]
    exact h.accountsFor_accept intent policy
  | revoke scope id now reason => exact h.accountsFor_revoke scope id now reason
  | find scope id =>
    exact ⟨h.not_knowsIntent, fun record hfound ↦ h.agreeing (Book.mem_of_find hfound).1⟩
  | findBySource scope sourceId =>
    exact ⟨fun hnone record hreported hscope ↦ h.source_ne hnone hreported hscope,
      fun record hfound ↦ h.agreeing (Book.mem_of_findBySource hfound).1⟩
  | inspectScope scope =>
    simp only [Machine.event, bookMachine]
    split_ifs with hvalid
    · exact h.accountsFor_inspect scope
    · simpa [AccountsFor, Call.refused] using hvalid
  | reconcile scope now | nextScheduledAt scope =>
    simp only [Machine.event, bookMachine]
    split_ifs with hvalid
    · trivial
    · simpa [AccountsFor, Call.refused] using hvalid
  | reopen => trivial

end BookKnows

/-- However the statements of the connections interleave, and whichever of them fail or crash: the
answer to a call takes account of all the answers that were delivered, on any connection, before the
call was made. A record that is found is what was reported of its identity or what a settlement made
of it, and a reported intent is found; an ended one stays as it is, and no revocation succeeds on
it; and an acceptance takes an identity and a source that nobody was told of, within its policy for
all the acceptances that were reported. Only arguments that the store refuses are answered with an
exception. -/
theorem outcomes_seen_by_later_calls [DecidableEq Conn] {acts : List (Conn × Act Call)}
    {first middle rest : List (Observation Conn IntentTable Call Reply)}
    {i e : Observation Conn IntentTable Call Reply} {opened call : Call} {reply : Reply}
    (h : client.server.history (.start (Table.empty intentSchema)) acts =
      first ++ i :: (middle ++ e :: rest))
    (hconn : i.call.1 = e.call.1) (hinvoked : i.reply = .invoked opened)
    (hanswered : e.reply = .answered call reply) : AccountsFor (answers first) call reply := by
  obtain ⟨hknown, between, _, _, hreply⟩ :=
    Client.answered_after_invocation client_implements h hconn hinvoked hanswered
  obtain ⟨hagrees, -⟩ := refines_step
    (refines_run ((serialised first).map Prod.snd ++ between)).2 call
  rw [hreply.trans hagrees]
  exact (bookKnows_run hknown between).accountsFor call

def lookAgain : List (ℕ × Act Call) :=
  [(0, .invoke (.find (ascii "probe") (ascii "tea"))), (0, .begin), (0, .execute), (0, .close),
    (0, .answer)]

theorem outcomes_seen_by_later_calls_revoked :
    let known := answers
      (client.server.history (.start (Table.empty intentSchema)) scheduledAndRevoked)
    let record := kettle.settled .revoked (ofMilliseconds 3) (ascii "cold")
    known.map Prod.fst = [0, 1] ∧
      AccountsFor known (.find (ascii "probe") (ascii "tea")) (.found (some record)) := by
  refine ⟨by decide, ?_⟩
  let s := client.server.run (.start (Table.empty intentSchema)) scheduledAndRevoked
  let look : Call := .find (ascii "probe") (ascii "tea")
  have hinvoked : (client.server.event s (0, .invoke look)).reply.invocation = some look := by
    decide
  have hanswered : (client.server.event (client.server.run s (lookAgain.take 4))
      (0, .answer)).reply.answer = some (look, .found (some
        (kettle.settled .revoked (ofMilliseconds 3) (ascii "cold")))) := by decide
  have h : client.server.history (.start (Table.empty intentSchema))
        (scheduledAndRevoked ++ lookAgain) =
      client.server.history (.start (Table.empty intentSchema)) scheduledAndRevoked ++
        client.server.event s (0, .invoke look) :: (client.server.history
          (client.server.event s (0, .invoke look)).after
            [(0, .begin), (0, .execute), (0, .close)] ++ client.server.event
          (client.server.run s (lookAgain.take 4)) (0, .answer) :: []) :=
    client.server.history_append _ _ _
  exact outcomes_seen_by_later_calls h rfl (Output.invocation_eq_some_iff.mp hinvoked)
    (Output.answer_eq_some_iff.mp hanswered)

end Gaudere.WakeIntents
