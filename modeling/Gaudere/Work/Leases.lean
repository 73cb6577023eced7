import Gaudere.Library.Checked
import Gaudere.Work.Attempts

/-!
# The lease of an attempt

`start` computes the expiry of a lease in nanoseconds, the store keeps it in milliseconds, and the
recovery query compares it with a clock value in milliseconds. Both are truncated, so a recovery in
the millisecond of the expiry takes the lease although it has not expired:
`unexpired_lease_kept_iff` says that this is the only way to lose it. `lease_exact_iff` says which
run-time limits give the lease that is meant. `validDefinition` bounds the limit from below only,
and a longer one can leave the 64 bits and wrap to an expiry that is already past.
-/

set_option autoImplicit false
set_option relaxedAutoImplicit false

namespace Gaudere.Work

open Gaudere.Library TaskStore

/-! ### Expiry -/

@[simp] theorem storedLease_storedLease (lease : Lease) :
    storedLease (storedLease lease) = storedLease lease := by
  rw [storedLease, storedLease, milliseconds_timePoint]

/-- An active task has expired when the millisecond of its stored expiry is reached. -/
theorem expired_iff {task : Task} {lease : Lease} (hactive : active task.status = true)
    (hlease : task.lease = some (storedLease lease)) (now : TimePoint) :
    expired now task = true ↔
      lease.expiresAt.toInt.tdiv 1000000 ≤ now.toInt.tdiv 1000000 := by
  rw [expired, hactive, hlease, Bool.true_and, Option.any_some, decide_eq_true_eq, storedLease,
    milliseconds_timePoint, Int64.le_iff_toInt_le, ← toInt_toMilliseconds, ← toInt_toMilliseconds]
  exact Iff.rfl

/-- A recovery keeps the record of a task exactly when its lease has not expired. -/
theorem recovery_keeps_iff {s : System} {id : Bytes} {a : Task} (ha : find s.store id = some a)
    {call : Call} {now : TimePoint} (hcall : call.recoveryAt = some now) :
    find (machine.event s call).after.store id = some a ↔ expired now a = false := by
  rcases found_after ha call with ⟨hkept, _, hquiet⟩ | ⟨_, _, htarget, _⟩ |
    ⟨now', hnow, hexpired, hafter⟩
  · exact iff_of_true hkept (hquiet now hcall)
  · rw [recoveryAt_of_target htarget] at hcall
    cases hcall
  · obtain rfl : now' = now := Option.some.inj (hnow.symm.trans hcall)
    refine iff_of_false (fun hkept ↦ ?_) (by rw [hexpired]; decide)
    -- The recovered task has no lease.
    have hsame : Runtime.recovered a = a := Option.some.inj (hafter.symm.trans hkept)
    have hlease := recovered_lease a
    rw [hsame] at hlease
    rw [expired, hlease, Option.any_none, Bool.and_false] at hexpired
    cases hexpired

/-! ### The lease of a start -/

/-- The lease that a start computes. -/
def grantedLease (leaseOwner : Bytes) (now : TimePoint) (limits : ResourceLimits) : Lease where
  owner := leaseOwner
  expiresAt := now + ofMilliseconds limits.maxRuntime

/-- A start that returned true stored the task as running, with its lease. -/
theorem lease_of_start {s : System} {id leaseOwner : Bytes} {now : TimePoint}
    (hreply : (machine.event s (.start id leaseOwner now)).reply = .flag true) {started : Task}
    (hstarted : find (machine.event s (.start id leaseOwner now)).after.store id = some started) :
    started.status = .running ∧
      started.lease = some (storedLease (grantedLease leaseOwner now started.limits)) := by
  obtain ⟨a, _, _, hafter⟩ := start_cases hreply
  obtain rfl := Option.some.inj (hafter.symm.trans hstarted)
  rw [stored_eq]
  exact ⟨rfl, rfl⟩

/-- The record of a task while or after an attempt runs: a later attempt has been counted, or the
attempt has its lease as long as it is active. -/
def AttemptLeased (attempt : UInt32) (lease : Lease) (task : Task) : Prop :=
  attempt.toNat < task.attemptsStarted.toNat ∨
    (task.attemptsStarted = attempt ∧
      (active task.status = true → task.lease = some (storedLease lease)))

theorem Edited.attemptLeased {state : RuntimeState} {call : Call} {a b : Task} {reply : Reply}
    (h : Edited state call a b reply) {attempt : UInt32} {lease : Lease}
    (ha : AttemptLeased attempt lease a) : AttemptLeased attempt lease (stored b) := by
  rw [stored_eq]
  cases h with
  | started id leaseOwner now hcall hstate howner hstatus hattempts =>
    have hcount := toNat_succ_of_lt hattempts
    refine Or.inl ?_
    rcases ha with hlater | ⟨rfl, _⟩
    · exact hlater.trans (by rw [hcount]; exact Nat.lt_succ_self _)
    · rw [hcount]
      exact Nat.lt_succ_self _
  | finished status result _ hstart hcancel hactive hresult hreply =>
    refine ha.imp_right fun ⟨hattempt, _⟩ ↦ ⟨hattempt, fun hstill ↦ ?_⟩
    change active status = true at hstill
    rw [active_eq_false_of_terminal hresult.terminal] at hstill
    cases hstill
  | cancelledPending id reason hcall hstatus =>
    exact ha.imp_right fun ⟨hattempt, _⟩ ↦ ⟨hattempt, fun hstill ↦ by cases hstill⟩
  | cancelRequested id reason hcall hstatus =>
    refine ha.imp_right fun ⟨hattempt, hlease⟩ ↦ ⟨hattempt, fun _ ↦ ?_⟩
    rw [hlease (by rw [hstatus]; rfl), Option.map_some, storedLease_storedLease]
  | cancelRepeated id reason hcall hstatus =>
    refine ha.imp_right fun ⟨hattempt, hlease⟩ ↦ ⟨hattempt, fun hstill ↦ ?_⟩
    rw [hlease hstill, Option.map_some, storedLease_storedLease]

theorem AttemptLeased.recovered {attempt : UInt32} {lease : Lease} {task : Task}
    (h : AttemptLeased attempt lease task) (hactive : active task.status = true) :
    AttemptLeased attempt lease (Runtime.recovered task) := by
  rcases recovered_cases hactive with ⟨_, _, heq⟩ | ⟨status, result, hresult, _, heq⟩
  · rw [heq]
    exact h.imp_right fun ⟨hattempt, _⟩ ↦ ⟨hattempt, fun hstill ↦ by cases hstill⟩
  · rw [heq]
    refine h.imp_right fun ⟨hattempt, _⟩ ↦ ⟨hattempt, fun hstill ↦ ?_⟩
    rw [Task.finished, active_eq_false_of_terminal hresult.terminal] at hstill
    cases hstill

/-- Every call keeps what is said of the attempt. -/
theorem attemptLeased_step {s : System} {id : Bytes} {attempt : UInt32} {lease : Lease}
    (h : ∃ task, find s.store id = some task ∧ AttemptLeased attempt lease task) (call : Call) :
    ∃ task, find (machine.event s call).after.store id = some task ∧
      AttemptLeased attempt lease task := by
  obtain ⟨a, ha, hleased⟩ := h
  rcases found_after ha call with ⟨hkept, _, _⟩ | ⟨b, _, _, hedited, _, hafter⟩ |
    ⟨_, _, hexpired, hafter⟩
  · exact ⟨a, hkept, hleased⟩
  · exact ⟨stored b, hafter, hedited.attemptLeased hleased⟩
  · exact ⟨_, hafter, hleased.recovered (active_of_expired hexpired)⟩

/-! ### While the attempt is active -/

section Started

variable {s : System} {id leaseOwner : Bytes} {now : TimePoint}
  (hreply : (machine.event s (.start id leaseOwner now)).reply = .flag true) {started : Task}
  (hstarted : find (machine.event s (.start id leaseOwner now)).after.store id = some started)

include hreply hstarted

/-- While the attempt of a start is active, its task has the lease that the start computed. -/
theorem lease_while_active {future : List Call} {record : Task}
    (hrecord : find (machine.run (machine.event s (.start id leaseOwner now)).after future).store
      id = some record)
    (hactive : active record.status = true)
    (hattempt : record.attemptsStarted = started.attemptsStarted) :
    record.lease = some (storedLease (grantedLease leaseOwner now started.limits)) := by
  have hleased : AttemptLeased started.attemptsStarted
      (grantedLease leaseOwner now started.limits) started :=
    Or.inr ⟨rfl, fun _ ↦ (lease_of_start hreply hstarted).2⟩
  obtain ⟨task, htask, hstate⟩ := Machine.run_invariant
    (P := fun s : System ↦ ∃ task, find s.store id = some task ∧
      AttemptLeased started.attemptsStarted (grantedLease leaseOwner now started.limits) task)
    (fun _ call _ h ↦ attemptLeased_step h call) (machine.unrestricted _ future)
    ⟨started, hstarted, hleased⟩
  obtain rfl : task = record := Option.some.inj (htask.symm.trans hrecord)
  rcases hstate with hlater | ⟨_, hlease⟩
  · rw [hattempt] at hlater
    exact absurd hlater (Nat.lt_irrefl _)
  · exact hlease hactive

/-- A recovery takes an active attempt from the millisecond of the computed expiry on. -/
theorem recovery_keeps_attempt_iff {future : List Call} {record : Task}
    (hrecord : find (machine.run (machine.event s (.start id leaseOwner now)).after future).store
      id = some record)
    (hactive : active record.status = true)
    (hattempt : record.attemptsStarted = started.attemptsStarted)
    {call : Call} {c : TimePoint} (hcall : call.recoveryAt = some c) :
    find (machine.event (machine.run (machine.event s (.start id leaseOwner now)).after future)
      call).after.store id = some record ↔
      c.toInt.tdiv 1000000 <
        (grantedLease leaseOwner now started.limits).expiresAt.toInt.tdiv 1000000 := by
  have hlease := lease_while_active hreply hstarted hrecord hactive hattempt
  rw [recovery_keeps_iff hrecord hcall, ← Bool.not_eq_true, expired_iff hactive hlease, not_le]

end Started

/-! ### The end of a lease -/

/-- The end of a lease that is meant, in nanoseconds: the clock value plus the run-time limit. -/
def leaseEnd (now : TimePoint) (limits : ResourceLimits) : ℤ :=
  now.toInt + limits.maxRuntime.toInt * 1000000

/-- Wraparound of the conversion is harmless when the end of the lease is a clock value. -/
theorem toInt_expiresAt {now : TimePoint} {limits : ResourceLimits} (leaseOwner : Bytes)
    (hfits : Fits (leaseEnd now limits)) :
    (grantedLease leaseOwner now limits).expiresAt.toInt = leaseEnd now limits := by
  have hconverted : (ofMilliseconds limits.maxRuntime).toInt =
      (limits.maxRuntime.toInt * 1000000).bmod (2 ^ 64) := by
    rw [ofMilliseconds, Int64.toInt_mul]
    rfl
  rw [grantedLease, Int64.toInt_add, hconverted, Int.add_bmod_bmod]
  exact bmod_eq_of_fits hfits

/-- The computed expiry is the end that is meant: neither the conversion of the limit nor the
addition overflows. -/
structure ExactLease (leaseOwner : Bytes) (now : TimePoint) (limits : ResourceLimits) : Prop where
  runtime : ofMillisecondsChecked limits.maxRuntime = some (ofMilliseconds limits.maxRuntime)
  expiry : addChecked now (ofMilliseconds limits.maxRuntime) =
    some (grantedLease leaseOwner now limits).expiresAt
  value : (grantedLease leaseOwner now limits).expiresAt.toInt = leaseEnd now limits

theorem exactLease_iff (leaseOwner : Bytes) (now : TimePoint) {limits : ResourceLimits}
    (hpositive : 0 < limits.maxRuntime.toInt) :
    ExactLease leaseOwner now limits ↔
      limits.maxRuntime.toInt ≤ 9223372036854 ∧ leaseEnd now limits ≤ 2 ^ 63 - 1 := by
  constructor
  · intro hexact
    obtain ⟨_, hbound⟩ := fits_toInt (grantedLease leaseOwner now limits).expiresAt
    rw [hexact.value] at hbound
    exact ⟨(fits_mul_million_iff.mp (ofMillisecondsChecked_eq_iff.mp hexact.runtime)).2,
      by omega⟩
  · rintro ⟨hruntime, hend⟩
    obtain ⟨hlower, _⟩ := fits_toInt now
    have hconverted : Fits (limits.maxRuntime.toInt * 1000000) :=
      fits_mul_million_iff.mpr ⟨by omega, hruntime⟩
    have hfits : Fits (leaseEnd now limits) := by
      rw [leaseEnd] at hend ⊢
      constructor <;> omega
    have hvalue := toInt_expiresAt leaseOwner hfits
    refine ⟨ofMillisecondsChecked_eq_iff.mpr hconverted, ?_, hvalue⟩
    rw [addChecked, checked_eq_some_iff, hvalue, toInt_ofMilliseconds hconverted, leaseEnd]

/-- A lease that was just granted has not expired, unless it lasts one millisecond and the epoch is
inside it. -/
theorem tdiv_lt_leaseEnd_iff {now : TimePoint} {limits : ResourceLimits}
    (hpositive : 0 < limits.maxRuntime.toInt) :
    now.toInt.tdiv 1000000 < (leaseEnd now limits).tdiv 1000000 ↔
      ¬ (-1000000 < now.toInt ∧ now.toInt < 0 ∧ limits.maxRuntime.toInt = 1) := by
  have hnow := tdiv_million_bounds now.toInt
  have hend := tdiv_million_bounds (leaseEnd now limits)
  rw [leaseEnd] at hend ⊢
  omega

/-- No clock value before the end of a lease is in its millisecond exactly when the end is the
first clock value of its millisecond. -/
theorem forall_tdiv_lt_leaseEnd_iff {now : TimePoint} {limits : ResourceLimits}
    (hpositive : 0 < limits.maxRuntime.toInt) (hend : leaseEnd now limits ≤ 2 ^ 63 - 1) :
    (∀ c : TimePoint, now ≤ c → c.toInt < leaseEnd now limits →
      c.toInt.tdiv 1000000 < (leaseEnd now limits).tdiv 1000000) ↔
      (0 < leaseEnd now limits ∧ leaseEnd now limits % 1000000 = 0) ∨
        (leaseEnd now limits < 0 ∧ (leaseEnd now limits - 1) % 1000000 = 0) := by
  have hbounds := tdiv_million_bounds (leaseEnd now limits)
  constructor
  · intro hbefore
    obtain ⟨hlower, _⟩ := fits_toInt now
    have hnow : now.toInt ≤ leaseEnd now limits - 1 := by
      rw [leaseEnd]
      omega
    -- The last clock value before the end decides.
    have hlast : (Int64.ofInt (leaseEnd now limits - 1)).toInt = leaseEnd now limits - 1 :=
      Int64.toInt_ofInt.trans (bmod_eq_of_fits ⟨by omega, by omega⟩)
    have hlt := hbefore (Int64.ofInt (leaseEnd now limits - 1))
      (Int64.le_iff_toInt_le.mpr (by omega)) (by omega)
    rw [hlast] at hlt
    have hlastBounds := tdiv_million_bounds (leaseEnd now limits - 1)
    omega
  · intro hfirst c _ hc
    have hcBounds := tdiv_million_bounds c.toInt
    omega

/-! ### Unexpired leases -/

/-- After a start whose lease ends at a clock value, in every state that further calls lead to with
the attempt still active, a recovery before the end keeps the record exactly when it is not in the
millisecond of the end. -/
theorem unexpired_lease_kept_iff {s : System} {id leaseOwner : Bytes} {now : TimePoint}
    (hreply : (machine.event s (.start id leaseOwner now)).reply = .flag true) {started : Task}
    (hstarted : find (machine.event s (.start id leaseOwner now)).after.store id = some started)
    (hfits : Fits (leaseEnd now started.limits)) (future : List Call)
    {record : Task}
    (hrecord : find (machine.run (machine.event s (.start id leaseOwner now)).after future).store
      id = some record)
    (hactive : active record.status = true)
    (hattempt : record.attemptsStarted = started.attemptsStarted)
    {call : Call} {c : TimePoint} (hcall : call.recoveryAt = some c)
    (hunexpired : c.toInt < leaseEnd now started.limits) :
    find (machine.event (machine.run (machine.event s (.start id leaseOwner now)).after future)
      call).after.store id = some record ↔
      c.toInt.tdiv 1000000 ≠ (leaseEnd now started.limits).tdiv 1000000 := by
  rw [recovery_keeps_attempt_iff hreply hstarted hrecord hactive hattempt hcall,
    toInt_expiresAt leaseOwner hfits]
  have hc := tdiv_million_bounds c.toInt
  have hend := tdiv_million_bounds (leaseEnd now started.limits)
  omega

/-- A task with a run-time limit. -/
def crawl (maxRuntime : Milliseconds) : Task where
  id := ascii "crawl"
  idempotencyKey := ascii "nightly"
  kind := ascii "crawl"
  inputContentType := ascii "text/plain"
  input := []
  limits :=
    { maxInputBytes := 16
      maxOutputBytes := 16
      maxRuntime := maxRuntime
      maxAttempts := 2 }

/-- It waits for a worker. -/
def crawlPending (maxRuntime : Milliseconds) : System :=
  machine.run System.initial [.recover 0, .submit (crawl maxRuntime)]

/-- The first worker takes it. -/
def crawlStarted (maxRuntime : Milliseconds) (now : TimePoint) : Event System Call Reply :=
  machine.event (crawlPending maxRuntime) (.start (ascii "crawl") (ascii "first") now)

/-- The record of a first attempt with a lease. -/
def crawlRunning (maxRuntime : Milliseconds) (expiresAt : TimePoint) : Task :=
  { crawl maxRuntime with
    attemptsStarted := 1
    status := .running
    lease := some { owner := ascii "first", expiresAt := expiresAt } }

theorem unexpired_lease_kept_crawl :
    find (machine.event (crawlStarted 1 0).after (.recoverExpired 999999)).after.store
      (ascii "crawl") = some (crawlRunning 1 1000000) := by
  have hstarted : find (crawlStarted 1 0).after.store (ascii "crawl") =
      some (crawlRunning 1 1000000) := by decide
  exact (unexpired_lease_kept_iff (by decide) hstarted (by decide) [] hstarted (by decide) rfl
    rfl (by decide)).mpr (by decide)

/-- With 0.3 ms of its lease left, in the millisecond in which it ends, a running task is recovered
and a second worker takes it. -/
theorem unexpired_lease_stolen :
    (crawlStarted 1 500000).reply = .flag true ∧
    (1200000 : TimePoint).toInt < leaseEnd 500000 (crawl 1).limits ∧
    find (crawlStarted 1 500000).after.store (ascii "crawl") = some (crawlRunning 1 1000000) ∧
    find (machine.event (crawlStarted 1 500000).after (.recoverExpired 1200000)).after.store
      (ascii "crawl") = some { crawl 1 with attemptsStarted := 1 } ∧
    (machine.history (crawlStarted 1 500000).after
      [.recoverExpired 1200000, .start (ascii "crawl") (ascii "second") 1200000]).map Event.reply =
        [.recovered 1, .flag true] := by
  decide

/-! ### Exact leases -/

/-- A successful start gives the lease that is meant, not expired yet at the clock value of the
start, exactly when the limit converts, the end of the lease is a clock value, and it is not a
lease of one millisecond across the epoch. It gives one that no recovery takes before its end, in
any state that further calls lead to, exactly when moreover the end is the first clock value of its
millisecond. -/
theorem lease_exact_iff {s : System} {id leaseOwner : Bytes} {now : TimePoint}
    (hreply : (machine.event s (.start id leaseOwner now)).reply = .flag true) {started : Task}
    (hstarted : find (machine.event s (.start id leaseOwner now)).after.store id = some started) :
    (ExactLease leaseOwner now started.limits ∧
      (∀ call : Call, call.recoveryAt = some now →
        find (machine.event (machine.event s (.start id leaseOwner now)).after call).after.store
          id = some started) ↔
      started.limits.maxRuntime.toInt ≤ 9223372036854 ∧
        leaseEnd now started.limits ≤ 2 ^ 63 - 1 ∧
        ¬ (-1000000 < now.toInt ∧ now.toInt < 0 ∧ started.limits.maxRuntime.toInt = 1)) ∧
    (ExactLease leaseOwner now started.limits ∧
      (∀ (future : List Call) (record : Task),
        find (machine.run (machine.event s (.start id leaseOwner now)).after future).store id =
          some record →
        active record.status = true → record.attemptsStarted = started.attemptsStarted →
        ∀ (call : Call) (c : TimePoint), call.recoveryAt = some c → now ≤ c →
          c.toInt < leaseEnd now started.limits →
            find (machine.event (machine.run (machine.event s (.start id leaseOwner now)).after
              future) call).after.store id = some record) ↔
      started.limits.maxRuntime.toInt ≤ 9223372036854 ∧
        leaseEnd now started.limits ≤ 2 ^ 63 - 1 ∧
        ((0 < leaseEnd now started.limits ∧ leaseEnd now started.limits % 1000000 = 0) ∨
          (leaseEnd now started.limits < 0 ∧
            (leaseEnd now started.limits - 1) % 1000000 = 0))) := by
  have hpositive : 0 < started.limits.maxRuntime.toInt :=
    (storable_of_mem (find_eq_some_iff.mp hstarted).1).maxRuntime
  have hactive : active started.status = true := by
    rw [(lease_of_start hreply hstarted).1]
    rfl
  have hrecord : find (machine.run (machine.event s (.start id leaseOwner now)).after []).store
      id = some started := hstarted
  have hkeeps := fun {call : Call} {c : TimePoint} (hcall : call.recoveryAt = some c) ↦
    recovery_keeps_attempt_iff hreply hstarted hrecord hactive rfl hcall
  rw [exactLease_iff leaseOwner now hpositive, and_assoc, and_assoc]
  constructor
  · refine and_congr_right fun hruntime ↦ and_congr_right fun hend ↦ ?_
    have hvalue := ((exactLease_iff leaseOwner now hpositive).mpr ⟨hruntime, hend⟩).value
    rw [← tdiv_lt_leaseEnd_iff hpositive, ← hvalue]
    constructor
    · intro hkept
      exact (hkeeps rfl).mp (hkept (.recoverExpired now) rfl)
    · intro hlt call hcall
      exact (hkeeps hcall).mpr hlt
  · refine and_congr_right fun hruntime ↦ and_congr_right fun hend ↦ ?_
    have hvalue := ((exactLease_iff leaseOwner now hpositive).mpr ⟨hruntime, hend⟩).value
    rw [← forall_tdiv_lt_leaseEnd_iff hpositive hend]
    constructor
    · intro hkept c hnow hc
      rw [← hvalue]
      exact (hkeeps rfl).mp
        (hkept [] started hstarted hactive rfl (.recoverExpired c) c rfl hnow hc)
    · intro hbefore future record hrecord hstill hattempt call c hcall hnow hc
      rw [recovery_keeps_attempt_iff hreply hstarted hrecord hstill hattempt hcall, hvalue]
      exact hbefore c hnow hc

theorem lease_exact_crawl :
    ExactLease (ascii "first") 0 (crawl 1).limits ∧
      ∀ call : Call, call.recoveryAt = some 0 →
        find (machine.event (crawlStarted 1 0).after call).after.store (ascii "crawl") =
          some (crawlRunning 1 1000000) := by
  have hreply : (crawlStarted 1 0).reply = .flag true := by decide
  have hstarted : find (crawlStarted 1 0).after.store (ascii "crawl") =
      some (crawlRunning 1 1000000) := by decide
  exact (lease_exact_iff hreply hstarted).1.mpr (by decide)

/-- The longest limit that `valid_definition` accepts wraps to an expiry a millisecond before the
start, and at the clock value of the start the task is recovered and taken by a second worker. -/
theorem longest_lease_already_expired :
    validDefinition (crawl 9223372036854775807) = true ∧
    ¬ ExactLease (ascii "first") (ofMilliseconds 2000) (crawl 9223372036854775807).limits ∧
    (grantedLease (ascii "first") (ofMilliseconds 2000)
      (crawl 9223372036854775807).limits).expiresAt = ofMilliseconds 1999 ∧
    (machine.history (crawlPending 9223372036854775807)
      [.start (ascii "crawl") (ascii "first") (ofMilliseconds 2000),
        .recoverExpired (ofMilliseconds 2000),
        .start (ascii "crawl") (ascii "second") (ofMilliseconds 2000)]).map Event.reply =
          [.flag true, .recovered 1, .flag true] := by
  refine ⟨by decide, fun hexact ↦ ?_, by decide, by decide⟩
  have hbounds := (exactLease_iff (ascii "first") (ofMilliseconds 2000) (by decide)).mp hexact
  exact absurd hbounds.1 (by decide)

end Gaudere.Work
