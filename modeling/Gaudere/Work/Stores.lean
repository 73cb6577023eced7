import Gaudere.Work.Operations
import Gaudere.Work.Persistence
import Gaudere.Work.RecoveryDeadline

/-!
# The runtime over any store of tasks

`Conforms` is what the runtime expects of an implementation of `TaskStore`: it holds finitely many
tasks with different ids, its queries select among them, and a save puts one task in the place of
its id. Times are only expected to survive in whole milliseconds, and nothing is said about the
order in which a query returns tasks. The SQLite store conforms (`sqlite_conforms`), and so does a
`std::map` of tasks in memory (`memory_conforms`).

On clocks that count whole milliseconds, and as long as the leases it grants end in the range of the
clock, the runtime cannot tell conforming stores apart: `Conforms.run_operation` says so of one
operation, and `stores_interchangeable` of every run.
-/

set_option autoImplicit false
set_option relaxedAutoImplicit false

namespace Gaudere.Work

open Gaudere.Library TaskStore

/-! ### What the runtime expects of a store -/

/-- The lease of the task ends at a whole number of milliseconds. -/
def Task.WholeLease (task : Task) : Prop :=
  ∀ lease, task.lease = some lease → Aligned lease.expiresAt

/-- A store that holds finitely many tasks, as its member functions show and change them. -/
structure Conforms {Store : Type*} (i : Implementation StoreRequest.Answer Store)
    (contents : Store → List Task) : Prop where
  ids (s : Store) : ((contents s).map Task.id).Nodup
  find (s : Store) (id : Bytes) : ∃ found : Option Task, i.serve s (.find id) = (s, some found) ∧
    ∀ task, found = some task ↔ task ∈ contents s ∧ task.id = id
  findByIdempotencyKey (s : Store) (key : Bytes)
    (hkeys : ((contents s).map Task.idempotencyKey).Nodup) :
    ∃ found : Option Task, i.serve s (.findByIdempotencyKey key) = (s, some found) ∧
      ∀ task, found = some task ↔ task ∈ contents s ∧ task.idempotencyKey = key
  leasedWithExpiredLease (s : Store) (now : TimePoint) (hnow : Aligned now)
    (hleases : ∀ task ∈ contents s, task.WholeLease) :
    ∃ tasks : List Task, i.serve s (.leasedWithExpiredLease now) = (s, some tasks) ∧
      tasks.Perm ((contents s).filter (overdue now))
  nextLeaseExpiry (s : Store) :
    i.serve s .nextLeaseExpiry = (s, some ((contents s).filterMap activeExpiry).min?)
  hasActive (s : Store) :
    i.serve s .hasActive = (s, some ((contents s).any fun task ↦ active task.status))
  save (s : Store) (task : Task) (hstorable : task.Storable) (hlease : task.WholeLease)
    (hkey : ∀ other ∈ contents s, other.idempotencyKey = task.idempotencyKey →
      other.id = task.id) :
    ∃ s', i.serve s (.save task) = (s', some ()) ∧
      (contents s').Perm (task :: (contents s).filter fun other ↦ other.id ≠ task.id)

/-! ### The SQLite store -/

theorem wholeLease_of_find {t : TaskTable} {id : Bytes} {a : Task} (h : find t id = some a) :
    a.WholeLease := by
  intro lease hlease
  have hstored := congrArg Task.lease (stored_of_find h)
  rw [stored_eq, hlease, Option.map_some, Option.some.injEq] at hstored
  exact congrArg Lease.expiresAt hstored

theorem wholeLease_of_mem {t : TaskTable} {a : Task} (h : a ∈ records t) : a.WholeLease :=
  wholeLease_of_find (find_eq_some_iff.mpr ⟨h, rfl⟩)

/-- A task whose lease ends at a whole number of milliseconds is stored as it is. -/
theorem stored_of_wholeLease {task : Task} (h : task.WholeLease) : stored task = task := by
  have hlease : task.lease.map storedLease = task.lease := by
    cases hlease : task.lease with
    | none => rfl
    | some lease =>
      have hexpiry : timePoint (milliseconds lease.expiresAt) = lease.expiresAt := h lease hlease
      rw [Option.map_some, storedLease, hexpiry]
  rw [stored_eq, hlease]

/-- On whole milliseconds the truncated comparison is the exact one. -/
theorem expired_of_wholeLease {task : Task} {now : TimePoint} (hlease : task.WholeLease)
    (hnow : Aligned now) : expired now task = overdue now task := by
  unfold expired overdue activeExpiry
  cases hactive : active task.status with
  | false => rfl
  | true =>
    cases hcase : task.lease with
    | none => rfl
    | some lease =>
      have hreached := toMilliseconds_le_iff (hlease lease hcase) hnow
      simp only [Bool.true_and, Option.any_some, if_true, Option.map_some, decide_eq_decide]
      exact hreached

theorem sqlite_conforms : Conforms sqlite records where
  ids t := taskEncoding.keys_nodup t
  find t id := ⟨_, rfl, fun _ ↦ find_eq_some_iff⟩
  findByIdempotencyKey t key _ := ⟨_, rfl, fun _ ↦ Encoding.findAlternate_eq_some_iff⟩
  leasedWithExpiredLease t now hnow _ := by
    refine ⟨_, rfl, ?_⟩
    rw [leasedWithExpiredLease_eq]
    refine .of_eq (List.filter_congr fun task htask ↦ ?_)
    exact expired_of_wholeLease (wholeLease_of_mem htask) hnow
  nextLeaseExpiry t := by
    rw [← nextLeaseExpiry_eq]
    rfl
  hasActive t := by
    have hactive : hasActive t = (records t).any fun task ↦ active task.status := by
      rw [Bool.eq_iff_iff, ← not_iff_not, Bool.not_eq_true, Bool.not_eq_true,
        hasActive_eq_false_iff, List.any_eq_false]
      simp only [Bool.not_eq_true]
    exact congrArg (fun answer ↦ (t, some answer)) hactive
  save t task hstorable hlease hkey := by
    obtain ⟨t', hsave⟩ := Option.isSome_iff_exists.mp (save_isSome_iff.mpr ⟨hstorable,
      fun id other hfind hsame ↦ (find_eq_some_iff.mp hfind).2 ▸
        hkey other (find_eq_some_iff.mp hfind).1 hsame⟩)
    have hcontents := Encoding.records_save_perm hsave
    have hstored : taskEncoding.stored task = task := stored_of_wholeLease hlease
    rw [hstored] at hcontents
    exact ⟨t', serve_save hsave, hcontents⟩

/-! ### A store in memory -/

/-- The store of the tests of the runtime: a `std::map` from ids to tasks. -/
structure MemoryTaskStore where
  tasks : Std.TreeMap Bytes Task
  keyed : ∀ (id : Bytes) (task : Task), tasks[id]? = some task → task.id = id

namespace MemoryTaskStore

def empty : MemoryTaskStore where
  tasks := ∅
  keyed id task h := by
    rw [Std.TreeMap.getElem?_emptyc] at h
    cases h

/-- The tasks in the order of their ids, as a loop over the map meets them. -/
def entries (s : MemoryTaskStore) : List Task := s.tasks.toList.map Prod.snd

def find (s : MemoryTaskStore) (id : Bytes) : Option Task := s.tasks[id]?

def findByIdempotencyKey (s : MemoryTaskStore) (key : Bytes) : Option Task :=
  s.entries.find? fun task ↦ task.idempotencyKey == key

def leasedWithExpiredLease (s : MemoryTaskStore) (now : TimePoint) : List Task :=
  s.entries.filter fun task ↦
    (task.status == .running || task.status == .cancelRequested) &&
      task.lease.any fun lease ↦ lease.expiresAt ≤ now

def nextLeaseExpiry (s : MemoryTaskStore) : Option TimePoint :=
  s.entries.foldl
    (fun result task ↦
      if task.status == .running || task.status == .cancelRequested then
        match task.lease with
        | some lease =>
          if result.all fun least ↦ lease.expiresAt < least then some lease.expiresAt else result
        | none => result
      else result)
    none

def hasActive (s : MemoryTaskStore) : Bool :=
  s.entries.any fun task ↦ task.status == .running || task.status == .cancelRequested

def save (s : MemoryTaskStore) (task : Task) : MemoryTaskStore where
  tasks := s.tasks.insert task.id task
  keyed id other h := by
    rw [Std.TreeMap.getElem?_insert] at h
    split_ifs at h with hid
    · cases h
      exact Std.LawfulEqOrd.eq_of_compare hid
    · exact s.keyed id other h

/-- The store as an implementation of the class; it never throws. -/
def implementation : Implementation StoreRequest.Answer MemoryTaskStore where
  serve s
    | .find id => (s, some (s.find id))
    | .findByIdempotencyKey key => (s, some (s.findByIdempotencyKey key))
    | .leasedWithExpiredLease now => (s, some (s.leasedWithExpiredLease now))
    | .nextLeaseExpiry => (s, some s.nextLeaseExpiry)
    | .hasActive => (s, some s.hasActive)
    | .save task => (s.save task, some ())

theorem mem_entries {s : MemoryTaskStore} {task : Task} :
    task ∈ s.entries ↔ s.tasks[task.id]? = some task := by
  simp only [entries, List.mem_map, Prod.exists, exists_eq_right,
    Std.TreeMap.mem_toList_iff_getElem?_eq_some]
  constructor
  · rintro ⟨id, hid⟩
    rwa [s.keyed id task hid]
  · exact fun h ↦ ⟨_, h⟩

theorem ids_nodup (s : MemoryTaskStore) : (s.entries.map Task.id).Nodup := by
  have hids : s.entries.map Task.id = s.tasks.keys := by
    rw [entries, List.map_map, ← Std.TreeMap.map_fst_toList_eq_keys]
    refine List.map_congr_left fun entry hentry ↦ ?_
    exact s.keyed entry.1 entry.2 (Std.TreeMap.mem_toList_iff_getElem?_eq_some.mp hentry)
  rw [hids]
  exact Std.TreeMap.nodup_keys

theorem entries_save (s : MemoryTaskStore) (task : Task) :
    (s.save task).entries.Perm (task :: s.entries.filter fun other ↦ other.id ≠ task.id) := by
  have hnodup (s : MemoryTaskStore) : s.entries.Nodup := s.ids_nodup.of_map Task.id
  have hfresh : task ∉ s.entries.filter fun other ↦ other.id ≠ task.id := by
    intro hmem
    exact of_decide_eq_true (List.mem_filter.mp hmem).2 rfl
  refine (List.perm_ext_iff_of_nodup (hnodup _) ((hnodup s).filter _ |>.cons hfresh)).mpr
    fun other ↦ ?_
  rw [mem_entries, save, Std.TreeMap.getElem?_insert, List.mem_cons, List.mem_filter, mem_entries,
    decide_eq_true_eq]
  by_cases hid : other.id = task.id
  · rw [hid, if_pos (Std.ReflCmp.compare_self), Option.some.injEq]
    exact ⟨fun h ↦ Or.inl h.symm, fun h ↦ h.elim Eq.symm fun h ↦ absurd rfl h.2⟩
  · have hcompare : compare task.id other.id ≠ .eq := fun h ↦
      hid (Std.LawfulEqOrd.eq_of_compare h).symm
    rw [if_neg hcompare]
    exact ⟨fun h ↦ Or.inr ⟨h, hid⟩,
      fun h ↦ h.elim (fun h ↦ absurd (congrArg Task.id h) hid) And.left⟩

end MemoryTaskStore

open MemoryTaskStore in
theorem memory_conforms : Conforms implementation entries where
  ids := ids_nodup
  find s id := by
    refine ⟨_, rfl, fun task ↦ ?_⟩
    rw [mem_entries]
    constructor
    · intro h
      obtain rfl := s.keyed id task h
      exact ⟨h, rfl⟩
    · rintro ⟨h, rfl⟩
      exact h
  findByIdempotencyKey s key hkeys := by
    refine ⟨_, rfl, fun task ↦ ⟨fun h ↦ ?_, fun ⟨hmem, hkey⟩ ↦ ?_⟩⟩
    · exact ⟨List.mem_of_find?_eq_some h, by simpa using List.find?_some h⟩
    · cases hfind : s.findByIdempotencyKey key with
      | none => exact absurd hkey (by simpa using List.find?_eq_none.mp hfind task hmem)
      | some other =>
        have hother : other.idempotencyKey = key := by simpa using List.find?_some hfind
        exact congrArg some (List.inj_on_of_nodup_map hkeys (List.mem_of_find?_eq_some hfind) hmem
          (hother.trans hkey.symm))
  leasedWithExpiredLease s now _ _ := by
    refine ⟨_, rfl, .of_eq (List.filter_congr fun task _ ↦ ?_)⟩
    unfold overdue activeExpiry active
    cases task.lease <;> split_ifs with hactive <;> simp_all
  nextLeaseExpiry s := by
    refine congrArg (fun answer ↦ (s, some answer)) ?_
    rw [← foldl_least, List.foldl_filterMap, MemoryTaskStore.nextLeaseExpiry]
    refine List.foldl_ext _ _ _ fun result task _ ↦ ?_
    unfold activeExpiry active
    cases task.lease <;> split_ifs <;> rfl
  hasActive s := rfl
  save s task _ _ _ := ⟨_, rfl, entries_save s task⟩

/-! ### One operation -/

/-- The clock of the call counts whole milliseconds, and the lease of a start ends within it. -/
def Call.WholeMilliseconds (t : TaskTable) : Call → Prop
  | .recover now => Aligned now
  | .recoverExpired now => Aligned now
  | .start id _ now =>
    Aligned now ∧ ∀ task ∈ TaskStore.find t id, Fits (leaseEnd now task.limits)
  | _ => True

instance (t : TaskTable) : DecidablePred (Call.WholeMilliseconds t)
  | .recover now => inferInstanceAs (Decidable (Aligned now))
  | .recoverExpired now => inferInstanceAs (Decidable (Aligned now))
  | .start id _ now => inferInstanceAs (Decidable
      (Aligned now ∧ ∀ task ∈ TaskStore.find t id, Fits (leaseEnd now task.limits)))
  | .nextRecoveryAt | .submit _ | .succeed _ _ _ _ _ | .fail _ _ _ _ _
  | .requireManualReview _ _ _ _ _ | .requestCancel _ _ | .markCancelled _ | .requestShutdown
  | .tryMarkSafe | .restart => inferInstanceAs (Decidable True)

theorem wholeLease_of_none {task : Task} (h : task.lease = none) : task.WholeLease := by
  intro lease hlease
  cases h.symm.trans hlease

theorem Edited.wholeLease {state : RuntimeState} {call : Call} {a b : Task} {reply : Reply}
    (h : Edited state call a b reply) (ha : a.WholeLease)
    (hstart : ∀ id leaseOwner now, call = .start id leaseOwner now →
      Aligned now ∧ Fits (leaseEnd now a.limits)) : b.WholeLease := by
  cases h with
  | started id leaseOwner now hcall _ _ _ _ =>
    obtain ⟨hnow, hfits⟩ := hstart id leaseOwner now hcall
    rintro _ ⟨⟩
    have hend := toInt_expiresAt leaseOwner hfits
    refine (aligned_of_toInt (n := (toMilliseconds now).toInt + a.limits.maxRuntime.toInt) ?_).1
    rw [add_mul, ← toInt_of_aligned hnow]
    exact hend
  | finished _ _ _ _ _ _ _ _ => exact wholeLease_of_none rfl
  | cancelledPending _ _ _ _ => exact ha
  | cancelRequested _ _ _ _ => exact ha
  | cancelRepeated _ _ _ _ => exact ha

theorem wholeLease_of_validDefinition {task : Task} (h : validDefinition task = true) :
    task.WholeLease := by
  have hfresh := fresh_of_validDefinition h
  have hlease := hfresh.storable.lease
  rw [hfresh.status] at hlease
  exact wholeLease_of_none (Option.isSome_eq_false_iff.mp hlease |> Option.isNone_iff_eq_none.mp)

/-- The requests that conforming stores answer alike: not the query for several tasks, whose order
is open. -/
def StoreRequest.Exact : StoreRequest → Prop
  | .leasedWithExpiredLease _ => False
  | .save task => task.WholeLease
  | _ => True

/-- Outside a recovery the runtime makes such requests only. -/
theorem asks_operation (s : System) {call : Call} (hcall : call.recoveryAt = none)
    (hwhole : call.WholeMilliseconds s.store) :
    (process.operation s.state call).Asks sqlite StoreRequest.Exact s.store := by
  cases htarget : call.target with
  | some id =>
    rcases operation_of_target s.state htarget with hmodify | ⟨hdone, -⟩
    · rw [hmodify]
      refine ⟨trivial, fun t answer hserve ↦ ?_⟩
      cases hserve
      cases hfind : TaskStore.find s.store id with
      | none => trivial
      | some a =>
        dsimp only [Option.bind_some]
        cases hedit : call.edit s.state a with
        | none => trivial
        | some result =>
          refine ⟨(edited_of_edit hedit).wholeLease (wholeLease_of_find hfind) ?_,
            fun _ _ _ ↦ trivial⟩
          rintro argument leaseOwner now rfl
          cases htarget
          exact ⟨hwhole.1, hwhole.2 a hfind⟩
    · rw [hdone]
      trivial
  | none =>
    cases call with
    | submit task =>
      simp only [process, Operations.submit]
      split_ifs with hstate hvalid
      · trivial
      · refine ⟨trivial, fun _ _ _ ↦ ?_⟩
        dsimp only
        split_ifs
        · trivial
        · refine ⟨trivial, fun _ _ _ ↦ ?_⟩
          dsimp only
          split_ifs
          · trivial
          · exact ⟨wholeLease_of_validDefinition hvalid, fun _ _ _ ↦ trivial⟩
      · trivial
    | nextRecoveryAt => exact ⟨trivial, fun _ _ _ ↦ trivial⟩
    | requestShutdown =>
      simp only [process]
      split_ifs <;> trivial
    | tryMarkSafe =>
      simp only [process, Operations.tryMarkSafe]
      split_ifs
      · trivial
      · refine ⟨trivial, fun _ _ _ ↦ ?_⟩
        dsimp only
        split_ifs <;> trivial
    | restart => trivial
    | recover now => cases hcall
    | recoverExpired now => cases hcall
    | _ => cases htarget

section Conforming

variable {Store : Type*} {i : Implementation StoreRequest.Answer Store}
variable {contents : Store → List Task}

variable (contents) in
/-- The store holds the tasks of the table. -/
def SameTasks (s : Store) (t : TaskTable) : Prop := (contents s).Perm (records t)

theorem Conforms.follows (h : Conforms i contents) {request : StoreRequest}
    (hexact : request.Exact) : Program.Follows i sqlite (SameTasks contents) request := by
  intro s t t' answer hsame hserve
  cases request with
  | find id =>
    cases hserve
    obtain ⟨found, hfound, hiff⟩ := h.find s id
    have hsameFound : found = TaskStore.find t id :=
      Option.ext fun task ↦ (hiff task).trans ((and_congr_left' hsame.mem_iff).trans
        find_eq_some_iff.symm)
    exact ⟨s, hsameFound ▸ hfound, hsame⟩
  | findByIdempotencyKey key =>
    cases hserve
    have hkeys : ((contents s).map Task.idempotencyKey).Nodup := by
      refine (h.ids s).of_map.map_on fun a ha b hb hkey ↦ ?_
      exact Encoding.alternates_injective (hsame.mem_iff.mp ha) (hsame.mem_iff.mp hb) hkey
    obtain ⟨found, hfound, hiff⟩ := h.findByIdempotencyKey s key hkeys
    have hsameFound : found = TaskStore.findByIdempotencyKey t key :=
      Option.ext fun task ↦ (hiff task).trans ((and_congr_left' hsame.mem_iff).trans
        Encoding.findAlternate_eq_some_iff.symm)
    exact ⟨s, hsameFound ▸ hfound, hsame⟩
  | leasedWithExpiredLease now => cases hexact
  | nextLeaseExpiry =>
    cases hserve
    refine ⟨s, (h.nextLeaseExpiry s).trans ?_, hsame⟩
    rw [min?_of_perm (hsame.filterMap activeExpiry), ← nextLeaseExpiry_eq]
  | hasActive =>
    cases hserve
    refine ⟨s, (h.hasActive s).trans ?_, hsame⟩
    have hanswer := (sqlite_conforms.hasActive t).symm
    rw [hsame.any_eq]
    exact congrArg (fun answer ↦ (s, answer)) (congrArg Prod.snd hanswer)
  | save task =>
    cases hsave : TaskStore.save t task with
    | none =>
      simp only [sqlite, hsave] at hserve
      cases hserve
    | some table =>
      rw [serve_save hsave] at hserve
      cases hserve
      obtain ⟨hstorable, hkey⟩ := save_isSome_iff.mp (Option.isSome_iff_exists.mpr ⟨_, hsave⟩)
      obtain ⟨s', hserved, hcontents⟩ := h.save s task hstorable hexact fun other hother hsameKey ↦
        hkey other.id other (find_eq_some_iff.mpr ⟨hsame.mem_iff.mp hother, rfl⟩) hsameKey
      have htable := Encoding.records_save_perm hsave
      have hstored : taskEncoding.stored task = task := stored_of_wholeLease hexact
      rw [hstored] at htable
      exact ⟨s', hserved, hcontents.trans (((hsame.filter _).cons task).trans htable.symm)⟩

/-- A recovery over a conforming store, whatever the order in which the store returns the expired
tasks. -/
theorem Conforms.run_recoverExpired (h : Conforms i contents) {s : Store} {r : System}
    (hsame : SameTasks contents s r.store) {call : Call} {now : TimePoint}
    (hcall : call.recoveryAt = some now) (hnow : Aligned now)
    (finish : ℕ → RuntimeState × Reply) :
    ∃ s', (Operations.recoverExpired now finish).run i s =
        (s', some (finish (TaskStore.leasedWithExpiredLease r.store now).length)) ∧
      SameTasks contents s' (machine.event r call).after.store := by
  obtain ⟨tasks, hserve, htasks⟩ := h.leasedWithExpiredLease s now hnow fun task htask ↦
    wholeLease_of_mem (hsame.mem_iff.mp htask)
  have horder : tasks.Perm (TaskStore.leasedWithExpiredLease r.store now) := by
    obtain ⟨selected, hselected, hperm⟩ := sqlite_conforms.leasedWithExpiredLease r.store now hnow
      fun task htask ↦ wholeLease_of_mem htask
    cases hselected
    exact (htasks.trans (hsame.filter _)).trans hperm.symm
  have hsaves : Program.serveEach sqlite r.store
      ((tasks.map Runtime.recovered).map StoreRequest.save) =
      ((machine.event r call).after.store, true) := by
    have hstart : Interrupted now r.store r.store := ⟨_, 0, .refl _, by rw [List.take_zero]; rfl⟩
    rw [serveEach_save]
    exact hstart.finish (Int64.le_refl now) horder hcall
  obtain ⟨hthrough, hafter⟩ := Program.serveEach_of_follows (R := SameTasks contents)
    (fun request hrequest ↦ h.follows (by
      obtain ⟨task, htask, rfl⟩ := List.mem_map.mp hrequest
      obtain ⟨expired, -, rfl⟩ := List.mem_map.mp htask
      exact wholeLease_of_none (recovered_lease expired))) hsame (congrArg Prod.snd hsaves)
  rw [hsaves] at hafter
  refine ⟨_, ?_, hafter⟩
  rw [Operations.recoverExpired, Program.run_ask_of_answer hserve, Program.run_each hthrough,
    Program.run_done, horder.length_eq]

/-- An operation over a conforming store replies as over SQLite, and leaves the same tasks. -/
theorem Conforms.run_operation (h : Conforms i contents) {s : Store} {r : System}
    (hsame : SameTasks contents s r.store) {call : Call}
    (hwhole : call.WholeMilliseconds r.store) :
    ∃ s', (process.operation r.state call).run i s =
        (s', some ((machine.event r call).after.state, (machine.event r call).reply)) ∧
      SameTasks contents s' (machine.event r call).after.store := by
  have hsqlite := Gaudere.Work.run_operation r call
  cases hcall : call.recoveryAt with
  | none =>
    obtain ⟨s', hrun, hafter⟩ := Program.run_of_follows (fun _ ↦ h.follows)
      (asks_operation r hcall hwhole) hsame (congrArg Prod.snd hsqlite)
    rw [hsqlite] at hafter
    exact ⟨s', hrun, hafter⟩
  | some now =>
    have hrecovery (hnow : Aligned now) (finish : ℕ → RuntimeState × Reply)
        (hoperation : process.operation r.state call = Operations.recoverExpired now finish) :
        ∃ s', (process.operation r.state call).run i s =
            (s', some ((machine.event r call).after.state, (machine.event r call).reply)) ∧
          SameTasks contents s' (machine.event r call).after.store := by
      obtain ⟨s', hrun, hafter⟩ := h.run_recoverExpired hsame hcall hnow finish
      rw [hoperation, recoverExpired_run] at hsqlite
      rw [hoperation, hrun]
      exact ⟨s', congrArg (Prod.mk s') (congrArg Prod.snd hsqlite), hafter⟩
    cases call with
    | recover _ =>
      cases hcall
      exact hrecovery hwhole (fun _ ↦ (.running, .done)) rfl
    | recoverExpired _ =>
      cases hcall
      exact hrecovery hwhole (fun count ↦ (r.state, .recovered count)) rfl
    | _ => cases hcall

theorem Conforms.event (h : Conforms i contents) {s : RuntimeState × Store}
    {r : RuntimeState × TaskTable} (hstate : s.1 = r.1) (hsame : SameTasks contents s.2 r.2)
    {call : Call} (hwhole : call.WholeMilliseconds r.2) :
    ((process.machine i).event s call).reply = ((process.machine sqlite).event r call).reply ∧
      ((process.machine i).event s call).after.1 = ((process.machine sqlite).event r call).after.1 ∧
      SameTasks contents ((process.machine i).event s call).after.2
        ((process.machine sqlite).event r call).after.2 := by
  obtain ⟨s', hrun, hafter⟩ := h.run_operation (r := ⟨r.1, r.2⟩) hsame hwhole
  have hsqlite := Gaudere.Work.run_operation ⟨r.1, r.2⟩ call
  rw [← hstate] at hrun hsqlite
  have hstep : (process.machine i).step s call =
      (((machine.event ⟨s.1, r.2⟩ call).after.state, s'),
        some (machine.event ⟨s.1, r.2⟩ call).reply) := by
    simp only [Process.machine, hrun]
  have hstep' : (process.machine sqlite).step r call =
      (((machine.event ⟨s.1, r.2⟩ call).after.state, (machine.event ⟨s.1, r.2⟩ call).after.store),
        some (machine.event ⟨s.1, r.2⟩ call).reply) := by
    simp only [Process.machine, ← hstate, hsqlite]
  rw [← hstate] at hafter
  simp only [Machine.event, hstep, hstep', true_and]
  exact hafter

end Conforming

/-! ### Every run -/

/-- The call stays on whole milliseconds. -/
def WholeMilliseconds (e : Event (RuntimeState × TaskTable) Call (Option Reply)) : Prop :=
  e.call.WholeMilliseconds e.before.2

instance : DecidablePred WholeMilliseconds := fun e ↦
  inferInstanceAs (Decidable (e.call.WholeMilliseconds e.before.2))

/-- Over any conforming store the runtime gives the replies that it gives over SQLite. -/
theorem Conforms.run {Store : Type*} {i : Implementation StoreRequest.Answer Store}
    {contents : Store → List Task} (h : Conforms i contents) {empty : Store}
    (hempty : contents empty = []) {calls : List Call}
    (hwhole : ∀ e ∈ (process.machine sqlite).history (process.boot, .empty taskSchema) calls,
      WholeMilliseconds e) :
    Machine.trace ((process.machine i).history (process.boot, empty) calls) =
        Machine.trace ((process.machine sqlite).history (process.boot, .empty taskSchema) calls) ∧
      (contents ((process.machine i).run (process.boot, empty) calls).2).Perm
        (records ((process.machine sqlite).run (process.boot, .empty taskSchema) calls).2) := by
  have hempty' : SameTasks contents empty (.empty taskSchema) := by
    rw [SameTasks, hempty]
    exact .refl _
  obtain ⟨htrace, -, hsame⟩ := Machine.simulate_allowed (m := process.machine i)
    (R := fun s r ↦ s.1 = r.1 ∧ SameTasks contents s.2 r.2)
    (fun s r call hcall ⟨hstate, hsame⟩ ↦ h.event hstate hsame hcall) hwhole
    (s := (process.boot, empty)) ⟨rfl, hempty'⟩
  exact ⟨htrace, hsame⟩

/-- The SQLite store and the store in memory conform; and over any conforming store, in every run
whose clock readings are whole milliseconds and whose leases end in the range of the clock, the
runtime gives the replies that it gives over SQLite, and leaves the same tasks. -/
theorem stores_interchangeable :
    Conforms sqlite records ∧ Conforms MemoryTaskStore.implementation MemoryTaskStore.entries ∧
      ∀ {Store : Type*} {i : Implementation StoreRequest.Answer Store}
        {contents : Store → List Task}, Conforms i contents →
        ∀ empty : Store, contents empty = [] → ∀ calls : List Call,
        (∀ e ∈ (process.machine sqlite).history (process.boot, .empty taskSchema) calls,
          WholeMilliseconds e) →
        Machine.trace ((process.machine i).history (process.boot, empty) calls) =
            Machine.trace ((process.machine sqlite).history (process.boot, .empty taskSchema)
              calls) ∧
          (contents ((process.machine i).run (process.boot, empty) calls).2).Perm
            (records ((process.machine sqlite).run (process.boot, .empty taskSchema) calls).2) :=
  ⟨sqlite_conforms, memory_conforms, fun h _ hempty _ hwhole ↦ h.run hempty hwhole⟩

/-- A worker takes the task and its lease expires. -/
def recoveredRun : List Call :=
  [.recover 0, .submit (crawl 1), .start (ascii "crawl") (ascii "first") 0,
    .recoverExpired 1000000]

/-- A task is started and recovered in memory, with the replies that SQLite gives. -/
theorem stores_interchangeable_memory :
    Machine.trace ((process.machine MemoryTaskStore.implementation).history
        (process.boot, MemoryTaskStore.empty) recoveredRun) =
      Machine.trace ((process.machine sqlite).history (process.boot, .empty taskSchema)
        recoveredRun) := by
  obtain ⟨-, hmemory, hsame⟩ := stores_interchangeable.{0}
  exact (hsame hmemory MemoryTaskStore.empty rfl recoveredRun (by decide)).1

end Gaudere.Work
