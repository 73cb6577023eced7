import Gaudere.WakeIntents.Book

/-!
# The store refines the book

`encode` is the row of an intent, and a table represents a book when its rows are those of the
book's intents, in order. The rows of valid intents pass every CHECK constraint and are read back
as they were, the two updates of `reconcile` and the update of `revoke` together write what
`advance` says, and no statement of the store is ever stopped by a constraint or a trigger. So the
store answers every call as the book does (`refines_step`), and keeps doing so over whole runs
(`refines_run`): it never throws, except on arguments it rejects.
-/

set_option autoImplicit false
set_option relaxedAutoImplicit false

namespace Gaudere.WakeIntents

open Gaudere.Library Sql WakeIntentStore

/-- The row of an intent. -/
def encode (intent : WakeIntent) : IntentRow where
  scope := intent.scope
  id := intent.id
  sourceId := intent.sourceId
  acceptedAtMs := milliseconds intent.acceptedAt
  dueAtMs := milliseconds intent.dueAt
  status := intent.status.code
  terminalAtMs := intent.terminalAt.map milliseconds
  terminalReason := intent.terminalReason

/-- The rows of the table are those of the book. -/
def Represents (t : IntentTable) (b : Book) : Prop := t.rows = b.intents.map encode

/-! ### Rows of valid intents -/

theorem timePoint_milliseconds {value : TimePoint} (h : Aligned value) :
    timePoint (milliseconds value) = value := h

theorem readIntent_encode {intent : WakeIntent} (h : intent.Valid) :
    readIntent (encode intent) = .ok intent := by
  have hterminal : (intent.terminalAt.map milliseconds).map timePoint = intent.terminalAt := by
    cases hat : intent.terminalAt with
    | none => rfl
    | some terminalAt =>
      rw [Option.map_some, Option.map_some, timePoint_milliseconds (h.terminalAt terminalAt hat)]
  have hread : ({ scope := intent.scope
                  id := intent.id
                  sourceId := intent.sourceId
                  acceptedAt := timePoint (milliseconds intent.acceptedAt)
                  dueAt := timePoint (milliseconds intent.dueAt)
                  status := intent.status
                  terminalAt := (intent.terminalAt.map milliseconds).map timePoint
                  terminalReason := intent.terminalReason } : WakeIntent) = intent := by
    rw [timePoint_milliseconds h.acceptedAt, timePoint_milliseconds h.dueAt, hterminal]
  simp only [readIntent, encode, WakeIntentStatus.ofCode?_code, hread,
    validWakeIntent_iff.mpr h, ↓reduceIte]

theorem toInt_milliseconds_lt {a b : TimePoint} (ha : Aligned a) (hb : Aligned b) (h : a < b) :
    (milliseconds a).toInt < (milliseconds b).toInt :=
  Int64.lt_iff_toInt_lt.mp ((toMilliseconds_lt_iff ha hb).mpr h)

theorem toInt_milliseconds_le {a b : TimePoint} (h : a ≤ b) :
    (milliseconds a).toInt ≤ (milliseconds b).toInt :=
  Int64.le_iff_toInt_le.mp (toMilliseconds_le_of_le h)

/-- The CHECK constraints of a row of the store, as conditions on its columns. -/
structure IntentRow.Admitted (row : IntentRow) : Prop where
  status : 0 ≤ row.status.toInt ∧ row.status.toInt ≤ 3
  scope : 1 ≤ row.scope.length ∧ row.scope.length ≤ 128
  id : 1 ≤ row.id.length ∧ row.id.length ≤ 128
  sourceId : 1 ≤ row.sourceId.length ∧ row.sourceId.length ≤ 128
  ordered : row.acceptedAtMs.toInt < row.dueAtMs.toInt
  scheduled : row.status.toInt = 0 ↔ row.terminalAtMs = none
  fired : row.status.toInt = 1 → ∀ ms, row.terminalAtMs = some ms → row.dueAtMs.toInt ≤ ms.toInt
  revoked : row.status.toInt = 2 → ∀ ms, row.terminalAtMs = some ms →
    row.acceptedAtMs.toInt ≤ ms.toInt ∧ ms.toInt < row.dueAtMs.toInt
  reason : row.status.toInt = 0 ∨ row.status.toInt = 1 ↔ row.terminalReason = []
  reasonLength : row.terminalReason.length ≤ 1024

theorem admitted_cells_iff {row : IntentRow} :
    wakeIntents.check row.cells = true ↔ row.Admitted := by
  cases hterminal : row.terminalAtMs with
  | none =>
    simp only [wakeIntents, IntentCells.admitted, IntentCells.notNull, IntentCells.checks,
      IntentRow.cells, hterminal, Option.elim_none, ne_eq, reduceCtorEq, not_false_eq_true,
      decide_true, IntegerCell.ofInt_ne_null, Bool.and_self, Bool.true_and, List.all_cons,
      List.all_nil, Bool.and_true, IntegerCell.between, IntegerCell.le_ofInt, Truth.and_some,
      Truth.passes_some, lengthBetween, TextCell.byteLength_text, Option.map_some,
      IntegerCell.lt_ofInt, IntegerCell.eq_ofInt, IntegerCell.isNull_null, Truth.eq_some,
      Truth.not_some, IntegerCell.le_null, IntegerCell.null_lt, Truth.and_none_none,
      Truth.passes_or_none, Truth.or_some, lengthEq, lengthLe, Bool.and_eq_true,
      decide_eq_true_eq, beq_iff_eq, ← Bool.decide_or, decide_eq_decide,
      List.length_eq_zero_iff, beq_true]
    constructor
    · rintro ⟨hstatus, hscope, hid, hsource, hordered, hzero, hreason, hlength⟩
      exact ⟨hstatus, hscope, hid, hsource, hordered, iff_of_true hzero hterminal,
        by simp [hterminal], by simp [hterminal], hreason, hlength⟩
    · intro h
      exact ⟨h.status, h.scope, h.id, h.sourceId, h.ordered, h.scheduled.mpr hterminal, h.reason,
        h.reasonLength⟩
  | some ms =>
    simp only [wakeIntents, IntentCells.admitted, IntentCells.notNull, IntentCells.checks,
      IntentRow.cells, hterminal, Option.elim_some, ne_eq, reduceCtorEq, not_false_eq_true,
      decide_true, IntegerCell.ofInt_ne_null, Bool.and_self, Bool.true_and, List.all_cons,
      List.all_nil, Bool.and_true, IntegerCell.between, IntegerCell.le_ofInt, Truth.and_some,
      Truth.passes_some, lengthBetween, TextCell.byteLength_text, Option.map_some,
      IntegerCell.lt_ofInt, IntegerCell.eq_ofInt, IntegerCell.isNull_ofInt, Truth.eq_some,
      Truth.not_some, Truth.or_some, lengthEq, lengthLe, Bool.and_eq_true, Bool.or_eq_true,
      decide_eq_true_eq, beq_iff_eq, ← Bool.decide_or, decide_eq_decide,
      List.length_eq_zero_iff, beq_false, Bool.not_eq_true', decide_eq_false_iff_not]
    constructor
    · rintro ⟨hstatus, hscope, hid, hsource, hordered, hzero, hfired, hrevoked, hreason, hlength⟩
      refine ⟨hstatus, hscope, hid, hsource, hordered, iff_of_false hzero (by simp [hterminal]),
        ?_, ?_, hreason, hlength⟩
      · rintro hone _ hms
        rw [hterminal, Option.some.injEq] at hms
        exact hms ▸ hfired.resolve_left (not_not.mpr hone)
      · rintro htwo _ hms
        rw [hterminal, Option.some.injEq] at hms
        exact hms ▸ hrevoked.resolve_left (not_not.mpr htwo)
    · intro h
      refine ⟨h.status, h.scope, h.id, h.sourceId, h.ordered, fun hzero ↦ ?_,
        not_or_of_imp fun hone ↦ h.fired hone ms hterminal,
        not_or_of_imp fun htwo ↦ h.revoked htwo ms hterminal, h.reason, h.reasonLength⟩
      rw [h.scheduled.mp hzero] at hterminal
      cases hterminal

/-- The row of a valid intent passes the constraints. -/
theorem admitted_encode {intent : WakeIntent} (h : intent.Valid) : (encode intent).Admitted := by
  have hshape := h.shape
  have hordered := toInt_milliseconds_lt h.acceptedAt h.dueAt h.ordered
  refine ⟨?_, validWakeIntentIdentifier_iff.mp h.scope, validWakeIntentIdentifier_iff.mp h.id,
    validWakeIntentIdentifier_iff.mp h.sourceId, hordered, ?_, ?_, ?_, ?_, h.reason⟩
  · cases hstatus : intent.status <;> simp [encode, hstatus, WakeIntentStatus.code]
  · cases hstatus : intent.status <;> cases hat : intent.terminalAt <;>
      simp_all [validTerminalShape, encode, WakeIntentStatus.code]
  · intro hone ms hms
    cases hstatus : intent.status <;> simp [encode, hstatus, WakeIntentStatus.code] at hone
    simp only [encode, Option.map_eq_some_iff] at hms
    obtain ⟨terminalAt, hat, rfl⟩ := hms
    simp only [validTerminalShape, hstatus, hat, Option.any_some, Bool.and_eq_true,
      decide_eq_true_eq] at hshape
    exact toInt_milliseconds_le hshape.1
  · intro htwo ms hms
    cases hstatus : intent.status <;> simp [encode, hstatus, WakeIntentStatus.code] at htwo
    simp only [encode, Option.map_eq_some_iff] at hms
    obtain ⟨terminalAt, hat, rfl⟩ := hms
    simp only [validTerminalShape, hstatus, hat, Option.any_some, Bool.and_eq_true,
      decide_eq_true_eq] at hshape
    exact ⟨toInt_milliseconds_le hshape.1.1,
      toInt_milliseconds_lt (h.terminalAt terminalAt hat) h.dueAt hshape.1.2⟩
  · cases hstatus : intent.status <;>
      simp_all [validTerminalShape, encode, WakeIntentStatus.code]

theorem check_encode {intent : WakeIntent} (h : intent.Valid) :
    intentSchema.check (encode intent) = true :=
  admitted_cells_iff.mpr (admitted_encode h)

/-! ### Queries -/

theorem lookup_of_represents {t : IntentTable} {b : Book} (h : Represents t b) (scope id : Bytes) :
    t.lookup (scope, id) = (b.find scope id).map encode := by
  rw [Table.lookup, h, List.find?_map]
  rfl

theorem lookupAlternate_of_represents {t : IntentTable} {b : Book} (h : Represents t b)
    (scope sourceId : Bytes) :
    t.lookupAlternate (scope, sourceId) = (b.findBySource scope sourceId).map encode := by
  rw [Table.lookupAlternate, h, List.find?_map]
  rfl

theorem Book.mem_of_find {b : Book} {scope id : Bytes} {intent : WakeIntent}
    (h : b.find scope id = some intent) :
    intent ∈ b.intents ∧ intent.scope = scope ∧ intent.id = id := by
  have hkey : (intent.scope, intent.id) = (scope, id) := by simpa using List.find?_some h
  exact ⟨List.mem_of_find?_eq_some h, congrArg Prod.fst hkey, congrArg Prod.snd hkey⟩

theorem Book.mem_of_findBySource {b : Book} {scope sourceId : Bytes} {intent : WakeIntent}
    (h : b.findBySource scope sourceId = some intent) :
    intent ∈ b.intents ∧ intent.scope = scope ∧ intent.sourceId = sourceId := by
  have hkey : (intent.scope, intent.sourceId) = (scope, sourceId) := by
    simpa using List.find?_some h
  exact ⟨List.mem_of_find?_eq_some h, congrArg Prod.fst hkey, congrArg Prod.snd hkey⟩

/-- A scope and id find their intent. -/
theorem Book.find_eq_some {b : Book} {intent : WakeIntent} (h : intent ∈ b.intents) :
    b.find intent.scope intent.id = some intent := by
  cases hfind : b.find intent.scope intent.id with
  | none => simpa using List.find?_eq_none.mp hfind intent h
  | some other =>
    obtain ⟨hmem, hscope, hid⟩ := Book.mem_of_find hfind
    rw [List.inj_on_of_nodup_map b.ids_nodup hmem h (Prod.ext hscope hid)]

theorem find_of_represents {t : IntentTable} {b : Book} (h : Represents t b) (scope id : Bytes) :
    WakeIntentStore.find t scope id = .ok (b.find scope id) := by
  rw [WakeIntentStore.find, lookup_of_represents h]
  cases hfind : b.find scope id with
  | none => rfl
  | some intent =>
    rw [Option.map_some, readSelected,
      readIntent_encode (b.valid intent (Book.mem_of_find hfind).1)]
    rfl

theorem findBySource_of_represents {t : IntentTable} {b : Book} (h : Represents t b)
    (scope sourceId : Bytes) :
    WakeIntentStore.findBySource t scope sourceId = .ok (b.findBySource scope sourceId) := by
  rw [WakeIntentStore.findBySource, lookupAlternate_of_represents h]
  cases hfind : b.findBySource scope sourceId with
  | none => rfl
  | some intent =>
    rw [Option.map_some, readSelected,
      readIntent_encode (b.valid intent (Book.mem_of_findBySource hfind).1)]
    rfl

theorem countScope_of_represents {t : IntentTable} {b : Book} (h : Represents t b)
    (scope : Bytes) : countScope t scope = (b.inScope scope).length := by
  rw [countScope, h, List.countP_map, Book.inScope, ← List.countP_eq_length_filter]
  rfl

/-- The rows of a scope. -/
def scopeRows (t : IntentTable) (scope : Bytes) : List IntentRow :=
  t.rows.filter fun row ↦ row.scope = scope

theorem scopeRows_of_represents {t : IntentTable} {b : Book} (h : Represents t b) (scope : Bytes) :
    scopeRows t scope = (b.inScope scope).map encode := by
  rw [scopeRows, h, List.filter_map]
  rfl

/-! ### Accepting -/

/-- A new intent with free identities is inserted. -/
theorem insertRow_of_represents {t : IntentTable} {b : Book} (h : Represents t b)
    {intent : WakeIntent} (hvalid : intent.Valid) (hstatus : intent.status = .scheduled)
    (hid : b.find intent.scope intent.id = none)
    (hsource : b.findBySource intent.scope intent.sourceId = none) :
    ∃ t', insertRow t (insertedRow intent) = .ok t' ∧
      Represents t' (b.add intent hvalid hid hsource) := by
  obtain ⟨hterminal, hreason⟩ := hvalid.scheduled hstatus
  have hrow : insertedRow intent = encode intent := by
    simp only [insertedRow, encode, hstatus, hterminal, hreason, Option.map_none]
  have htrigger : wakeIntents.insertAborts (insertedRow intent).cells = false := by
    simp [wakeIntents, IntentCells.notScheduled, insertedRow, IntentRow.cells,
      WakeIntentStatus.code, lengthEq]
  have hlookup := lookup_of_represents h intent.scope intent.id
  have hlookup' := lookupAlternate_of_represents h intent.scope intent.sourceId
  rw [hid, Option.map_none, Table.lookup_eq_none_iff] at hlookup
  rw [hsource, Option.map_none, Table.lookupAlternate_eq_none_iff] at hlookup'
  have hfreshId : ∀ row ∈ t.rows, intentSchema.key row ≠ intentSchema.key (encode intent) := hlookup
  obtain ⟨t', ht', hrows⟩ := Table.insert_of_fresh hfreshId hlookup' (check_encode hvalid)
  refine ⟨t', ?_, ?_⟩
  · rw [insertRow, htrigger, hrow, ht']
    rfl
  · rw [Represents, hrows, h, Book.add, List.map_append, List.map_singleton]

/-- The store answers the call as the book does, and still represents it. -/
def Agrees (t : IntentTable) (b : Book) (call : Call) : Prop :=
  (machine.event t call).reply = (bookMachine.event b call).reply ∧
    Represents (machine.event t call).after (bookMachine.event b call).after

theorem agrees_accept {t : IntentTable} {b : Book} (h : Represents t b) (intent : WakeIntent)
    (policy : WakeIntentPolicy) : Agrees t b (.accept intent policy) := by
  by_cases haccepted : b.admission intent policy = .accepted
  · obtain ⟨hvalid, hstatus, hid, hsource, htotal⟩ := Book.admission_eq_accepted haccepted
    obtain ⟨t', ht', hrepresents⟩ := insertRow_of_represents h hvalid hstatus hid hsource
    have hinvalid : ¬ (¬ validNewWakeIntent intent = true ∨
        ¬ validWakeIntentPolicy policy = true) := by
      intro hinvalid
      rw [Book.admission, if_pos hinvalid] at haccepted
      cases haccepted
    have haccept : WakeIntentStore.accept t intent policy = (t', .ok .accepted) := by
      simp only [WakeIntentStore.accept, if_neg hinvalid, findBySource_of_represents h, hsource,
        find_of_represents h, hid, countScope_of_represents h, not_le.mpr htotal, ht', transaction,
        bind, Except.bind, Option.isSome_none, Bool.false_eq_true, ↓reduceIte]
    simp only [Agrees, Machine.event, machine, bookMachine, haccept, haccepted, ↓reduceDIte, reply,
      true_and]
    exact hrepresents
  · have haccept : WakeIntentStore.accept t intent policy =
        (t, .ok (b.admission intent policy)) := by
      revert haccepted
      simp only [WakeIntentStore.accept, Book.admission, findBySource_of_represents h,
        find_of_represents h, countScope_of_represents h]
      split_ifs <;> simp_all [transaction, bind, Except.bind]
    simp only [Agrees, Machine.event, machine, bookMachine, haccept, haccepted, ↓reduceDIte, reply,
      true_and]
    exact h

/-! ### Settling -/

theorem setTerminal_encode (intent : WakeIntent) (status : WakeIntentStatus) (now : TimePoint)
    (reason : Bytes) :
    setTerminal status (milliseconds now) reason (encode intent) =
      encode (intent.settled status now reason) := rfl

/-- An update that selects scheduled intents and settles them writes the settled rows, and counts
them. -/
theorem updateRows_of_represents {t : IntentTable} {intents : List WakeIntent}
    (hrows : t.rows = intents.map encode) {selected : IntentRow → Bool}
    {chosen : WakeIntent → Bool} {status : WakeIntentStatus} (now : TimePoint) (reason : Bytes)
    (hselected : ∀ intent ∈ intents, selected (encode intent) = chosen intent)
    (hstatus : status ≠ .scheduled)
    (hscheduled : ∀ intent ∈ intents, chosen intent = true → intent.status = .scheduled)
    (hvalid : ∀ intent ∈ intents, chosen intent = true →
      (intent.settled status now reason).Valid) :
    ∃ t', updateRows t selected (setTerminal status (milliseconds now) reason) =
        .ok (t', intents.countP chosen) ∧
      t'.rows = (intents.map fun intent ↦
        if chosen intent then intent.settled status now reason else intent).map encode := by
  have htrigger : ¬ (t.rows.any fun row ↦ selected row && wakeIntents.updateAborts row.cells
      (setTerminal status (milliseconds now) reason row).cells) = true := by
    rw [hrows, List.any_eq_true]
    rintro ⟨row, hrow, habort⟩
    obtain ⟨intent, hintent, rfl⟩ := List.mem_map.mp hrow
    rw [Bool.and_eq_true, hselected intent hintent] at habort
    have hcode : (encode intent).status = 0 := by
      rw [encode, hscheduled intent hintent habort.1]
      rfl
    have hnew : status.code.toInt ≠ 0 := fun hzero ↦
      hstatus (WakeIntentStatus.code_injective (Int32.toInt_inj.mp hzero))
    simp [wakeIntents, IntentCells.notTransition, IntentRow.cells, setTerminal, hcode, hnew,
      TextCell.isNot, IntegerCell.isNot] at habort
  have hupdate : ∃ t', t.updateWhere selected (setTerminal status (milliseconds now) reason) =
      some t' ∧ t'.rows = t.rows.map fun row ↦
        if selected row then setTerminal status (milliseconds now) reason row else row := by
    refine Table.updateWhere_isSome (fun _ ↦ rfl) (fun _ ↦ rfl) fun row hrow hsel ↦ ?_
    rw [hrows] at hrow
    obtain ⟨intent, hintent, rfl⟩ := List.mem_map.mp hrow
    rw [hselected intent hintent] at hsel
    rw [setTerminal_encode]
    exact check_encode (hvalid intent hintent hsel)
  obtain ⟨t', ht', hrows'⟩ := hupdate
  refine ⟨t', ?_, ?_⟩
  · have hcount : t.rows.countP selected = intents.countP chosen := by
      rw [hrows, List.countP_map]
      exact List.countP_congr fun intent hintent ↦ by
        rw [Function.comp_apply, hselected intent hintent]
    rw [updateRows, if_neg htrigger, ht', hcount]
  · rw [hrows', hrows, List.map_map, List.map_map]
    refine List.map_congr_left fun intent hintent ↦ ?_
    simp only [Function.comp_apply, hselected intent hintent, setTerminal_encode,
      apply_ite encode]

theorem code_eq_scheduled {status : WakeIntentStatus} :
    status.code = WakeIntentStatus.scheduled.code ↔ status = .scheduled :=
  ⟨WakeIntentStatus.code_injective, fun h ↦ h ▸ rfl⟩

/-- The intents that the first update of a reconciliation selects. -/
def clockBefore (scope : Bytes) (now : TimePoint) (intent : WakeIntent) : Bool :=
  intent.scope = scope && intent.status = .scheduled && now < intent.acceptedAt

/-- The intents that the second update of a reconciliation selects. -/
def deadlineReached (scope : Bytes) (now : TimePoint) (intent : WakeIntent) : Bool :=
  intent.scope = scope && intent.status = .scheduled && intent.dueAt ≤ now

theorem acceptedAfter_encode {intent : WakeIntent} (h : intent.Valid) {now : TimePoint}
    (hnow : Aligned now) (scope : Bytes) :
    acceptedAfter scope (milliseconds now) (encode intent) = clockBefore scope now intent := by
  rw [Bool.eq_iff_iff]
  simp only [acceptedAfter, clockBefore, Bool.and_eq_true, decide_eq_true_eq]
  simp only [encode, milliseconds, code_eq_scheduled, toMilliseconds_lt_iff hnow h.acceptedAt]

theorem dueBy_encode {intent : WakeIntent} (h : intent.Valid) {now : TimePoint}
    (hnow : Aligned now) (scope : Bytes) :
    dueBy scope (milliseconds now) (encode intent) = deadlineReached scope now intent := by
  rw [Bool.eq_iff_iff]
  simp only [dueBy, deadlineReached, Bool.and_eq_true, decide_eq_true_eq]
  simp only [encode, milliseconds, code_eq_scheduled, toMilliseconds_le_iff h.dueAt hnow]

/-- An intent after the first update of a reconciliation. -/
def reviewed (scope : Bytes) (now : TimePoint) (intent : WakeIntent) : WakeIntent :=
  if clockBefore scope now intent then
    intent.settled .manualReview now (ascii "clock_rollback")
  else intent

/-- What the two updates of a reconciliation make of one intent, one after the other, and how they
count it. -/
theorem reconcile_one {scope : Bytes} {now : TimePoint} (hvalid : validObservation scope now = true)
    (intent : WakeIntent) :
    clockBefore scope now intent = settlesIn (.reconcile scope now) .manualReview intent ∧
      deadlineReached scope now (reviewed scope now intent) =
        settlesIn (.reconcile scope now) .fired intent ∧
      (if deadlineReached scope now (reviewed scope now intent) then
          (reviewed scope now intent).settled .fired now []
        else reviewed scope now intent) = advance (.reconcile scope now) intent := by
  have hsettle : settle intent (.reconcile scope now) =
      if intent.scope = scope then intent.observed now else none := by
    simp only [settle, hvalid, true_and, eq_comm]
  simp only [settlesIn, advance, hsettle, WakeIntent.observed, reviewed, clockBefore,
    deadlineReached]
  by_cases hstatus : intent.status = .scheduled <;> by_cases hscope : intent.scope = scope <;>
    by_cases hbefore : now < intent.acceptedAt <;> by_cases hdue : intent.dueAt ≤ now <;>
    simp [hstatus, hscope, hbefore, hdue, WakeIntent.settled]

theorem clockBefore_iff {scope : Bytes} {now : TimePoint} {intent : WakeIntent} :
    clockBefore scope now intent = true ↔
      intent.scope = scope ∧ intent.status = .scheduled ∧ now < intent.acceptedAt := by
  simp only [clockBefore, Bool.and_eq_true, decide_eq_true_eq, and_assoc]

theorem deadlineReached_iff {scope : Bytes} {now : TimePoint} {intent : WakeIntent} :
    deadlineReached scope now intent = true ↔
      intent.scope = scope ∧ intent.status = .scheduled ∧ intent.dueAt ≤ now := by
  simp only [deadlineReached, Bool.and_eq_true, decide_eq_true_eq, and_assoc]

theorem WakeIntent.Valid.reviewed {intent : WakeIntent} (h : intent.Valid) {now : TimePoint}
    (hnow : Aligned now) (scope : Bytes) : (reviewed scope now intent).Valid := by
  unfold WakeIntents.reviewed
  split_ifs with hbefore
  · exact h.observed hnow (by rw [WakeIntent.observed, if_pos (clockBefore_iff.mp hbefore).2.2])
  · exact h

/-- A valid intent that has reached its deadline fires. -/
theorem WakeIntent.Valid.fired {intent : WakeIntent} (h : intent.Valid) {now : TimePoint}
    (hnow : Aligned now) (hdue : intent.dueAt ≤ now) : (intent.settled .fired now []).Valid := by
  refine h.observed hnow ?_
  have hordered := h.ordered
  rw [Int64.lt_iff_toInt_lt] at hordered
  rw [Int64.le_iff_toInt_le] at hdue
  rw [WakeIntent.observed, if_neg (by rw [Int64.lt_iff_toInt_lt]; omega),
    if_pos (Int64.le_iff_toInt_le.mpr hdue)]

theorem agrees_reconcile {t : IntentTable} {b : Book} (h : Represents t b) (scope : Bytes)
    (now : TimePoint) : Agrees t b (.reconcile scope now) := by
  by_cases hvalid : validObservation scope now = true
  · have hnow := (validObservation_iff.mp hvalid).2
    have hone := reconcile_one hvalid
    obtain ⟨t₁, ht₁, hrows₁⟩ := updateRows_of_represents h now (ascii "clock_rollback")
      (fun i hi ↦ acceptedAfter_encode (b.valid i hi) hnow scope)
      (by decide : WakeIntentStatus.manualReview ≠ .scheduled)
      (fun i _ hbefore ↦ (clockBefore_iff.mp hbefore).2.1)
      (fun i hi hbefore ↦ (b.valid i hi).observed hnow
        (by rw [WakeIntent.observed, if_pos (clockBefore_iff.mp hbefore).2.2]))
    have hvalid₁ : ∀ i ∈ b.intents.map (reviewed scope now), i.Valid := by
      intro i hi
      obtain ⟨old, hold, rfl⟩ := List.mem_map.mp hi
      exact (b.valid old hold).reviewed hnow scope
    obtain ⟨t₂, ht₂, hrows₂⟩ := updateRows_of_represents
      (show t₁.rows = (b.intents.map (reviewed scope now)).map encode from hrows₁) now []
      (fun i hi ↦ dueBy_encode (hvalid₁ i hi) hnow scope)
      (by decide : WakeIntentStatus.fired ≠ .scheduled)
      (fun i _ hdue ↦ (deadlineReached_iff.mp hdue).2.1)
      (fun i hi hdue ↦ (hvalid₁ i hi).fired hnow (deadlineReached_iff.mp hdue).2.2)
    have hmanual : b.intents.countP (clockBefore scope now) =
        b.settledCount (.reconcile scope now) .manualReview :=
      List.countP_congr fun i _ ↦ by rw [(hone i).1]
    have hfired : (b.intents.map (reviewed scope now)).countP (deadlineReached scope now) =
        b.settledCount (.reconcile scope now) .fired := by
      rw [List.countP_map]
      exact List.countP_congr fun i _ ↦ by rw [Function.comp_apply, (hone i).2.1]
    rw [hmanual] at ht₁
    rw [hfired] at ht₂
    have hreconcile : WakeIntentStore.reconcile t scope now =
        (t₂, .ok { fired := b.settledCount (.reconcile scope now) .fired
                   manualReview := b.settledCount (.reconcile scope now) .manualReview }) := by
      simp only [WakeIntentStore.reconcile, hvalid, not_true_eq_false, ↓reduceIte, ht₁, ht₂,
        transaction, bind, Except.bind]
    simp only [Agrees, Machine.event, machine, bookMachine, hreconcile, hvalid, ↓reduceIte, reply,
      true_and]
    rw [Represents, hrows₂]
    refine congrArg (List.map encode) ?_
    rw [Book.advance, List.map_map]
    exact List.map_congr_left fun i _ ↦ (hone i).2.2
  · have hidle : b.advance (.reconcile scope now) = b :=
      Book.advance_eq_self fun i _ ↦ by simp [advance, settle, hvalid]
    simp only [Agrees, Machine.event, machine, bookMachine, WakeIntentStore.reconcile, hvalid,
      Bool.false_eq_true, not_false_eq_true, ↓reduceIte, reply, hidle, true_and]
    exact h

/-! ### Revoking -/

/-- A revocation leaves the other intents alone. -/
theorem advance_revoke_other {intent : WakeIntent} {scope id : Bytes} {now : TimePoint}
    {reason : Bytes} (h : ¬ (intent.scope = scope ∧ intent.id = id)) :
    advance (.revoke scope id now reason) intent = intent := by
  have hsettle : settle intent (.revoke scope id now reason) = none := by
    rw [settle, if_neg]
    rintro ⟨_, rfl, rfl⟩
    exact h ⟨rfl, rfl⟩
  unfold advance
  rw [hsettle, Option.getD_none, ite_self]

theorem scheduledAs_encode {intent : WakeIntent} {scope id : Bytes} :
    scheduledAs scope id (encode intent) = true ↔
      intent.scope = scope ∧ intent.id = id ∧ intent.status = .scheduled := by
  simp only [scheduledAs, Bool.and_eq_true, decide_eq_true_eq, and_assoc]
  simp only [encode, code_eq_scheduled]

/-- The transition of a scheduled intent that exists settles it, and only it. -/
theorem transition_of_represents {t : IntentTable} {b : Book} (h : Represents t b)
    {intent : WakeIntent} (hintent : intent ∈ b.intents) (hscheduled : intent.status = .scheduled)
    {status : WakeIntentStatus} (hstatus : status ≠ .scheduled) {now : TimePoint}
    {reason why : Bytes} (hvalid : (intent.settled status now reason).Valid)
    (hsettle : settle intent (.revoke intent.scope intent.id now why) =
      some (intent.settled status now reason)) :
    ∃ t', transition t intent.scope intent.id status now reason = .ok t' ∧
      Represents t' (b.advance (.revoke intent.scope intent.id now why)) := by
  have hunique : ∀ other ∈ b.intents,
      scheduledAs intent.scope intent.id (encode other) = decide (other = intent) := by
    intro other hother
    rw [Bool.eq_iff_iff, scheduledAs_encode, decide_eq_true_eq]
    constructor
    · rintro ⟨hscope, hid, _⟩
      exact List.inj_on_of_nodup_map b.ids_nodup hother hintent (Prod.ext hscope hid)
    · rintro rfl
      exact ⟨rfl, rfl, hscheduled⟩
  obtain ⟨t', ht', hrows⟩ := updateRows_of_represents h now reason hunique hstatus
    (fun other _ hother ↦ by rw [of_decide_eq_true hother]; exact hscheduled)
    (fun other _ hother ↦ by rw [of_decide_eq_true hother]; exact hvalid)
  have hcount : b.intents.countP (fun other ↦ decide (other = intent)) = 1 := by
    have hnodup : b.intents.Nodup := List.Nodup.of_map _ b.ids_nodup
    rw [← List.count_eq_one_of_mem hnodup hintent, List.count]
    exact List.countP_congr fun other _ ↦ by rw [decide_eq_true_eq, beq_iff_eq]
  rw [hcount] at ht'
  refine ⟨t', ?_, ?_⟩
  · simp only [transition, ht', bind, Except.bind, ne_eq, not_true_eq_false, ↓reduceIte]
  · rw [Represents, hrows, Book.advance]
    refine congrArg (List.map encode) (List.map_congr_left fun other hother ↦ ?_)
    by_cases hsame : other = intent
    · rw [hsame, if_pos (decide_eq_true rfl), advance_of_scheduled hscheduled, hsettle,
        Option.getD_some]
    · rw [if_neg (by simpa using hsame), advance_revoke_other]
      rintro ⟨hscope, hid⟩
      exact hsame (List.inj_on_of_nodup_map b.ids_nodup hother hintent (Prod.ext hscope hid))

theorem agrees_of_revoke {t : IntentTable} {b : Book} {scope id : Bytes} {now : TimePoint}
    {reason : Bytes} (t' : IntentTable) (result : WakeIntentRevokeResult)
    (hrevoke : WakeIntentStore.revoke t scope id now reason = (t', .ok result))
    (hrevocation : b.revocation scope id now reason = result)
    (h : Represents t' (b.advance (.revoke scope id now reason))) :
    Agrees t b (.revoke scope id now reason) := by
  simp only [Agrees, Machine.event, machine, bookMachine, hrevoke, hrevocation, reply, true_and]
  exact h

/-- The revocation of a scheduled intent takes one of three transitions, as the clock value
decides. -/
theorem agrees_revoke_scheduled {t : IntentTable} {b : Book} (h : Represents t b)
    {intent : WakeIntent} (hmem : intent ∈ b.intents) (hscheduled : intent.status = .scheduled)
    {now : TimePoint} {reason : Bytes}
    (hvalid : validRevocation intent.scope intent.id now reason = true)
    (hrejected : ¬ (¬ validObservation intent.scope now = true ∨
      ¬ validWakeIntentIdentifier intent.id = true ∨ reason = [] ∨
        wakeIntentReasonMaxBytes < reason.length)) :
    Agrees t b (.revoke intent.scope intent.id now reason) := by
  obtain ⟨hobservation, _, hreason, hlength⟩ := validRevocation_iff.mp hvalid
  have hnow := (validObservation_iff.mp hobservation).2
  have hintent := b.valid intent hmem
  have hfind := Book.find_eq_some hmem
  have hterminal : isTerminal intent.status = false := by rw [hscheduled]; rfl
  have hsettle : settle intent (.revoke intent.scope intent.id now reason) =
      some ((intent.observed now).getD (intent.settled .revoked now reason)) := by
    rw [settle, if_pos ⟨hvalid, rfl, rfl⟩]
  by_cases hbefore : now < intent.acceptedAt
  · have hobserved : intent.observed now =
        some (intent.settled .manualReview now (ascii "clock_rollback")) := by
      rw [WakeIntent.observed, if_pos hbefore]
    rw [hobserved, Option.getD_some] at hsettle
    obtain ⟨t', ht', hrepresents⟩ := transition_of_represents h hmem hscheduled (by decide)
      (hintent.observed hnow hobserved) hsettle
    refine agrees_of_revoke t' .manualReview ?_ ?_ hrepresents
    · simp only [WakeIntentStore.revoke, if_neg hrejected, find_of_represents h, hfind, hterminal,
        hbefore, ht', transaction, bind, Except.bind, Bool.false_eq_true, ↓reduceIte]
    · simp only [Book.revocation, hvalid, hfind, hscheduled, hbefore, not_true_eq_false, ne_eq,
        ↓reduceIte]
  · by_cases hdue : intent.dueAt ≤ now
    · have hobserved : intent.observed now = some (intent.settled .fired now []) := by
        rw [WakeIntent.observed, if_neg hbefore, if_pos hdue]
      rw [hobserved, Option.getD_some] at hsettle
      obtain ⟨t', ht', hrepresents⟩ := transition_of_represents h hmem hscheduled (by decide)
        (hintent.observed hnow hobserved) hsettle
      refine agrees_of_revoke t' .fired ?_ ?_ hrepresents
      · simp only [WakeIntentStore.revoke, if_neg hrejected, find_of_represents h, hfind, hterminal,
          hbefore, hdue, ht', transaction, bind, Except.bind, Bool.false_eq_true, ↓reduceIte]
      · simp only [Book.revocation, hvalid, hfind, hscheduled, hbefore, hdue, not_true_eq_false,
          ne_eq, ↓reduceIte]
    · have hobserved : intent.observed now = none := by
        rw [WakeIntent.observed, if_neg hbefore, if_neg hdue]
      rw [hobserved, Option.getD_none] at hsettle
      obtain ⟨t', ht', hrepresents⟩ := transition_of_represents h hmem hscheduled (by decide)
        (hintent.revoked hnow hobserved hreason hlength) hsettle
      refine agrees_of_revoke t' .revoked ?_ ?_ hrepresents
      · simp only [WakeIntentStore.revoke, if_neg hrejected, find_of_represents h, hfind, hterminal,
          hbefore, hdue, ht', transaction, bind, Except.bind, Bool.false_eq_true, ↓reduceIte]
      · simp only [Book.revocation, hvalid, hfind, hscheduled, hbefore, hdue, not_true_eq_false,
          ne_eq, ↓reduceIte]

theorem agrees_revoke {t : IntentTable} {b : Book} (h : Represents t b) (scope id : Bytes)
    (now : TimePoint) (reason : Bytes) : Agrees t b (.revoke scope id now reason) := by
  have hguard : (¬ validObservation scope now = true ∨ ¬ validWakeIntentIdentifier id = true ∨
      reason = [] ∨ wakeIntentReasonMaxBytes < reason.length) ↔
        ¬ validRevocation scope id now reason = true := by
    rw [validRevocation_iff, wakeIntentReasonMaxBytes, not_and_or, not_and_or, not_and_or,
      not_ne_iff, not_le]
  by_cases hvalid : validRevocation scope id now reason = true
  · have hrejected := not_not.mpr hvalid
    rw [← hguard] at hrejected
    cases hfind : b.find scope id with
    | none =>
      have hidle : b.advance (.revoke scope id now reason) = b := by
        refine Book.advance_eq_self fun i hi ↦ advance_revoke_other ?_
        rintro ⟨rfl, rfl⟩
        rw [Book.find_eq_some hi] at hfind
        cases hfind
      refine agrees_of_revoke t .notFound ?_ ?_ (by rw [hidle]; exact h)
      · simp only [WakeIntentStore.revoke, if_neg hrejected, find_of_represents h, hfind,
          transaction, bind, Except.bind]
      · simp only [Book.revocation, hvalid, hfind, not_true_eq_false, ↓reduceIte]
    | some intent =>
      obtain ⟨hmem, rfl, rfl⟩ := Book.mem_of_find hfind
      by_cases hscheduled : intent.status = .scheduled
      · exact agrees_revoke_scheduled h hmem hscheduled hvalid hrejected
      · have hterminal : isTerminal intent.status = true := isTerminal_iff.mpr hscheduled
        have hidle : b.advance (.revoke intent.scope intent.id now reason) = b := by
          refine Book.advance_eq_self fun i hi ↦ ?_
          by_cases hsame : i.scope = intent.scope ∧ i.id = intent.id
          · rw [List.inj_on_of_nodup_map b.ids_nodup hi hmem (Prod.ext hsame.1 hsame.2)]
            exact advance_eq_self_of_terminal hscheduled
          · exact advance_revoke_other hsame
        refine agrees_of_revoke t .terminal ?_ ?_ (by rw [hidle]; exact h)
        · simp only [WakeIntentStore.revoke, if_neg hrejected, find_of_represents h, hfind,
            hterminal, transaction, bind, Except.bind, ↓reduceIte]
        · simp only [Book.revocation, hvalid, hfind, hscheduled, not_true_eq_false, ne_eq,
            not_false_eq_true, ↓reduceIte]
  · have hidle : b.advance (.revoke scope id now reason) = b :=
      Book.advance_eq_self fun i _ ↦ by simp [advance, settle, hvalid]
    refine agrees_of_revoke t .invalid ?_ ?_ (by rw [hidle]; exact h)
    · rw [WakeIntentStore.revoke, if_pos (hguard.mpr hvalid)]
    · rw [Book.revocation, if_pos hvalid]

/-! ### Reading -/

theorem agrees_find {t : IntentTable} {b : Book} (h : Represents t b) (scope id : Bytes) :
    Agrees t b (.find scope id) := by
  simp only [Agrees, Machine.event, machine, bookMachine, find_of_represents h, reply, true_and]
  exact h

theorem agrees_findBySource {t : IntentTable} {b : Book} (h : Represents t b)
    (scope sourceId : Bytes) : Agrees t b (.findBySource scope sourceId) := by
  simp only [Agrees, Machine.event, machine, bookMachine, findBySource_of_represents h, reply,
    true_and]
  exact h

/-- The least stored deadline is the least deadline, as the conversion to milliseconds keeps the
order. -/
theorem nextScheduledAt_of_represents {t : IntentTable} {b : Book} (h : Represents t b)
    {scope : Bytes} (hscope : validWakeIntentIdentifier scope = true) :
    WakeIntentStore.nextScheduledAt t scope = .ok (b.nextScheduledAt scope) := by
  have hdeadlines : (t.rows.filter fun row ↦
      row.scope = scope && row.status = WakeIntentStatus.scheduled.code).map IntentRow.dueAtMs =
        (((b.inScope scope).filter fun intent ↦ intent.status = .scheduled).map
          WakeIntent.dueAt).map milliseconds := by
    rw [h, List.filter_map, List.map_map, List.map_map, Book.inScope, List.filter_filter]
    refine congrArg _ (List.filter_congr fun intent _ ↦ ?_)
    rw [Bool.eq_iff_iff]
    simp only [Function.comp_apply, Bool.and_eq_true, decide_eq_true_eq]
    simp only [encode, code_eq_scheduled]
    exact and_comm
  rw [WakeIntentStore.nextScheduledAt, if_neg (not_not.mpr hscope), hdeadlines,
    min?_map_of_monotone (f := milliseconds) fun _ _ _ _ hle ↦ toMilliseconds_le_of_le hle,
    Book.nextScheduledAt]
  cases hmin : (((b.inScope scope).filter fun intent ↦ intent.status = .scheduled).map
      WakeIntent.dueAt).min? with
  | none => rfl
  | some dueAt =>
    obtain ⟨intent, hintent, rfl⟩ := List.mem_map.mp (List.min?_mem hmin)
    have hmem := (List.mem_filter.mp (List.mem_filter.mp hintent).1).1
    rw [Option.map_some, Option.map_some, timePoint_milliseconds (b.valid intent hmem).dueAt]

/-- The ids that an inspection selects belong to intents of the scope, and there are as many as
there are intents, up to two. -/
theorem firstIds_of_represents {t : IntentTable} {b : Book} (h : Represents t b) (scope : Bytes) :
    (∀ id ∈ firstIds t scope, ∃ intent ∈ b.inScope scope, intent.id = id) ∧
      (firstIds t scope).length = min 2 (b.inScope scope).length := by
  have hids : (t.rows.filter fun row ↦ row.scope = scope).map IntentRow.id =
      (b.inScope scope).map WakeIntent.id := by
    rw [h, List.filter_map, List.map_map]
    rfl
  rw [firstIds, hids]
  refine ⟨fun id hid ↦ ?_, ?_⟩
  · exact List.mem_map.mp (List.mem_mergeSort.mp (List.mem_of_mem_take hid))
  · rw [List.length_take, List.length_mergeSort, List.length_map]

theorem Book.find_of_inScope {b : Book} {scope : Bytes} {intent : WakeIntent}
    (h : intent ∈ b.inScope scope) : b.find scope intent.id = some intent := by
  obtain ⟨hmem, hscope⟩ := List.mem_filter.mp h
  rw [← of_decide_eq_true hscope]
  exact Book.find_eq_some hmem

theorem inspectScope_of_represents {t : IntentTable} {b : Book} (h : Represents t b)
    {scope : Bytes} (hscope : validWakeIntentIdentifier scope = true) :
    WakeIntentStore.inspectScope t scope = .ok (b.inspectScope scope) := by
  obtain ⟨hids, hlength⟩ := firstIds_of_represents h scope
  have hfind : ∀ id ∈ firstIds t scope, ∃ intent ∈ b.inScope scope,
      WakeIntentStore.find t scope id = .ok (some intent) := by
    intro id hid
    obtain ⟨intent, hintent, rfl⟩ := hids id hid
    exact ⟨intent, hintent, by rw [find_of_represents h, Book.find_of_inScope hintent]⟩
  rw [WakeIntentStore.inspectScope, if_neg (not_not.mpr hscope), Book.inspectScope]
  cases hintents : b.inScope scope with
  | nil =>
    rw [hintents, List.length_nil, Nat.min_zero, List.length_eq_zero_iff] at hlength
    simp only [hlength]
  | cons intent rest =>
    cases rest with
    | nil =>
      rw [hintents, List.length_singleton] at hlength
      obtain ⟨firstId, hfirst⟩ := List.length_eq_one_iff.mp hlength
      obtain ⟨first, hmem, hfound⟩ := hfind firstId
        (by rw [hfirst]; exact List.mem_singleton_self _)
      rw [hintents, List.mem_singleton] at hmem
      subst hmem
      simp only [hfirst, hfound, bind, Except.bind]
    | cons other rest =>
      have htwo : (firstIds t scope).length = 2 := by
        rw [hlength, hintents, List.length_cons, List.length_cons]
        omega
      obtain ⟨firstId, secondId, hboth⟩ := List.length_eq_two.mp htwo
      obtain ⟨first, _, hfirst⟩ := hfind firstId (by rw [hboth]; simp)
      obtain ⟨second, _, hsecond⟩ := hfind secondId (by rw [hboth]; simp)
      simp only [hboth, hfirst, hsecond, bind, Except.bind]

/-- Every call is answered as the book answers it. -/
theorem refines_step {t : IntentTable} {b : Book} (h : Represents t b) (call : Call) :
    Agrees t b call := by
  cases call with
  | accept intent policy => exact agrees_accept h intent policy
  | reconcile scope now => exact agrees_reconcile h scope now
  | revoke scope id now reason => exact agrees_revoke h scope id now reason
  | find scope id => exact agrees_find h scope id
  | findBySource scope sourceId => exact agrees_findBySource h scope sourceId
  | nextScheduledAt scope =>
    refine ⟨?_, h⟩
    by_cases hscope : validWakeIntentIdentifier scope = true
    · simp only [Machine.event, machine, bookMachine, nextScheduledAt_of_represents h hscope,
        hscope, ↓reduceIte, reply]
    · simp only [Machine.event, machine, bookMachine, WakeIntentStore.nextScheduledAt, hscope,
        not_false_eq_true, Bool.false_eq_true, ↓reduceIte, reply]
  | inspectScope scope =>
    refine ⟨?_, h⟩
    by_cases hscope : validWakeIntentIdentifier scope = true
    · simp only [Machine.event, machine, bookMachine, inspectScope_of_represents h hscope, hscope,
        ↓reduceIte, reply]
    · simp only [Machine.event, machine, bookMachine, WakeIntentStore.inspectScope, hscope,
        not_false_eq_true, Bool.false_eq_true, ↓reduceIte, reply]
  | reopen => exact ⟨rfl, h⟩

theorem represents_empty : Represents (Table.empty intentSchema) Book.empty := rfl

/-- Over every run the store shows its callers what the book shows, and ends as its
representation. -/
theorem refines_run (calls : List Call) :
    Machine.trace (machine.history (Table.empty intentSchema) calls) =
        Machine.trace (bookMachine.history Book.empty calls) ∧
      Represents (machine.run (Table.empty intentSchema) calls)
        (bookMachine.run Book.empty calls) :=
  machine.simulate (fun _ _ call h ↦ refines_step h call) calls represents_empty

end Gaudere.WakeIntents
