import Odiseo.Tenancy.Service

/-!
# Nested tenant transactions

`runInTenant` and `runInSchema` called from within each other, with the transactions that
they open and the context that they run in. A call for the schema of the open transaction
of its context uses this transaction; any other call opens one of its own, which ends
before the call does. Operations are given as trees of writes, calls and exceptions. A
statement that the database refuses aborts its transaction: later statements are refused as
well, and the commit rolls back.
-/

namespace Odiseo.Tenancy

open Materials

/-- An entity manager: the transaction that it belongs to, and its connection. -/
structure Manager where
  transaction : ℕ
  connection : Connection
  deriving DecidableEq, Repr

/-- How far a transaction has come. -/
inductive TransactionStatus
  | running
  | committed
  | rolledBack
  deriving DecidableEq, Repr

/-- A transaction that has been opened, with its writes. -/
structure Transaction where
  schema : Schema
  writes : List ℕ
  /-- A statement was refused. -/
  aborted : Bool
  status : TransactionStatus
  deriving DecidableEq, Repr

/-- The CLS store, as `TenantService` uses it. -/
structure Context where
  tenantSchema : Option Schema
  /-- `tx_manager` and `tx_schema`. -/
  transaction : Option (Manager × Schema)
  deriving DecidableEq, Repr

/-- A call of `runInSchema` that has ended. -/
structure CallRecord where
  /-- The schema that the call asked for. -/
  asked : Schema
  /-- The context in which the call was made. -/
  before : Context
  /-- The manager that its operation received. -/
  received : Manager
  /-- The context after the call. -/
  after : Context
  /-- A statement of the transaction had been refused when the call ended. -/
  aborted : Bool
  /-- The call returned; otherwise an exception left it. -/
  returned : Bool
  deriving DecidableEq, Repr

/-- The running code: its context, the transactions so far, the writes in the order in which
they were made, and the calls that have ended. -/
structure Runtime where
  cls : Context
  pool : List Transaction
  issued : List (Manager × ℕ)
  log : List CallRecord

/-- The start of a request or job: no transaction is open. -/
def Runtime.start (tenantSchema : Option Schema) : Runtime where
  cls := ⟨tenantSchema, none⟩
  pool := []
  issued := []
  log := []

/-- The callback of `runInSchema`. It answers whether it returns. -/
abbrev Operation := Manager → Runtime → Bool × Runtime

/-- `cls.runWith`: the code runs in another context, and then the old one is back. -/
def runWith (store : Context) (code : Runtime → Bool × Runtime) (s : Runtime) : Bool × Runtime :=
  ((code { s with cls := store }).1, { (code { s with cls := store }).2 with cls := s.cls })

/-- A write through a manager. -/
def Runtime.write (s : Runtime) (manager : Manager) (label : ℕ) : Runtime :=
  { s with
    pool := s.pool.modify manager.transaction fun t => { t with writes := t.writes ++ [label] }
    issued := s.issued ++ [(manager, label)] }

/-- A statement of a transaction has been refused. -/
def Runtime.aborted (s : Runtime) (i : ℕ) : Bool := (s.pool[i]?).any (·.aborted)

/-- A statement is refused. -/
def Runtime.abort (s : Runtime) (i : ℕ) : Runtime :=
  { s with pool := s.pool.modify i fun t => { t with aborted := true } }

/-- A transaction is opened on a schema. -/
def Runtime.openTransaction (s : Runtime) (schema : Schema) : Runtime :=
  { s with pool := s.pool ++ [⟨schema, [], false, .running⟩] }

/-- How the transaction of a call ends. -/
def endingOf (returned aborted : Bool) : TransactionStatus :=
  if returned && !aborted then .committed else .rolledBack

/-- A transaction ends. The commit of an aborted transaction rolls back without an error. -/
def Runtime.closeTransaction (s : Runtime) (i : ℕ) (returned : Bool) : Runtime :=
  { s with pool := s.pool.modify i fun t => { t with status := endingOf returned t.aborted } }

/-- The manager of the next transaction. -/
def Runtime.nextManager (s : Runtime) (schema : Schema) : Manager :=
  ⟨s.pool.length, Connection.setSearchPath schema⟩

/-- The operation in a transaction that has just been opened. -/
def Runtime.runOpened (s : Runtime) (schema : Schema) (operation : Operation) : Bool × Runtime :=
  runWith { s.cls with transaction := some (s.nextManager schema, schema) }
    (operation (s.nextManager schema)) (s.openTransaction schema)

/-- `dataSource.transaction` in `runInSchema`: commit when the operation returns, else roll
back. The commit itself may fail. -/
def runTransaction (schema : Schema) (commitFails : Bool) (operation : Operation) (s : Runtime) :
    Bool × Runtime :=
  let returned := (s.runOpened schema operation).1 && !commitFails
  (returned, (s.runOpened schema operation).2.closeTransaction s.pool.length returned)

/-- The end of a call is noted. -/
def noteCall (asked : Schema) (before : Context) (received : Manager) (result : Bool × Runtime) :
    Bool × Runtime :=
  (result.1,
    { result.2 with
      log := result.2.log ++
        [⟨asked, before, received, result.2.cls, result.2.aborted received.transaction,
          result.1⟩] })

/-- The manager of the open transaction of a context, when it belongs to the schema. -/
def Context.ambient (cls : Context) (schema : Schema) : Option Manager :=
  match cls.transaction with
  | some (existingManager, existingSchema) =>
    if existingSchema = schema then some existingManager else none
  | none => none

/-- `runInSchema`. -/
def callInSchema (schema : Schema) (commitFails : Bool) (operation : Operation) (s : Runtime) :
    Bool × Runtime :=
  match s.cls.ambient schema with
  | some existingManager =>
    noteCall schema s.cls existingManager (operation existingManager s)
  | none =>
    noteCall schema s.cls (s.nextManager schema) (runTransaction schema commitFails operation s)

/-- Which of the two methods is called. -/
inductive Target
  /-- `runInTenant`. -/
  | tenant
  /-- `runInSchema`. -/
  | schema (schema : Schema)
  deriving DecidableEq, Repr

/-- `runInTenant` or `runInSchema`. -/
def callIn (target : Target) (commitFails : Bool) (operation : Operation) (s : Runtime) :
    Bool × Runtime :=
  match target, s.cls.tenantSchema with
  | .schema schema, _ => callInSchema schema commitFails operation s
  | .tenant, some tenantSchema => callInSchema tenantSchema commitFails operation s
  | .tenant, none => (false, s)

/-- The code of an operation. -/
inductive Body
  /-- It returns. -/
  | done
  /-- It throws. -/
  | throw
  /-- The database refuses a statement, and the exception leaves the operation. -/
  | refused
  /-- It writes through its manager. -/
  | write (label : ℕ) (rest : Body)
  /-- It calls `runInTenant` or `runInSchema`, and may catch the exception of the call. -/
  | call (target : Target) (commitFails : Bool) (operation : Body) (catches : Bool) (rest : Body)
  deriving DecidableEq, Repr

/-- Run the code of an operation. -/
def Body.run : Body → Operation
  | .done, _, s => (true, s)
  | .throw, _, s => (false, s)
  | .refused, manager, s => (false, s.abort manager.transaction)
  | .write label rest, manager, s =>
    if s.aborted manager.transaction then (false, s)
    else rest.run manager (s.write manager label)
  | .call target commitFails operation catches rest, manager, s =>
    match callIn target commitFails operation.run s with
    | (true, s') => rest.run manager s'
    | (false, s') => if catches then rest.run manager s' else (false, s')

/-- The manager of the enclosing transaction, when the call asked for its schema. -/
def CallRecord.ambient (c : CallRecord) : Option Manager := c.before.ambient c.asked

/-- **The call was isolated.** `base` is the number of transactions before it, and `pool` is
what has become of all transactions. -/
structure CallRecord.Isolated (c : CallRecord) (base : ℕ) (pool : List Transaction) : Prop where
  context : c.after = c.before
  connection : c.received.connection = Connection.setSearchPath c.asked
  shared : ∀ manager, c.ambient = some manager → c.received = manager
  own : c.ambient = none → base ≤ c.received.transaction ∧
    ∃ t, pool[c.received.transaction]? = some t ∧ t.schema = c.asked ∧
      t.status = endingOf c.returned c.aborted

/-- The transactions that calls have opened for themselves. -/
def ownTransactions (log : List CallRecord) : List ℕ :=
  (log.filter fun c => c.ambient.isNone).map fun c => c.received.transaction

/-- The open transaction of the context runs on the schema that it is kept for. -/
def Runtime.WellScoped (s : Runtime) : Prop :=
  ∀ manager schema, s.cls.transaction = some (manager, schema) →
    manager.connection = Connection.setSearchPath schema ∧ manager.transaction < s.pool.length

/-- The writes of every transaction are those made through its managers. -/
structure Runtime.Attributed (s : Runtime) : Prop where
  writes : ∀ i t, s.pool[i]? = some t →
    t.writes = (s.issued.filter fun w => w.1.transaction = i).map Prod.snd
  issued : ∀ w ∈ s.issued, w.1.transaction < s.pool.length

/-- What code can do between two of its states: the context is the same again, the
transactions before it are neither opened nor ended, and the calls were isolated. -/
structure Keeps (s s' : Runtime) : Prop where
  cls : s'.cls = s.cls
  length : s.pool.length ≤ s'.pool.length
  kept : ∀ (i : ℕ) (t : Transaction), s.pool[i]? = some t →
    ∃ t', s'.pool[i]? = some t' ∧ t'.schema = t.schema ∧ t'.status = t.status
  log : ∃ calls, s'.log = s.log ++ calls ∧ (ownTransactions calls).Nodup ∧
    ∀ c ∈ calls, c.Isolated s.pool.length s'.pool
  attributed : s.Attributed → s'.Attributed

/-- **What code can do** when it is run to its end: besides, every transaction that was opened
has been ended by its call. -/
structure Extends (s s' : Runtime) : Prop extends Keeps s s' where
  ended : ∀ i, s.pool.length ≤ i → i < s'.pool.length →
    i ∈ ownTransactions (s'.log.drop s.log.length)

section Extends

variable {s s₁ s' : Runtime} {manager : Manager}

/-- A call stays isolated while the transactions are kept. -/
theorem CallRecord.Isolated.mono {c : CallRecord} {base base' : ℕ} {pool pool' : List Transaction}
    (h : c.Isolated base pool) (hbase : base' ≤ base)
    (hkept : ∀ t, pool[c.received.transaction]? = some t → base ≤ c.received.transaction →
      ∃ t', pool'[c.received.transaction]? = some t' ∧ t'.schema = t.schema ∧
        t'.status = t.status) : c.Isolated base' pool' where
  context := h.context
  connection := h.connection
  shared := h.shared
  own := by
    intro hown
    obtain ⟨hle, t, ht, hschema, hstatus⟩ := h.own hown
    obtain ⟨t', ht', hschema', hstatus'⟩ := hkept t ht hle
    exact ⟨Nat.le_trans hbase hle, t', ht', hschema'.trans hschema, hstatus'.trans hstatus⟩

/-- The transaction that an isolated call opened is one of the pool, and a new one. -/
theorem mem_ownTransactions {calls : List CallRecord} {base : ℕ} {pool : List Transaction}
    (h : ∀ c ∈ calls, c.Isolated base pool) {i : ℕ} (hi : i ∈ ownTransactions calls) :
    base ≤ i ∧ i < pool.length := by
  obtain ⟨c, hc, rfl⟩ := List.mem_map.mp hi
  obtain ⟨hmem, hown⟩ := List.mem_filter.mp hc
  obtain ⟨hle, t, ht, _⟩ := (h c hmem).own (by simpa using hown)
  obtain ⟨hlt, _⟩ := List.getElem?_eq_some_iff.mp ht
  exact ⟨hle, hlt⟩

/-- Code that does nothing. -/
theorem Extends.refl (s : Runtime) : Extends s s where
  cls := rfl
  length := Nat.le_refl _
  kept := fun _ t ht => ⟨t, ht, rfl, rfl⟩
  log := by
    refine ⟨[], by simp, List.nodup_nil, ?_⟩
    intro c hc
    cases hc
  attributed := fun h => h
  ended := by
    intro i hle hlt
    omega

/-- The calls of two pieces of code, one after the other. -/
theorem Keeps.log_drop (h : Keeps s s₁) (h' : Keeps s₁ s') :
    s'.log.drop s.log.length = s₁.log.drop s.log.length ++ s'.log.drop s₁.log.length := by
  obtain ⟨calls, hlog, _⟩ := h.log
  obtain ⟨calls', hlog', _⟩ := h'.log
  have hfirst : s₁.log.drop s.log.length = calls := by
    rw [hlog, List.drop_left]
  have hsecond : s'.log.drop s₁.log.length = calls' := by
    rw [hlog', List.drop_left]
  rw [hfirst, hsecond, hlog', hlog, List.append_assoc, List.drop_left]

/-- The transactions of the calls of two pieces of code. -/
theorem ownTransactions_append (calls calls' : List CallRecord) :
    ownTransactions (calls ++ calls') = ownTransactions calls ++ ownTransactions calls' := by
  rw [ownTransactions, List.filter_append, List.map_append]
  rfl

/-- One piece of code after the other. -/
theorem Keeps.trans (h : Keeps s s₁) (h' : Keeps s₁ s') : Keeps s s' where
  cls := h'.cls.trans h.cls
  length := Nat.le_trans h.length h'.length
  kept := by
    intro i t ht
    obtain ⟨t₁, ht₁, hschema, hstatus⟩ := h.kept i t ht
    obtain ⟨t', ht', hschema', hstatus'⟩ := h'.kept i t₁ ht₁
    exact ⟨t', ht', hschema'.trans hschema, hstatus'.trans hstatus⟩
  log := by
    obtain ⟨calls, hlog, hnodup, hcalls⟩ := h.log
    obtain ⟨calls', hlog', hnodup', hcalls'⟩ := h'.log
    refine ⟨calls ++ calls', ?_, ?_, ?_⟩
    · rw [hlog', hlog, List.append_assoc]
    · rw [ownTransactions_append]
      apply List.Nodup.append hnodup hnodup'
      intro i hi hi'
      have hfirst := mem_ownTransactions hcalls hi
      have hsecond := mem_ownTransactions hcalls' hi'
      omega
    · intro c hc
      rcases List.mem_append.mp hc with hc | hc
      · exact (hcalls c hc).mono (Nat.le_refl _) fun t ht _ => h'.kept _ t ht
      · exact (hcalls' c hc).mono h.length fun t ht _ => ⟨t, ht, rfl, rfl⟩
  attributed := fun hs => h'.attributed (h.attributed hs)

/-- One piece of code after the other, both run to their ends. -/
theorem Extends.trans (h : Extends s s₁) (h' : Extends s₁ s') : Extends s s' where
  toKeeps := h.toKeeps.trans h'.toKeeps
  ended := by
    intro i hle hlt
    rw [h.log_drop h'.toKeeps, ownTransactions_append, List.mem_append]
    by_cases hfirst : i < s₁.pool.length
    · exact .inl (h.ended i hle hfirst)
    · exact .inr (h'.ended i (by omega) hlt)

/-- The context of code that continues is well scoped. -/
theorem Keeps.wellScoped (h : Keeps s s') (hs : s.WellScoped) : s'.WellScoped := by
  intro m schema htransaction
  rw [h.cls] at htransaction
  obtain ⟨hconnection, hlt⟩ := hs m schema htransaction
  exact ⟨hconnection, Nat.lt_of_lt_of_le hlt h.length⟩

/-- A change of one transaction. -/
theorem getElem?_modify_transaction {pool : List Transaction} {i k : ℕ}
    {change : Transaction → Transaction} :
    (pool.modify k change)[i]? = if k = i then (pool[i]?).map change else pool[i]? := by
  rw [List.getElem?_modify]
  split
  · rfl
  · simp

/-- A write goes into the transaction of its manager. -/
theorem extends_write (manager : Manager) (hmanager : manager.transaction < s.pool.length)
    (label : ℕ) :
    Extends s (s.write manager label) where
  cls := rfl
  length := by simp [Runtime.write]
  kept := by
    intro i t ht
    simp only [Runtime.write, getElem?_modify_transaction, ht]
    split
    · exact ⟨_, rfl, rfl, rfl⟩
    · exact ⟨t, rfl, rfl, rfl⟩
  log := by
    refine ⟨[], by simp [Runtime.write], List.nodup_nil, ?_⟩
    intro c hc
    cases hc
  attributed := by
    intro h
    constructor
    · intro i t ht
      simp only [Runtime.write, getElem?_modify_transaction] at ht ⊢
      split at ht
      · rename_i heq
        obtain ⟨t₀, ht₀, rfl⟩ := Option.map_eq_some_iff.mp ht
        simp [List.filter_append, h.writes i t₀ ht₀, heq]
      · rename_i hne
        simp [List.filter_append, h.writes i t ht, hne]
    · intro w hw
      have hlength : (s.write manager label).pool.length = s.pool.length := by
        simp [Runtime.write]
      rw [hlength]
      rcases List.mem_append.mp hw with hw | hw
      · exact h.issued w hw
      · obtain rfl := List.mem_singleton.mp hw
        exact hmanager
  ended := by
    intro i hle hlt
    simp only [Runtime.write, List.length_modify] at hlt
    omega

/-- The end of a call that was isolated is noted. -/
theorem extends_noteCall {asked : Schema} {before : Context} {result : Bool × Runtime}
    (h : Keeps s result.2)
    (hcall : CallRecord.Isolated ⟨asked, before, manager, result.2.cls,
      result.2.aborted manager.transaction, result.1⟩
      s.pool.length result.2.pool)
    (hfresh : ∀ c ∈ result.2.log.drop s.log.length, c.ambient = none →
      before.ambient asked = none → c.received.transaction ≠ manager.transaction)
    (hended : ∀ i, s.pool.length ≤ i → i < result.2.pool.length →
      i ∈ ownTransactions (result.2.log.drop s.log.length) ∨
        before.ambient asked = none ∧ manager.transaction = i) :
    Extends s (noteCall asked before manager result).2 where
  cls := h.cls
  length := h.length
  kept := h.kept
  log := by
    obtain ⟨calls, hlog, hnodup, hcalls⟩ := h.log
    rw [hlog, List.drop_left] at hfresh
    refine ⟨calls ++ [⟨asked, before, manager, result.2.cls,
      result.2.aborted manager.transaction, result.1⟩], ?_, ?_, ?_⟩
    · simp [noteCall, hlog]
    · rw [ownTransactions_append]
      apply List.Nodup.append hnodup
      · by_cases hown : (before.ambient asked).isNone <;>
          simp [ownTransactions, CallRecord.ambient, hown]
      · intro i hi hi'
        obtain ⟨c, hc, rfl⟩ := List.mem_map.mp hi
        obtain ⟨hmem, hown⟩ := List.mem_filter.mp hc
        obtain ⟨c', hc', heq⟩ := List.mem_map.mp hi'
        obtain ⟨hmem', hown'⟩ := List.mem_filter.mp hc'
        obtain rfl := List.mem_singleton.mp hmem'
        exact hfresh c hmem (by simpa using hown) (by simpa [CallRecord.ambient] using hown')
          heq.symm
    · intro c hc
      rcases List.mem_append.mp hc with hc | hc
      · exact hcalls c hc
      · obtain rfl := List.mem_singleton.mp hc
        exact hcall
  attributed := by
    intro hs
    have hresult := h.attributed hs
    exact ⟨hresult.writes, hresult.issued⟩
  ended := by
    intro i hle hlt
    obtain ⟨calls, hlog, _⟩ := h.log
    have hdrop : (noteCall asked before manager result).2.log.drop s.log.length =
        result.2.log.drop s.log.length ++
          [⟨asked, before, manager, result.2.cls, result.2.aborted manager.transaction, result.1⟩] := by
      simp only [noteCall, hlog, List.append_assoc, List.drop_left]
    rw [hdrop, ownTransactions_append, List.mem_append]
    rcases hended i hle hlt with hcalls | ⟨hown, rfl⟩
    · exact .inl hcalls
    · right
      simp [ownTransactions, CallRecord.ambient, hown]

/-- A transaction that is opened holds no writes. -/
theorem attributed_openTransaction {schema : Schema} (h : s.Attributed) :
    (s.openTransaction schema).Attributed where
  writes := by
    intro i t ht
    simp only [Runtime.openTransaction] at ht ⊢
    rcases Nat.lt_trichotomy i s.pool.length with hlt | rfl | hgt
    · rw [List.getElem?_append_left hlt] at ht
      exact h.writes i t ht
    · simp at ht
      subst ht
      symm
      rw [List.map_eq_nil_iff, List.filter_eq_nil_iff]
      intro w hw
      have hlt := h.issued w hw
      simp only [decide_eq_true_eq]
      omega
    · rw [List.getElem?_eq_none (by simp; omega)] at ht
      cases ht
  issued := by
    intro w hw
    have hlt := h.issued w hw
    simp only [Runtime.openTransaction, List.length_append, List.length_singleton]
    omega

/-- A change of a transaction that keeps its writes. -/
theorem attributed_modify {i : ℕ} {change : Transaction → Transaction} (h : s.Attributed)
    (hwrites : ∀ t, (change t).writes = t.writes) :
    Runtime.Attributed { s with pool := s.pool.modify i change } where
  writes := by
    intro k t ht
    simp only [getElem?_modify_transaction] at ht ⊢
    split at ht
    · obtain ⟨t₀, ht₀, rfl⟩ := Option.map_eq_some_iff.mp ht
      rw [hwrites]
      exact h.writes k t₀ ht₀
    · exact h.writes k t ht
  issued := by
    intro w hw
    simpa using h.issued w hw

/-- A refused statement changes no status. -/
theorem extends_abort (i : ℕ) : Extends s (s.abort i) where
  cls := rfl
  length := by simp [Runtime.abort]
  kept := by
    intro k t ht
    simp only [Runtime.abort, getElem?_modify_transaction, ht]
    split
    · exact ⟨_, rfl, rfl, rfl⟩
    · exact ⟨t, rfl, rfl, rfl⟩
  log := by
    refine ⟨[], by simp [Runtime.abort], List.nodup_nil, ?_⟩
    intro c hc
    cases hc
  attributed := fun h => attributed_modify h fun _ => rfl
  ended := by
    intro k hle hlt
    simp only [Runtime.abort, List.length_modify] at hlt
    omega

end Extends

/-- An operation may be run in a well-scoped context with a manager of the pool. -/
def Operation.Sound (operation : Operation) : Prop :=
  ∀ manager s, s.WellScoped → manager.transaction < s.pool.length →
    Extends s (operation manager s).2

section Calls

variable {s : Runtime} {schema : Schema} {operation : Operation}

/-- The runtime in which the operation of a new transaction starts. -/
def Runtime.opened (s : Runtime) (schema : Schema) : Runtime :=
  { s.openTransaction schema with
    cls := { s.cls with transaction := some (s.nextManager schema, schema) } }

/-- The operation of a new transaction starts in its context. -/
theorem runOpened_eq : s.runOpened schema operation =
    ((operation (s.nextManager schema) (s.opened schema)).1,
      { (operation (s.nextManager schema) (s.opened schema)).2 with cls := s.cls }) := rfl

/-- What the operation of a new transaction does. -/
theorem extends_operation (s : Runtime) (schema : Schema) (hoperation : operation.Sound) :
    Extends (s.opened schema) (operation (s.nextManager schema) (s.opened schema)).2 := by
  have hlast : s.pool.length < (s.opened schema).pool.length := by
    simp [Runtime.opened, Runtime.openTransaction]
  apply hoperation
  · intro m schema' h
    obtain ⟨rfl, rfl⟩ := Prod.mk.inj (Option.some.inj h)
    exact ⟨rfl, hlast⟩
  · exact hlast

/-- The calls of a new transaction are those of its operation. -/
theorem log_runTransaction (commitFails : Bool) :
    (runTransaction schema commitFails operation s).2.log =
      (operation (s.nextManager schema) (s.opened schema)).2.log := rfl

/-- The calls within a new transaction have opened later ones. -/
theorem lt_of_call_within (hoperation : operation.Sound) (commitFails : Bool) :
    ∀ c ∈ (runTransaction schema commitFails operation s).2.log.drop s.log.length,
      c.ambient = none → s.pool.length < c.received.transaction := by
  intro c hc hown
  have hbody := extends_operation s schema hoperation
  obtain ⟨calls, hlog, _, hcalls⟩ := hbody.log
  have hsame : (s.opened schema).log = s.log := rfl
  rw [log_runTransaction, hlog, hsame, List.drop_left] at hc
  obtain ⟨hle, _⟩ := (hcalls c hc).own hown
  have hlength : (s.opened schema).pool.length = s.pool.length + 1 := by
    simp [Runtime.opened, Runtime.openTransaction]
  omega

/-- A new transaction ends as its operation does. -/
theorem own_runTransaction (hoperation : operation.Sound) (commitFails : Bool) :
    ∃ t, (runTransaction schema commitFails operation s).2.pool[s.pool.length]? = some t ∧
      t.schema = schema ∧
      t.status = endingOf (runTransaction schema commitFails operation s).1
        ((runTransaction schema commitFails operation s).2.aborted s.pool.length) := by
  have hopened : (s.opened schema).pool[s.pool.length]? = some ⟨schema, [], false, .running⟩ := by
    simp [Runtime.opened, Runtime.openTransaction]
  obtain ⟨t, ht, hschema, _⟩ :=
    (extends_operation s schema hoperation).kept s.pool.length _ hopened
  have hclosed : (runTransaction schema commitFails operation s).2.pool[s.pool.length]? =
      some { t with
        status := endingOf (runTransaction schema commitFails operation s).1 t.aborted } := by
    simp only [runTransaction, runOpened_eq, Runtime.closeTransaction,
      getElem?_modify_transaction, ht]
    rfl
  refine ⟨_, hclosed, hschema, ?_⟩
  simp [Runtime.aborted, hclosed]

/-- **A transaction of its own** leaves the transactions before it alone. -/
theorem keeps_runTransaction (s : Runtime) (schema : Schema) (hoperation : operation.Sound)
    (commitFails : Bool) : Keeps s (runTransaction schema commitFails operation s).2 := by
  have hbody := extends_operation s schema hoperation
  have hlength : (s.opened schema).pool.length = s.pool.length + 1 := by
    simp [Runtime.opened, Runtime.openTransaction]
  have hclose : ∀ i ≠ s.pool.length,
      (runTransaction schema commitFails operation s).2.pool[i]? =
        (operation (s.nextManager schema) (s.opened schema)).2.pool[i]? := by
    intro i hi
    simp only [runTransaction, runOpened_eq, Runtime.closeTransaction,
      getElem?_modify_transaction, if_neg hi.symm]
  constructor
  · rfl
  · have hle := hbody.length
    simp only [runTransaction, runOpened_eq, Runtime.closeTransaction, List.length_modify]
    omega
  · intro i t ht
    obtain ⟨hlt, _⟩ := List.getElem?_eq_some_iff.mp ht
    rw [hclose i (by omega)]
    apply hbody.kept
    simp only [Runtime.opened, Runtime.openTransaction]
    rw [List.getElem?_append_left hlt]
    exact ht
  · obtain ⟨calls, hlog, hnodup, hcalls⟩ := hbody.log
    refine ⟨calls, hlog, hnodup, ?_⟩
    intro c hc
    apply (hcalls c hc).mono (by omega)
    intro t ht hle
    rw [hclose _ (by omega)]
    exact ⟨t, ht, rfl, rfl⟩
  · intro hs
    have hopened : (s.opened schema).Attributed :=
      ⟨(attributed_openTransaction hs).writes, (attributed_openTransaction hs).issued⟩
    have hdone := hbody.attributed hopened
    have hback : Runtime.Attributed
        { (operation (s.nextManager schema) (s.opened schema)).2 with cls := s.cls } :=
      ⟨hdone.writes, hdone.issued⟩
    exact attributed_modify hback fun _ => rfl

/-- **`runInSchema`** isolates its operation. -/
theorem extends_callInSchema (hs : s.WellScoped) (hoperation : operation.Sound)
    (commitFails : Bool) : Extends s (callInSchema schema commitFails operation s).2 := by
  unfold callInSchema
  split
  · rename_i existingManager hambient
    have hexisting : s.cls.transaction = some (existingManager, schema) := by
      unfold Context.ambient at hambient
      split at hambient
      · rename_i m schema' htransaction
        split at hambient
        · rename_i hsame
          rw [htransaction, hsame, Option.some.inj hambient]
        · cases hambient
      · cases hambient
    obtain ⟨hconnection, hlt⟩ := hs existingManager schema hexisting
    have hbody := hoperation existingManager s hs hlt
    apply extends_noteCall hbody.toKeeps
    · constructor
      · exact hbody.cls
      · exact hconnection
      · intro m hm
        exact Option.some.inj (hambient.symm.trans hm)
      · intro hown
        exact nomatch hambient.symm.trans hown
    · intro c _ _ hown
      exact nomatch hambient.symm.trans hown
    · intro i hle hlt
      exact .inl (hbody.ended i hle hlt)
  · rename_i hambient
    have hbody := keeps_runTransaction s schema hoperation commitFails
    apply extends_noteCall hbody
    · constructor
      · exact hbody.cls
      · rfl
      · intro m hm
        exact nomatch hambient.symm.trans hm
      · intro _
        exact ⟨Nat.le_refl _, own_runTransaction hoperation commitFails⟩
    · intro c hc hown _
      have hlt := lt_of_call_within hoperation commitFails c hc hown
      exact Nat.ne_of_gt hlt
    · intro i hle hlt
      by_cases hfirst : i = s.pool.length
      · exact .inr ⟨hambient, hfirst.symm⟩
      · left
        apply (extends_operation s schema hoperation).ended
        · simp only [Runtime.opened, Runtime.openTransaction, List.length_append,
            List.length_singleton]
          omega
        · simpa [runTransaction, runOpened_eq, Runtime.closeTransaction] using hlt

/-- `runInTenant` and `runInSchema` isolate their operations. -/
theorem extends_callIn (target : Target) (hs : s.WellScoped) (hoperation : operation.Sound)
    (commitFails : Bool) : Extends s (callIn target commitFails operation s).2 := by
  unfold callIn
  split
  · exact extends_callInSchema hs hoperation commitFails
  · exact extends_callInSchema hs hoperation commitFails
  · exact Extends.refl s

end Calls

/-- **Every tree of calls** is sound, by induction on the tree. -/
theorem sound_run (body : Body) : Operation.Sound body.run := by
  induction body with
  | done =>
    intro manager s _ _
    exact Extends.refl s
  | throw =>
    intro manager s _ _
    exact Extends.refl s
  | refused =>
    intro manager s _ _
    exact extends_abort manager.transaction
  | write label rest ih =>
    intro manager s hs hlt
    rw [Body.run]
    split
    · exact Extends.refl s
    have hwrite := extends_write manager hlt label
    exact hwrite.trans
      (ih manager _ (hwrite.wellScoped hs) (Nat.lt_of_lt_of_le hlt hwrite.length))
  | call target commitFails operation catches rest ihoperation ihrest =>
    intro manager s hs hlt
    have hcall := extends_callIn target hs ihoperation commitFails
    have hrest : Extends s (rest.run manager (callIn target commitFails operation.run s).2).2 :=
      hcall.trans
        (ihrest manager _ (hcall.wellScoped hs) (Nat.lt_of_lt_of_le hlt hcall.length))
    unfold Body.run
    split
    · rename_i s' hresult
      rw [hresult] at hrest
      exact hrest
    · rename_i s' hresult
      split
      · rw [hresult] at hrest
        exact hrest
      · rw [hresult] at hcall
        exact hcall

/-- **Nested calls are isolated.** Whatever the tree below a call: each operation receives a
manager on the schema that it asked for; a call within a transaction on this schema shares
it, and every other call opens one of its own, which ends as the call does; the writes of a
transaction are those made through its managers, so a write outlives the calls around it when
the call that opened its transaction returned without a refused statement in it; and the
context is the same after each call. -/
theorem nested_calls_isolated (target : Target) (operation : Body) (commitFails : Bool)
    (tenantSchema : Option Schema) :
    let s := (callIn target commitFails operation.run (Runtime.start tenantSchema)).2
    s.cls = ⟨tenantSchema, none⟩ ∧
      (∀ c ∈ s.log, c.Isolated 0 s.pool) ∧
      (ownTransactions s.log).Nodup ∧
      (∀ (i : ℕ) (t : Transaction), s.pool[i]? = some t →
        t.writes = (s.issued.filter fun w => w.1.transaction = i).map Prod.snd) ∧
      ∀ w ∈ s.issued, ∃ c ∈ s.log, c.ambient = none ∧
        c.received.transaction = w.1.transaction ∧
        ∃ t, s.pool[w.1.transaction]? = some t ∧ t.status = endingOf c.returned c.aborted := by
  have hstart : (Runtime.start tenantSchema).WellScoped := by
    intro manager schema h
    cases h
  have hcall := extends_callIn target hstart (sound_run operation) commitFails
  obtain ⟨calls, hlog, hnodup, hcalls⟩ := hcall.log
  have hlog : (callIn target commitFails operation.run (Runtime.start tenantSchema)).2.log =
      calls := hlog
  have hattributed := hcall.attributed
    ⟨fun i t ht => (by cases ht), fun w hw => (by cases hw)⟩
  subst hlog
  refine ⟨hcall.cls, hcalls, hnodup, hattributed.writes, ?_⟩
  intro w hw
  have hended := hcall.ended w.1.transaction (Nat.zero_le _) (hattributed.issued w hw)
  obtain ⟨c, hc, heq⟩ := List.mem_map.mp hended
  obtain ⟨hmem, hown⟩ := List.mem_filter.mp hc
  have hown : c.ambient = none := by simpa using hown
  obtain ⟨_, t, ht, _, hstatus⟩ := (hcalls c hmem).own hown
  exact ⟨c, hmem, hown, heq, t, heq ▸ ht, hstatus⟩

end Odiseo.Tenancy
