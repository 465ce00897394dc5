import ChainLens.Intelligence.Contract

/-!
# Processing a stored block

For a block that was stored the background processor explains its transactions, refreshes the
statistics of their parties and the profiles of their recipients, and looks for anomalies and MEV.
Errors of a part are logged, and the next part goes on. Other writers come in between the calls.

## Main definitions

* `Detectors`: the analyses for anomalies and MEV, of which only the calls matter here
* `sourceDetectors`: these analyses as the source has them, as far as they get
* `processBlock`: the call of the processor for one block

## Main results

* `processBlock_every`: a call writes actions and nothing else
* `processBlock_sameIndexed`: no part writes an indexed table
* `processBlock_panics`: with the source's analyses a call for a stored block ends in a panic
-/

namespace ChainLens

/-- No statement changes anything. -/
abbrev Session.ReadOnly {α : Type} (p : Session α) : Prop :=
  p.run.Every (fun _ _ => False) fun _ => True

/-- The analyses for anomalies and MEV, which consist of `SELECT`s: `sourceDetectors`, or others. -/
structure Detectors where
  detectAnomalies : Session (List Anomaly)
  analyzeBlock : Int → Session BlockAnalytics
  detectAnomalies_readOnly : detectAnomalies.ReadOnly
  analyzeBlock_readOnly : ∀ blockNumber, (analyzeBlock blockNumber).ReadOnly

section Source

variable (largeTransfers : List TransactionRow → Session (List Anomaly))
  (blockAnalytics : BlockRow → Session BlockAnalytics)

/-- `detect_anomalies`: the average of the values comes first, and then the transactions above ten
times as much. The threshold is bound as a text, and no operator compares a number with one. -/
def detectAnomalies : Session (List Anomaly) := do
  Session.query fun _ => ()
  let found ← Session.refused (.undefinedOperator ">")
  largeTransfers found

/-- What `analyze_block` reads of a block. The count of transactions is an `INT`, which no `i64` is
read of. -/
def analyzedBlockColumns : List Sql.Column := [
  ⟨"timestamp", .text, .string⟩,
  ⟨"tx_count", .integer, .i64⟩,
  ⟨"gas_used", .bigint, .i64⟩,
  ⟨"gas_limit", .bigint, .i64⟩,
  ⟨"base_fee", .text, .option .string⟩]

/-- `analyze_block`: reading the block comes first. -/
def analyzeBlock (blockNumber : Int) : Session BlockAnalytics := do
  let block ← Session.query fun db => db.blocks.find? fun row => (row.number : Int) = blockNumber
  match block with
  | none => throw .rowNotFound
  | some row => do
    Session.lift (getColumns analyzedBlockColumns)
    blockAnalytics row

theorem detectAnomalies_fails : (detectAnomalies largeTransfers).Fails :=
  Session.fails_bind_right (Session.reads_query _) fun _ =>
    Session.fails_bind_left (Session.fails_refused _)

/-- The source's analyses, up to the call that none of them gets past. -/
def sourceDetectors : Detectors where
  detectAnomalies := detectAnomalies largeTransfers
  analyzeBlock := analyzeBlock blockAnalytics
  detectAnomalies_readOnly :=
    (detectAnomalies_fails largeTransfers).mono (fun _ _ h => h) fun _ _ => trivial
  analyzeBlock_readOnly blockNumber := by
    intro r
    cases r with
    | error e => trivial
    | ok db =>
      dsimp only [Prog.Every]
      cases db.blocks.find? fun row => (row.number : Int) = blockNumber with
      | none => trivial
      | some row => trivial

end Source

/-- `n as i64` for a `u64`. -/
def asI64 (n : ℕ) : Int := if n ≤ i64Max then n else n - (2 * i64Max + 2)

/-! ## The selections -/

/-- The hashes of the transactions at a height. -/
def selectHashes (number : ℕ) (db : Db) : List Bytes :=
  (db.transactions.filter (·.blockNumber = number)).map (·.hash)

/-- The senders and recipients at a height, each once. -/
def selectParties (number : ℕ) (transactions : List TransactionRow) : List Bytes :=
  let found := transactions.filter (·.blockNumber = number)
  (found.map (·.fromAddr) ++ found.filterMap (·.toAddr)).dedup

/-- The recipients at a height, each once. -/
def selectRecipients (number : ℕ) (transactions : List TransactionRow) : List Bytes :=
  ((transactions.filter (·.blockNumber = number)).filterMap (·.toAddr)).dedup

/-! ## The parts of a call -/

section Parts

variable (setup : Setup) (detectors : Detectors) (number : ℕ)

/-- Explain a transaction and persist its actions. -/
def processTransaction (hash : Bytes) : Session Unit :=
  (explainTransaction setup (hexText hash)).handle fun explanation =>
    (Session.persistTransactionActions explanation.toTransactionExplanation).ignore

def processTransactions : Session Unit := do
  let hashes ← Session.query (selectHashes number)
  Session.forEach hashes (processTransaction setup)

/-- Analyze an address and persist its statistics. -/
def processAddress (address : Bytes) : Session Unit :=
  (analyzeAddress setup (hexText address)).handle fun intel =>
    (Session.exec (persistAddressStats · intel)).ignore

def processAddresses : Session Unit := do
  let addresses ← Session.query fun db => selectParties number db.transactions
  Session.forEach addresses (processAddress setup)

/-- Analyze a contract and persist its profile. -/
def processContract (address : Bytes) : Session Unit :=
  (analyzeContract setup (hexText address)).handle fun intel =>
    (Session.exec (persistContractProfile · intel.toContractIntelligence)).ignore

def processContracts : Session Unit := do
  let contracts ← Session.query fun db => selectRecipients number db.transactions
  Session.forEach contracts (processContract setup)

/-- A statement whose result is dropped. -/
def dropResult {α : Type} (stmt : PgPool → Except SqlError α × PgPool) : Statement := fun pool =>
  ((stmt pool).1.map fun _ => (), (stmt pool).2)

def processAnomalies : Session Unit :=
  detectors.detectAnomalies.handle fun anomalies =>
    Session.forEach anomalies fun anomaly =>
      (Session.exec (dropResult (persistAnomaly · anomaly))).ignore

def processMev (blockNumber : ℕ) : Session Unit :=
  (detectors.analyzeBlock (asI64 blockNumber)).handle fun analytics => do
    (Session.exec (persistBlockAnalytics · analytics)).ignore
    Session.forEach analytics.mevEvents fun event =>
      (Session.exec (dropResult (persistMevEvent · event))).ignore

end Parts

/-- `process_block`, which returns an error only if one of its selections fails. -/
def processBlock (setup : Setup) (detectors : Detectors) (blockNumber : ℕ) : Session Unit := do
  let number := saturate i64Max blockNumber
  processTransactions setup number
  processAddresses setup number
  processContracts setup number
  processAnomalies detectors
  processMev detectors blockNumber

/-! ## What each part writes -/

/-- The database changed in nothing but the action rows. -/
def Db.WritesActions (db db' : Db) : Prop :=
  ∃ rows serials, db' = { db with transactionActions := rows, serials := serials }

/-- The database did not change. -/
abbrev PgPool.SameDb (pool pool' : PgPool) : Prop := pool'.db = pool.db

section Writes

variable {setup : Setup} {detectors : Detectors} {number blockNumber : ℕ} {pool : PgPool}

theorem insertTransactionAction_writes {row : ℕ → TransactionActionRow} :
    pool.db.WritesActions (pool.transact (Db.insertTransactionAction row)).2.db := by
  refine pool.transact_preserves (fun db h => ?_) ⟨_, _, rfl⟩
  rw [Db.insertTransactionAction_eq] at h
  split at h <;> cases h
  exact ⟨_, _, rfl⟩

theorem persistTransactionActions_writes (explanation : TransactionExplanation) :
    (Session.persistTransactionActions explanation).run.Every
      (fun pool pool' => pool.db.WritesActions pool'.db) fun _ => True := by
  unfold Session.persistTransactionActions
  cases hexBytes explanation.txHash "invalid tx hash" with
  | error e => trivial
  | ok txHash =>
    show (Session.persistActions txHash explanation.actions).run.Every _ _
    induction explanation.actions with
    | nil => trivial
    | cons action actions ih =>
      unfold Session.persistActions
      cases actionRow txHash action with
      | error e => trivial
      | ok row =>
        refine ⟨fun _ => insertTransactionAction_writes, fun r => ?_⟩
        cases r with
        | ok _ => exact ih
        | error e => trivial

/-- A refused statement whose result is dropped. -/
theorem every_refused {α : Type} {call : PgPool → Except SqlError α × PgPool} (h : Refused call) :
    (Session.exec (dropResult call)).ignore.run.Every PgPool.SameDb (· = .ok ()) :=
  Session.every_ignore (Session.every_exec fun pool => (h pool).2)

theorem processTransaction_writes (hash : Bytes) : (processTransaction setup hash).run.Every
    (fun pool pool' => pool.db.WritesActions pool'.db) (· = .ok ()) :=
  Session.every_handle ((explainTransaction_reads _).every _) fun _ =>
    Session.every_ignore (persistTransactionActions_writes _)

theorem processTransactions_writes : (processTransactions setup number).run.Every
    (fun pool pool' => pool.db.WritesActions pool'.db) fun _ => True :=
  Session.every_selection processTransaction_writes

/-- No analysis of an address succeeds, so that nothing is persisted for it. -/
theorem processAddress_same (address : Bytes) :
    (processAddress setup address).run.Every PgPool.SameDb (· = .ok ()) :=
  Session.every_handle_fails (analyzeAddress_fails setup _)

theorem processAddresses_same :
    (processAddresses setup number).run.Every PgPool.SameDb fun _ => True :=
  Session.every_selection processAddress_same

theorem processContract_same (address : Bytes) :
    (processContract setup address).run.Every PgPool.SameDb (· = .ok ()) :=
  Session.every_handle ((analyzeContract_reads _).every _) fun intel =>
    Session.every_ignore (Session.every_exec fun pool =>
      (persistContractProfile_refused intel.toContractIntelligence pool).2)

theorem processContracts_same :
    (processContracts setup number).run.Every PgPool.SameDb fun _ => True :=
  Session.every_selection processContract_same

theorem processAnomalies_same :
    (processAnomalies detectors).run.Every PgPool.SameDb (· = .ok ()) :=
  Session.every_handle
    (detectors.detectAnomalies_readOnly.mono (fun _ _ => False.elim) fun _ h => h)
    fun _ => Session.every_forEach fun anomaly => every_refused (persistAnomaly_refused anomaly)

theorem processMev_same :
    (processMev detectors blockNumber).run.Every PgPool.SameDb (· = .ok ()) := by
  refine Session.every_handle
    ((detectors.analyzeBlock_readOnly _).mono (fun _ _ => False.elim) fun _ h => h)
    fun analytics => Session.every_bind ?_
  have hrow : (Session.exec (persistBlockAnalytics · analytics)).ignore.run.Every PgPool.SameDb
      (· = .ok ()) :=
    Session.every_ignore (Session.every_exec fun pool =>
      (persistBlockAnalytics_refused analytics pool).2)
  refine hrow.mono (fun _ _ h => h) fun r hr => ?_
  subst hr
  exact Session.every_forEach fun event => every_refused (persistMevEvent_refused event)

/-- **A call writes actions and nothing else**: what writing actions entails and staying the same
does, every statement of a call does. -/
theorem processBlock_every {R : PgPool → PgPool → Prop}
    (hactions : ∀ pool pool', pool.db.WritesActions pool'.db → R pool pool')
    (hsame : ∀ pool pool', pool.SameDb pool' → R pool pool') :
    (processBlock setup detectors blockNumber).run.Every R fun _ => True := by
  unfold processBlock
  apply Session.every_then (processTransactions_writes.mono hactions fun _ h => h)
  apply Session.every_then (processAddresses_same.mono hsame fun _ h => h)
  apply Session.every_then (processContracts_same.mono hsame fun _ h => h)
  apply Session.every_then (processAnomalies_same.mono hsame fun _ _ => trivial)
  exact processMev_same.mono hsame fun _ _ => trivial

/-- **A call beside other writers**: its first part, since the others leave the database. -/
theorem processBlock_always {later : Db → Db → Prop} {good : PgPool → PgPool → Prop}
    {inv : Db → Prop}
    (htransactions : (processTransactions setup (saturate i64Max blockNumber)).run.Always
      PgPool.db later good (fun _ _ => True) inv)
    (hsame : ∀ pool pool', pool.SameDb pool' → good pool pool') :
    (processBlock setup detectors blockNumber).run.Always PgPool.db later good
      (fun _ _ => True) inv := by
  unfold processBlock
  refine Session.always_then htransactions fun _ _ => ?_
  refine Session.always_then ?_ fun _ _ => ?_
  · exact (processAddresses_same.mono hsame fun _ h => h).always
  refine Session.always_then ?_ fun _ _ => ?_
  · exact (processContracts_same.mono hsame fun _ h => h).always
  refine Session.always_then ?_ fun _ _ => ?_
  · exact (processAnomalies_same.mono hsame fun _ _ => trivial).always
  · exact (processMev_same.mono hsame fun _ _ => trivial).always

/-- **A call for a stored block ends in a panic** with the source's analyses, unless one of its
queries fails, whatever happens beside it. -/
theorem processBlock_panics {largeTransfers : List TransactionRow → Session (List Anomaly)}
    {blockAnalytics : BlockRow → Session BlockAnalytics} {later : Db → Db → Prop} {n : ℕ}
    (hn : n ≤ i64Max) :
    (processBlock setup (sourceDetectors largeTransfers blockAnalytics) n).run.Answers later
      (fun _ _ => False) fun db => n ∈ db.blocks.map (·.number) := by
  have hsaturate : asI64 n = n := if_pos hn
  unfold processBlock
  refine Session.answers_then (Session.answers_selection processTransaction_writes) fun i hi => ?_
  refine Session.answers_then (Session.answers_selection processAddress_same) fun j hj => ?_
  refine Session.answers_then (Session.answers_selection processContract_same) fun k hk => ?_
  refine Session.answers_then (Session.answers_of_every processAnomalies_same) fun l hl => ?_
  rw [processMev, hsaturate]
  intro db hdb
  have hstored := hi db (hj db (hk db (hl db hdb)))
  obtain ⟨row, hrow, rfl⟩ := List.mem_map.mp hstored
  dsimp only
  cases hfound : db.blocks.find? fun r => (r.number : Int) = (row.number : ℕ) with
  | none => exact absurd (decide_eq_true rfl) (List.find?_eq_none.mp hfound row hrow)
  | some found => trivial

/-- **No part writes an indexed table.** -/
theorem processBlock_sameIndexed : (processBlock setup detectors blockNumber).run.Every
    (fun pool pool' => pool.db.SameIndexed pool'.db) fun _ => True := by
  apply processBlock_every
  · rintro pool pool' ⟨rows, serials, h⟩
    rw [h]
    exact ⟨rfl, rfl, rfl, rfl, rfl, rfl, rfl⟩
  · intro pool pool' h
    rw [h]

end Writes

end ChainLens
