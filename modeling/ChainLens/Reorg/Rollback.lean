import ChainLens.Intelligence.Persist
import ChainLens.Store.Completeness

/-!
# Rollback

A rollback records the reorg, deletes what lies above the common ancestor and moves the cursor
back, in one transaction. Three intelligence tables are cleared by statements of their own; the
rest follows the foreign keys from `blocks`.

## Main definitions

* `ReorgEvent`, `Db.rollback`, `rollback`
* `Db.Reachable`: the databases that commits, persist functions and rollbacks lead to
* `Db.OrphansRemoved`: exactly the rows that refer above the ancestor are gone
* `Db.OrphansCovered`: no row refers above the ancestor past the foreign keys

## Main results

* `Db.Valid.rollback`, `Db.Reachable.valid`
* `rollback_orphansRemoved_iff`
-/

namespace ChainLens

structure ReorgEvent where
  commonAncestor : ℕ
  depth : ℕ
  orphanedFrom : ℕ
  orphanedTo : ℕ
  orphanedHashes : List Bytes
deriving DecidableEq

namespace Db

/-- `INSERT INTO reorgs`. -/
def recordReorg (event : ReorgEvent) (now : ℕ) (db : Db) : Db :=
  { db with
    reorgs := db.reorgs ++ [{
      id := db.serials.reorgs
      detectedAt := now
      commonAncestorNumber := saturate i64Max event.commonAncestor
      depth := saturate i32Max event.depth
      orphanedFrom := saturate i64Max event.orphanedFrom
      orphanedTo := saturate i64Max event.orphanedTo
      orphanedHashes := event.orphanedHashes }]
    serials := { db.serials with reorgs := db.serials.reorgs + 1 } }

/-- The deletes from `anomalies`, `mev_events` and `block_analytics`; an anomaly without a block
stays. -/
def deleteIntelligence (ancestor : ℕ) (db : Db) : Db :=
  { db with
    anomalies := db.anomalies.filter fun row => ∀ number ∈ row.blockNumber, ¬ ancestor < number
    mevEvents := db.mevEvents.filter fun row => ¬ ancestor < row.blockNumber
    blockAnalytics := db.blockAnalytics.filter fun row => ¬ ancestor < row.blockNumber }

/-- The updates of `updated_at` for the parties of the transactions above the ancestor. -/
def touchDerived (ancestor now : ℕ) (db : Db) : Db :=
  -- This runs after the deletes, when no such transaction is left.
  let orphaned := db.transactions.filter (ancestor < ·.blockNumber)
  { db with
    addressStats := db.addressStats.map fun row =>
      if row.address ∈ orphaned.map (·.fromAddr) ∨ some row.address ∈ orphaned.map (·.toAddr) then
        { row with updatedAt := now }
      else row
    contractProfiles := db.contractProfiles.map fun row =>
      if some row.address ∈ orphaned.map (·.toAddr) then { row with updatedAt := now } else row }

/-- The update of `indexer_state`: the hash is the event's first, or zeros at height 0. -/
def rewindCursor (event : ReorgEvent) (now : ℕ) (db : Db) : Db :=
  -- The first hash of the event, which is the ancestor's own only if the caller put it there.
  let ancestorHash := event.orphanedHashes.headD []
  { db with
    indexerState := { db.indexerState with
      lastIndexedNumber := some (saturate i64Max event.commonAncestor)
      lastIndexedHash :=
        some (if event.commonAncestor = 0 then List.replicate 32 0 else ancestorHash)
      updatedAt := now } }

/-- The statements of a rollback, in order. None of them can fail. -/
def rollback (event : ReorgEvent) (now : ℕ) (db : Db) : Db :=
  let ancestor := saturate i64Max event.commonAncestor
  let db := db.recordReorg event now
  let db := db.deleteIntelligence ancestor
  let db := db.deleteBlocks (ancestor < ·.number)
  let db := db.touchDerived ancestor now
  db.rewindCursor event now

end Db

/-- Roll back in one transaction. -/
def rollback (pool : PgPool) (event : ReorgEvent) : Except SqlError Unit × PgPool :=
  pool.transact fun db => .ok (db.rollback event pool.now)

/-! ## What a rollback leaves -/

theorem le_saturate_iff {max n a : ℕ} (h : n ≤ max) : n ≤ saturate max a ↔ n ≤ a := by
  unfold saturate
  split <;> omega

namespace Db

/-- The hashes of the transactions in blocks above a height. -/
def hashesAbove (db : Db) (a : ℕ) : List Bytes :=
  (db.transactions.filter (a < ·.blockNumber)).map (·.hash)

/-- The heights a rollback deletes. -/
def deletedHeights (db : Db) (event : ReorgEvent) : List ℕ :=
  (db.blocks.filter (saturate i64Max event.commonAncestor < ·.number)).map (·.number)

/-- The logs a rollback deletes. -/
def deletedLogs (db : Db) (event : ReorgEvent) : List (ℕ × ℕ) :=
  (db.logs.filter (·.blockNumber ∈ db.deletedHeights event)).map LogRow.key

/-- The transactions a rollback deletes. -/
def deletedHashes (db : Db) (event : ReorgEvent) : List Bytes :=
  (db.transactions.filter (·.blockNumber ∈ db.deletedHeights event)).map (·.hash)

section Tables

variable {db : Db} (hdb : db.Valid) (event : ReorgEvent) (now : ℕ)

include hdb

theorem blockNumber_le {number : ℕ} (h : number ∈ db.blocks.map (·.number)) :
    number ≤ i64Max := by
  obtain ⟨row, hrow, rfl⟩ := List.mem_map.mp h
  exact hdb.blocks_bigint row hrow

/-- A stored height survives exactly when it is not above the ancestor. -/
theorem not_deleted_iff {number : ℕ} (h : number ∈ db.blocks.map (·.number)) :
    number ∉ db.deletedHeights event ↔ number ≤ event.commonAncestor := by
  obtain ⟨row, hrow, rfl⟩ := List.mem_map.mp h
  rw [← le_saturate_iff (hdb.blocks_bigint row hrow), deletedHeights]
  simp only [List.mem_map, List.mem_filter, decide_eq_true_eq, not_exists, not_and]
  constructor
  · intro hnot
    by_contra hlt
    exact hnot row ⟨hrow, by omega⟩ rfl
  · rintro hle row' ⟨-, hlt⟩ heq
    omega

section Cascades

variable {Row : Type} {rows : List Row} {number : Row → ℕ}
  (hblock : ∀ row ∈ rows, number row ∈ db.blocks.map (·.number))

include hblock

/-- The rows go through their foreign key, with the blocks that are deleted. -/
theorem filter_cascade : (rows.filter fun row => !decide (number row ∈ db.deletedHeights event)) =
    rows.filter (number · ≤ event.commonAncestor) := by
  refine List.filter_congr fun row hrow => ?_
  rw [← decide_not]
  exact decide_eq_decide.mpr (not_deleted_iff hdb event (hblock row hrow))

/-- The explicit delete of such rows leaves nothing to the cascade. -/
theorem filter_delete_cascade : ((rows.filter fun row =>
      ¬ saturate i64Max event.commonAncestor < number row).filter fun row =>
        number row ∉ db.deletedHeights event) = rows.filter (number · ≤ event.commonAncestor) := by
  rw [List.filter_filter]
  refine List.filter_congr fun row hrow => ?_
  rw [← Bool.decide_and]
  refine decide_eq_decide.mpr ?_
  have hstored := hblock row hrow
  rw [not_deleted_iff hdb event hstored, ← le_saturate_iff (blockNumber_le hdb hstored)]
  omega

end Cascades

theorem deletedHashes_eq : db.deletedHashes event = db.hashesAbove event.commonAncestor := by
  unfold deletedHashes hashesAbove
  congr 1
  refine List.filter_congr fun row hrow => decide_eq_decide.mpr ?_
  have := not_deleted_iff hdb event (hdb.transactions_block row hrow)
  rw [← not_iff_not, this]
  omega

theorem rollback_blocks :
    (db.rollback event now).blocks = db.blocks.filter (·.number ≤ event.commonAncestor) := by
  show db.blocks.filter (fun row => !decide (saturate i64Max event.commonAncestor < row.number)) = _
  refine List.filter_congr fun row hrow => ?_
  rw [← decide_not]
  refine decide_eq_decide.mpr ?_
  rw [← le_saturate_iff (hdb.blocks_bigint row hrow)]
  omega

theorem rollback_transactions : (db.rollback event now).transactions =
    db.transactions.filter (·.blockNumber ≤ event.commonAncestor) :=
  filter_cascade hdb event hdb.transactions_block

theorem rollback_logs : (db.rollback event now).logs =
    db.logs.filter (·.blockNumber ≤ event.commonAncestor) :=
  filter_cascade hdb event hdb.logs_block

theorem rollback_tokenTransfers : (db.rollback event now).tokenTransfers =
    db.tokenTransfers.filter (·.blockNumber ≤ event.commonAncestor) := by
  show db.tokenTransfers.filter (fun row => decide (row.key ∉ db.deletedLogs event)) = _
  refine List.filter_congr fun row hrow => decide_eq_decide.mpr ?_
  -- Two cascades: a transfer goes with its log, and the log with its block.
  obtain ⟨log, hlog, hkey⟩ := List.mem_map.mp (hdb.tokenTransfers_log row hrow)
  have hnumber : log.blockNumber = row.blockNumber := congrArg Prod.fst hkey
  rw [← not_deleted_iff hdb event (hnumber ▸ hdb.logs_block log hlog), not_iff_not]
  constructor
  · intro hmem
    obtain ⟨log', hlog', hkey'⟩ := List.mem_map.mp hmem
    have hnumber' : log'.blockNumber = row.blockNumber := congrArg Prod.fst hkey'
    exact hnumber' ▸ of_decide_eq_true (List.mem_filter.mp hlog').2
  · intro hmem
    rw [← hnumber] at hmem
    exact List.mem_map.mpr ⟨log, List.mem_filter.mpr ⟨hlog, decide_eq_true hmem⟩, hkey⟩

theorem rollback_transactionActions : (db.rollback event now).transactionActions =
    db.transactionActions.filter (·.txHash ∉ db.hashesAbove event.commonAncestor) := by
  rw [← deletedHashes_eq hdb event]
  rfl

theorem rollback_anomalies : (db.rollback event now).anomalies =
    db.anomalies.filter fun row => (∀ number ∈ row.blockNumber, number ≤ event.commonAncestor) ∧
      ∀ hash ∈ row.txHash, hash ∉ db.hashesAbove event.commonAncestor := by
  rw [← deletedHashes_eq hdb event]
  show ((db.anomalies.filter fun row => ∀ number ∈ row.blockNumber,
      ¬ saturate i64Max event.commonAncestor < number).filter fun row =>
        ∀ hash ∈ row.txHash, hash ∉ db.deletedHashes event).filter (fun row =>
          ∀ number ∈ row.blockNumber, number ∉ db.deletedHeights event) = _
  rw [List.filter_filter, List.filter_filter]
  refine List.filter_congr fun row hrow => ?_
  simp only [← Bool.decide_and]
  refine decide_eq_decide.mpr ?_
  -- The explicit delete and the cascade from the block select the same rows.
  have hexplicit : (∀ number ∈ row.blockNumber, ¬ saturate i64Max event.commonAncestor < number) ↔
      ∀ number ∈ row.blockNumber, number ≤ event.commonAncestor := by
    refine forall₂_congr fun number hnumber => ?_
    rw [← le_saturate_iff (blockNumber_le hdb (hdb.anomalies_block row hrow number hnumber))]
    omega
  have hcascade : (∀ number ∈ row.blockNumber, number ∉ db.deletedHeights event) ↔
      ∀ number ∈ row.blockNumber, number ≤ event.commonAncestor :=
    forall₂_congr fun number hnumber =>
      not_deleted_iff hdb event (hdb.anomalies_block row hrow number hnumber)
  rw [hexplicit, hcascade]
  tauto

theorem rollback_mevEvents : (db.rollback event now).mevEvents =
    db.mevEvents.filter (·.blockNumber ≤ event.commonAncestor) :=
  filter_delete_cascade hdb event hdb.mevEvents_block

theorem rollback_blockAnalytics : (db.rollback event now).blockAnalytics =
    db.blockAnalytics.filter (·.blockNumber ≤ event.commonAncestor) :=
  filter_delete_cascade hdb event hdb.blockAnalytics_block

theorem mem_rollback_heights {number : ℕ} (h : number ∈ db.blocks.map (·.number))
    (hle : number ≤ event.commonAncestor) :
    number ∈ (db.rollback event now).blocks.map (·.number) := by
  obtain ⟨row, hrow, rfl⟩ := List.mem_map.mp h
  rw [rollback_blocks hdb]
  exact List.mem_map_of_mem (List.mem_filter.mpr ⟨hrow, decide_eq_true hle⟩)

theorem mem_rollback_hashes {hash : Bytes} (h : hash ∈ db.transactions.map (·.hash))
    (hnot : hash ∉ db.hashesAbove event.commonAncestor) :
    hash ∈ (db.rollback event now).transactions.map (·.hash) := by
  obtain ⟨row, hrow, rfl⟩ := List.mem_map.mp h
  rw [rollback_transactions hdb]
  refine List.mem_map_of_mem (List.mem_filter.mpr ⟨hrow, decide_eq_true ?_⟩)
  by_contra hlt
  refine hnot (List.mem_map_of_mem (List.mem_filter.mpr ⟨hrow, decide_eq_true ?_⟩))
  omega

/-- **A rollback keeps the constraints.** -/
theorem Valid.rollback : (db.rollback event now).Valid where
  blocks_bigint row hrow := by
    rw [rollback_blocks hdb, List.mem_filter] at hrow
    exact hdb.blocks_bigint row hrow.1
  addressTransactions_bigint row hrow := hdb.addressTransactions_bigint row hrow
  blocks_number := by
    rw [rollback_blocks hdb]
    exact hdb.blocks_number.sublist (List.filter_sublist.map _)
  blocks_hash := by
    rw [rollback_blocks hdb]
    exact hdb.blocks_hash.sublist (List.filter_sublist.map _)
  transactions_hash := by
    rw [rollback_transactions hdb]
    exact hdb.transactions_hash.sublist (List.filter_sublist.map _)
  transactions_block row hrow := by
    rw [rollback_transactions hdb, List.mem_filter, decide_eq_true_eq] at hrow
    exact mem_rollback_heights hdb event now (hdb.transactions_block row hrow.1) hrow.2
  logs_key := by
    rw [rollback_logs hdb]
    exact hdb.logs_key.sublist (List.filter_sublist.map _)
  logs_block row hrow := by
    rw [rollback_logs hdb, List.mem_filter, decide_eq_true_eq] at hrow
    exact mem_rollback_heights hdb event now (hdb.logs_block row hrow.1) hrow.2
  tokenTransfers_log row hrow := by
    rw [rollback_tokenTransfers hdb, List.mem_filter, decide_eq_true_eq] at hrow
    obtain ⟨log, hlog, hkey⟩ := List.mem_map.mp (hdb.tokenTransfers_log row hrow.1)
    have hnumber : log.blockNumber = row.blockNumber := congrArg Prod.fst hkey
    rw [rollback_logs hdb]
    exact List.mem_map.mpr
      ⟨log, List.mem_filter.mpr ⟨hlog, decide_eq_true (hnumber ▸ hrow.2)⟩, hkey⟩
  transactionActions_tx row hrow := by
    rw [rollback_transactionActions hdb, List.mem_filter, decide_eq_true_eq] at hrow
    exact mem_rollback_hashes hdb event now (hdb.transactionActions_tx row hrow.1) hrow.2
  anomalies_block row hrow number hnumber := by
    rw [rollback_anomalies hdb, List.mem_filter, decide_eq_true_eq] at hrow
    exact mem_rollback_heights hdb event now (hdb.anomalies_block row hrow.1 number hnumber)
      (hrow.2.1 number hnumber)
  anomalies_tx row hrow hash hhash := by
    rw [rollback_anomalies hdb, List.mem_filter, decide_eq_true_eq] at hrow
    exact mem_rollback_hashes hdb event now (hdb.anomalies_tx row hrow.1 hash hhash)
      (hrow.2.2 hash hhash)
  blockAnalytics_block row hrow := by
    rw [rollback_blockAnalytics hdb, List.mem_filter, decide_eq_true_eq] at hrow
    exact mem_rollback_heights hdb event now (hdb.blockAnalytics_block row hrow.1) hrow.2
  mevEvents_block row hrow := by
    rw [rollback_mevEvents hdb, List.mem_filter, decide_eq_true_eq] at hrow
    exact mem_rollback_heights hdb event now (hdb.mevEvents_block row hrow.1) hrow.2

end Tables

/-! ## Reachable databases -/

/-- The databases that commits, persist functions and rollbacks lead to, whatever happens to the
calls on the way. -/
inductive Reachable : Db → Prop where
  | migrated : Reachable migrated
  | commitBlock (store : PostgresStore) (indexed : IndexedBlock) :
      Reachable store.db → Reachable (store.commitBlock indexed).2.db
  | persistTransactionActions (pool : PgPool) (explanation : TransactionExplanation) :
      Reachable pool.db → Reachable (persistTransactionActions pool explanation).2.db
  | persistAddressStats (pool : PgPool) (intel : AddressIntelligence) :
      Reachable pool.db → Reachable (persistAddressStats pool intel).2.db
  | persistContractProfile (pool : PgPool) (intel : ContractIntelligence) :
      Reachable pool.db → Reachable (persistContractProfile pool intel).2.db
  | persistAnomaly (pool : PgPool) (anomaly : Anomaly) :
      Reachable pool.db → Reachable (persistAnomaly pool anomaly).2.db
  | persistMevEvent (pool : PgPool) (event : MevEvent) :
      Reachable pool.db → Reachable (persistMevEvent pool event).2.db
  | persistBlockAnalytics (pool : PgPool) (analytics : BlockAnalytics) :
      Reachable pool.db → Reachable (persistBlockAnalytics pool analytics).2.db
  | persistAddressRelationship (pool : PgPool) (fromAddr toAddr relationship : String)
      (count : Int) (totalValue : Option Numeric) : Reachable pool.db →
      Reachable
        (persistAddressRelationship pool fromAddr toAddr relationship count totalValue).2.db
  | rollback (pool : PgPool) (event : ReorgEvent) :
      Reachable pool.db → Reachable (ChainLens.rollback pool event).2.db

/-- **Reachable databases meet the constraints.** -/
theorem Reachable.valid {db : Db} (h : db.Reachable) : db.Valid := by
  induction h with
  | migrated => exact valid_migrated
  | commitBlock store indexed _ ih =>
    exact store.transact_preserves (fun _ hok => ih.commitBlock hok) ih
  | persistTransactionActions pool explanation _ ih =>
    exact persistTransactionActions_valid ih explanation
  | persistAddressStats pool intel _ ih => exact (persistAddressStats_refused intel pool).2 ▸ ih
  | persistContractProfile pool intel _ ih =>
    exact (persistContractProfile_refused intel pool).2 ▸ ih
  | persistAnomaly pool anomaly _ ih => exact (persistAnomaly_refused anomaly pool).2 ▸ ih
  | persistMevEvent pool event _ ih => exact (persistMevEvent_refused event pool).2 ▸ ih
  | persistBlockAnalytics pool analytics _ ih =>
    exact (persistBlockAnalytics_refused analytics pool).2 ▸ ih
  | persistAddressRelationship pool fromAddr toAddr relationship count totalValue _ ih =>
    exact (persistAddressRelationship_refused fromAddr toAddr relationship count totalValue pool).2
      ▸ ih
  | rollback pool event _ ih =>
    refine pool.transact_preserves (fun db hok => ?_) ih
    cases hok
    exact Valid.rollback ih event pool.now

/-! ## Orphaned rows -/

/-- Of every chain-derived table exactly the rows are left that refer neither to a block above
the ancestor nor to a transaction of such a block, unchanged and in their order. -/
structure OrphansRemoved (db db' : Db) (a : ℕ) : Prop where
  blocks : db'.blocks = db.blocks.filter (·.number ≤ a)
  transactions : db'.transactions = db.transactions.filter (·.blockNumber ≤ a)
  logs : db'.logs =
    db.logs.filter fun row => row.blockNumber ≤ a ∧ row.txHash ∉ db.hashesAbove a
  tokenTransfers : db'.tokenTransfers = db.tokenTransfers.filter (·.blockNumber ≤ a)
  addressTransactions : db'.addressTransactions =
    db.addressTransactions.filter fun row =>
      row.blockNumber ≤ a ∧ row.txHash ∉ db.hashesAbove a
  transactionActions : db'.transactionActions =
    db.transactionActions.filter (·.txHash ∉ db.hashesAbove a)
  anomalies : db'.anomalies = db.anomalies.filter fun row =>
    (∀ number ∈ row.blockNumber, number ≤ a) ∧ ∀ hash ∈ row.txHash, hash ∉ db.hashesAbove a
  mevEvents : db'.mevEvents = db.mevEvents.filter fun row =>
    row.blockNumber ≤ a ∧ ∀ hash ∈ row.involvedTransactions, hash ∉ db.hashesAbove a
  blockAnalytics : db'.blockAnalytics = db.blockAnalytics.filter (·.blockNumber ≤ a)

/-- No row refers above the ancestor past the foreign keys: the address index holds nothing of
the orphaned blocks, and neither a log nor an MEV event of a kept block names an orphaned
transaction. -/
structure OrphansCovered (db : Db) (a : ℕ) : Prop where
  addressTransactions : ∀ row ∈ db.addressTransactions,
    row.blockNumber ≤ a ∧ row.txHash ∉ db.hashesAbove a
  logs : ∀ row ∈ db.logs, row.blockNumber ≤ a → row.txHash ∉ db.hashesAbove a
  mevEvents : ∀ row ∈ db.mevEvents, row.blockNumber ≤ a →
    ∀ hash ∈ row.involvedTransactions, hash ∉ db.hashesAbove a

/-- Two nested selections agree exactly when the outer one implies the inner one. -/
theorem filter_eq_filter_and_iff {α : Type} {p q : α → Prop} [DecidablePred p] [DecidablePred q]
    {l : List α} :
    l.filter (fun x => p x) = l.filter (fun x => p x ∧ q x) ↔ ∀ x ∈ l, p x → q x := by
  constructor
  · intro h x hx hp
    have hmem : x ∈ l.filter fun x => p x := List.mem_filter.mpr ⟨hx, decide_eq_true hp⟩
    rw [h] at hmem
    exact (of_decide_eq_true (List.mem_filter.mp hmem).2).2
  · intro h
    refine List.filter_congr fun x hx => decide_eq_decide.mpr ?_
    exact ⟨fun hp => ⟨hp, h x hx hp⟩, fun hpq => hpq.1⟩

theorem orphansRemoved_rollback_iff {db : Db} (hdb : db.Valid) (event : ReorgEvent) (now : ℕ) :
    db.OrphansRemoved (db.rollback event now) event.commonAncestor ↔
      db.OrphansCovered event.commonAncestor := by
  constructor
  · intro h
    -- Only these three tables can refer to an orphan past a foreign key.
    refine ⟨?_, ?_, ?_⟩
    · have haddress : db.addressTransactions = db.addressTransactions.filter fun row =>
          row.blockNumber ≤ event.commonAncestor ∧
            row.txHash ∉ db.hashesAbove event.commonAncestor := h.addressTransactions
      -- No statement touches the index, so all of its rows must be kept.
      simpa using List.filter_eq_self.mp haddress.symm
    · have := h.logs
      rwa [rollback_logs hdb, filter_eq_filter_and_iff] at this
    · have := h.mevEvents
      rwa [rollback_mevEvents hdb, filter_eq_filter_and_iff] at this
  · intro h
    exact
      { blocks := rollback_blocks hdb event now
        transactions := rollback_transactions hdb event now
        logs := by rw [rollback_logs hdb, filter_eq_filter_and_iff]; exact h.logs
        tokenTransfers := rollback_tokenTransfers hdb event now
        addressTransactions := by
          show db.addressTransactions = _
          exact (List.filter_eq_self.mpr fun row hrow =>
            decide_eq_true (h.addressTransactions row hrow)).symm
        transactionActions := rollback_transactionActions hdb event now
        anomalies := rollback_anomalies hdb event now
        mevEvents := by rw [rollback_mevEvents hdb, filter_eq_filter_and_iff]; exact h.mevEvents
        blockAnalytics := rollback_blockAnalytics hdb event now }

end Db

/-- A rollback fails without effect, or runs all its statements, acknowledged or not. -/
theorem rollback_cases (pool : PgPool) (event : ReorgEvent) :
    ((∃ e, (rollback pool event).1 = .error e) ∧ (rollback pool event).2.db = pool.db) ∨
      ((rollback pool event).2.db = pool.db.rollback event pool.now ∧
        ((rollback pool event).1 = .ok () ∨ (rollback pool event).1 = .error .io)) := by
  rcases pool.transact_cases fun db => .ok (db.rollback event pool.now) with
    hfailed | ⟨db, hdb, heffect, hresult⟩
  · exact Or.inl hfailed
  · cases hdb
    exact Or.inr ⟨heffect, hresult⟩

/-- An acknowledged rollback ran all its statements. -/
theorem rollback_ok {pool pool' : PgPool} {event : ReorgEvent}
    (h : rollback pool event = (.ok (), pool')) : pool'.db = pool.db.rollback event pool.now := by
  rcases rollback_cases pool event with ⟨⟨e, he⟩, -⟩ | ⟨heffect, -⟩
  · rw [h] at he
    cases he
  · rwa [h] at heffect

/-- **When a rollback removes exactly the orphaned rows**, from any reachable database. -/
theorem rollback_orphansRemoved_iff {pool pool' : PgPool} (hreachable : pool.db.Reachable)
    {event : ReorgEvent} (h : rollback pool event = (.ok (), pool')) :
    pool.db.OrphansRemoved pool'.db event.commonAncestor ↔
      pool.db.OrphansCovered event.commonAncestor := by
  rw [rollback_ok h]
  exact Db.orphansRemoved_rollback_iff hreachable.valid event pool.now

namespace BatchLog

/-- The store with the block committed. -/
def committed : PgPool := { store with db := Db.migrated.committed indexed 0 }

/-- The reorg that orphans the block. -/
def orphaning : ReorgEvent := ⟨6, 1, 7, 7, [List.replicate 32 0]⟩

theorem committed_reachable : committed.db.Reachable := by
  have h := Db.Reachable.commitBlock store indexed .migrated
  rwa [commitBlock_eq] at h

theorem rollback_eq : rollback committed orphaning =
    (.ok (), { committed with db := committed.db.rollback orphaning 0 }) :=
  PgPool.transact_served rfl rfl

end BatchLog

/-- The address index keeps the rows of a block that was rolled back. -/
theorem rollback_keeps_address_rows :
    BatchLog.committed.db.Reachable ∧
      ∃ pool', rollback BatchLog.committed BatchLog.orphaning = (.ok (), pool') ∧
        (∃ row ∈ pool'.db.addressTransactions, row.blockNumber = 7) ∧
        ¬ BatchLog.committed.db.OrphansRemoved pool'.db 6 := by
  -- The sender's row of the orphaned block.
  have hrow : addressTransactionRow (BatchLog.indexed.transactions.head (by decide))
      (.withLastByte 19 1) 0 ∈ BatchLog.committed.db.addressTransactions := by decide
  refine ⟨BatchLog.committed_reachable, _, BatchLog.rollback_eq, ⟨_, hrow, rfl⟩, fun h => ?_⟩
  have hcovered := (Db.orphansRemoved_rollback_iff BatchLog.committed_reachable.valid
    BatchLog.orphaning 0).mp h
  exact absurd (hcovered.addressTransactions _ hrow).1 (by decide)

/-- The equivalence at that block, where both sides fail. -/
theorem rollback_batch_iff :
    ∃ pool', rollback BatchLog.committed BatchLog.orphaning = (.ok (), pool') ∧
      (BatchLog.committed.db.OrphansRemoved pool'.db 6 ↔
        BatchLog.committed.db.OrphansCovered 6) :=
  ⟨_, BatchLog.rollback_eq,
    rollback_orphansRemoved_iff BatchLog.committed_reachable BatchLog.rollback_eq⟩

end ChainLens
