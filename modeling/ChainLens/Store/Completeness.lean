import ChainLens.Decode.Block
import ChainLens.Store.Postgres

/-!
# Completeness of a block commit

A commit inserts every row under `ON CONFLICT DO NOTHING`, so two rows of one block that share a
primary key leave one row behind. On a height that holds no rows yet, the rows stored are those
of the block exactly when no two of them share a key; for the token transfers this means that
no log contributed two of them, which an ERC-1155 batch does.

## Main definitions

* `Db.Fresh`: no table has a row of the block
* `Db.HoldsExactly`: the rows at the block's height are the block's
* `IndexedBlock.Storable`: no two rows of the block share a primary key

## Main results

* `PostgresStore.commitBlock_holdsExactly_iff`
-/

namespace ChainLens

/-! ## Fresh heights, complete heights -/

/-- No table has a row at the block's height, and none of its transactions is stored. -/
structure Db.Fresh (db : Db) (indexed : IndexedBlock) : Prop where
  blocks : ∀ row ∈ db.blocks, row.number ≠ indexed.block.number
  transactions : ∀ row ∈ db.transactions, row.blockNumber ≠ indexed.block.number
  transactions_hash : ∀ t ∈ indexed.transactions, t.hash.bytes ∉ db.transactions.map (·.hash)
  logs : ∀ row ∈ db.logs, row.blockNumber ≠ indexed.block.number
  tokenTransfers : ∀ row ∈ db.tokenTransfers, row.blockNumber ≠ indexed.block.number
  addressTransactions : ∀ row ∈ db.addressTransactions, row.blockNumber ≠ indexed.block.number

/-- What a transfer moves: token, sender, recipient, value and token id. -/
def TokenTransfer.movement (t : TokenTransfer) : Bytes × Bytes × Bytes × Numeric × Numeric :=
  (t.tokenAddress.bytes, t.fromAddr.bytes, t.toAddr.bytes, u256ToNumeric t.value,
    u256ToNumeric t.tokenId)

def TokenTransferRow.movement (row : TokenTransferRow) :
    Bytes × Bytes × Bytes × Numeric × Numeric :=
  (row.tokenAddress, row.fromAddr, row.toAddr, row.value, row.tokenId)

/-- The rows at the block's height are exactly the block's, up to their order. -/
structure Db.HoldsExactly (db : Db) (indexed : IndexedBlock) : Prop where
  blocks : db.blocks.filter (·.number = indexed.block.number) =
    [blockRow indexed.block indexed.block.timestamp]
  transactions : (db.transactions.filter (·.blockNumber = indexed.block.number)).Perm
    (indexed.transactions.map transactionRow)
  logs : (db.logs.filter (·.blockNumber = indexed.block.number)).Perm (indexed.logs.map logRow)
  tokenTransfers :
    ((db.tokenTransfers.filter (·.blockNumber = indexed.block.number)).map
      TokenTransferRow.movement).Perm (indexed.tokenTransfers.map TokenTransfer.movement)
  addressTransactions : (db.addressTransactions.filter (·.blockNumber = indexed.block.number)).Perm
    (indexed.transactions.flatMap addressTransactionRows)

/-- No two rows of the block share a primary key: its height and log positions fit their columns,
no log contributed two transfers, and transactions whose stored index coincides (beyond the range
of the column) share neither sender nor recipient. -/
structure IndexedBlock.Storable (indexed : IndexedBlock) : Prop where
  number : indexed.block.number ≤ i64Max
  logs : indexed.logs.length ≤ i32Max + 1
  tokenTransfers : (indexed.tokenTransfers.map (·.logIndex)).Nodup
  transactions : indexed.transactions.Pairwise fun t u =>
    saturate i32Max t.txIndex = saturate i32Max u.txIndex →
      t.fromAddr ≠ u.fromAddr ∧ ∀ toAddr ∈ t.toAddr, toAddr ∉ u.toAddr

/-! ## Keys of the rows of one block -/

section Keys

variable {indexed : IndexedBlock}

theorem logKeys_nodup_iff (hcoherent : indexed.Coherent)
    (hindex : indexed.logs.map (·.logIndex) = List.range indexed.logs.length) :
    ((indexed.logs.map logRow).map LogRow.key).Nodup ↔ indexed.logs.length ≤ i32Max + 1 := by
  have hkeys : (indexed.logs.map logRow).map LogRow.key =
      (List.range indexed.logs.length).map fun i =>
        (saturate i64Max indexed.block.number, saturate i32Max i) := by
    rw [← hindex, List.map_map, List.map_map]
    refine List.map_congr_left fun l hl => ?_
    simp [LogRow.key, logRow, hcoherent.logs l hl]
  rw [hkeys]
  constructor
  · intro hnd
    by_contra hlong
    -- The last position that fits the column and the one after it would share a key.
    have hsame := List.inj_on_of_nodup_map hnd (x := i32Max) (y := i32Max + 1)
      (List.mem_range.mpr (by omega)) (List.mem_range.mpr (by omega))
      (by simp [saturate])
    omega
  · intro hlen
    refine List.Nodup.map_on (fun i hi j hj hij => ?_) List.nodup_range
    rw [List.mem_range] at hi hj
    simp only [Prod.mk.injEq, true_and] at hij
    rwa [saturate_of_le (by omega), saturate_of_le (by omega)] at hij

theorem logIndex_le (hlen : indexed.logs.length ≤ i32Max + 1)
    (hindex : indexed.logs.map (·.logIndex) = List.range indexed.logs.length) :
    ∀ l ∈ indexed.logs, l.logIndex ≤ i32Max := by
  intro l hl
  have hmem : l.logIndex ∈ indexed.logs.map (·.logIndex) := List.mem_map_of_mem hl
  rw [hindex, List.mem_range] at hmem
  omega

theorem transferKeys_nodup_iff (hcoherent : indexed.Coherent)
    (hindex : indexed.logs.map (·.logIndex) = List.range indexed.logs.length)
    (hlen : indexed.logs.length ≤ i32Max + 1) :
    ((indexed.tokenTransfers.map tokenTransferRow).map TokenTransferRow.key).Nodup ↔
      (indexed.tokenTransfers.map (·.logIndex)).Nodup := by
  have hkeys : (indexed.tokenTransfers.map tokenTransferRow).map TokenTransferRow.key =
      (indexed.tokenTransfers.map (·.logIndex)).map fun i =>
        (saturate i64Max indexed.block.number, i) := by
    rw [List.map_map, List.map_map]
    refine List.map_congr_left fun t ht => ?_
    obtain ⟨l, hl, hnumber, hlog⟩ := hcoherent.tokenTransfers t ht
    -- The position fits its column, so it is stored as it is.
    have hle : t.logIndex ≤ i32Max := hlog ▸ logIndex_le hlen hindex l hl
    simp [TokenTransferRow.key, tokenTransferRow, hnumber, hcoherent.logs l hl,
      saturate_of_le hle]
  rw [hkeys]
  exact List.nodup_map_iff fun i j hij => (Prod.mk.inj hij).2

theorem addressKeys_nodup_iff (hcoherent : indexed.Coherent) :
    ((indexed.transactions.flatMap addressTransactionRows).map AddressTransactionRow.key).Nodup ↔
      indexed.transactions.Pairwise fun t u =>
        saturate i32Max t.txIndex = saturate i32Max u.txIndex →
          t.fromAddr ≠ u.fromAddr ∧ ∀ toAddr ∈ t.toAddr, toAddr ∉ u.toAddr := by
  rw [List.map_flatMap, List.nodup_flatMap]
  have hself : ∀ t ∈ indexed.transactions,
      ((addressTransactionRows t).map AddressTransactionRow.key).Nodup := by
    intro t _
    cases hto : t.toAddr with
    | none => simp [addressTransactionRows, hto]
    | some toAddr =>
      simp [addressTransactionRows, hto, AddressTransactionRow.key, addressTransactionRow]
  -- Within a transaction the direction tells the two rows apart.
  rw [and_iff_right hself]
  have hpair : ∀ t ∈ indexed.transactions, ∀ u ∈ indexed.transactions,
      (((addressTransactionRows t).map AddressTransactionRow.key).Disjoint
          ((addressTransactionRows u).map AddressTransactionRow.key) ↔
        (saturate i32Max t.txIndex = saturate i32Max u.txIndex →
          t.fromAddr ≠ u.fromAddr ∧ ∀ toAddr ∈ t.toAddr, toAddr ∉ u.toAddr)) := by
    intro t ht u hu
    have hnumber : t.blockNumber = u.blockNumber := by
      rw [hcoherent.transactions t ht, hcoherent.transactions u hu]
    cases hto : t.toAddr <;> cases huo : u.toAddr <;>
      simp [addressTransactionRows, hto, huo, AddressTransactionRow.key, addressTransactionRow,
        hnumber, FixedBytes.bytes_inj, List.disjoint_left] <;> tauto
  exact List.Pairwise.iff_of_mem fun ht hu => hpair _ ht _ hu

end Keys

/-! ## What a commit leaves at the height -/

/-- A key that determines a row's height is new on a height without rows. -/
theorem key_notMem_of_height {α κ : Type} {key : α → κ} (height : κ → ℕ) {t : List α} {n : ℕ}
    (ht : ∀ r ∈ t, height (key r) ≠ n) {row : α} (hrow : height (key row) = n) :
    key row ∉ t.map key := by
  intro hmem
  obtain ⟨r, hr, hkey⟩ := List.mem_map.mp hmem
  exact ht r hr (by rw [hkey, hrow])

section Commit

variable {db : Db} {indexed : IndexedBlock} {now : ℕ}

theorem committed_blocks_at (hfresh : db.Fresh indexed) (hnumber : indexed.block.number ≤ i64Max)
    (htime : indexed.block.timestamp ≤ i64Max) :
    (db.committed indexed now).blocks.filter (·.number = indexed.block.number) =
      [blockRow indexed.block indexed.block.timestamp] := by
  have hrow : (blockRow indexed.block indexed.block.timestamp).number = indexed.block.number :=
    saturate_of_le hnumber
  have habsent : (blockRow indexed.block indexed.block.timestamp).number ∉
      db.blocks.map (·.number) := key_notMem_of_height id hfresh.blocks hrow
  rw [Db.committed, saturate_of_le htime, Table.insertIfAbsent_of_notMem habsent,
    List.filter_append, List.filter_eq_nil_iff.mpr (by simpa using hfresh.blocks)]
  simp [hrow]

/-- A block whose height does not fit the column leaves no row at that height. -/
theorem number_le_of_holdsExactly (h : (db.committed indexed now).HoldsExactly indexed) :
    indexed.block.number ≤ i64Max := by
  have hmem : blockRow indexed.block indexed.block.timestamp ∈
      (db.committed indexed now).blocks.filter (·.number = indexed.block.number) := by
    rw [h.blocks]
    exact List.mem_singleton_self _
  have hsat : saturate i64Max indexed.block.number = indexed.block.number :=
    of_decide_eq_true (List.mem_filter.mp hmem).2
  exact hsat ▸ saturate_le _ _

section AtHeight

variable (hcoherent : indexed.Coherent) (hfresh : db.Fresh indexed)
  (hnumber : indexed.block.number ≤ i64Max)

include hcoherent hfresh hnumber

theorem committed_transactions_perm_iff :
    ((db.committed indexed now).transactions.filter (·.blockNumber = indexed.block.number)).Perm
        (indexed.transactions.map transactionRow) ↔
      ((indexed.transactions.map transactionRow).map TransactionRow.hash).Nodup := by
  refine Table.insertAll_perm_iff (by simpa using hfresh.transactions) ?_ ?_
  · refine List.forall_mem_map.mpr fun t ht => decide_eq_true ?_
    rw [← hcoherent.transactions t ht] at hnumber ⊢
    exact saturate_of_le hnumber
  · exact List.forall_mem_map.mpr hfresh.transactions_hash

theorem committed_logs_perm_iff :
    ((db.committed indexed now).logs.filter (·.blockNumber = indexed.block.number)).Perm
        (indexed.logs.map logRow) ↔ ((indexed.logs.map logRow).map LogRow.key).Nodup := by
  have hrows : ∀ row ∈ indexed.logs.map logRow, row.blockNumber = indexed.block.number := by
    refine List.forall_mem_map.mpr fun l hl => ?_
    rw [← hcoherent.logs l hl] at hnumber ⊢
    exact saturate_of_le hnumber
  refine Table.insertAll_perm_iff (by simpa using hfresh.logs) (by simpa using hrows) ?_
  exact fun row hrow => key_notMem_of_height Prod.fst hfresh.logs (hrows row hrow)

theorem committed_tokenTransfers_perm_iff :
    (((db.committed indexed now).tokenTransfers.filter
        (·.blockNumber = indexed.block.number)).map TokenTransferRow.movement).Perm
        (indexed.tokenTransfers.map TokenTransfer.movement) ↔
      ((indexed.tokenTransfers.map tokenTransferRow).map TokenTransferRow.key).Nodup := by
  have hrows : ∀ row ∈ indexed.tokenTransfers.map tokenTransferRow,
      row.blockNumber = indexed.block.number := by
    refine List.forall_mem_map.mpr fun t ht => ?_
    obtain ⟨l, hl, hname, -⟩ := hcoherent.tokenTransfers t ht
    have : t.blockNumber = indexed.block.number := hname.trans (hcoherent.logs l hl)
    rw [← this] at hnumber ⊢
    exact saturate_of_le hnumber
  have hmovement : indexed.tokenTransfers.map TokenTransfer.movement =
      (indexed.tokenTransfers.map tokenTransferRow).map TokenTransferRow.movement := by
    rw [List.map_map]
    rfl
  rw [hmovement]
  refine Table.insertAll_map_perm_iff _ (by simpa using hfresh.tokenTransfers)
    (by simpa using hrows) ?_
  exact fun row hrow => key_notMem_of_height Prod.fst hfresh.tokenTransfers (hrows row hrow)

theorem committed_addressTransactions_perm_iff :
    ((db.committed indexed now).addressTransactions.filter
        (·.blockNumber = indexed.block.number)).Perm
        (indexed.transactions.flatMap addressTransactionRows) ↔
      ((indexed.transactions.flatMap addressTransactionRows).map
        AddressTransactionRow.key).Nodup := by
  have hrows : ∀ row ∈ indexed.transactions.flatMap addressTransactionRows,
      row.blockNumber = indexed.block.number := by
    intro row hrow
    obtain ⟨t, ht, hrow⟩ := List.mem_flatMap.mp hrow
    rw [← hcoherent.transactions t ht] at hnumber ⊢
    rw [(addressTransactionRows_refers hrow).1, saturate_of_le hnumber]
  refine Table.insertAll_perm_iff (by simpa using hfresh.addressTransactions)
    (by simpa using hrows) ?_
  exact fun row hrow =>
    key_notMem_of_height (·.2.1) hfresh.addressTransactions (hrows row hrow)

end AtHeight

/-- **The rows at the height are the block's exactly when no two share a key.** -/
theorem committed_holdsExactly_iff (hcoherent : indexed.Coherent)
    (hindex : indexed.logs.map (·.logIndex) = List.range indexed.logs.length)
    (hdistinct : (indexed.transactions.map (·.hash)).Nodup)
    (htime : indexed.block.timestamp ≤ i64Max) (hfresh : db.Fresh indexed) :
    (db.committed indexed now).HoldsExactly indexed ↔ indexed.Storable := by
  constructor
  · intro h
    -- The height fits the column, so each table can be read off at the height.
    have hnumber := number_le_of_holdsExactly h
    have hlogs := (logKeys_nodup_iff hcoherent hindex).mp
      ((committed_logs_perm_iff hcoherent hfresh hnumber).mp h.logs)
    refine ⟨hnumber, hlogs, ?_, ?_⟩
    · rw [← transferKeys_nodup_iff hcoherent hindex hlogs]
      exact (committed_tokenTransfers_perm_iff hcoherent hfresh hnumber).mp h.tokenTransfers
    · rw [← addressKeys_nodup_iff hcoherent]
      exact (committed_addressTransactions_perm_iff hcoherent hfresh hnumber).mp
        h.addressTransactions
  · intro h
    -- The key of a transaction is its hash, as bytes.
    have hhashes : ((indexed.transactions.map transactionRow).map TransactionRow.hash).Nodup := by
      rw [List.map_map]
      exact (List.nodup_map_iff_inj_on (List.Nodup.of_map _ hdistinct)).mpr
        fun t ht u hu heq => List.inj_on_of_nodup_map hdistinct ht hu (FixedBytes.ext heq)
    exact
      { blocks := committed_blocks_at hfresh h.number htime
        transactions := (committed_transactions_perm_iff hcoherent hfresh h.number).mpr hhashes
        logs := (committed_logs_perm_iff hcoherent hfresh h.number).mpr
          ((logKeys_nodup_iff hcoherent hindex).mpr h.logs)
        tokenTransfers := (committed_tokenTransfers_perm_iff hcoherent hfresh h.number).mpr
          ((transferKeys_nodup_iff hcoherent hindex h.logs).mpr h.tokenTransfers)
        addressTransactions :=
          (committed_addressTransactions_perm_iff hcoherent hfresh h.number).mpr
            ((addressKeys_nodup_iff hcoherent).mpr h.transactions) }

end Commit

/-! ## A batch log -/

namespace BatchLog

/-- The store the migrations leave. -/
def store : PostgresStore := ⟨Db.migrated, [], 0⟩

theorem fresh : store.db.Fresh indexed := by
  constructor <;> simp [store, Db.migrated]

/-- Its tables are empty, so that a decoded block is stored. -/
theorem commitBlock_store {block : BlockResponse} {receipts : List ReceiptResponse}
    {indexed : IndexedBlock} (hdecode : decodeBlock block receipts = .ok indexed)
    (htime : indexed.block.timestamp < 9224318016000) : store.commitBlock indexed =
      (.ok (), { store with db := Db.migrated.committed indexed 0 }) := by
  have hok : Db.commitBlock indexed store.now store.db = .ok (Db.migrated.committed indexed 0) :=
    Db.commitBlock_isOk (decodeBlock_coherent hdecode) htime (by simp [store, Db.migrated]) 0
  unfold PostgresStore.commitBlock
  rw [PgPool.transact_served rfl hok]
  rfl

theorem commitBlock_eq : store.commitBlock indexed =
    (.ok (), { store with db := Db.migrated.committed indexed 0 }) :=
  commitBlock_store decodeBlock_eq (by decide)

end BatchLog

/-! ## Completeness -/

/-- **A commit stores exactly the block on the storable blocks**: a decoded block with distinct
transaction hashes goes to a height without rows, and the commit reports success. -/
theorem PostgresStore.commitBlock_holdsExactly_iff {block : BlockResponse}
    {receipts : List ReceiptResponse} {indexed : IndexedBlock}
    (hdecode : decodeBlock block receipts = .ok indexed)
    (hdistinct : (indexed.transactions.map (·.hash)).Nodup) {store store' : PostgresStore}
    (hfresh : store.db.Fresh indexed) (hcommit : store.commitBlock indexed = (.ok (), store')) :
    store'.db.HoldsExactly indexed ↔ indexed.Storable := by
  obtain ⟨db, hdb, hstore⟩ := PostgresStore.commitBlock_ok hcommit
  -- A timestamp the column took is far below the saturation bound.
  have htime : indexed.block.timestamp ≤ i64Max := by
    have := Db.timestamp_lt_of_commitBlock hdb
    unfold i64Max
    omega
  rw [hstore, Db.commitBlock_eq hdb]
  exact committed_holdsExactly_iff (decodeBlock_coherent hdecode)
    (decodeLogs_logIndex (decodeBlock_parts hdecode).2.2.1) hdistinct htime hfresh

/-- The batch log contributes two transfers to a freshly migrated store, and one of them is
dropped. -/
theorem PostgresStore.commitBlock_drops_transfer :
    decodeBlock BatchLog.block [BatchLog.receipt] = .ok BatchLog.indexed ∧
      (BatchLog.indexed.transactions.map (·.hash)).Nodup ∧
      BatchLog.store.db.Fresh BatchLog.indexed ∧
      ∃ store', BatchLog.store.commitBlock BatchLog.indexed = (.ok (), store') ∧
        ¬ store'.db.HoldsExactly BatchLog.indexed := by
  refine ⟨BatchLog.decodeBlock_eq, by decide, BatchLog.fresh, _, BatchLog.commitBlock_eq, ?_⟩
  intro h
  have hstorable := (committed_holdsExactly_iff (decodeBlock_coherent BatchLog.decodeBlock_eq)
    (by decide) (by decide) (by decide) BatchLog.fresh).mp h
  exact absurd hstorable.tokenTransfers (by decide)

namespace Swap

/-- A transfer of a token, in the order of the two accounts. -/
def rawLog (index : ℕ) (contract sender recipient amount : UInt8) : LogResponse :=
  { BatchLog.rawLog with
    address := .withLastByte 19 contract
    topics := [transferTopic, .withLastByte 31 sender, .withLastByte 31 recipient]
    data := BatchLog.word amount
    logIndex := index }

/-- Two tokens change hands in one transaction. -/
def receipt : ReceiptResponse :=
  { BatchLog.receipt with logs := [rawLog 0 3 1 2 10, rawLog 1 4 2 1 20] }

def log (index : ℕ) (contract sender recipient amount : UInt8) : Log :=
  { BatchLog.log with
    address := .withLastByte 19 contract
    topic0 := some transferTopic
    topic1 := some (.withLastByte 31 sender)
    topic2 := some (.withLastByte 31 recipient)
    topic3 := none
    data := BatchLog.word amount
    logIndex := index }

def transfer (index : ℕ) (contract sender recipient amount : UInt8) : TokenTransfer where
  blockNumber := 7
  logIndex := index
  tokenAddress := .withLastByte 19 contract
  fromAddr := .withLastByte 19 sender
  toAddr := .withLastByte 19 recipient
  value := U256.fromBeSlice (BatchLog.word amount)
  tokenId := 0
  standard := .erc20

def indexed : IndexedBlock :=
  { BatchLog.indexed with
    logs := [log 0 3 1 2 10, log 1 4 2 1 20]
    tokenTransfers := [transfer 0 3 1 2 10, transfer 1 4 2 1 20] }

theorem decodeBlock_eq : decodeBlock BatchLog.block [receipt] = .ok indexed := by decide +kernel

theorem storable : indexed.Storable where
  number := by decide
  logs := by decide
  tokenTransfers := by decide
  transactions := List.pairwise_singleton _ _

theorem fresh : BatchLog.store.db.Fresh indexed := by
  constructor <;> simp [BatchLog.store, Db.migrated]

end Swap

/-- Two transfers with logs of their own are stored with everything else of the block. -/
theorem PostgresStore.commitBlock_swap :
    ∃ store', BatchLog.store.commitBlock Swap.indexed = (.ok (), store') ∧
      store'.db.HoldsExactly Swap.indexed ∧ store'.db.tokenTransfers.length = 2 := by
  have hcommit := BatchLog.commitBlock_store Swap.decodeBlock_eq (by decide)
  exact ⟨_, hcommit, (PostgresStore.commitBlock_holdsExactly_iff Swap.decodeBlock_eq (by decide)
    Swap.fresh hcommit).mpr Swap.storable, by decide +kernel⟩

end ChainLens
