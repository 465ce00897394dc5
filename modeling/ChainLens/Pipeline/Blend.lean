import ChainLens.Decode.Consistency
import ChainLens.Pipeline.Committer

/-!
# One block, two requests

The committer asks for a block and for its receipts by number, in separate requests, and the node
may change to a competing fork in between. The decoder compares receipts with transactions by
transaction hash alone, which competing blocks share; the block hash a receipt names, the number of
the block and the transaction a log names are never looked at. A header or a log that is stored at
the height already stays. So what is stored is one block exactly when the replies already were, and
what was stored before is of the same block.

## Main definitions

* `StoresBlock`: a call stored the block it decoded from these replies
* `OneBlock`: the rows at the requested height come from one block of that height
* `BelongTogether`: the replies, and what was stored at the height before, come from one block

## Main results

* `commitBlock_changes`: a call that changes the database rolls back or stores a block
* `storesBlock_oneBlock_iff`: when a call leaves one block at the height
-/

namespace ChainLens

/-- A call for block `n` stored `indexed`, decoded from these replies. -/
structure StoresBlock (client : EthClient) (db : Db) (n : ℕ) (block : BlockResponse)
    (receipts : List ReceiptResponse) (indexed : IndexedBlock) (db' : Db) : Prop where
  fetched : client.getBlockByNumber n true = .ok (some block)
  linked : ¬ Unlinked db n block.parentHash
  fetchedReceipts : fetchReceipts client n block = .ok receipts
  decoded : decodeBlock block receipts = .ok indexed
  committed : ∃ now, db.commitBlock indexed now = .ok db'

/-- A call that changes the database rolls back or stores a block. -/
theorem commitBlock_changes (client : EthClient) (store : PostgresStore) (n maxReorgDepth : ℕ) :
    (commitBlock client store n maxReorgDepth).2.db = store.db ∨
      (∃ a now, (commitBlock client store n maxReorgDepth).2.db =
        store.db.rollback (reorgEvent a n) now) ∨
      ∃ block receipts indexed, StoresBlock client store.db n block receipts indexed
        (commitBlock client store n maxReorgDepth).2.db := by
  have hstep := @commitBlock_step client store n maxReorgDepth
  generalize (commitBlock client store n maxReorgDepth).1 = result at hstep
  generalize (commitBlock client store n maxReorgDepth).2.db = db' at hstep ⊢
  cases hstep with
  | failed => exact Or.inl rfl
  | rolledBack => exact Or.inr (Or.inl ⟨_, _, rfl⟩)
  | committed hblock hlinked hreceipts hdecode hdb =>
    exact Or.inr (Or.inr ⟨_, _, _, hblock, hlinked, hreceipts, hdecode, _, hdb⟩)

/-! ## Positions -/

/-- The `j`-th log of the block is in the `i`-th receipt. -/
inductive LogAt : List ReceiptResponse → ℕ → ℕ → ReceiptResponse → LogResponse → Prop where
  | here {receipt : ReceiptResponse} {receipts : List ReceiptResponse} {j : ℕ}
      {rawLog : LogResponse} (h : receipt.logs[j]? = some rawLog) :
      LogAt (receipt :: receipts) 0 j receipt rawLog
  | there {first receipt : ReceiptResponse} {receipts : List ReceiptResponse} {i j : ℕ}
      {rawLog : LogResponse} (h : LogAt receipts i j receipt rawLog) :
      LogAt (first :: receipts) (i + 1) (first.logs.length + j) receipt rawLog

section Positions

variable {receipts : List ReceiptResponse} {i i' j : ℕ} {receipt receipt' : ReceiptResponse}
  {rawLog rawLog' : LogResponse}

theorem LogAt.getElem? (h : LogAt receipts i j receipt rawLog) : receipts[i]? = some receipt := by
  induction h with
  | here => rfl
  | there _ ih => exact ih

theorem LogAt.log (h : LogAt receipts i j receipt rawLog) :
    (blockLogs receipts)[j]? = some rawLog := by
  induction h with
  | @here receipt receipts j rawLog h =>
    have hj : j < receipt.logs.length := (List.getElem?_eq_some_iff.mp h).1
    rw [blockLogs, List.flatMap_cons, List.getElem?_append_left hj]
    exact h
  | there _ ih =>
    rw [blockLogs, List.flatMap_cons, List.getElem?_append_right (Nat.le_add_right _ _),
      Nat.add_sub_cancel_left]
    exact ih

/-- Every log is in a receipt. -/
theorem exists_logAt (h : (blockLogs receipts)[j]? = some rawLog) :
    ∃ i receipt, LogAt receipts i j receipt rawLog := by
  induction receipts generalizing j with
  | nil => cases h
  | cons first receipts ih =>
    rw [blockLogs, List.flatMap_cons] at h
    by_cases hj : j < first.logs.length
    · rw [List.getElem?_append_left hj] at h
      exact ⟨0, first, .here h⟩
    · -- The log is in a later receipt.
      obtain ⟨j', rfl⟩ := Nat.exists_eq_add_of_le (Nat.le_of_not_lt hj)
      rw [List.getElem?_append_right (Nat.le_add_right _ _), Nat.add_sub_cancel_left] at h
      obtain ⟨i, receipt, hlog⟩ := ih h
      exact ⟨i + 1, receipt, .there hlog⟩

/-- A log is in one receipt. -/
theorem LogAt.unique (h : LogAt receipts i j receipt rawLog)
    (h' : LogAt receipts i' j receipt' rawLog') : i = i' := by
  induction h generalizing i' with
  | @here receipt receipts j rawLog h =>
    have hj : j < receipt.logs.length := (List.getElem?_eq_some_iff.mp h).1
    cases h' with
    | here => rfl
    | there => omega
  | @there first receipt receipts i j rawLog _ ih =>
    generalize hk : first.logs.length + j = k at h'
    cases h' with
    | here h' =>
      have hj := (List.getElem?_eq_some_iff.mp h').1
      omega
    | there h' =>
      obtain rfl := Nat.add_left_cancel hk
      rw [ih h']

end Positions

/-! ## One block -/

/-- The row is of a log of the block, at the log's position, under the hash of the transaction
whose receipt contained the log. -/
def LogRow.ComesFrom (row : LogRow) (block : BlockResponse) (receipts : List ReceiptResponse) :
    Prop :=
  ∃ i receipt rawLog tx, LogAt receipts i row.logIndex receipt rawLog ∧
    block.transactions[i]? = some tx ∧
    row = logRow (rawLog.toLog block.number row.logIndex) ∧ row.txHash = tx.hash.bytes

/-- What is stored at height `n` comes from one block: the replied block has that number, the stored
header is its, every receipt names the stored header, and every stored log is one of its logs. -/
structure OneBlock (n : ℕ) (block : BlockResponse) (receipts : List ReceiptResponse) (db : Db) :
    Prop where
  number : block.number = n
  header : ∀ row ∈ db.blocks, row.number = saturate i64Max n → row.hash = block.hash.bytes
  blockHash : ∃ row ∈ db.blocks, row.number = saturate i64Max n ∧
    ∀ receipt ∈ receipts, receipt.blockHash.bytes = row.hash
  logs : ∀ row ∈ db.logs, row.blockNumber = saturate i64Max n → row.ComesFrom block receipts

/-- The replies come from one block of height `n`, and what is stored there already comes from it
as well: the block has that number, every receipt names the block, and so does a stored header; the
stored logs are logs of the block, and every other log names the transaction of its receipt. -/
structure BelongTogether (db : Db) (n : ℕ) (block : BlockResponse)
    (receipts : List ReceiptResponse) : Prop where
  number : block.number = n
  blockHash : ∀ receipt ∈ receipts, receipt.blockHash = block.hash
  header : ∀ row ∈ db.blocks, row.number = saturate i64Max n → row.hash = block.hash.bytes
  stored : ∀ row ∈ db.logs, row.blockNumber = saturate i64Max n → row.ComesFrom block receipts
  logs : ∀ i j receipt rawLog, LogAt receipts i j receipt rawLog → j ≤ i32Max →
    (saturate i64Max n, j) ∉ db.logs.map LogRow.key →
      rawLog.transactionHash = receipt.transactionHash

section Decoded

variable {block : BlockResponse} {receipts : List ReceiptResponse} {indexed : IndexedBlock}
  {db : Db} {now : ℕ}

/-- The receipts' transactions are at their positions. -/
theorem decodeBlock_transaction (h : decodeBlock block receipts = .ok indexed) {i : ℕ}
    {receipt : ReceiptResponse} (hreceipt : receipts[i]? = some receipt) :
    ∃ tx, block.transactions[i]? = some tx ∧ tx.hash = receipt.transactionHash := by
  have htransactions := (decodeBlock_parts h).2.1
  have hlength := (length_decodeTransactions htransactions).2
  have hi : i < block.transactions.length := by
    rw [hlength]
    exact (List.getElem?_eq_some_iff.mp hreceipt).1
  have htx := List.getElem?_eq_getElem hi
  exact ⟨_, htx, (decodeTransactions_getElem htransactions htx hreceipt).1⟩

/-- The row of a log has its position as its index, as far as it fits the column. -/
theorem toLog_rowKey (rawLog : LogResponse) (number j : ℕ) :
    (logRow (rawLog.toLog number j)).key = (saturate i64Max number, saturate i32Max j) := rfl

/-- The first row with a key is that of the log at the position. -/
theorem find?_logRows (h : decodeBlock block receipts = .ok indexed) {row : LogRow} :
    (indexed.logs.map logRow).find? (fun other => other.key = row.key) = some row ↔
      ∃ (j : ℕ) (rawLog : LogResponse), j ≤ i32Max ∧ (blockLogs receipts)[j]? = some rawLog ∧
        row = logRow (rawLog.toLog block.number j) := by
  have hrows : ∀ j, (indexed.logs.map logRow)[j]? =
      (blockLogs receipts)[j]?.map fun rawLog : LogResponse =>
        logRow (rawLog.toLog block.number j) := by
    intro j
    rw [List.getElem?_map, (decodeBlock_logs h).2, getElem?_decodedLogs, Option.map_map]
    rfl
  rw [List.find?_eq_some_iff_getElem]
  constructor
  · rintro ⟨-, i, hi, hrow, hfirst⟩
    have hsome := hrows i
    rw [List.getElem?_eq_getElem hi, hrow] at hsome
    obtain ⟨rawLog, hlog, hmake⟩ := Option.map_eq_some_iff.mp hsome.symm
    refine ⟨i, rawLog, ?_, hlog, hmake.symm⟩
    -- A later log has the key of the last one whose position fits.
    by_contra hover
    have hlast : i32Max < i := Nat.lt_of_not_le hover
    have hbefore := hrows i32Max
    rw [List.getElem?_eq_getElem (hlast.trans hi)] at hbefore
    obtain ⟨other, -, hother⟩ := Option.map_eq_some_iff.mp hbefore.symm
    have hne := hfirst i32Max hlast
    rw [← hother, ← hmake, toLog_rowKey, toLog_rowKey, saturate_of_le (le_refl _)] at hne
    have hsame : saturate i32Max i = i32Max := by
      unfold saturate
      exact if_neg hover
    simp [hsame] at hne
  · rintro ⟨j, rawLog, hj, hlog, rfl⟩
    have hsome := hrows j
    rw [hlog, Option.map_some] at hsome
    obtain ⟨hlt, hrow⟩ := List.getElem?_eq_some_iff.mp hsome
    refine ⟨decide_eq_true rfl, j, hlt, hrow, fun i hi => ?_⟩
    have hbefore := hrows i
    rw [List.getElem?_eq_getElem (hi.trans hlt)] at hbefore
    obtain ⟨other, -, hother⟩ := Option.map_eq_some_iff.mp hbefore.symm
    rw [← hother, toLog_rowKey, toLog_rowKey, saturate_of_le hj, saturate_of_le (hi.le.trans hj)]
    simp [hi.ne]

/-- **What the commit leaves in the logs**: the rows that were there, and a row for each log whose
key is free. -/
theorem mem_committed_logs (h : decodeBlock block receipts = .ok indexed) {row : LogRow} :
    row ∈ (db.committed indexed now).logs ↔
      row ∈ db.logs ∨ row.key ∉ db.logs.map LogRow.key ∧
        ∃ (j : ℕ) (rawLog : LogResponse), j ≤ i32Max ∧ (blockLogs receipts)[j]? = some rawLog ∧
          row = logRow (rawLog.toLog block.number j) := by
  rw [← find?_logRows h]
  exact Table.mem_insertAll_iff

/-- The key of a log whose position fits its column. -/
theorem toLog_rowKey_of_le {rawLog : LogResponse} {n j : ℕ} (hnumber : block.number = n)
    (hj : j ≤ i32Max) : (logRow (rawLog.toLog block.number j)).key = (saturate i64Max n, j) := by
  rw [toLog_rowKey, hnumber, saturate_of_le hj]

/-- If one block is at the height after the commit, then the replies and what was stored at the
height belong together. -/
theorem OneBlock.belongTogether {n : ℕ} (h : decodeBlock block receipts = .ok indexed)
    (hone : OneBlock n block receipts (db.committed indexed now)) :
    BelongTogether db n block receipts := by
  obtain ⟨row, hrow, hheight, hreceipts⟩ := hone.blockHash
  have hhead := hone.header row hrow hheight
  refine ⟨hone.number, fun receipt hreceipt => ?_, fun row hrow => ?_, fun row hrow => ?_, ?_⟩
  · exact FixedBytes.ext ((hreceipts receipt hreceipt).trans hhead)
  · exact hone.header row (Table.mem_insertIfAbsent_of_mem hrow)
  · exact hone.logs row (Table.mem_insertAll_of_mem hrow _)
  · intro i j receipt rawLog hlog hj hfree
    -- The row of the log is stored, and the log it comes from is this one.
    have hkey := @toLog_rowKey_of_le block rawLog n j hone.number hj
    have hstored : logRow (rawLog.toLog block.number j) ∈ (db.committed indexed now).logs :=
      (mem_committed_logs h).mpr (.inr ⟨hkey ▸ hfree, j, rawLog, hj, hlog.log, rfl⟩)
    obtain ⟨i', receipt', rawLog', tx, hlog', htx, -, hnames⟩ :=
      hone.logs _ hstored (congrArg Prod.fst hkey)
    have hindex : (logRow (rawLog.toLog block.number j)).logIndex = j := congrArg Prod.snd hkey
    rw [hindex] at hlog'
    obtain rfl := hlog.unique hlog'
    obtain ⟨tx', htx', hreceipt⟩ := decodeBlock_transaction h hlog.getElem?
    obtain rfl := Option.some.inj (htx.symm.trans htx')
    exact (FixedBytes.ext hnames).trans hreceipt

/-- A row that is added for a log which names the transaction of its receipt comes from the
block. -/
theorem comesFrom_of_names {n j : ℕ} {receipt : ReceiptResponse} {rawLog : LogResponse} {i : ℕ}
    (h : decodeBlock block receipts = .ok indexed) (hnumber : block.number = n) (hj : j ≤ i32Max)
    (hlog : LogAt receipts i j receipt rawLog)
    (hnames : rawLog.transactionHash = receipt.transactionHash) :
    (logRow (rawLog.toLog block.number j)).ComesFrom block receipts := by
  obtain ⟨tx, htx, hreceipt⟩ := decodeBlock_transaction h hlog.getElem?
  have hindex : (logRow (rawLog.toLog block.number j)).logIndex = j :=
    congrArg Prod.snd (toLog_rowKey_of_le hnumber hj)
  refine ⟨i, receipt, rawLog, tx, ?_, htx, ?_, ?_⟩
  · rwa [hindex]
  · rw [hindex]
  · exact congrArg FixedBytes.bytes (hnames.trans hreceipt.symm)

/-- If they belong together, then one block is at the height after the commit. -/
theorem BelongTogether.oneBlock {n : ℕ} (h : decodeBlock block receipts = .ok indexed)
    (htogether : BelongTogether db n block receipts) :
    OneBlock n block receipts (db.committed indexed now) := by
  obtain ⟨hnumber, hhash, -, -⟩ := decodeBlock_header h
  have hheader : ∀ row ∈ (db.committed indexed now).blocks, row.number = saturate i64Max n →
      row.hash = block.hash.bytes := by
    intro row hrow hheight
    rcases Table.mem_of_mem_insertIfAbsent hrow with hold | rfl
    · exact htogether.header row hold hheight
    · exact congrArg FixedBytes.bytes hhash
  refine ⟨htogether.number, hheader, ?_, fun row hrow hheight => ?_⟩
  · have hkept : saturate i64Max indexed.block.number ∈
        (db.committed indexed now).blocks.map (·.number) :=
      Table.key_mem_insertIfAbsent BlockRow.number db.blocks _
    obtain ⟨row, hrow, hheight⟩ := List.mem_map.mp hkept
    rw [hnumber, htogether.number] at hheight
    refine ⟨row, hrow, hheight, fun receipt hreceipt => ?_⟩
    rw [htogether.blockHash receipt hreceipt, hheader row hrow hheight]
  · rcases (mem_committed_logs h).mp hrow with hold | ⟨hfree, j, rawLog, hj, hlog, rfl⟩
    · exact htogether.stored row hold hheight
    · obtain ⟨i, receipt, hat⟩ := exists_logAt hlog
      rw [toLog_rowKey_of_le htogether.number hj] at hfree
      exact comesFrom_of_names h htogether.number hj hat
        (htogether.logs i j receipt rawLog hat hj hfree)

end Decoded

/-- **When a call stores one block**: exactly when the replies and what is stored at the height
belong together. -/
theorem storesBlock_oneBlock_iff {client : EthClient} {store : PostgresStore}
    {n maxReorgDepth : ℕ} {block : BlockResponse} {receipts : List ReceiptResponse}
    {indexed : IndexedBlock}
    (h : StoresBlock client store.db n block receipts indexed
      (commitBlock client store n maxReorgDepth).2.db) :
    OneBlock n block receipts (commitBlock client store n maxReorgDepth).2.db ↔
      BelongTogether store.db n block receipts := by
  obtain ⟨now, hcommitted⟩ := h.committed
  rw [Db.commitBlock_eq hcommitted]
  exact ⟨fun hone => hone.belongTogether h.decoded, fun htogether => htogether.oneBlock h.decoded⟩

namespace Switching

/-- A store whose cursor is the parent of the batch block. -/
def store : PostgresStore :=
  ⟨{ Db.migrated with
      indexerState := ⟨some 6, some BatchLog.block.parentHash.bytes, none, 0⟩ }, [], 0⟩

/-- The receipt of the same transaction in a competing block. -/
def receipt : ReceiptResponse := { BatchLog.receipt with blockHash := .withLastByte 31 77 }

/-- A node that changes to a competing fork behind the block reply when `switches` says so. -/
def client (switches : Bool) : EthClient where
  getBlockByNumber _ _ := .ok (some BatchLog.block)
  getBlockReceipts _ := .ok [if switches then receipt else BatchLog.receipt]
  getTransactionReceipt _ := .ok none
  supportsBlockReceipts := true

theorem decodes (switches : Bool) :
    decodeBlock BatchLog.block [if switches then receipt else BatchLog.receipt] =
      .ok BatchLog.indexed := by
  -- The decoder does not look at the block hash of a receipt.
  cases switches <;> exact BatchLog.decodeBlock_eq

theorem linked : ¬ Unlinked store.db 7 BatchLog.block.parentHash := fun h => h.2 rfl

theorem stores (switches : Bool) : StoresBlock (client switches) store.db 7 BatchLog.block
    [if switches then receipt else BatchLog.receipt] BatchLog.indexed
    (commitBlock (client switches) store 7 128).2.db := by
  have hcommit := @commitBlock_accepts (client switches) store 7 128 BatchLog.block _ _ rfl linked
    rfl (decodes switches) (by decide) (by simp [store, Db.migrated]) rfl
  rw [hcommit]
  refine ⟨rfl, linked, rfl, decodes switches, 0, ?_⟩
  exact Db.commitBlock_isOk (decodeBlock_coherent (decodes switches)) (by decide)
    (by simp [store, Db.migrated]) 0

end Switching

/-- The node switches, and the block is stored with the receipt and the log of another one. -/
theorem commitBlock_blends :
    (commitBlock (Switching.client true) Switching.store 7 128).1 = .ok false ∧
      StoresBlock (Switching.client true) Switching.store.db 7 BatchLog.block [Switching.receipt]
        BatchLog.indexed (commitBlock (Switching.client true) Switching.store 7 128).2.db ∧
      ¬ OneBlock 7 BatchLog.block [Switching.receipt]
        (commitBlock (Switching.client true) Switching.store 7 128).2.db := by
  refine ⟨by decide +kernel, Switching.stores true, fun hone => ?_⟩
  obtain ⟨row, hrow, hheight, hreceipts⟩ := hone.blockHash
  have hhash := (hreceipts Switching.receipt List.mem_cons_self).trans
    (hone.header row hrow hheight)
  exact absurd hhash (by decide)

/-- Without the switch one block is stored. -/
theorem commitBlock_steady_oneBlock : OneBlock 7 BatchLog.block [BatchLog.receipt]
    (commitBlock (Switching.client false) Switching.store 7 128).2.db := by
  apply (storesBlock_oneBlock_iff (Switching.stores false)).mpr
  refine ⟨rfl, fun receipt hreceipt => ?_, nofun, nofun, fun i j receipt rawLog hlog _ _ => ?_⟩
  · obtain rfl := List.mem_singleton.mp hreceipt
    rfl
  · cases hlog with
    | here h =>
      obtain rfl := List.mem_singleton.mp (List.mem_of_getElem? h)
      rfl
    | there h => cases h

end ChainLens
