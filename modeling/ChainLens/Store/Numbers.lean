import ChainLens.Decode.Amounts
import ChainLens.Store.Completeness
import ChainLens.Store.Mixing

/-!
# Numbers from the replies to the tables

Numbers are narrowed twice, when a block is decoded and when its rows are bound. A value that does
not fit is replaced by zero in a transaction's type and status, and by the largest value of the
column elsewhere; a row whose key is present is not written at all. No amount of 256 bits is
altered, since the columns hold them as text.

## Main definitions

* `TypesFit`, `ValuesFit`: the numbers of the replies fit their fields and columns
* `IndexedBlock.KeepsNumbers`: decoding did not alter a number
* `Db.ReadsBack`: the tables give back the numbers of the replies
* `Db.Undisturbed`: no row under a key of the block carries other numbers

## Main results

* `decode_store_keepNumbers_iff`: when neither decoding nor storing alters a number
-/

namespace ChainLens

/-! ## The numbers of a row -/

structure BlockNumbers where
  number : ℕ
  timestamp : ℕ
  gasUsed : ℕ
  gasLimit : ℕ
  baseFee : Option ℕ

def BlockRow.numbers (row : BlockRow) : BlockNumbers where
  number := row.number
  timestamp := row.timestamp
  gasUsed := row.gasUsed
  gasLimit := row.gasLimit
  baseFee := row.baseFee.map numericValue

def BlockResponse.numbers (block : BlockResponse) : BlockNumbers where
  number := block.number
  timestamp := block.timestamp
  gasUsed := block.gasUsed
  gasLimit := block.gasLimit
  baseFee := block.baseFeePerGas

structure TransactionNumbers where
  blockNumber : ℕ
  nonce : ℕ
  gasLimit : ℕ
  gasUsed : ℕ
  value : ℕ
  gasPrice : Option ℕ
  maxFeePerGas : Option ℕ
  maxPriorityFeePerGas : Option ℕ
  effectiveGasPrice : Option ℕ

def TransactionRow.numbers (row : TransactionRow) : TransactionNumbers where
  blockNumber := row.blockNumber
  nonce := row.nonce
  gasLimit := row.gasLimit
  gasUsed := row.gasUsed
  value := numericValue row.value
  gasPrice := row.gasPrice.map numericValue
  maxFeePerGas := row.maxFeePerGas.map numericValue
  maxPriorityFeePerGas := row.maxPriorityFeePerGas.map numericValue
  effectiveGasPrice := row.effectiveGasPrice.map numericValue

/-- The numbers of a transaction, from its own reply and from its receipt. -/
def TransactionResponse.numbers (blockNumber : ℕ) (tx : TransactionResponse)
    (receipt : ReceiptResponse) : TransactionNumbers where
  blockNumber := blockNumber
  nonce := tx.nonce
  gasLimit := tx.gas
  gasUsed := receipt.gasUsed
  value := tx.value.toNat
  gasPrice := tx.gasPrice.map (·.toNat)
  maxFeePerGas := tx.maxFeePerGas.map (·.toNat)
  maxPriorityFeePerGas := tx.maxPriorityFeePerGas.map (·.toNat)
  effectiveGasPrice := receipt.effectiveGasPrice.map (·.toNat)

/-- Value and token id. -/
def TokenTransferRow.amounts (row : TokenTransferRow) : ℕ × ℕ :=
  (numericValue row.value, numericValue row.tokenId)

def TokenTransfer.amounts (t : TokenTransfer) : ℕ × ℕ := (t.value.toNat, t.tokenId.toNat)

/-! ## Requirements -/

section Requirements

variable (block : BlockResponse) (receipts : List ReceiptResponse)

/-- The transactions with their receipts. -/
def receiptPairs : List (TransactionResponse × ReceiptResponse) := block.transactions.zip receipts

/-- Transaction types and statuses fit a `u8`. -/
def TypesFit : Prop :=
  ∀ p ∈ receiptPairs block receipts,
    p.1.transactionType.getD 0 ≤ u8Max ∧ ∀ status ∈ p.2.status, status ≤ u8Max

/-- The numbers of the replies fit their columns. -/
structure ValuesFit : Prop where
  number : block.number ≤ i64Max
  timestamp : block.timestamp ≤ i64Max
  gasUsed : block.gasUsed ≤ i64Max
  gasLimit : block.gasLimit ≤ i64Max
  txCount : block.transactions.length ≤ i32Max
  transactions : ∀ p ∈ receiptPairs block receipts,
    p.1.nonce ≤ i64Max ∧ p.1.gas ≤ i64Max ∧ p.2.gasUsed ≤ i64Max
  logs : ∀ rawLog ∈ blockLogs receipts, rawLog.logIndex ≤ i32Max

/-- Decoding kept the types and statuses, and the amounts of the transfers stand in the logs. An
absent type means type 0. -/
structure IndexedBlock.KeepsNumbers (indexed : IndexedBlock) : Prop where
  types : List.Forall₂ (fun p (t : Transaction) =>
      t.txType = p.1.transactionType.getD 0 ∧ t.status = p.2.status)
    (receiptPairs block receipts) indexed.transactions
  transfers : ∀ t ∈ indexed.tokenTransfers, ∃ rawLog,
    (blockLogs receipts)[t.logIndex]? = some rawLog ∧
      t.ReadFrom (rawLog.toLog block.number t.logIndex)

/-- The numbers of the replies are read back from the tables, each under the key of its row. -/
structure Db.ReadsBack (db : Db) (decoded : List TokenTransfer) : Prop where
  cursor : db.indexerState.lastIndexedNumber = some block.number
  blocks_present : block.number ∈ db.blocks.map (·.number)
  blocks : ∀ row ∈ db.blocks, row.number = block.number → row.numbers = block.numbers
  transactions_present : ∀ p ∈ receiptPairs block receipts,
    p.1.hash.bytes ∈ db.transactions.map (·.hash)
  transactions : ∀ p ∈ receiptPairs block receipts, ∀ row ∈ db.transactions,
    row.hash = p.1.hash.bytes → row.numbers = p.1.numbers block.number p.2
  logs_present : ∀ rawLog ∈ blockLogs receipts,
    (block.number, rawLog.logIndex) ∈ db.logs.map LogRow.key
  transfers_present : ∀ t ∈ decoded,
    (block.number, t.logIndex) ∈ db.tokenTransfers.map TokenTransferRow.key
  transfers : ∀ t ∈ decoded, ∀ row ∈ db.tokenTransfers,
    row.key = (block.number, t.logIndex) → row.amounts = t.amounts

/-- Neither a stored row nor another row of the block carries other numbers under a key of the
block. -/
structure Db.Undisturbed (db : Db) (decoded : List TokenTransfer) : Prop where
  blocks : ∀ row ∈ db.blocks, row.number = block.number → row.numbers = block.numbers
  transactions : ∀ p ∈ receiptPairs block receipts, ∀ row ∈ db.transactions,
    row.hash = p.1.hash.bytes → row.numbers = p.1.numbers block.number p.2
  same_hash : ∀ p ∈ receiptPairs block receipts, ∀ q ∈ receiptPairs block receipts,
    q.1.hash = p.1.hash → q.1.numbers block.number q.2 = p.1.numbers block.number p.2
  transfers : ∀ t ∈ decoded, ∀ row ∈ db.tokenTransfers,
    row.key = (block.number, t.logIndex) → row.amounts = t.amounts
  same_log : ∀ t ∈ decoded, ∀ u ∈ decoded, u.logIndex = t.logIndex → u.amounts = t.amounts

end Requirements

/-! ## Decoding -/

theorem u8OrZero_eq_iff {n : ℕ} : u8OrZero n = n ↔ n ≤ u8Max := by
  unfold u8OrZero
  split
  next h => exact ⟨fun _ => h, fun _ => rfl⟩
  next h => exact ⟨fun hzero => by omega, fun hle => absurd hle h⟩

theorem map_u8OrZero_eq_iff {status : Option ℕ} :
    status.map u8OrZero = status ↔ ∀ n ∈ status, n ≤ u8Max := by
  cases status with
  | none => simp
  | some n => simp [u8OrZero_eq_iff]

section Decode

variable {block : BlockResponse} {receipts : List ReceiptResponse}

/-- Each transaction is decoded from the pair at its position. -/
theorem decodeTransactions_pairs {transactions : List Transaction}
    (h : decodeTransactions block receipts = .ok transactions) :
    List.Forall₂ (fun p t => ∃ i, decodeSingleTransaction block.number i p.1 p.2 = .ok t)
      (receiptPairs block receipts) transactions := by
  unfold decodeTransactions at h
  split at h
  · cases h
  have hpairs := (Except.mapM_eq_ok_iff.mp h).imp (S := fun x t =>
    ∃ i, decodeSingleTransaction block.number i x.1.1 x.1.2 = .ok t) (by
      rintro ⟨⟨tx, receipt⟩, i⟩ t ht
      simp only [decodeTransactionAt] at ht
      split at ht
      · cases ht
      · exact ⟨i, ht⟩)
  have hfst := List.zipIdx_map_fst 0 (receiptPairs block receipts)
  rw [← hfst, List.forall₂_map_left_iff]
  exact hpairs

/-- A number of the pair that the decoder computes from it alone is kept exactly on the pairs on
which the decoder keeps it. -/
theorem forall₂_iff_forall {α β : Type} {R S : α → β → Prop} {p : α → Prop} {l : List α}
    {ys : List β} (h : List.Forall₂ R l ys) (hiff : ∀ x y, R x y → (S x y ↔ p x)) :
    List.Forall₂ S l ys ↔ ∀ x ∈ l, p x := by
  induction h with
  | nil => simp
  | cons hxy _ ih => rw [List.forall₂_cons, hiff _ _ hxy, ih, List.forall_mem_cons]

/-- **When decoding alters no number**: types and statuses fit. -/
theorem keepsNumbers_iff {indexed : IndexedBlock}
    (h : decodeBlock block receipts = .ok indexed) :
    indexed.KeepsNumbers block receipts ↔ TypesFit block receipts := by
  have htypes := @forall₂_iff_forall _ _ _ (fun p (t : Transaction) =>
      t.txType = p.1.transactionType.getD 0 ∧ t.status = p.2.status) _ _ _
    (decodeTransactions_pairs (decodeBlock_parts h).2.1) fun p t ⟨i, ht⟩ => by
      cases ht
      exact and_congr u8OrZero_eq_iff map_u8OrZero_eq_iff
  exact ⟨fun hkeeps => htypes.mp hkeeps.types,
    fun hfit => ⟨htypes.mpr hfit, decodeBlock_readFrom h⟩⟩

end Decode

/-! ## Storing -/

@[simp] theorem numericValue_u256ToNumeric (value : U256) :
    numericValue (u256ToNumeric value) = value.toNat :=
  numericValue_toString value.toNat

theorem map_numericValue_u256ToNumeric (value : Option U256) :
    (value.map u256ToNumeric).map numericValue = value.map (·.toNat) := by
  cases value <;> simp

theorem map_numericValue_numBigint (value : Option ℕ) :
    (value.map numBigint).map numericValue = value := by
  cases value with
  | none => rfl
  | some n => exact congrArg some (numericValue_toString n)

section Rows

variable {block : BlockResponse} {receipts : List ReceiptResponse} {indexed : IndexedBlock}

theorem blockRow_numbers (hfit : ValuesFit block receipts)
    (h : decodeBlock block receipts = .ok indexed) :
    (blockRow indexed.block (saturate i64Max indexed.block.timestamp)).numbers = block.numbers := by
  have hheader := (decodeBlock_parts h).1
  unfold decodeHeader at hheader
  rw [← Except.ok.inj hheader]
  simp only [BlockRow.numbers, BlockResponse.numbers, blockRow, saturate_of_le hfit.number,
    saturate_of_le hfit.timestamp, saturate_of_le hfit.gasUsed, saturate_of_le hfit.gasLimit,
    map_numericValue_numBigint]

theorem transactionRow_numbers (hfit : ValuesFit block receipts)
    {p : TransactionResponse × ReceiptResponse} (hp : p ∈ receiptPairs block receipts) {i : ℕ}
    {t : Transaction} (ht : decodeSingleTransaction block.number i p.1 p.2 = .ok t) :
    (transactionRow t).hash = p.1.hash.bytes ∧
      (transactionRow t).numbers = p.1.numbers block.number p.2 := by
  obtain ⟨hnonce, hgas, hused⟩ := hfit.transactions p hp
  cases ht
  refine ⟨rfl, ?_⟩
  simp only [TransactionRow.numbers, TransactionResponse.numbers, transactionRow,
    saturate_of_le hfit.number, saturate_of_le hnonce, saturate_of_le hgas, saturate_of_le hused,
    numericValue_u256ToNumeric, map_numericValue_u256ToNumeric]

/-- The row of each transaction carries the hash and the numbers of its pair. -/
theorem transactionRows_pairs (hfit : ValuesFit block receipts)
    (h : decodeBlock block receipts = .ok indexed) :
    List.Forall₂ (fun p (row : TransactionRow) =>
        row.hash = p.1.hash.bytes ∧ row.numbers = p.1.numbers block.number p.2)
      (receiptPairs block receipts) (indexed.transactions.map transactionRow) := by
  have hpairs := (List.forall₂_and_left (p := (· ∈ receiptPairs block receipts)) _ _).mpr
    ⟨fun _ hp => hp, decodeTransactions_pairs (decodeBlock_parts h).2.1⟩
  rw [List.forall₂_map_right_iff]
  refine hpairs.imp ?_
  rintro p t ⟨hp, i, ht⟩
  exact transactionRow_numbers hfit hp ht

/-- The index of a log is its position, and fits. -/
theorem logIndex_eq (hfit : ValuesFit block receipts) (hplace : LogsInPlace receipts) {j : ℕ}
    {rawLog : LogResponse} (hraw : (blockLogs receipts)[j]? = some rawLog) :
    rawLog.logIndex = j ∧ j ≤ i32Max := by
  have hle := hfit.logs rawLog (List.mem_of_getElem? hraw)
  have hmax : i32Max ≤ u32Max := by decide
  have hindex := hplace j rawLog hraw
  rw [saturate_of_le (by omega)] at hindex
  exact ⟨hindex, hindex ▸ hle⟩

/-- The row of a transfer carries its amounts, under the position of its log. -/
theorem tokenTransferRow_key (hfit : ValuesFit block receipts)
    (h : decodeBlock block receipts = .ok indexed) {t : TokenTransfer}
    (ht : t ∈ indexed.tokenTransfers) :
    (tokenTransferRow t).key = (block.number, t.logIndex) ∧
      (tokenTransferRow t).amounts = t.amounts := by
  obtain ⟨rawLog, hraw, hread⟩ := decodeBlock_readFrom h t ht
  have hindex := (logIndex_eq hfit (decodeBlock_logs h).1 hraw).2
  have hnumber : t.blockNumber = block.number := hread.names.1
  constructor
  · simp only [TokenTransferRow.key, tokenTransferRow, hnumber, saturate_of_le hfit.number,
      saturate_of_le hindex]
  · simp only [TokenTransferRow.amounts, TokenTransfer.amounts, tokenTransferRow,
      numericValue_u256ToNumeric]

theorem logRow_key (hfit : ValuesFit block receipts)
    (h : decodeBlock block receipts = .ok indexed) {rawLog : LogResponse}
    (hraw : rawLog ∈ blockLogs receipts) :
    ∃ l ∈ indexed.logs, (logRow l).key = (block.number, rawLog.logIndex) := by
  obtain ⟨hplace, hlogs⟩ := decodeBlock_logs h
  obtain ⟨j, hj⟩ := List.getElem?_of_mem hraw
  obtain ⟨hindex, hle⟩ := logIndex_eq hfit hplace hj
  refine ⟨rawLog.toLog block.number j, ?_, ?_⟩
  · rw [hlogs]
    exact List.mem_of_getElem? (by rw [getElem?_decodedLogs, hj, Option.map_some])
  · simp only [LogRow.key, logRow, LogResponse.toLog, saturate_of_le hfit.number,
      saturate_of_le hle, hindex]

end Rows

section Tables

variable {block : BlockResponse} {receipts : List ReceiptResponse} {indexed : IndexedBlock}
  {db : Db} {now : ℕ}

/-- What holds of the hash and the numbers of every row holds of those of every pair. -/
theorem forall_rows_iff {rows : List TransactionRow}
    {pairs : List (TransactionResponse × ReceiptResponse)} {n : ℕ}
    (h : List.Forall₂ (fun p (row : TransactionRow) =>
      row.hash = p.1.hash.bytes ∧ row.numbers = p.1.numbers n p.2) pairs rows)
    (q : Bytes → TransactionNumbers → Prop) :
    (∀ row ∈ rows, q row.hash row.numbers) ↔ ∀ p ∈ pairs, q p.1.hash.bytes (p.1.numbers n p.2) := by
  induction h with
  | nil => simp
  | cons hrow _ ih => rw [List.forall_mem_cons, List.forall_mem_cons, ih, hrow.1, hrow.2]

theorem committed_blocks_numbers_iff (hfit : ValuesFit block receipts)
    (h : decodeBlock block receipts = .ok indexed) :
    (∀ row ∈ (db.committed indexed now).blocks, row.number = block.number →
        row.numbers = block.numbers) ↔
      ∀ row ∈ db.blocks, row.number = block.number → row.numbers = block.numbers := by
  have hnumbers := blockRow_numbers hfit h
  have hnumber : (blockRow indexed.block (saturate i64Max indexed.block.timestamp)).number =
      block.number := congrArg (·.number) hnumbers
  have hreads := @Table.insertAll_reads_iff _ _ _ BlockRow.number _ BlockRow.numbers db.blocks
    [blockRow indexed.block (saturate i64Max indexed.block.timestamp)]
  simp only [List.forall_mem_singleton, hnumbers, hnumber, implies_true, and_true] at hreads
  exact hreads

theorem committed_transactions_numbers_iff (hfit : ValuesFit block receipts)
    (h : decodeBlock block receipts = .ok indexed) :
    (∀ p ∈ receiptPairs block receipts, ∀ row ∈ (db.committed indexed now).transactions,
        row.hash = p.1.hash.bytes → row.numbers = p.1.numbers block.number p.2) ↔
      (∀ p ∈ receiptPairs block receipts, ∀ row ∈ db.transactions,
        row.hash = p.1.hash.bytes → row.numbers = p.1.numbers block.number p.2) ∧
      ∀ p ∈ receiptPairs block receipts, ∀ q ∈ receiptPairs block receipts,
        q.1.hash = p.1.hash → q.1.numbers block.number q.2 = p.1.numbers block.number p.2 := by
  have hrows := transactionRows_pairs hfit h
  have hreads := @Table.insertAll_reads_iff _ _ _ TransactionRow.hash _ TransactionRow.numbers
    db.transactions (indexed.transactions.map transactionRow)
  refine ((forall_rows_iff hrows fun hash numbers => ∀ r ∈ (db.committed indexed now).transactions,
    r.hash = hash → r.numbers = numbers).symm.trans hreads).trans (and_congr ?_ ?_)
  · exact forall_rows_iff hrows fun hash numbers => ∀ r ∈ db.transactions,
      r.hash = hash → r.numbers = numbers
  · refine (forall_rows_iff hrows fun hash numbers => ∀ r ∈ indexed.transactions.map transactionRow,
      r.hash = hash → r.numbers = numbers).trans (forall₂_congr fun p hp => ?_)
    refine (forall_rows_iff hrows fun hash numbers => hash = p.1.hash.bytes →
      numbers = p.1.numbers block.number p.2).trans (forall₂_congr fun q hq => ?_)
    rw [FixedBytes.ext_iff]

theorem committed_tokenTransfers_amounts_iff (hfit : ValuesFit block receipts)
    (h : decodeBlock block receipts = .ok indexed) :
    (∀ t ∈ indexed.tokenTransfers, ∀ row ∈ (db.committed indexed now).tokenTransfers,
        row.key = (block.number, t.logIndex) → row.amounts = t.amounts) ↔
      (∀ t ∈ indexed.tokenTransfers, ∀ row ∈ db.tokenTransfers,
        row.key = (block.number, t.logIndex) → row.amounts = t.amounts) ∧
      ∀ t ∈ indexed.tokenTransfers, ∀ u ∈ indexed.tokenTransfers,
        u.logIndex = t.logIndex → u.amounts = t.amounts := by
  have hrow := fun t ht => @tokenTransferRow_key block receipts indexed hfit h t ht
  have hreads := @Table.insertAll_reads_iff _ _ _ TokenTransferRow.key _ TokenTransferRow.amounts
    db.tokenTransfers (indexed.tokenTransfers.map tokenTransferRow)
  simp only [List.forall_mem_map] at hreads
  have hforall (q : ℕ × ℕ → ℕ × ℕ → Prop) :
      (∀ t ∈ indexed.tokenTransfers, q (tokenTransferRow t).key (tokenTransferRow t).amounts) ↔
        ∀ t ∈ indexed.tokenTransfers, q (block.number, t.logIndex) t.amounts :=
    forall₂_congr fun t ht => by rw [(hrow t ht).1, (hrow t ht).2]
  refine ((hforall fun key amounts => ∀ r ∈ (db.committed indexed now).tokenTransfers,
    r.key = key → r.amounts = amounts).symm.trans hreads).trans (and_congr ?_ ?_)
  · exact hforall fun key amounts => ∀ r ∈ db.tokenTransfers, r.key = key → r.amounts = amounts
  · refine (hforall fun key amounts => ∀ u ∈ indexed.tokenTransfers,
      (tokenTransferRow u).key = key → (tokenTransferRow u).amounts = amounts).trans
        (forall₂_congr fun t ht => ?_)
    refine (hforall fun key amounts => key = (block.number, t.logIndex) →
      amounts = t.amounts).trans (forall₂_congr fun u hu => ?_)
    rw [Prod.mk.injEq, eq_self_iff_true, true_and]

/-- **When the tables give back the numbers of the replies**, if these fit. -/
theorem committed_readsBack_iff (hfit : ValuesFit block receipts)
    (h : decodeBlock block receipts = .ok indexed) :
    (db.committed indexed now).ReadsBack block receipts indexed.tokenTransfers ↔
      db.Undisturbed block receipts indexed.tokenTransfers := by
  have hblocks := @committed_blocks_numbers_iff block receipts indexed db now hfit h
  have htransactions := @committed_transactions_numbers_iff block receipts indexed db now hfit h
  have htransfers := @committed_tokenTransfers_amounts_iff block receipts indexed db now hfit h
  constructor
  · intro hreads
    obtain ⟨hstored, hsame⟩ := htransactions.mp hreads.transactions
    obtain ⟨hstoredTransfers, hsameLog⟩ := htransfers.mp hreads.transfers
    exact ⟨hblocks.mp hreads.blocks, hstored, hsame, hstoredTransfers, hsameLog⟩
  · intro hundisturbed
    have hnumber : indexed.block.number = block.number := (decodeBlock_header h).1
    refine ⟨?_, ?_, hblocks.mpr hundisturbed.blocks, ?_,
      htransactions.mpr ⟨hundisturbed.transactions, hundisturbed.same_hash⟩, ?_, ?_,
      htransfers.mpr ⟨hundisturbed.transfers, hundisturbed.same_log⟩⟩
    · -- The cursor and the keys are there, whatever else was stored.
      show some (saturate i64Max indexed.block.number) = _
      rw [hnumber, saturate_of_le hfit.number]
    · have hkey : (blockRow indexed.block (saturate i64Max indexed.block.timestamp)).number =
          block.number := congrArg (·.number) (blockRow_numbers hfit h)
      rw [← hkey]
      exact Table.key_mem_insertIfAbsent BlockRow.number db.blocks _
    · refine (forall_rows_iff (transactionRows_pairs hfit h) fun hash _ =>
        hash ∈ (db.committed indexed now).transactions.map (·.hash)).mp fun row hrow => ?_
      exact Table.key_mem_insertAll hrow
    · intro rawLog hraw
      obtain ⟨l, hl, hkey⟩ := logRow_key hfit h hraw
      rw [← hkey]
      exact Table.key_mem_insertAll (List.mem_map_of_mem hl)
    · intro t ht
      rw [← (tokenTransferRow_key hfit h ht).1]
      exact Table.key_mem_insertAll (List.mem_map_of_mem ht)

end Tables

namespace Swap

theorem typesFit : TypesFit BatchLog.block [receipt] := by
  rintro p hp
  obtain rfl := List.mem_singleton.mp hp
  decide

theorem valuesFit : ValuesFit BatchLog.block [receipt] where
  number := by decide
  timestamp := by decide
  gasUsed := by decide
  gasLimit := by decide
  txCount := by decide
  transactions := by decide
  logs := by decide

theorem undisturbed :
    Db.migrated.Undisturbed BatchLog.block [receipt] indexed.tokenTransfers where
  blocks _ h := absurd h List.not_mem_nil
  transactions _ _ _ h := absurd h List.not_mem_nil
  same_hash := by
    rintro p hp q hq -
    rw [List.mem_singleton.mp hp, List.mem_singleton.mp hq]
  transfers _ _ _ h := absurd h List.not_mem_nil
  same_log := by decide +kernel

end Swap

end ChainLens
