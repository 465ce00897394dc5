import ChainLens.Decode.Erc20
import ChainLens.Rpc.Types

/-!
# Block decoding

A block reply and its receipts become an `IndexedBlock`: the header, the transactions paired
with their receipts, the logs of all receipts in order, and the token transfers of those logs.

## Main definitions

* `decodeBlock`
* `BatchLog.block`, `BatchLog.indexed`: a block with one batch log, and what it decodes to
-/

namespace ChainLens

def decodeHeader (block : BlockResponse) : Decode Block :=
  return {
    number := block.number
    hash := block.hash
    parentHash := block.parentHash
    timestamp := block.timestamp
    miner := block.miner
    gasUsed := block.gasUsed
    gasLimit := block.gasLimit
    baseFeePerGas := block.baseFeePerGas
    txCount := saturate u32Max block.transactions.length }

/-- `u8::try_from(n).unwrap_or(0)`. -/
def u8OrZero (n : ℕ) : ℕ := if n ≤ u8Max then n else 0

def decodeSingleTransaction (blockNumber index : ℕ) (tx : TransactionResponse)
    (receipt : ReceiptResponse) : Decode Transaction :=
  return {
    hash := tx.hash
    blockNumber
    txIndex := saturate u32Max index
    fromAddr := tx.fromAddr
    toAddr := tx.toAddr
    value := tx.value
    nonce := tx.nonce
    txType := u8OrZero (tx.transactionType.getD 0)
    gasLimit := tx.gas
    gasPrice := tx.gasPrice
    maxFeePerGas := tx.maxFeePerGas
    maxPriorityFeePerGas := tx.maxPriorityFeePerGas
    input := tx.input
    status := receipt.status.map u8OrZero
    gasUsed := receipt.gasUsed
    effectiveGasPrice := receipt.effectiveGasPrice
    contractAddress := receipt.contractAddress }

/-- One turn of the transaction loop: the receipt must be the transaction's own. -/
def decodeTransactionAt (blockNumber : ℕ) :
    (TransactionResponse × ReceiptResponse) × ℕ → Decode Transaction
  | ((tx, receipt), index) =>
    if tx.hash ≠ receipt.transactionHash then
      .fail (.receiptHashMismatch blockNumber index receipt.transactionHash tx.hash)
    else
      decodeSingleTransaction blockNumber index tx receipt

def decodeTransactions (block : BlockResponse) (receipts : List ReceiptResponse) :
    Decode (List Transaction) :=
  if block.transactions.length ≠ receipts.length then
    .fail (.receiptCountMismatch block.number block.transactions.length receipts.length)
  else
    (block.transactions.zip receipts).zipIdx.mapM (decodeTransactionAt block.number)

/-- One turn of the log loop: the index must be the position in the block. -/
def decodeLogAt (blockNumber : ℕ) : LogResponse × ℕ → Decode Log
  | (rawLog, position) =>
    -- The node's index is checked against the position over all receipts of the block.
    let logIndex := saturate u32Max rawLog.logIndex
    if logIndex ≠ position then
      .fail (.logIndexGap blockNumber position logIndex position)
    else
      return {
        blockNumber
        logIndex
        txHash := rawLog.transactionHash
        address := rawLog.address
        topic0 := rawLog.topics[0]?
        topic1 := rawLog.topics[1]?
        topic2 := rawLog.topics[2]?
        topic3 := rawLog.topics[3]?
        data := rawLog.data }

def decodeLogs (block : BlockResponse) (rawLogs : List LogResponse) : Decode (List Log) :=
  rawLogs.zipIdx.mapM (decodeLogAt block.number)

def decodeBlock (block : BlockResponse) (receipts : List ReceiptResponse) :
    Decode IndexedBlock := do
  let header ← decodeHeader block
  let transactions ← decodeTransactions block receipts
  let logs ← decodeLogs block (receipts.flatMap (·.logs))
  let tokenTransfers ← decodeTokenTransfers logs
  return { block := header, transactions, logs, tokenTransfers }

/-! ## What a decoded block looks like -/

/-- The parts of a successful decoding. -/
theorem decodeBlock_parts {block : BlockResponse} {receipts : List ReceiptResponse}
    {indexed : IndexedBlock} (h : decodeBlock block receipts = .ok indexed) :
    decodeHeader block = .ok indexed.block ∧
      decodeTransactions block receipts = .ok indexed.transactions ∧
      decodeLogs block (receipts.flatMap (·.logs)) = .ok indexed.logs ∧
      decodeTokenTransfers indexed.logs = .ok indexed.tokenTransfers := by
  unfold decodeBlock at h
  simp only [Except.bind_eq_ok_iff] at h
  obtain ⟨header, hheader, transactions, htransactions, logs, hlogs, transfers, htransfers, h⟩ := h
  cases h
  exact ⟨hheader, htransactions, hlogs, htransfers⟩

/-- The stored header is the reply's own. -/
theorem decodeBlock_header {block : BlockResponse} {receipts : List ReceiptResponse}
    {indexed : IndexedBlock} (h : decodeBlock block receipts = .ok indexed) :
    indexed.block.number = block.number ∧ indexed.block.hash = block.hash ∧
      indexed.block.parentHash = block.parentHash ∧
      indexed.block.timestamp = block.timestamp := by
  have hheader := (decodeBlock_parts h).1
  unfold decodeHeader at hheader
  rw [← Except.ok.inj hheader]
  exact ⟨rfl, rfl, rfl, rfl⟩

theorem decodeTransactions_blockNumber {block : BlockResponse} {receipts : List ReceiptResponse}
    {transactions : List Transaction} (h : decodeTransactions block receipts = .ok transactions) :
    ∀ t ∈ transactions, t.blockNumber = block.number := by
  unfold decodeTransactions at h
  split at h
  · cases h
  · intro t ht
    obtain ⟨⟨⟨tx, receipt⟩, index⟩, -, hentry⟩ := Except.exists_of_mem_mapM h ht
    simp only [decodeTransactionAt] at hentry
    split at hentry
    · cases hentry
    · cases hentry
      rfl

/-- A log decoded at a position carries the block and the position. -/
theorem decodeLogAt_eq {blockNumber position : ℕ} {rawLog : LogResponse} {log : Log}
    (h : decodeLogAt blockNumber (rawLog, position) = .ok log) :
    log.blockNumber = blockNumber ∧ log.logIndex = position := by
  simp only [decodeLogAt] at h
  split at h
  · cases h
  · next hindex =>
    cases h
    exact ⟨rfl, not_not.mp hindex⟩

theorem decodeLogs_blockNumber {block : BlockResponse} {rawLogs : List LogResponse}
    {logs : List Log} (h : decodeLogs block rawLogs = .ok logs) :
    ∀ l ∈ logs, l.blockNumber = block.number := by
  intro l hl
  obtain ⟨⟨rawLog, position⟩, -, hentry⟩ := Except.exists_of_mem_mapM h hl
  exact (decodeLogAt_eq hentry).1

/-- **Log indices are positions.** -/
theorem decodeLogs_logIndex {block : BlockResponse} {rawLogs : List LogResponse}
    {logs : List Log} (h : decodeLogs block rawLogs = .ok logs) :
    logs.map (·.logIndex) = List.range logs.length := by
  have hlen : logs.length = rawLogs.length := by simpa using Except.length_mapM h
  refine List.ext_getElem (by simp) fun i hi hi' => ?_
  -- The log at position `i` comes from the raw log there, which was paired with `i`.
  have hraw : i < rawLogs.zipIdx.length := by simpa [hlen] using hi
  have hentry := Except.getElem_mapM h hraw (by simpa using hi)
  rw [List.getElem_zipIdx] at hentry
  simpa using (decodeLogAt_eq hentry).2

/-- **A decoded block refers to itself.** -/
theorem decodeBlock_coherent {block : BlockResponse} {receipts : List ReceiptResponse}
    {indexed : IndexedBlock} (h : decodeBlock block receipts = .ok indexed) :
    indexed.Coherent := by
  obtain ⟨-, htransactions, hlogs, htransfers⟩ := decodeBlock_parts h
  have hnumber := (decodeBlock_header h).1
  refine ⟨?_, ?_, decodeTokenTransfers_names htransfers⟩
  · exact hnumber ▸ decodeTransactions_blockNumber htransactions
  · exact hnumber ▸ decodeLogs_blockNumber hlogs

/-! ## A batch log -/

namespace BatchLog

/-- A word holding a small number. -/
def word (b : UInt8) : Bytes := List.replicate 31 0 ++ [b]

/-- The data of an ERC-1155 batch of two pairs: ids 1 and 2, values 10 and 20. -/
def data : Bytes :=
  word 64 ++ word 160 ++ word 2 ++ word 1 ++ word 2 ++ word 2 ++ word 10 ++ word 20

def rawLog : LogResponse where
  address := .zero 20
  topics := [erc1155TransferBatchTopic, .zero 32, .withLastByte 31 1, .withLastByte 31 2]
  data := data
  blockNumber := 7
  transactionHash := .withLastByte 31 9
  transactionIndex := 0
  blockHash := .withLastByte 31 7
  logIndex := 0
  removed := false

def transaction : TransactionResponse where
  hash := .withLastByte 31 9
  transactionIndex := 0
  fromAddr := .withLastByte 19 1
  toAddr := some (.withLastByte 19 2)
  value := 0
  nonce := 0
  gas := 21000
  gasPrice := none
  input := []
  transactionType := none
  maxFeePerGas := none
  maxPriorityFeePerGas := none

def receipt : ReceiptResponse where
  transactionHash := .withLastByte 31 9
  transactionIndex := 0
  blockHash := .withLastByte 31 7
  blockNumber := 7
  fromAddr := .withLastByte 19 1
  toAddr := some (.withLastByte 19 2)
  cumulativeGasUsed := 21000
  gasUsed := 21000
  contractAddress := none
  status := some 1
  logs := [rawLog]
  transactionType := none
  effectiveGasPrice := none

/-- A block with one transaction whose only log is a batch of two transfers. -/
def block : BlockResponse where
  number := 7
  hash := .withLastByte 31 7
  parentHash := .withLastByte 31 6
  timestamp := 1600000000
  miner := .zero 20
  gasUsed := 21000
  gasLimit := 30000000
  baseFeePerGas := none
  transactions := [transaction]

def log : Log where
  blockNumber := 7
  logIndex := 0
  txHash := .withLastByte 31 9
  address := .zero 20
  topic0 := some erc1155TransferBatchTopic
  topic1 := some (.zero 32)
  topic2 := some (.withLastByte 31 1)
  topic3 := some (.withLastByte 31 2)
  data := data

/-- What the block decodes to. -/
def indexed : IndexedBlock where
  block := {
    number := 7
    hash := .withLastByte 31 7
    parentHash := .withLastByte 31 6
    timestamp := 1600000000
    miner := .zero 20
    gasUsed := 21000
    gasLimit := 30000000
    baseFeePerGas := none
    txCount := 1 }
  transactions := [{
    hash := .withLastByte 31 9
    blockNumber := 7
    txIndex := 0
    fromAddr := .withLastByte 19 1
    toAddr := some (.withLastByte 19 2)
    value := 0
    nonce := 0
    txType := 0
    gasLimit := 21000
    gasPrice := none
    maxFeePerGas := none
    maxPriorityFeePerGas := none
    input := []
    status := some 1
    gasUsed := 21000
    effectiveGasPrice := none
    contractAddress := none }]
  logs := [log]
  tokenTransfers := [
    erc1155Transfer log (.withLastByte 19 1) (.withLastByte 19 2) 1 10,
    erc1155Transfer log (.withLastByte 19 1) (.withLastByte 19 2) 2 20]

theorem decodeBlock_eq : decodeBlock block [receipt] = .ok indexed := by decide +kernel

end BatchLog

end ChainLens
