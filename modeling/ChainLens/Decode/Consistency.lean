import ChainLens.Decode.Block

/-!
# The structural checks of the decoder

The decoder pairs transactions with receipts by position and numbers the logs of all receipts
through. Three checks guard these positions, made in this order: one receipt for each
transaction, the receipt's hash the transaction's own, and each log's index its position in the
block. When all three pass, nothing is lost or moved: the outputs line up with the replies
position by position, and only the token transfers can still fail.

## Main definitions

* `Consistent block receipts`: the replies pass the three checks
* `IndexedBlock.Aligned`: the decoded lists line up with the replies

## Main results

* `decodeBlock_of_consistent`, `decodeBlock_of_not_consistent`: only consistent replies reach the
  token transfers
* `decodeBlock_first_error_or_aligned`: the first failing check is reported, and a decoded block is
  aligned
-/

namespace ChainLens

/-- The logs of the receipts, in order. -/
def blockLogs (receipts : List ReceiptResponse) : List LogResponse := receipts.flatMap (·.logs)

/-- The receipts below an index belong to the transactions at their positions. -/
def HashesMatchBelow (block : BlockResponse) (receipts : List ReceiptResponse) (bound : ℕ) : Prop :=
  ∀ i < bound, ∀ tx receipt, block.transactions[i]? = some tx → receipts[i]? = some receipt →
    tx.hash = receipt.transactionHash

/-- The logs below an index carry their positions. -/
def IndicesCountBelow (receipts : List ReceiptResponse) (bound : ℕ) : Prop :=
  ∀ j < bound, ∀ rawLog, (blockLogs receipts)[j]? = some rawLog → rawLog.logIndex = j

/-- Every log carries its position, in the `u32` the decoder narrows its index to. -/
def LogsInPlace (receipts : List ReceiptResponse) : Prop :=
  ∀ j rawLog, (blockLogs receipts)[j]? = some rawLog → saturate u32Max rawLog.logIndex = j

/-- The replies pass the three checks. -/
structure Consistent (block : BlockResponse) (receipts : List ReceiptResponse) : Prop where
  length : block.transactions.length = receipts.length
  hashes : HashesMatchBelow block receipts receipts.length
  indices : LogsInPlace receipts

/-- The transaction at an index combines the reply's transaction and receipt. -/
structure Transaction.Combines (t : Transaction) (blockNumber index : ℕ) (tx : TransactionResponse)
    (receipt : ReceiptResponse) : Prop where
  hash : t.hash = tx.hash
  receiptHash : t.hash = receipt.transactionHash
  blockNumber : t.blockNumber = blockNumber
  txIndex : t.txIndex = index
  fromAddr : t.fromAddr = tx.fromAddr
  toAddr : t.toAddr = tx.toAddr
  value : t.value = tx.value
  nonce : t.nonce = tx.nonce
  txType : t.txType = u8OrZero (tx.transactionType.getD 0)
  gasLimit : t.gasLimit = tx.gas
  gasPrice : t.gasPrice = tx.gasPrice
  maxFeePerGas : t.maxFeePerGas = tx.maxFeePerGas
  maxPriorityFeePerGas : t.maxPriorityFeePerGas = tx.maxPriorityFeePerGas
  input : t.input = tx.input
  status : t.status = receipt.status.map u8OrZero
  gasUsed : t.gasUsed = receipt.gasUsed
  effectiveGasPrice : t.effectiveGasPrice = receipt.effectiveGasPrice
  contractAddress : t.contractAddress = receipt.contractAddress

/-- The log at an index is the reply's log, with its first four topics. -/
structure Log.Copies (log : Log) (blockNumber index : ℕ) (rawLog : LogResponse) : Prop where
  blockNumber : log.blockNumber = blockNumber
  logIndex : log.logIndex = index
  rawIndex : rawLog.logIndex = index
  txHash : log.txHash = rawLog.transactionHash
  address : log.address = rawLog.address
  topics : log.topics = rawLog.topics.take 4
  topic0 : log.topic0 = rawLog.topics[0]?
  topic1 : log.topic1 = rawLog.topics[1]?
  topic2 : log.topic2 = rawLog.topics[2]?
  topic3 : log.topic3 = rawLog.topics[3]?
  data : log.data = rawLog.data

/-- The decoded lists line up with the replies, position by position. -/
structure IndexedBlock.Aligned (indexed : IndexedBlock) (block : BlockResponse)
    (receipts : List ReceiptResponse) : Prop where
  txCount : indexed.block.txCount = block.transactions.length
  receiptsLength : receipts.length = block.transactions.length
  transactionsLength : indexed.transactions.length = block.transactions.length
  transactions : ∀ i (t : Transaction) tx receipt, indexed.transactions[i]? = some t →
    block.transactions[i]? = some tx → receipts[i]? = some receipt →
      t.Combines block.number i tx receipt
  logsLength : indexed.logs.length = (blockLogs receipts).length
  logs : ∀ j (log : Log) rawLog, indexed.logs[j]? = some log →
    (blockLogs receipts)[j]? = some rawLog → log.Copies block.number j rawLog
  transfers : ∀ t ∈ indexed.tokenTransfers, ∃ log ∈ indexed.logs, t.logIndex = log.logIndex

/-! ## Transactions -/

/-- A matching pair is decoded. -/
theorem decodeTransactionAt_of_eq {tx : TransactionResponse} {receipt : ReceiptResponse}
    (h : tx.hash = receipt.transactionHash) (n i : ℕ) :
    decodeTransactionAt n ((tx, receipt), i) = decodeSingleTransaction n i tx receipt :=
  if_neg (not_not.mpr h)

/-- A pair that does not match is rejected. -/
theorem decodeTransactionAt_of_ne {tx : TransactionResponse} {receipt : ReceiptResponse}
    (h : tx.hash ≠ receipt.transactionHash) (n i : ℕ) :
    decodeTransactionAt n ((tx, receipt), i) =
      .fail (.receiptHashMismatch n i receipt.transactionHash tx.hash) :=
  if_pos h

/-- The pair at a position of the zipped lists. -/
theorem getElem?_zip_zipIdx {α β : Type} {as : List α} {bs : List β} {i k : ℕ} {a : α} {b : β} :
    (as.zip bs).zipIdx[i]? = some ((a, b), k) ↔ as[i]? = some a ∧ bs[i]? = some b ∧ k = i := by
  rw [List.getElem?_zipIdx, Option.map_eq_some_iff]
  simp only [Nat.zero_add, List.getElem?_zip_eq_some, Prod.mk.injEq, Prod.exists]
  constructor
  · rintro ⟨a', b', ⟨ha, hb⟩, ⟨rfl, rfl⟩, rfl⟩
    exact ⟨ha, hb, rfl⟩
  · rintro ⟨ha, hb, rfl⟩
    exact ⟨a, b, ⟨ha, hb⟩, ⟨rfl, rfl⟩, rfl⟩

/-- A mismatch below which the hashes match is reported with its index. -/
theorem decodeTransactions_eq_error {block : BlockResponse} {receipts : List ReceiptResponse}
    (hlength : block.transactions.length = receipts.length) {i : ℕ} {tx : TransactionResponse}
    {receipt : ReceiptResponse} (htx : block.transactions[i]? = some tx)
    (hreceipt : receipts[i]? = some receipt) (hne : receipt.transactionHash ≠ tx.hash)
    (hbelow : HashesMatchBelow block receipts i) :
    decodeTransactions block receipts =
      .fail (.receiptHashMismatch block.number i receipt.transactionHash tx.hash) := by
  unfold decodeTransactions
  rw [if_neg (not_not.mpr hlength)]
  apply Except.mapM_eq_error_iff.mpr
  refine ⟨i, ((tx, receipt), i), getElem?_zip_zipIdx.mpr ⟨htx, hreceipt, rfl⟩,
    decodeTransactionAt_of_ne hne.symm block.number i, ?_⟩
  rintro k hk ⟨⟨tx', receipt'⟩, k'⟩ hget
  obtain ⟨htx', hreceipt', -⟩ := getElem?_zip_zipIdx.mp hget
  exact ⟨_, decodeTransactionAt_of_eq (hbelow k hk tx' receipt' htx' hreceipt') _ _⟩

/-- The decoded pair at a position. -/
theorem decodeTransactions_getElem {block : BlockResponse} {receipts : List ReceiptResponse}
    {transactions : List Transaction} (h : decodeTransactions block receipts = .ok transactions)
    {i : ℕ} {tx : TransactionResponse} {receipt : ReceiptResponse}
    (htx : block.transactions[i]? = some tx) (hreceipt : receipts[i]? = some receipt) :
    tx.hash = receipt.transactionHash ∧
      ∃ t, transactions[i]? = some t ∧
        decodeSingleTransaction block.number i tx receipt = .ok t := by
  unfold decodeTransactions at h
  split at h
  · cases h
  · obtain ⟨hi, hx⟩ := List.getElem?_eq_some_iff.mp
      (getElem?_zip_zipIdx.mpr ⟨htx, hreceipt, rfl⟩)
    have hi' : i < transactions.length := by rwa [Except.length_mapM h]
    have hentry := Except.getElem_mapM h hi hi'
    rw [hx] at hentry
    by_cases hhash : tx.hash = receipt.transactionHash
    · rw [decodeTransactionAt_of_eq hhash] at hentry
      exact ⟨hhash, _, List.getElem?_eq_getElem hi', hentry⟩
    · rw [decodeTransactionAt_of_ne hhash] at hentry
      cases hentry

/-- The first two checks are all that decoding the transactions makes, and it fails with an
error. -/
theorem decodeTransactions_cases (block : BlockResponse) (receipts : List ReceiptResponse) :
    (block.transactions.length = receipts.length ∧
        HashesMatchBelow block receipts receipts.length ∧
          ∃ transactions, decodeTransactions block receipts = .ok transactions) ∨
      (¬ (block.transactions.length = receipts.length ∧
          HashesMatchBelow block receipts receipts.length) ∧
        ∃ e, decodeTransactions block receipts = .fail e) := by
  by_cases hlength : block.transactions.length = receipts.length
  · cases h : decodeTransactions block receipts with
    | ok transactions =>
      left
      refine ⟨hlength, fun i _ tx receipt htx hreceipt => ?_, transactions, rfl⟩
      exact (decodeTransactions_getElem h htx hreceipt).1
    | error fault =>
      -- The traversal stopped at a pair whose hashes differ.
      right
      unfold decodeTransactions at h
      rw [if_neg (not_not.mpr hlength)] at h
      obtain ⟨i, ⟨⟨tx, receipt⟩, k⟩, hget, hfail, -⟩ := Except.mapM_eq_error_iff.mp h
      obtain ⟨htx, hreceipt, rfl⟩ := getElem?_zip_zipIdx.mp hget
      by_cases hhash : tx.hash = receipt.transactionHash
      · rw [decodeTransactionAt_of_eq hhash] at hfail
        cases hfail
      · rw [decodeTransactionAt_of_ne hhash] at hfail
        cases hfail
        refine ⟨fun hmatch => hhash ?_, _, rfl⟩
        have hk := (List.getElem?_eq_some_iff.mp hreceipt).1
        exact hmatch.2 k hk tx receipt htx hreceipt
  · right
    exact ⟨fun hmatch => hlength hmatch.1, _, if_pos hlength⟩

/-- The transaction at a position combines the replies there. -/
theorem decodeTransactions_combines {block : BlockResponse} {receipts : List ReceiptResponse}
    (hbound : block.transactions.length ≤ u32Max) {transactions : List Transaction}
    (h : decodeTransactions block receipts = .ok transactions) {i : ℕ} {t : Transaction}
    {tx : TransactionResponse} {receipt : ReceiptResponse} (ht : transactions[i]? = some t)
    (htx : block.transactions[i]? = some tx) (hreceipt : receipts[i]? = some receipt) :
    t.Combines block.number i tx receipt := by
  obtain ⟨hhash, t', ht', hsingle⟩ := decodeTransactions_getElem h htx hreceipt
  cases ht.symm.trans ht'
  cases hsingle
  -- The index is below `u32::MAX`, so it is stored as it is.
  have hindex := (List.getElem?_eq_some_iff.mp htx).1
  exact { hash := rfl, receiptHash := hhash, blockNumber := rfl
          txIndex := saturate_of_le (by omega), fromAddr := rfl, toAddr := rfl, value := rfl
          nonce := rfl, txType := rfl, gasLimit := rfl, gasPrice := rfl, maxFeePerGas := rfl
          maxPriorityFeePerGas := rfl, input := rfl, status := rfl, gasUsed := rfl
          effectiveGasPrice := rfl, contractAddress := rfl }

theorem length_decodeTransactions {block : BlockResponse} {receipts : List ReceiptResponse}
    {transactions : List Transaction} (h : decodeTransactions block receipts = .ok transactions) :
    transactions.length = block.transactions.length ∧
      block.transactions.length = receipts.length := by
  unfold decodeTransactions at h
  split at h
  · cases h
  · next hlength =>
    rw [not_not] at hlength
    refine ⟨?_, hlength⟩
    rw [Except.length_mapM h]
    simp [hlength]

/-! ## Logs -/

/-- The decoded log of a reply's log at a position. -/
def LogResponse.toLog (rawLog : LogResponse) (blockNumber position : ℕ) : Log where
  blockNumber := blockNumber
  logIndex := position
  txHash := rawLog.transactionHash
  address := rawLog.address
  topic0 := rawLog.topics[0]?
  topic1 := rawLog.topics[1]?
  topic2 := rawLog.topics[2]?
  topic3 := rawLog.topics[3]?
  data := rawLog.data

theorem LogResponse.toLog_topics (rawLog : LogResponse) (blockNumber position : ℕ) :
    (rawLog.toLog blockNumber position).topics = rawLog.topics.take 4 := by
  unfold LogResponse.toLog Log.topics
  match rawLog.topics with
  | [] => rfl
  | [_] => rfl
  | [_, _] => rfl
  | [_, _, _] => rfl
  | _ :: _ :: _ :: _ :: _ => simp

/-- A log whose index is its position is decoded. -/
theorem decodeLogAt_of_eq {rawLog : LogResponse} {position : ℕ}
    (h : saturate u32Max rawLog.logIndex = position) (n : ℕ) :
    decodeLogAt n (rawLog, position) = .ok (rawLog.toLog n position) := by
  subst h
  exact if_neg (not_not.mpr rfl)

/-- A log whose index is not its position is rejected. -/
theorem decodeLogAt_of_ne {rawLog : LogResponse} {position : ℕ}
    (h : saturate u32Max rawLog.logIndex ≠ position) (n : ℕ) :
    decodeLogAt n (rawLog, position) =
      .fail (.logIndexGap n position (saturate u32Max rawLog.logIndex) position) :=
  if_pos h

/-- The logs of the block, when the third check passes. -/
def decodedLogs (block : BlockResponse) (receipts : List ReceiptResponse) : List Log :=
  (blockLogs receipts).zipIdx.map fun x => x.1.toLog block.number x.2

theorem getElem?_decodedLogs (block : BlockResponse) (receipts : List ReceiptResponse) (j : ℕ) :
    (decodedLogs block receipts)[j]? =
      (blockLogs receipts)[j]?.map fun rawLog => rawLog.toLog block.number j := by
  simp [decodedLogs, List.getElem?_zipIdx, Function.comp_def]

theorem mem_zipIdx_iff {α : Type} {l : List α} {x : α} {j : ℕ} :
    (x, j) ∈ l.zipIdx ↔ l[j]? = some x := List.mk_mem_zipIdx_iff_getElem?

/-- The third check is all that decoding the logs makes, and it fails with an error. -/
theorem decodeLogs_cases (block : BlockResponse) (receipts : List ReceiptResponse) :
    (LogsInPlace receipts ∧
        decodeLogs block (blockLogs receipts) = .ok (decodedLogs block receipts)) ∨
      (¬ LogsInPlace receipts ∧ ∃ e, decodeLogs block (blockLogs receipts) = .fail e) := by
  by_cases hindices : LogsInPlace receipts
  · left
    refine ⟨hindices, Except.mapM_eq_ok_map fun ⟨rawLog, j⟩ hmem => ?_⟩
    exact decodeLogAt_of_eq (hindices j rawLog (mem_zipIdx_iff.mp hmem)) block.number
  · right
    refine ⟨hindices, ?_⟩
    cases h : decodeLogs block (blockLogs receipts) with
    | ok logs =>
      -- Every log was decoded at its position, against the assumption.
      refine absurd (fun j rawLog hraw => ?_) hindices
      obtain ⟨log, hlog⟩ := Except.exists_of_mapM_of_mem h (mem_zipIdx_iff.mpr hraw)
      by_contra hne
      rw [decodeLogAt_of_ne hne] at hlog
      cases hlog
    | error fault =>
      obtain ⟨j, ⟨rawLog, k⟩, hget, hfail, -⟩ := Except.mapM_eq_error_iff.mp h
      by_cases hindex : saturate u32Max rawLog.logIndex = k
      · rw [decodeLogAt_of_eq hindex] at hfail
        cases hfail
      · rw [decodeLogAt_of_ne hindex] at hfail
        cases hfail
        exact ⟨_, rfl⟩

/-- A gap below which the indices count is reported with its position. -/
theorem decodeLogs_eq_error {block : BlockResponse} {receipts : List ReceiptResponse} {j : ℕ}
    {rawLog : LogResponse} (hraw : (blockLogs receipts)[j]? = some rawLog)
    (hne : saturate u32Max rawLog.logIndex ≠ j)
    (hbelow : ∀ k < j, ∀ rawLog, (blockLogs receipts)[k]? = some rawLog →
      saturate u32Max rawLog.logIndex = k) :
    decodeLogs block (blockLogs receipts) =
      .fail (.logIndexGap block.number j (saturate u32Max rawLog.logIndex) j) := by
  apply Except.mapM_eq_error_iff.mpr
  refine ⟨j, (rawLog, j), ?_, decodeLogAt_of_ne hne block.number, ?_⟩
  · simp [List.getElem?_zipIdx, hraw]
  · rintro k hk ⟨rawLog', k'⟩ hget
    rw [List.getElem?_zipIdx, Option.map_eq_some_iff] at hget
    obtain ⟨_, hraw', heq⟩ := hget
    simp only [Nat.zero_add, Prod.mk.injEq] at heq
    obtain ⟨rfl, rfl⟩ := heq
    exact ⟨_, decodeLogAt_of_eq (hbelow k hk _ hraw') block.number⟩

/-- Below the bound of `u32` the narrowing keeps every index that counts, and no other. -/
theorem saturate_eq_iff {index position : ℕ} (h : position < u32Max) :
    saturate u32Max index = position ↔ index = position := by
  unfold saturate
  split <;> omega

/-! ## Blocks -/

theorem decodeBlock_of_transactions_fail {block : BlockResponse} {receipts : List ReceiptResponse}
    {e : DecodeError} (h : decodeTransactions block receipts = .fail e) :
    decodeBlock block receipts = .fail e := by
  unfold decodeBlock
  rw [h]
  rfl

theorem decodeBlock_of_logs_fail {block : BlockResponse} {receipts : List ReceiptResponse}
    {transactions : List Transaction} {e : DecodeError}
    (htransactions : decodeTransactions block receipts = .ok transactions)
    (h : decodeLogs block (blockLogs receipts) = .fail e) :
    decodeBlock block receipts = .fail e := by
  unfold decodeBlock
  rw [htransactions]
  change (decodeLogs block (blockLogs receipts) >>= _) = _
  rw [h]
  rfl

/-- **Consistent replies** reach the token transfers, with lists that line up. -/
theorem decodeBlock_of_consistent {block : BlockResponse} {receipts : List ReceiptResponse}
    (h : Consistent block receipts) :
    ∃ header transactions, decodeHeader block = .ok header ∧
      decodeTransactions block receipts = .ok transactions ∧
        decodeBlock block receipts = (decodeTokenTransfers (decodedLogs block receipts)).map
          fun tokenTransfers =>
            { block := header, transactions, logs := decodedLogs block receipts,
              tokenTransfers } := by
  rcases decodeTransactions_cases block receipts with ⟨-, -, transactions, htransactions⟩ | hfail
  · rcases decodeLogs_cases block receipts with ⟨-, hlogs⟩ | hfail
    · refine ⟨_, transactions, rfl, htransactions, ?_⟩
      unfold decodeBlock
      rw [htransactions]
      change (decodeLogs block (blockLogs receipts) >>= _) = _
      rw [hlogs]
      rfl
    · exact absurd h.indices hfail.1
  · exact absurd ⟨h.length, h.hashes⟩ hfail.1

/-- Replies that fail a check are rejected with an error. -/
theorem decodeBlock_of_not_consistent {block : BlockResponse} {receipts : List ReceiptResponse}
    (h : ¬ Consistent block receipts) : ∃ e, decodeBlock block receipts = .fail e := by
  rcases decodeTransactions_cases block receipts with
    ⟨hlength, hmatch, transactions, htransactions⟩ | ⟨-, e, hfail⟩
  · rcases decodeLogs_cases block receipts with ⟨hindices, -⟩ | ⟨-, e, hfail⟩
    · exact absurd ⟨hlength, hmatch, hindices⟩ h
    · exact ⟨e, decodeBlock_of_logs_fail htransactions hfail⟩
  · exact ⟨e, decodeBlock_of_transactions_fail hfail⟩

/-- The logs of a decoded block are the replies', each at its position. -/
theorem decodeBlock_logs {block : BlockResponse} {receipts : List ReceiptResponse}
    {indexed : IndexedBlock} (h : decodeBlock block receipts = .ok indexed) :
    LogsInPlace receipts ∧ indexed.logs = decodedLogs block receipts := by
  have hlogs : decodeLogs block (blockLogs receipts) = .ok indexed.logs :=
    (decodeBlock_parts h).2.2.1
  rcases decodeLogs_cases block receipts with ⟨hindices, hdecoded⟩ | ⟨-, e, hfail⟩
  · exact ⟨hindices, Except.ok.inj (hlogs.symm.trans hdecoded)⟩
  · cases hlogs.symm.trans hfail

/-- A decoded block lines up with its replies. -/
theorem decodeBlock_aligned {block : BlockResponse} {receipts : List ReceiptResponse}
    (htxs : block.transactions.length ≤ u32Max) (hlogs : (blockLogs receipts).length ≤ u32Max)
    {indexed : IndexedBlock} (h : decodeBlock block receipts = .ok indexed) :
    indexed.Aligned block receipts := by
  obtain ⟨hheader, htransactions, -, htransfers⟩ := decodeBlock_parts h
  obtain ⟨hindices, heq⟩ := decodeBlock_logs h
  have hcount : indexed.block.txCount = block.transactions.length := by
    unfold decodeHeader at hheader
    rw [← Except.ok.inj hheader]
    exact saturate_of_le htxs
  refine ⟨hcount, (length_decodeTransactions htransactions).2.symm,
    (length_decodeTransactions htransactions).1, ?_, by simp [heq, decodedLogs], ?_, ?_⟩
  · intro i t tx receipt ht htx hreceipt
    exact decodeTransactions_combines htxs htransactions ht htx hreceipt
  · intro j log rawLog hlog hraw
    rw [heq, getElem?_decodedLogs, hraw] at hlog
    cases hlog
    -- The position is in the block, hence below `u32::MAX`.
    have hj : j < u32Max := Nat.lt_of_lt_of_le (List.getElem?_eq_some_iff.mp hraw).1 hlogs
    exact { blockNumber := rfl, logIndex := rfl
            rawIndex := (saturate_eq_iff hj).mp (hindices j rawLog hraw), txHash := rfl
            address := rfl, topics := rawLog.toLog_topics block.number j, topic0 := rfl
            topic1 := rfl, topic2 := rfl, topic3 := rfl, data := rfl }
  · intro t ht
    obtain ⟨log, hlog, hnames⟩ := decodeTokenTransfers_names htransfers t ht
    exact ⟨log, hlog, hnames.2⟩

/-- **The first failing check is reported, and a decoded block is aligned**: the number of
receipts is checked first, then each receipt's hash in order, then each log's index in order;
and no element of a decoded block is lost, moved or paired with another's data. -/
theorem decodeBlock_first_error_or_aligned (block : BlockResponse)
    (receipts : List ReceiptResponse) (htxs : block.transactions.length ≤ u32Max)
    (hlogs : (blockLogs receipts).length ≤ u32Max) :
    (block.transactions.length ≠ receipts.length →
        decodeBlock block receipts =
          .fail (.receiptCountMismatch block.number block.transactions.length receipts.length)) ∧
      (∀ i tx receipt, block.transactions.length = receipts.length →
        block.transactions[i]? = some tx → receipts[i]? = some receipt →
          receipt.transactionHash ≠ tx.hash → HashesMatchBelow block receipts i →
            decodeBlock block receipts =
              .fail (.receiptHashMismatch block.number i receipt.transactionHash tx.hash)) ∧
      (∀ j rawLog, block.transactions.length = receipts.length →
        HashesMatchBelow block receipts receipts.length →
          (blockLogs receipts)[j]? = some rawLog → rawLog.logIndex ≠ j →
            IndicesCountBelow receipts j →
              decodeBlock block receipts =
                .fail (.logIndexGap block.number j (saturate u32Max rawLog.logIndex) j)) ∧
      ∀ indexed, decodeBlock block receipts = .ok indexed → indexed.Aligned block receipts := by
  refine ⟨?_, ?_, ?_, fun indexed h => decodeBlock_aligned htxs hlogs h⟩
  · intro hlength
    exact decodeBlock_of_transactions_fail (if_pos hlength)
  · intro i tx receipt hlength htx hreceipt hne hbelow
    apply decodeBlock_of_transactions_fail
    exact decodeTransactions_eq_error hlength htx hreceipt hne hbelow
  · intro j rawLog hlength hmatch hraw hne hbelow
    rcases decodeTransactions_cases block receipts with
      ⟨-, -, transactions, htransactions⟩ | ⟨hfail, -⟩
    · apply decodeBlock_of_logs_fail htransactions
      have hj : j < u32Max := Nat.lt_of_lt_of_le (List.getElem?_eq_some_iff.mp hraw).1 hlogs
      refine decodeLogs_eq_error hraw (fun h => hne ((saturate_eq_iff hj).mp h)) ?_
      intro k hk rawLog' hraw'
      exact (saturate_eq_iff (Nat.lt_trans hk hj)).mpr (hbelow k hk rawLog' hraw')
    · exact absurd ⟨hlength, hmatch⟩ hfail

theorem batchLog_aligned : BatchLog.indexed.Aligned BatchLog.block [BatchLog.receipt] :=
  (decodeBlock_first_error_or_aligned BatchLog.block [BatchLog.receipt] (by decide)
    (by decide)).2.2.2 BatchLog.indexed BatchLog.decodeBlock_eq

end ChainLens
