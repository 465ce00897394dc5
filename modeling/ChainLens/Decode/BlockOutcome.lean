import ChainLens.Decode.Consistency
import ChainLens.Decode.Outcome

/-!
# What the logs make of a block

The first log that is not read decides the outcome of a block whose replies pass the structural
checks: it rejects the block with an error or ends the decoder with a panic. A log with the topic
of a transfer but not its number of topics is read as nothing, and might as well be absent.

## Main definitions

* `FirstUnread p logs`: the first log that is not read satisfies `p`

## Main results

* `decodeBlock_panics_iff`, `decodeBlock_fails_iff`, `decodeBlock_isOk_iff`: the outcome of a block
* `decodeBlock_never_panics_iff`: when the decoder ends well or with an error
* `decodeBlock_nonstandard`: what a non-standard event does to its block
-/

namespace ChainLens

/-- The first log that is not read satisfies `p`. -/
def FirstUnread (p : Log → Prop) (logs : List Log) : Prop :=
  ∃ (i : ℕ) (log : Log), logs[i]? = some log ∧ p log ∧
    ∀ j < i, ∀ earlier, logs[j]? = some earlier → earlier.Readable


section Logs

variable {logs : List Log}

theorem decodeTokenTransfers_eq_ok_iff {ts : List TokenTransfer} :
    decodeTokenTransfers logs = .ok ts ↔
      ∃ tss, logs.mapM decodeLogTransfers = .ok tss ∧ tss.flatten = ts := by
  unfold decodeTokenTransfers
  rw [Except.bind_eq_ok_iff]
  simp only [pure, Except.pure, Except.ok.injEq]

theorem decodeTokenTransfers_eq_error_iff {fault : Fault DecodeError} :
    decodeTokenTransfers logs = .error fault ↔ logs.mapM decodeLogTransfers = .error fault := by
  unfold decodeTokenTransfers
  cases logs.mapM decodeLogTransfers <;> simp [bind, Except.bind, pure, Except.pure]

/-- The fault of a list of logs is the fault of the first log that has one. -/
theorem decodeTokenTransfers_eq_error_iff_first (hlogs : ∀ log ∈ logs, log.Admissible)
    {fault : Fault DecodeError} :
    decodeTokenTransfers logs = .error fault ↔
      FirstUnread (fun log => decodeLogTransfers log = .error fault) logs := by
  rw [decodeTokenTransfers_eq_error_iff, Except.mapM_eq_error_iff]
  unfold FirstUnread
  -- The logs before the first fault are those that are read.
  refine exists_congr fun i => exists_congr fun log => and_congr_right fun _ =>
    and_congr_right fun _ => forall_congr' fun j => imp_congr_right fun _ =>
      forall_congr' fun earlier => imp_congr_right fun hearlier => ?_
  exact readable_iff (hlogs earlier (List.mem_of_getElem? hearlier))

theorem FirstUnread.congr {p q : Log → Prop} (h : ∀ log ∈ logs, p log ↔ q log) :
    FirstUnread p logs ↔ FirstUnread q logs := by
  unfold FirstUnread
  refine exists_congr fun i => exists_congr fun log => and_congr_right fun hlog => ?_
  rw [h log (List.mem_of_getElem? hlog)]

theorem decodeTokenTransfers_fails_iff (hlogs : ∀ log ∈ logs, log.Admissible) (e : DecodeError) :
    decodeTokenTransfers logs = .fail e ↔ FirstUnread (·.Malformed e) logs := by
  rw [← FirstUnread.congr fun log hlog => malformed_iff (hlogs log hlog) e]
  exact decodeTokenTransfers_eq_error_iff_first hlogs

theorem decodeTokenTransfers_panics_iff (hlogs : ∀ log ∈ logs, log.Admissible) :
    (∃ message, decodeTokenTransfers logs = .panic message) ↔ FirstUnread Log.Overflows logs := by
  rw [← FirstUnread.congr fun log hlog => overflows_iff (hlogs log hlog)]
  constructor
  · rintro ⟨message, h⟩
    obtain ⟨i, log, hlog, hpanic, hbefore⟩ :=
      (decodeTokenTransfers_eq_error_iff_first hlogs).mp h
    exact ⟨i, log, hlog, ⟨message, hpanic⟩, hbefore⟩
  · rintro ⟨i, log, hlog, ⟨message, hpanic⟩, hbefore⟩
    exact ⟨message, (decodeTokenTransfers_eq_error_iff_first hlogs).mpr
      ⟨i, log, hlog, hpanic, hbefore⟩⟩

theorem decodeTokenTransfers_isOk_iff (hlogs : ∀ log ∈ logs, log.Admissible) :
    (∃ ts, decodeTokenTransfers logs = .ok ts) ↔ ∀ log ∈ logs, log.Readable := by
  constructor
  · rintro ⟨ts, hts⟩ log hlog
    obtain ⟨tss, htss, -⟩ := decodeTokenTransfers_eq_ok_iff.mp hts
    exact (readable_iff (hlogs log hlog)).mp (Except.exists_of_mapM_of_mem htss hlog)
  · intro hread
    -- Without a log that is not read there is no place to stop at.
    cases h : decodeTokenTransfers logs with
    | ok ts => exact ⟨ts, rfl⟩
    | error fault =>
      obtain ⟨i, log, hlog, hfault, -⟩ := (decodeTokenTransfers_eq_error_iff_first hlogs).mp h
      have hmem := List.mem_of_getElem? hlog
      obtain ⟨ts, hts⟩ := (readable_iff (hlogs log hmem)).mpr (hread log hmem)
      cases hts.symm.trans hfault

/-- A log that contributes nothing might as well be absent. -/
theorem decodeTokenTransfers_remove (pre post : List Log) {log : Log}
    (h : decodeLogTransfers log = .ok []) :
    decodeTokenTransfers (pre ++ log :: post) = decodeTokenTransfers (pre ++ post) := by
  unfold decodeTokenTransfers
  rw [List.mapM_append, List.mapM_append, List.mapM_cons, h]
  cases pre.mapM decodeLogTransfers with
  | error fault => rfl
  | ok tss =>
    cases post.mapM decodeLogTransfers with
    | error fault => rfl
    | ok tss' => simp [bind, Except.bind, pure, Except.pure]

end Logs

/-! ## A block -/

section Block

variable {block : BlockResponse} {receipts : List ReceiptResponse}

/-- The logs of a block are admissible when their data fits the memory. -/
theorem decodedLogs_admissible
    (hsize : ∀ rawLog ∈ blockLogs receipts, rawLog.data.length ≤ i64Max) :
    ∀ log ∈ decodedLogs block receipts, log.Admissible := by
  intro log hlog
  obtain ⟨⟨rawLog, j⟩, hmem, rfl⟩ := List.mem_map.mp hlog
  refine ⟨hsize rawLog (List.mem_of_getElem? (mem_zipIdx_iff.mp hmem)), ?_, ?_⟩
  · simp only [LogResponse.toLog, List.getElem?_eq_none_iff]
    omega
  · simp only [LogResponse.toLog, List.getElem?_eq_none_iff]
    omega

/-- **When the decoder panics.** -/
theorem decodeBlock_panics_iff
    (hsize : ∀ rawLog ∈ blockLogs receipts, rawLog.data.length ≤ i64Max) :
    (∃ message, decodeBlock block receipts = .panic message) ↔
      Consistent block receipts ∧ FirstUnread Log.Overflows (decodedLogs block receipts) := by
  rw [← decodeTokenTransfers_panics_iff (decodedLogs_admissible hsize)]
  by_cases h : Consistent block receipts
  · obtain ⟨header, transactions, -, -, heq⟩ := decodeBlock_of_consistent h
    rw [heq]
    cases decodeTokenTransfers (decodedLogs block receipts) <;>
      simp [h, Except.map, Decode.panic]
  · -- Replies that fail a check are rejected with an error.
    obtain ⟨e, he⟩ := decodeBlock_of_not_consistent h
    simp [h, he, Decode.fail, Decode.panic]

/-- **When a consistent block is rejected**, and with which error. -/
theorem decodeBlock_fails_iff (h : Consistent block receipts)
    (hsize : ∀ rawLog ∈ blockLogs receipts, rawLog.data.length ≤ i64Max) (e : DecodeError) :
    decodeBlock block receipts = .fail e ↔
      FirstUnread (·.Malformed e) (decodedLogs block receipts) := by
  rw [← decodeTokenTransfers_fails_iff (decodedLogs_admissible hsize)]
  obtain ⟨header, transactions, -, -, heq⟩ := decodeBlock_of_consistent h
  rw [heq]
  cases decodeTokenTransfers (decodedLogs block receipts) <;> simp [Except.map, Decode.fail]

/-- **When a consistent block is decoded.** -/
theorem decodeBlock_isOk_iff (h : Consistent block receipts)
    (hsize : ∀ rawLog ∈ blockLogs receipts, rawLog.data.length ≤ i64Max) :
    (∃ indexed, decodeBlock block receipts = .ok indexed) ↔
      ∀ log ∈ decodedLogs block receipts, log.Readable := by
  rw [← decodeTokenTransfers_isOk_iff (decodedLogs_admissible hsize)]
  obtain ⟨header, transactions, -, -, heq⟩ := decodeBlock_of_consistent h
  rw [heq]
  cases decodeTokenTransfers (decodedLogs block receipts) <;> simp [Except.map]

/-- A skipped log leaves no transfer in the block, and the others are those of the block without
it. -/
theorem decodeBlock_of_skipped {pre post : List Log} {log : Log}
    (hsplit : decodedLogs block receipts = pre ++ log :: post) (hskip : log.Skipped) :
    decodeTokenTransfers (decodedLogs block receipts) = decodeTokenTransfers (pre ++ post) ∧
      ∀ indexed, decodeBlock block receipts = .ok indexed →
        ∀ t ∈ indexed.tokenTransfers, t.logIndex ≠ log.logIndex := by
  have hremove := decodeTokenTransfers_remove pre post (decodeLogTransfers_of_skipped hskip)
  rw [← hsplit] at hremove
  refine ⟨hremove, fun indexed h t ht hindex => ?_⟩
  obtain ⟨-, -, hlogs, htransfers⟩ := decodeBlock_parts h
  change decodeLogs block (blockLogs receipts) = _ at hlogs
  rcases decodeLogs_cases block receipts with ⟨-, hdecoded⟩ | ⟨-, e, hfail⟩
  · have heq : indexed.logs = decodedLogs block receipts :=
      Except.ok.inj (hlogs.symm.trans hdecoded)
    rw [heq, hremove] at htransfers
    obtain ⟨other, hother, hnames⟩ := decodeTokenTransfers_names htransfers t ht
    -- Indices are positions, so no other log shares the index.
    have hnodup : ((pre ++ log :: post).map (·.logIndex)).Nodup := by
      rw [← hsplit, ← heq, decodeLogs_logIndex hlogs]
      exact List.nodup_range
    rw [List.map_append, List.map_cons, List.nodup_middle, List.nodup_cons] at hnodup
    apply hnodup.1
    rw [← List.map_append, ← hindex, hnames.2]
    exact List.mem_map_of_mem hother
  · cases hlogs.symm.trans hfail

end Block

/-- **The decoder never panics, except on a batch that overflows it**: some log claims a word the
batch decoder cannot handle, every log before it is read, and the replies pass the checks. -/
theorem decodeBlock_never_panics_iff (block : BlockResponse) (receipts : List ReceiptResponse)
    (hsize : ∀ rawLog ∈ blockLogs receipts, rawLog.data.length ≤ i64Max) :
    (∀ message, decodeBlock block receipts ≠ .panic message) ↔
      ¬ (Consistent block receipts ∧ FirstUnread Log.Overflows (decodedLogs block receipts)) := by
  rw [← decodeBlock_panics_iff hsize, not_exists]

theorem BatchLog.rawLog_size : ∀ rawLog ∈ blockLogs [receipt], rawLog.data.length ≤ i64Max := by
  intro rawLog hraw
  obtain rfl := List.mem_singleton.mp hraw
  decide +kernel

theorem batchLog_does_not_stop :
    ¬ (Consistent BatchLog.block [BatchLog.receipt] ∧
      FirstUnread Log.Overflows (decodedLogs BatchLog.block [BatchLog.receipt])) := by
  apply (decodeBlock_never_panics_iff BatchLog.block [BatchLog.receipt] BatchLog.rawLog_size).mp
  intro message h
  cases BatchLog.decodeBlock_eq.symm.trans h

/-- The batch log with an offset of 256 bits. -/
def BatchLog.hugeOffsetReceipt : ReceiptResponse :=
  { BatchLog.receipt with
    logs := [{ BatchLog.rawLog with data := List.replicate 32 255 ++ List.replicate 96 0 }] }

theorem decodeBlock_huge_offset_panics :
    decodeBlock BatchLog.block [BatchLog.hugeOffsetReceipt] =
      .panic "Uint conversion error" := by
  decide +kernel

/-- **Non-standard events**: in replies that pass the checks and hold no batch that overflows, a
log with the topic of a transfer but neither three nor four topics is as good as absent; and the
block is decoded unless some log is malformed, which then rejects it with the error of the first
such log. -/
theorem decodeBlock_nonstandard (block : BlockResponse) (receipts : List ReceiptResponse)
    (hconsistent : Consistent block receipts)
    (hsize : ∀ rawLog ∈ blockLogs receipts, rawLog.data.length ≤ i64Max)
    (hbatches : ∀ log ∈ decodedLogs block receipts, ¬ log.Overflows) :
    ((∃ indexed, decodeBlock block receipts = .ok indexed) ↔
        ∀ log ∈ decodedLogs block receipts, ∀ e, ¬ log.Malformed e) ∧
      (∀ e, decodeBlock block receipts = .fail e ↔
        FirstUnread (·.Malformed e) (decodedLogs block receipts)) ∧
      ∀ pre log post, decodedLogs block receipts = pre ++ log :: post → log.Skipped →
        decodeTokenTransfers (decodedLogs block receipts) = decodeTokenTransfers (pre ++ post) ∧
          ∀ indexed, decodeBlock block receipts = .ok indexed →
            ∀ t ∈ indexed.tokenTransfers, t.logIndex ≠ log.logIndex := by
  refine ⟨?_, decodeBlock_fails_iff hconsistent hsize,
    fun pre log post => decodeBlock_of_skipped⟩
  rw [decodeBlock_isOk_iff hconsistent hsize]
  constructor
  · intro hread log hlog
    exact (hread log hlog).not_malformed
  · intro hmal log hlog
    exact ⟨hmal log hlog, hbatches log hlog⟩

/-- The batch log with the topics of an ERC-20 transfer and no data. -/
def BatchLog.bareTransferReceipt : ReceiptResponse :=
  { BatchLog.receipt with
    logs := [{ BatchLog.rawLog with
      topics := [transferTopic, .withLastByte 31 1, .withLastByte 31 2], data := [] }] }

theorem BatchLog.bareTransfer_consistent :
    Consistent BatchLog.block [BatchLog.bareTransferReceipt] := by
  refine ⟨rfl, ?_, ?_⟩
  · intro i hi tx receipt htx hreceipt
    obtain rfl : i = 0 := by simpa using hi
    cases htx
    cases hreceipt
    rfl
  · intro j rawLog hraw
    obtain ⟨hj, -⟩ := List.getElem?_eq_some_iff.mp hraw
    obtain rfl : j = 0 := by simpa [blockLogs, BatchLog.bareTransferReceipt] using hj
    cases hraw
    rfl

/-- A transfer event without its data rejects the block it is in. -/
theorem decodeBlock_bare_transfer_rejected :
    Consistent BatchLog.block [BatchLog.bareTransferReceipt] ∧
      decodeBlock BatchLog.block [BatchLog.bareTransferReceipt] =
        .fail (.invalidErc20DataLength 0 0) :=
  ⟨BatchLog.bareTransfer_consistent, by decide +kernel⟩

theorem bareTransfer_stops :
    FirstUnread (·.Malformed (.invalidErc20DataLength 0 0))
      (decodedLogs BatchLog.block [BatchLog.bareTransferReceipt]) := by
  have hnot : ∀ log ∈ decodedLogs BatchLog.block [BatchLog.bareTransferReceipt],
      ¬ log.Overflows := by
    intro log hlog hover
    obtain rfl := List.mem_singleton.mp hlog
    -- Only a log with the topic of a batch overflows.
    exact absurd hover.isBatch.topic (by decide)
  exact ((decodeBlock_nonstandard BatchLog.block [BatchLog.bareTransferReceipt]
    BatchLog.bareTransfer_consistent (by decide) hnot).2.1 _).mp (by decide +kernel)

end ChainLens
