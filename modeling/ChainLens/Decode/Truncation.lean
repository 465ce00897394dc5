import ChainLens.Decode.Block
import ChainLens.Decode.Outcome
import Mathlib.Data.List.TakeWhile

/-!
# Batches that run past the end

The batch loop is left at the first pair that does not lie inside the data, so a batch whose arrays
claim more words than there are is read as a shorter one.

## Main definitions

* `Log.RunsPastEnd`: an array of the batch does not lie inside the data
* `Log.ReadWhole`: the transfers are the pairs of both arrays, and all of them

## Main results

* `decodeErc1155Pairs_eq`: what the batch loop returns
* `decodeErc1155Batch_readsWhole_iff`: when a batch is read whole or rejected
-/

namespace ChainLens

namespace Log

variable (log : Log)

/-- An array of the batch, its length word included, runs past the end of the data. -/
def RunsPastEnd : Prop :=
  log.data.length < log.idsOffset + 32 + log.idsLen * 32 ∨
    log.data.length < log.valuesOffset + 32 + log.valuesLen * 32

/-- The transfers are as many as both arrays claim words, and each consists of the words of its
index, which lie inside the data. -/
structure ReadWhole (ts : List TokenTransfer) : Prop where
  ids : ts.length = log.idsLen
  values : ts.length = log.valuesLen
  words : ∀ i t, ts[i]? = some t →
    log.idsOffset + 32 + i * 32 + 32 ≤ log.data.length ∧
      log.valuesOffset + 32 + i * 32 + 32 ≤ log.data.length ∧
      t.tokenId.toNat = BigEndian.wordAt 32 log.data (log.idsOffset + 32 + i * 32) ∧
      t.value.toNat = BigEndian.wordAt 32 log.data (log.valuesOffset + 32 + i * 32)

/-- The words of both arrays at an index lie inside the data. -/
def PairInside (idsOffset valuesOffset i : ℕ) : Prop :=
  idsOffset + 32 + i * 32 + 32 ≤ log.data.length ∧
    valuesOffset + 32 + i * 32 + 32 ≤ log.data.length

instance decidablePairInside (idsOffset valuesOffset i : ℕ) :
    Decidable (log.PairInside idsOffset valuesOffset i) := inferInstanceAs (Decidable (_ ∧ _))

/-- The transfer of the words at an index. -/
def transferAt (fromAddr toAddr : Address) (idsOffset valuesOffset i : ℕ) : TokenTransfer :=
  erc1155Transfer log fromAddr toAddr
    (U256.fromBeSlice ((log.data.drop (idsOffset + 32 + i * 32)).take 32))
    (U256.fromBeSlice ((log.data.drop (valuesOffset + 32 + i * 32)).take 32))

end Log

section Loop

variable {log : Log} {fromAddr toAddr : Address} {idsOffset valuesOffset : ℕ}

theorem decodeErc1155Pair_inside {i : ℕ} (hsize : log.data.length ≤ i64Max)
    (h : log.PairInside idsOffset valuesOffset i) :
    decodeErc1155Pair log fromAddr toAddr idsOffset valuesOffset i =
      .ok (some (log.transferAt fromAddr toAddr idsOffset valuesOffset i)) := by
  obtain ⟨hid, hval⟩ := h
  have hmax : i64Max ≤ usizeMax := by decide
  rw [decodeErc1155Pair_eq fromAddr toAddr (by omega) (by omega), if_neg (by omega),
    if_neg (by omega)]
  rfl

theorem decodeErc1155Pair_outside {i : ℕ} (hsize : log.data.length ≤ i64Max)
    (hids : idsOffset + 32 ≤ log.data.length) (hvalues : valuesOffset + 32 ≤ log.data.length)
    (hi : i * tokenTransferSize ≤ i64Max) (h : ¬ log.PairInside idsOffset valuesOffset i) :
    decodeErc1155Pair log fromAddr toAddr idsOffset valuesOffset i = .ok none := by
  unfold i64Max tokenTransferSize at *
  rw [decodeErc1155Pair_eq fromAddr toAddr (by unfold usizeMax; omega) (by unfold usizeMax; omega)]
  split
  · rfl
  next hid => exact if_pos (Nat.lt_of_not_le fun hval => h ⟨Nat.le_of_not_lt hid, hval⟩)

/-- **What the batch loop returns**: the pairs up to the first that does not lie inside the data. -/
theorem decodeErc1155Pairs_eq (hsize : log.data.length ≤ i64Max)
    (hids : idsOffset + 32 ≤ log.data.length) (hvalues : valuesOffset + 32 ≤ log.data.length)
    {remaining i : ℕ} (hroom : (i + remaining) * tokenTransferSize ≤ i64Max) :
    decodeErc1155Pairs log fromAddr toAddr idsOffset valuesOffset remaining i =
      .ok (((List.range' i remaining).takeWhile fun k =>
        log.PairInside idsOffset valuesOffset k).map
          (log.transferAt fromAddr toAddr idsOffset valuesOffset)) := by
  induction remaining generalizing i with
  | zero => rfl
  | succ remaining ih =>
    rw [List.range'_succ]
    unfold decodeErc1155Pairs
    by_cases hinside : log.PairInside idsOffset valuesOffset i
    · rw [decodeErc1155Pair_inside hsize hinside, List.takeWhile_cons,
        if_pos (decide_eq_true hinside), List.map_cons]
      change (decodeErc1155Pairs _ _ _ _ _ _ _ >>= _) = _
      rw [ih (by rwa [Nat.add_assoc, Nat.add_comm 1])]
      rfl
    · have hi : i * tokenTransferSize ≤ i64Max := by
        unfold tokenTransferSize at *
        omega
      rw [decodeErc1155Pair_outside hsize hids hvalues hi hinside, List.takeWhile_cons,
        if_neg (by simpa using hinside)]
      rfl

end Loop

section Batch

variable {log : Log}

/-- A log that is read is readable. -/
theorem readable_of_decodeErc1155Batch (hsize : log.data.length ≤ i64Max)
    (htopic : log.topic0 = some erc1155TransferBatchTopic) {ts : List TokenTransfer}
    (h : decodeErc1155Batch log = .ok ts) : log.Readable where
  not_malformed e hmal := by
    cases h.symm.trans (decodeErc1155Batch_malformed hsize htopic hmal)
  not_overflows hover := by
    obtain ⟨message, hpanic⟩ := decodeLogTransfers_overflows hsize hover
    rw [decodeLogTransfers_of_batch htopic, h] at hpanic
    cases hpanic

/-- What a batch that is read returns. -/
theorem decodeErc1155Batch_ok (hsize : log.data.length ≤ i64Max)
    (htopic : log.topic0 = some erc1155TransferBatchTopic) {ts : List TokenTransfer}
    (h : decodeErc1155Batch log = .ok ts) :
    log.IsBatch ∧ log.PassesChecks ∧
      ∃ fromAddr toAddr, ts = ((List.range' 0 log.idsLen).takeWhile fun k =>
        log.PairInside log.idsOffset log.valuesOffset k).map
          (log.transferAt fromAddr toAddr log.idsOffset log.valuesOffset) := by
  have hread := readable_of_decodeErc1155Batch hsize htopic h
  have hbatch := hread.isBatch htopic
  have hchecks := hread.passesChecks hbatch
  obtain ⟨fromAddr, toAddr, hloop⟩ := decodeErc1155Batch_of_passesChecks hsize hbatch hchecks
  rw [hloop, decodeErc1155Pairs_eq hsize hchecks.heads.1 hchecks.heads.2
    (by rw [Nat.zero_add]; exact hchecks.room)] at h
  cases h
  exact ⟨hbatch, hchecks, fromAddr, toAddr, rfl⟩

/-- A batch that passes the checks and runs past the end is truncated. -/
theorem Log.PassesChecks.truncated (h : log.PassesChecks) (hbatch : log.IsBatch)
    (hpast : log.RunsPastEnd) : log.Truncated :=
  ⟨hbatch, h.heads, h.lengths, hpast⟩

/-- A truncated batch whose words do not overflow passes the checks. -/
theorem Log.Truncated.passesChecks (h : log.Truncated) (hover : ¬ log.Overflows) :
    log.PassesChecks where
  heads := h.heads
  idsLen := Nat.le_of_not_lt fun hlt => hover (.idsLen h.batch h.heads hlt)
  valuesLen := Nat.le_of_not_lt fun hlt => hover (.valuesLen h.batch h.heads hlt)
  lengths := h.lengths
  room := Nat.le_of_not_lt fun hlt => hover (.room h.batch h.heads h.lengths hlt)

/-- The pairs of a batch that does not run past the end all lie inside the data. -/
theorem Log.PassesChecks.takeWhile_eq (h : log.PassesChecks) (hpast : ¬ log.RunsPastEnd) :
    (List.range' 0 log.idsLen).takeWhile (fun k =>
      log.PairInside log.idsOffset log.valuesOffset k) = List.range' 0 log.idsLen := by
  have hlengths := h.lengths
  unfold Log.RunsPastEnd at hpast
  refine List.takeWhile_eq_self_iff.mpr fun k hk => decide_eq_true ?_
  have hk' := (List.mem_range'_1.mp hk).2
  exact ⟨by omega, by omega⟩

/-- A batch that is read and does not run past the end is read whole. -/
theorem decodeErc1155Batch_readWhole (hsize : log.data.length ≤ i64Max)
    (htopic : log.topic0 = some erc1155TransferBatchTopic) {ts : List TokenTransfer}
    (h : decodeErc1155Batch log = .ok ts) (hpast : ¬ log.RunsPastEnd) : log.ReadWhole ts := by
  obtain ⟨-, hchecks, fromAddr, toAddr, rfl⟩ := decodeErc1155Batch_ok hsize htopic h
  rw [hchecks.takeWhile_eq hpast]
  have hlength : ((List.range' 0 log.idsLen).map
      (log.transferAt fromAddr toAddr log.idsOffset log.valuesOffset)).length = log.idsLen := by
    simp
  refine ⟨hlength, hlength.trans hchecks.lengths, fun i t ht => ?_⟩
  have hlengths := hchecks.lengths
  unfold Log.RunsPastEnd at hpast
  have hi : i < log.idsLen := hlength ▸ (List.getElem?_eq_some_iff.mp ht).1
  have ht' : log.transferAt fromAddr toAddr log.idsOffset log.valuesOffset i = t := by
    simpa [List.getElem?_range', hi] using ht
  subst ht'
  exact ⟨by omega, by omega, U256.toNat_fromBeSlice (by simp), U256.toNat_fromBeSlice (by simp)⟩

/-- **When a batch is read whole or rejected**: if an array runs past the end of the data, then
not with both heads inside the data and equal lengths, and no word overflows. -/
theorem decodeErc1155Batch_readsWhole_iff (hsize : log.data.length ≤ i64Max)
    (htopic : log.topic0 = some erc1155TransferBatchTopic) :
    ((∀ ts, decodeErc1155Batch log = .ok ts → log.ReadWhole ts) ∧
      (log.RunsPastEnd → ∃ e, decodeErc1155Batch log = .fail e)) ↔
    (log.RunsPastEnd → ¬ log.Truncated ∧ ¬ log.Overflows) := by
  constructor
  · rintro ⟨-, hrejects⟩ hpast
    obtain ⟨e, hfail⟩ := hrejects hpast
    have hnotOverflows : ¬ log.Overflows := by
      intro hover
      obtain ⟨message, hpanic⟩ := decodeLogTransfers_overflows hsize hover
      rw [decodeLogTransfers_of_batch htopic, hfail] at hpanic
      cases hpanic
    refine ⟨fun htruncated => ?_, hnotOverflows⟩
    -- A truncated batch passes the checks, so its loop returns what there is.
    have hchecks := htruncated.passesChecks hnotOverflows
    obtain ⟨fromAddr, toAddr, hloop⟩ :=
      decodeErc1155Batch_of_passesChecks hsize htruncated.batch hchecks
    rw [hloop, decodeErc1155Pairs_eq hsize hchecks.heads.1 hchecks.heads.2
      (by rw [Nat.zero_add]; exact hchecks.room)] at hfail
    cases hfail
  · intro h
    constructor
    · intro ts hts
      refine decodeErc1155Batch_readWhole hsize htopic hts fun hpast => ?_
      obtain ⟨hbatch, hchecks, -⟩ := decodeErc1155Batch_ok hsize htopic hts
      exact (h hpast).1 (hchecks.truncated hbatch hpast)
    · intro hpast
      by_contra hnone
      have hmalformed : ∀ e, ¬ log.Malformed e := fun e hmal =>
        hnone ⟨e, decodeErc1155Batch_malformed hsize htopic hmal⟩
      have hread : log.Readable := ⟨hmalformed, (h hpast).2⟩
      have hbatch := hread.isBatch htopic
      exact (h hpast).1 ((hread.passesChecks hbatch).truncated hbatch hpast)

end Batch

/-- The batch log without its last word. -/
def BatchLog.cutLog : Log := { BatchLog.log with data := BatchLog.data.take 224 }

/-- Two pairs are claimed, the second value is missing, and one transfer is returned. -/
theorem decodeErc1155Batch_truncates :
    BatchLog.cutLog.topic0 = some erc1155TransferBatchTopic ∧
      BatchLog.cutLog.idsLen = 2 ∧ BatchLog.cutLog.valuesLen = 2 ∧
      BatchLog.cutLog.RunsPastEnd ∧
      decodeErc1155Batch BatchLog.cutLog =
        .ok [erc1155Transfer BatchLog.cutLog (.withLastByte 19 1) (.withLastByte 19 2) 1 10] := by
  unfold Log.RunsPastEnd
  decide +kernel

/-- The equivalence at that log, where both sides fail. -/
theorem decodeErc1155Batch_cut_iff :
    ((∀ ts, decodeErc1155Batch BatchLog.cutLog = .ok ts → BatchLog.cutLog.ReadWhole ts) ∧
      (BatchLog.cutLog.RunsPastEnd → ∃ e, decodeErc1155Batch BatchLog.cutLog = .fail e)) ↔
    (BatchLog.cutLog.RunsPastEnd →
      ¬ BatchLog.cutLog.Truncated ∧ ¬ BatchLog.cutLog.Overflows) :=
  decodeErc1155Batch_readsWhole_iff (by decide +kernel) rfl

end ChainLens
