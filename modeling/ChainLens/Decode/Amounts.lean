import ChainLens.Decode.Consistency
import ChainLens.Decode.Outcome

/-!
# The amounts of a transfer

The decoder computes no amount: value and token id of a transfer are words of its log, or zero
where the standard has no such amount.

## Main definitions

* `Log.Holds`: a number stands in the log
* `TokenTransfer.ReadFrom`: both amounts stand in the log

## Main results

* `decodeTokenTransfers_readFrom`
* `decodeBlock_readFrom`: the amounts of a decoded block stand in the replies
-/

namespace ChainLens

/-- The number is the fourth topic of the log, or 32 consecutive bytes of its data. -/
inductive Log.Holds (log : Log) : ℕ → Prop where
  | topic {topic : B256} (h : log.topic3 = some topic) : Holds log (BigEndian.value topic.bytes)
  | word {pos : ℕ} (h : pos + 32 ≤ log.data.length) :
      Holds log (BigEndian.wordAt 32 log.data pos)

/-- Both amounts stand in the log; the one a standard does not have is zero. -/
structure TokenTransfer.ReadFrom (t : TokenTransfer) (log : Log) : Prop where
  names : t.Names log
  value : t.standard = .erc721 ∧ t.value = 0 ∨ log.Holds t.value.toNat
  tokenId : t.standard = .erc20 ∧ t.tokenId = 0 ∨ log.Holds t.tokenId.toNat

section OneLog

variable {log : Log} {t : TokenTransfer}

theorem addUsize_ok {a b c : ℕ} (h : addUsize a b = .ok c) : c = a + b := by
  unfold addUsize at h
  split at h
  · exact (Except.ok.inj h).symm
  · cases h

/-- A word that was sliced stands in the log. -/
theorem Log.holds_of_slice {start : ℕ} {word : Bytes}
    (h : slice log.data start (start + 32) = .ok word) :
    log.Holds (U256.fromBeSlice word).toNat := by
  unfold slice at h
  split at h
  next hrange =>
    cases h
    rw [U256.toNat_fromBeSlice (by simp), Nat.add_sub_cancel_left]
    exact .word hrange.2
  · cases h

theorem decodeErc20Transfer_readFrom (h : decodeErc20Transfer log = .ok t) : t.ReadFrom log := by
  have hnames := decodeErc20Transfer_names h
  unfold decodeErc20Transfer at h
  simp only [Except.bind_eq_ok_iff] at h
  obtain ⟨fromAddr, -, toAddr, -, _, hlength, h⟩ := h
  cases h
  refine ⟨hnames, .inr ?_, .inl ⟨rfl, rfl⟩⟩
  have hdata : log.data.length = 32 := by
    unfold Decode.rejectIf at hlength
    split at hlength
    · cases hlength
    next hdata => exact not_not.mp hdata
  have hword : log.Holds (BigEndian.wordAt 32 log.data 0) := .word (by omega)
  rw [U256.toNat_fromBeSlice (by omega)]
  rwa [BigEndian.wordAt, List.drop_zero, List.take_of_length_le (by omega)] at hword

theorem decodeErc721Transfer_readFrom (h : decodeErc721Transfer log = .ok t) :
    t.ReadFrom log := by
  have hnames := decodeErc721Transfer_names h
  unfold decodeErc721Transfer at h
  simp only [Except.bind_eq_ok_iff] at h
  obtain ⟨fromAddr, -, toAddr, -, h⟩ := h
  split at h
  · cases h
  next topic htopic =>
    cases h
    refine ⟨hnames, .inl ⟨rfl, rfl⟩, .inr ?_⟩
    rw [U256.toNat_fromBeSlice (by rw [topic.length_bytes])]
    exact .topic htopic

theorem decodeErc1155Single_readFrom (h : decodeErc1155Single log = .ok t) : t.ReadFrom log := by
  have hnames := decodeErc1155Single_names h
  unfold decodeErc1155Single at h
  simp only [Except.bind_eq_ok_iff] at h
  obtain ⟨fromAddr, -, toAddr, -, _, -, tokenId, hid, value, hvalue, h⟩ := h
  cases h
  exact ⟨hnames, .inr (Log.holds_of_slice hvalue), .inr (Log.holds_of_slice hid)⟩

theorem decodeErc1155Pair_readFrom {fromAddr toAddr : Address} {idsOffset valuesOffset i : ℕ}
    (h : decodeErc1155Pair log fromAddr toAddr idsOffset valuesOffset i = .ok (some t)) :
    t.ReadFrom log := by
  have hnames := decodeErc1155Pair_names h
  unfold decodeErc1155Pair at h
  simp only [Except.bind_eq_ok_iff] at h
  obtain ⟨_, -, _, -, idPos, -, _, -, _, -, valPos, -, idEnd, hidEnd, h⟩ := h
  split at h
  · cases h
  · obtain ⟨valEnd, hvalEnd, h⟩ := Except.bind_eq_ok_iff.mp h
    split at h
    · cases h
    · obtain ⟨tokenId, hid, h⟩ := Except.bind_eq_ok_iff.mp h
      obtain ⟨value, hvalue, h⟩ := Except.bind_eq_ok_iff.mp h
      cases h
      obtain rfl := addUsize_ok hidEnd
      obtain rfl := addUsize_ok hvalEnd
      exact ⟨hnames, .inr (Log.holds_of_slice hvalue), .inr (Log.holds_of_slice hid)⟩

end OneLog

theorem readFrom_ofDecoders : OfDecoders TokenTransfer.ReadFrom where
  erc20 := decodeErc20Transfer_readFrom
  erc721 := decodeErc721Transfer_readFrom
  single := decodeErc1155Single_readFrom
  pair := decodeErc1155Pair_readFrom

/-- **The amounts of the transfers stand in the logs.** -/
theorem decodeTokenTransfers_readFrom {logs : List Log} {ts : List TokenTransfer}
    (h : decodeTokenTransfers logs = .ok ts) : ∀ t ∈ ts, ∃ log ∈ logs, t.ReadFrom log :=
  readFrom_ofDecoders.tokenTransfers h

/-- **The amounts of a decoded block stand in the replies**, at the log each transfer names. -/
theorem decodeBlock_readFrom {block : BlockResponse} {receipts : List ReceiptResponse}
    {indexed : IndexedBlock} (h : decodeBlock block receipts = .ok indexed) :
    ∀ t ∈ indexed.tokenTransfers, ∃ rawLog, (blockLogs receipts)[t.logIndex]? = some rawLog ∧
      t.ReadFrom (rawLog.toLog block.number t.logIndex) := by
  intro t ht
  obtain ⟨log, hlog, hread⟩ := decodeTokenTransfers_readFrom (decodeBlock_parts h).2.2.2 t ht
  rw [(decodeBlock_logs h).2] at hlog
  obtain ⟨j, hj⟩ := List.getElem?_of_mem hlog
  rw [getElem?_decodedLogs, Option.map_eq_some_iff] at hj
  obtain ⟨rawLog, hraw, rfl⟩ := hj
  have hindex : t.logIndex = j := hread.names.2
  exact ⟨rawLog, hindex ▸ hraw, hindex ▸ hread⟩

end ChainLens
