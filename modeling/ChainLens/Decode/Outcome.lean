import ChainLens.Decode.Erc20
import ChainLens.Library.BigEndian

/-!
# What the decoder makes of one log

A log is read, rejected with an error, or ends the decoder with a panic, and which of the three
depends on its topics and its data alone. The panics are the batch decoder's: it converts two
offsets and two lengths of 256 bits to `usize`, adds to the offsets before they are compared with
the data, and reserves room for a length it has not compared with anything.

## Main definitions

* `Log.Malformed log e`: the log does not fit its topic, and is rejected with `e`
* `Log.Overflows`: a word of a batch does not fit the arithmetic of the decoder
* `Log.Readable`: neither of the two

## Main results

* `decodeErc1155Batch_eq`: the batch decoder, word by word
* `readable_iff`, `malformed_iff`, `overflows_iff`: the outcome of a log
-/

namespace ChainLens

theorem beValue_eq (bs : Bytes) : beValue bs = BigEndian.value bs := rfl

/-- The value of a word of at most 32 bytes. -/
theorem U256.toNat_fromBeSlice {bs : Bytes} (h : bs.length ≤ 32) :
    (U256.fromBeSlice bs).toNat = BigEndian.value bs := by
  unfold U256.fromBeSlice
  rw [BitVec.toNat_ofNat, beValue_eq]
  apply Nat.mod_eq_of_lt
  calc BigEndian.value bs < 256 ^ bs.length := BigEndian.value_lt bs
    _ ≤ 256 ^ 32 := Nat.pow_le_pow_right (by decide) h
    _ = 2 ^ 256 := by decide

/-! ## The words of a batch -/

namespace Log

variable (log : Log)

/-- The position of the array of ids. -/
def idsOffset : ℕ := BigEndian.wordAt 32 log.data 0

/-- The position of the array of values. -/
def valuesOffset : ℕ := BigEndian.wordAt 32 log.data 32

/-- The claimed length of the array of ids. -/
def idsLen : ℕ := BigEndian.wordAt 32 log.data log.idsOffset

/-- The claimed length of the array of values. -/
def valuesLen : ℕ := BigEndian.wordAt 32 log.data log.valuesOffset

/-- The length words of both arrays lie inside the data. -/
def HeadsInBounds : Prop :=
  log.idsOffset + 32 ≤ log.data.length ∧ log.valuesOffset + 32 ≤ log.data.length

/-- The log has a sender and a receiver topic, at the places of ERC-1155. -/
def HasParties : Prop := log.topic2 ≠ none ∧ log.topic3 ≠ none

/-- The log is a batch that is read as far as its offsets. -/
structure IsBatch : Prop where
  topic : log.topic0 = some erc1155TransferBatchTopic
  parties : log.HasParties
  length : 128 ≤ log.data.length

/-- No topic follows a missing one. -/
structure TopicsInOrder : Prop where
  topic1 : log.topic1 = none → log.topic2 = none
  topic2 : log.topic2 = none → log.topic3 = none

/-- The topics or the data of the log do not fit the event its first topic announces, and the
error says how. -/
inductive Malformed : DecodeError → Prop where
  | erc20Data : log.topic0 = some transferTopic → log.topics.length = 3 → log.data.length ≠ 32 →
      Malformed (.invalidErc20DataLength log.logIndex log.data.length)
  | sender : log.topic0 = some erc1155TransferSingleTopic ∨
      log.topic0 = some erc1155TransferBatchTopic → log.topic2 = none →
      Malformed (.invalidTransferAddress log.logIndex 2)
  | receiver : log.topic0 = some erc1155TransferSingleTopic ∨
      log.topic0 = some erc1155TransferBatchTopic → log.topic2 ≠ none → log.topic3 = none →
      Malformed (.invalidTransferAddress log.logIndex 3)
  | singleData : log.topic0 = some erc1155TransferSingleTopic → log.HasParties →
      log.data.length < 64 →
      Malformed (.invalidErc20DataLength log.logIndex log.data.length)
  | batchData : log.topic0 = some erc1155TransferBatchTopic → log.HasParties →
      log.data.length < 128 →
      Malformed (.invalidErc20DataLength log.logIndex log.data.length)
  | idsHead : log.IsBatch → log.idsOffset + 32 ≤ usizeMax → log.valuesOffset ≤ usizeMax →
      log.data.length < log.idsOffset + 32 →
      Malformed (.invalidErc20DataLength log.logIndex log.data.length)
  | valuesHead : log.IsBatch → log.idsOffset + 32 ≤ log.data.length →
      log.valuesOffset + 32 ≤ usizeMax → log.data.length < log.valuesOffset + 32 →
      Malformed (.invalidErc20DataLength log.logIndex log.data.length)
  | lengths : log.IsBatch → log.HeadsInBounds → log.idsLen ≤ usizeMax → log.valuesLen ≤ usizeMax →
      log.idsLen ≠ log.valuesLen →
      Malformed (.invalidErc20DataLength log.logIndex log.data.length)

/-- A word of a batch does not fit `usize`, alone or in the sum with its own width, or the length
both arrays claim asks for more room than can be reserved. -/
inductive Overflows : Prop where
  | idsOffset : log.IsBatch → usizeMax < log.idsOffset + 32 → Overflows
  | valuesOffset : log.IsBatch → usizeMax < log.valuesOffset → Overflows
  | valuesHead : log.IsBatch → log.idsOffset + 32 ≤ log.data.length →
      usizeMax < log.valuesOffset + 32 → Overflows
  | idsLen : log.IsBatch → log.HeadsInBounds → usizeMax < log.idsLen → Overflows
  | valuesLen : log.IsBatch → log.HeadsInBounds → usizeMax < log.valuesLen → Overflows
  | room : log.IsBatch → log.HeadsInBounds → log.idsLen = log.valuesLen →
      i64Max < log.idsLen * tokenTransferSize → Overflows

/-- The log is neither rejected nor the end of the decoder. -/
structure Readable : Prop where
  not_malformed : ∀ e, ¬ log.Malformed e
  not_overflows : ¬ log.Overflows

/-- The decoder is asked about a log of the program: its data fits the memory, and no topic follows
a missing one. -/
structure Admissible : Prop where
  size : log.data.length ≤ i64Max
  order : log.TopicsInOrder

/-- The log has the topic of a transfer, but not a number of topics a transfer has. -/
def Skipped : Prop :=
  log.topic0 = some transferTopic ∧ log.topics.length ≠ 3 ∧ log.topics.length ≠ 4

/-- The arrays of a batch run past the end of its data. -/
structure Truncated : Prop where
  batch : log.IsBatch
  heads : log.HeadsInBounds
  lengths : log.idsLen = log.valuesLen
  tail : log.data.length < log.idsOffset + 32 + log.idsLen * 32 ∨
    log.data.length < log.valuesOffset + 32 + log.valuesLen * 32

end Log

/-! ## One step of the decoder -/

section Steps

variable {α : Type}

@[simp] theorem ok_bind (a : α) {β : Type} (k : α → Decode β) :
    ((.ok a : Decode α) >>= k) = k a := rfl

theorem rejectIf_bind (bad : Prop) [Decidable bad] (e : DecodeError) (k : Unit → Decode α) :
    (Decode.rejectIf bad e >>= k) = if bad then .fail e else k () := by
  unfold Decode.rejectIf
  split <;> rfl

theorem addUsize_of_le {a b : ℕ} (h : a + b ≤ usizeMax) : addUsize a b = .ok (a + b) := if_pos h

theorem mulUsize_of_le {a b : ℕ} (h : a * b ≤ usizeMax) : mulUsize a b = .ok (a * b) := if_pos h

theorem addUsize_bind (a b : ℕ) (k : ℕ → Decode α) :
    (addUsize a b >>= k) =
      if a + b ≤ usizeMax then k (a + b) else .panic "attempt to add with overflow" := by
  unfold addUsize
  split <;> rfl

theorem reserveTransfers_bind (count : ℕ) (k : Unit → Decode α) :
    (reserveTransfers count >>= k) =
      if count * tokenTransferSize ≤ i64Max then k () else .panic "capacity overflow" := by
  unfold reserveTransfers
  split <;> rfl

theorem slice_eq {data : Bytes} {start stop width : ℕ} (hstop : stop = start + width)
    (h : stop ≤ data.length) : slice data start stop = .ok ((data.drop start).take width) := by
  subst hstop
  unfold slice
  rw [if_pos ⟨Nat.le_add_right _ _, h⟩, Nat.add_sub_cancel_left]

/-- Reading a word of the data into `usize`. -/
theorem word_bind (data : Bytes) (start : ℕ) {stop : ℕ} (hstop : stop = start + 32)
    (h : stop ≤ data.length) (k : ℕ → Decode α) :
    (slice data start stop >>= fun bytes => U256.toUsize (U256.fromBeSlice bytes) >>= k) =
      if BigEndian.wordAt 32 data start ≤ usizeMax then k (BigEndian.wordAt 32 data start)
      else .panic "Uint conversion error" := by
  have hvalue : (U256.fromBeSlice ((data.drop start).take 32)).toNat =
      BigEndian.wordAt 32 data start := U256.toNat_fromBeSlice (by simp)
  rw [slice_eq hstop h]
  change (U256.toUsize _ >>= k) = _
  unfold U256.toUsize
  rw [hvalue]
  split <;> rfl

theorem extractAddressFromTopic_bind_none {topic : Option B256} (h : topic = none)
    (logIndex topicIndex : ℕ) (k : Address → Decode α) :
    (extractAddressFromTopic topic logIndex topicIndex >>= k) =
      .fail (.invalidTransferAddress logIndex topicIndex) := by
  subst h
  rfl

theorem extractAddressFromTopic_isOk {topic : Option B256} (h : topic ≠ none)
    (logIndex topicIndex : ℕ) :
    ∃ address, extractAddressFromTopic topic logIndex topicIndex = .ok address := by
  cases topic with
  | none => exact absurd rfl h
  | some word => exact ⟨_, rfl⟩

end Steps

/-! ## A batch -/

/-- One turn of the batch loop, at positions that fit `usize`: the pair of words there, when both
lie inside the data. -/
theorem decodeErc1155Pair_eq {log : Log} (fromAddr toAddr : Address) {idsOffset valuesOffset i : ℕ}
    (hid : idsOffset + 32 + i * 32 + 32 ≤ usizeMax)
    (hval : valuesOffset + 32 + i * 32 + 32 ≤ usizeMax) :
    decodeErc1155Pair log fromAddr toAddr idsOffset valuesOffset i =
      if log.data.length < idsOffset + 32 + i * 32 + 32 then .ok none
      else if log.data.length < valuesOffset + 32 + i * 32 + 32 then .ok none
      else .ok (some (erc1155Transfer log fromAddr toAddr
        (U256.fromBeSlice ((log.data.drop (idsOffset + 32 + i * 32)).take 32))
        (U256.fromBeSlice ((log.data.drop (valuesOffset + 32 + i * 32)).take 32)))) := by
  unfold decodeErc1155Pair
  simp only [addUsize_of_le (show idsOffset + 32 ≤ usizeMax by omega),
    addUsize_of_le (show valuesOffset + 32 ≤ usizeMax by omega),
    mulUsize_of_le (show i * 32 ≤ usizeMax by omega),
    addUsize_of_le (show idsOffset + 32 + i * 32 ≤ usizeMax by omega),
    addUsize_of_le (show valuesOffset + 32 + i * 32 ≤ usizeMax by omega),
    addUsize_of_le hid, addUsize_of_le hval, ok_bind]
  by_cases hidEnd : log.data.length < idsOffset + 32 + i * 32 + 32
  · rw [if_pos hidEnd, if_pos hidEnd]
    rfl
  · rw [if_neg hidEnd, if_neg hidEnd]
    by_cases hvalEnd : log.data.length < valuesOffset + 32 + i * 32 + 32
    · rw [if_pos hvalEnd, if_pos hvalEnd]
      rfl
    · rw [if_neg hvalEnd, if_neg hvalEnd, slice_eq rfl (Nat.le_of_not_lt hidEnd),
        slice_eq rfl (Nat.le_of_not_lt hvalEnd)]
      rfl

/-- A turn of the batch loop does not fail: the positions it computes stay far below
`usize::MAX`. -/
theorem decodeErc1155Pair_isOk {log : Log} (hsize : log.data.length ≤ i64Max)
    (fromAddr toAddr : Address) {idsOffset valuesOffset i : ℕ}
    (hids : idsOffset + 32 ≤ log.data.length) (hvalues : valuesOffset + 32 ≤ log.data.length)
    (hi : i * tokenTransferSize ≤ i64Max) :
    ∃ pair, decodeErc1155Pair log fromAddr toAddr idsOffset valuesOffset i = .ok pair := by
  unfold i64Max tokenTransferSize at *
  rw [decodeErc1155Pair_eq fromAddr toAddr (by unfold usizeMax; omega)
    (by unfold usizeMax; omega)]
  split
  · exact ⟨none, rfl⟩
  · split
    · exact ⟨none, rfl⟩
    · exact ⟨_, rfl⟩

theorem decodeErc1155Pairs_isOk {log : Log} (hsize : log.data.length ≤ i64Max)
    (fromAddr toAddr : Address) {idsOffset valuesOffset : ℕ}
    (hids : idsOffset + 32 ≤ log.data.length) (hvalues : valuesOffset + 32 ≤ log.data.length)
    {remaining i : ℕ} (hroom : (i + remaining) * tokenTransferSize ≤ i64Max) :
    ∃ ts, decodeErc1155Pairs log fromAddr toAddr idsOffset valuesOffset remaining i = .ok ts := by
  induction remaining generalizing i with
  | zero => exact ⟨[], rfl⟩
  | succ remaining ih =>
    have hi : i * tokenTransferSize ≤ i64Max := by
      unfold tokenTransferSize at *
      omega
    obtain ⟨pair, hpair⟩ := decodeErc1155Pair_isOk hsize fromAddr toAddr hids hvalues hi
    obtain ⟨rest, hrest⟩ := ih (i := i + 1) (by rwa [Nat.add_assoc, Nat.add_comm 1])
    unfold decodeErc1155Pairs
    rw [hpair]
    cases pair with
    | none => exact ⟨[], rfl⟩
    | some transfer =>
      refine ⟨transfer :: rest, ?_⟩
      change (decodeErc1155Pairs _ _ _ _ _ _ _ >>= _) = _
      rw [hrest]
      rfl

/-- **The batch decoder, word by word**: the checks on the offsets, the array heads and the lengths
in the order they are made, then the loop. -/
theorem decodeErc1155Batch_eq {log : Log} (hlog : log.IsBatch) {fromAddr toAddr : Address}
    (hfrom : extractAddressFromTopic log.topic2 log.logIndex 2 = .ok fromAddr)
    (hto : extractAddressFromTopic log.topic3 log.logIndex 3 = .ok toAddr) :
    decodeErc1155Batch log =
      if log.idsOffset ≤ usizeMax then
        if log.valuesOffset ≤ usizeMax then
          if log.idsOffset + 32 ≤ usizeMax then
            if log.data.length < log.idsOffset + 32 then
              .fail (.invalidErc20DataLength log.logIndex log.data.length)
            else if log.valuesOffset + 32 ≤ usizeMax then
              if log.data.length < log.valuesOffset + 32 then
                .fail (.invalidErc20DataLength log.logIndex log.data.length)
              else if log.idsLen ≤ usizeMax then
                if log.valuesLen ≤ usizeMax then
                  if log.idsLen ≠ log.valuesLen then
                    .fail (.invalidErc20DataLength log.logIndex log.data.length)
                  else if log.idsLen * tokenTransferSize ≤ i64Max then
                    decodeErc1155Pairs log fromAddr toAddr log.idsOffset log.valuesOffset
                      log.idsLen 0
                  else .panic "capacity overflow"
                else .panic "Uint conversion error"
              else .panic "Uint conversion error"
            else .panic "attempt to add with overflow"
          else .panic "attempt to add with overflow"
        else .panic "Uint conversion error"
      else .panic "Uint conversion error" := by
  have hlength := hlog.length
  unfold decodeErc1155Batch
  rw [hfrom, hto]
  change (Decode.rejectIf _ _ >>= _) = _
  rw [rejectIf_bind, if_neg (by omega), word_bind log.data 0 rfl (by omega)]
  refine if_congr Iff.rfl ?_ rfl
  rw [word_bind log.data 32 rfl (by omega)]
  refine if_congr Iff.rfl ?_ rfl
  rw [addUsize_bind]
  refine if_congr Iff.rfl ?_ rfl
  rw [rejectIf_bind]
  by_cases hids : log.data.length < log.idsOffset + 32
  · exact (if_pos hids).trans (if_pos hids).symm
  · refine (if_neg hids).trans (Eq.trans ?_ (if_neg hids).symm)
    rw [addUsize_bind]
    refine if_congr Iff.rfl ?_ rfl
    rw [rejectIf_bind]
    by_cases hvalues : log.data.length < log.valuesOffset + 32
    · exact (if_pos hvalues).trans (if_pos hvalues).symm
    · -- Both heads are in range, so the lengths can be read.
      refine (if_neg hvalues).trans (Eq.trans ?_ (if_neg hvalues).symm)
      rw [word_bind log.data (BigEndian.wordAt 32 log.data 0) rfl (Nat.le_of_not_lt hids)]
      refine if_congr Iff.rfl ?_ rfl
      rw [word_bind log.data (BigEndian.wordAt 32 log.data 32) rfl (Nat.le_of_not_lt hvalues)]
      refine if_congr Iff.rfl ?_ rfl
      rw [rejectIf_bind]
      refine if_congr Iff.rfl rfl ?_
      rw [reserveTransfers_bind]
      rfl

/-! ## One log -/

section OneLog

variable {log : Log}

theorem decodeLogTransfers_of_transfer (h : log.topic0 = some transferTopic) :
    decodeLogTransfers log = match log.topics.length with
      | 3 => decodeErc20Transfer log >>= fun t => .ok [t]
      | 4 => decodeErc721Transfer log >>= fun t => .ok [t]
      | _ => .ok [] := by
  unfold decodeLogTransfers
  rw [if_pos h]
  rfl

theorem decodeLogTransfers_of_single (h : log.topic0 = some erc1155TransferSingleTopic) :
    decodeLogTransfers log = (decodeErc1155Single log >>= fun t => .ok [t]) := by
  unfold decodeLogTransfers
  rw [if_neg (by rw [h]; decide), if_pos h]
  rfl

theorem decodeLogTransfers_of_batch (h : log.topic0 = some erc1155TransferBatchTopic) :
    decodeLogTransfers log = decodeErc1155Batch log := by
  unfold decodeLogTransfers
  rw [if_neg (by rw [h]; decide), if_neg (by rw [h]; decide), if_pos h]

/-- A log with none of the three topics contributes nothing. -/
theorem decodeLogTransfers_of_other (h : log.topic0 ≠ some transferTopic)
    (h' : log.topic0 ≠ some erc1155TransferSingleTopic)
    (h'' : log.topic0 ≠ some erc1155TransferBatchTopic) : decodeLogTransfers log = .ok [] := by
  unfold decodeLogTransfers
  rw [if_neg h, if_neg h', if_neg h'']
  rfl

/-- A skipped log contributes nothing. -/
theorem decodeLogTransfers_of_skipped (h : log.Skipped) : decodeLogTransfers log = .ok [] := by
  rw [decodeLogTransfers_of_transfer h.1]
  split
  · next hcount => exact absurd hcount h.2.1
  · next hcount => exact absurd hcount h.2.2
  · rfl

theorem decodeErc1155_of_parties (h : log.HasParties) :
    ∃ fromAddr toAddr, extractAddressFromTopic log.topic2 log.logIndex 2 = .ok fromAddr ∧
      extractAddressFromTopic log.topic3 log.logIndex 3 = .ok toAddr := by
  obtain ⟨fromAddr, hfrom⟩ := extractAddressFromTopic_isOk h.1 log.logIndex 2
  obtain ⟨toAddr, hto⟩ := extractAddressFromTopic_isOk h.2 log.logIndex 3
  exact ⟨fromAddr, toAddr, hfrom, hto⟩

/-- A single transfer with its two words. -/
theorem decodeErc1155Single_eq {fromAddr toAddr : Address}
    (hfrom : extractAddressFromTopic log.topic2 log.logIndex 2 = .ok fromAddr)
    (hto : extractAddressFromTopic log.topic3 log.logIndex 3 = .ok toAddr)
    (hdata : 64 ≤ log.data.length) :
    decodeErc1155Single log = .ok (erc1155Transfer log fromAddr toAddr
      (U256.fromBeSlice ((log.data.drop 0).take 32))
      (U256.fromBeSlice ((log.data.drop 32).take 32))) := by
  have hid := slice_eq (show 32 = 0 + 32 from rfl) (Nat.le_trans (by decide) hdata)
  have hvalue := slice_eq (show 64 = 32 + 32 from rfl) hdata
  unfold decodeErc1155Single
  simp only [hfrom, hto, ok_bind, rejectIf_bind, if_neg (Nat.not_lt_of_le hdata), hid, hvalue]
  rfl

namespace Log.TopicsInOrder

/-- Three topics are the first three. -/
theorem of_three (h : log.TopicsInOrder) {topic : B256} (htopic : log.topic0 = some topic)
    (hcount : log.topics.length = 3) : log.topic1 ≠ none ∧ log.topic2 ≠ none := by
  have htail := h.topic2
  unfold Log.topics at hcount
  rw [htopic] at hcount
  cases h1 : log.topic1 with
  | none =>
    rw [h1, h.topic1 h1, htail (h.topic1 h1)] at hcount
    simp at hcount
  | some t1 =>
    cases h2 : log.topic2 with
    | none =>
      rw [h1, h2, htail h2] at hcount
      simp at hcount
    | some t2 => simp

/-- Four topics are all of them. -/
theorem of_four {topic : B256} (htopic : log.topic0 = some topic)
    (hcount : log.topics.length = 4) :
    log.topic1 ≠ none ∧ log.topic2 ≠ none ∧ log.topic3 ≠ none := by
  have hone : ∀ topic : Option B256, topic.toList.length ≤ 1 := by
    intro topic
    cases topic <;> simp
  have h1 := hone log.topic1
  have h2 := hone log.topic2
  have h3 := hone log.topic3
  unfold Log.topics at hcount
  simp only [htopic, Option.toList_some, List.length_append, List.length_singleton] at hcount
  -- A missing topic would leave at most three.
  refine ⟨?_, ?_, ?_⟩
  · intro hnone
    rw [hnone, Option.toList_none, List.length_nil] at hcount
    omega
  · intro hnone
    rw [hnone, Option.toList_none, List.length_nil] at hcount
    omega
  · intro hnone
    rw [hnone, Option.toList_none, List.length_nil] at hcount
    omega

end Log.TopicsInOrder

/-- A batch with both length words inside the data: the lengths are compared, and room is
reserved. -/
theorem decodeErc1155Batch_of_heads (hsize : log.data.length ≤ i64Max) (hlog : log.IsBatch)
    (hheads : log.HeadsInBounds) {fromAddr toAddr : Address}
    (hfrom : extractAddressFromTopic log.topic2 log.logIndex 2 = .ok fromAddr)
    (hto : extractAddressFromTopic log.topic3 log.logIndex 3 = .ok toAddr) :
    decodeErc1155Batch log =
      if log.idsLen ≤ usizeMax then
        if log.valuesLen ≤ usizeMax then
          if log.idsLen ≠ log.valuesLen then
            .fail (.invalidErc20DataLength log.logIndex log.data.length)
          else if log.idsLen * tokenTransferSize ≤ i64Max then
            decodeErc1155Pairs log fromAddr toAddr log.idsOffset log.valuesOffset log.idsLen 0
          else .panic "capacity overflow"
        else .panic "Uint conversion error"
      else .panic "Uint conversion error" := by
  have hids := hheads.1
  have hvalues := hheads.2
  have hmax : i64Max + 32 ≤ usizeMax := by decide
  rw [decodeErc1155Batch_eq hlog hfrom hto, if_pos (by omega), if_pos (by omega),
    if_pos (by omega), if_neg (by omega), if_pos (by omega), if_neg (by omega)]

/-- Every way to overflow is about a batch. -/
theorem Log.Overflows.isBatch (h : log.Overflows) : log.IsBatch := by
  cases h <;> assumption

/-- A batch whose words do not fit the arithmetic ends the decoder. -/
theorem decodeLogTransfers_overflows (hsize : log.data.length ≤ i64Max) (h : log.Overflows) :
    ∃ message, decodeLogTransfers log = .panic message := by
  have hbatch := h.isBatch
  obtain ⟨fromAddr, toAddr, hfrom, hto⟩ := decodeErc1155_of_parties hbatch.parties
  rw [decodeLogTransfers_of_batch hbatch.topic]
  -- The checks made before the word in question pass, or panic themselves.
  have hmax : i64Max + 32 ≤ usizeMax := by decide
  cases h with
  | idsOffset _ hover =>
    rw [decodeErc1155Batch_eq hbatch hfrom hto]
    by_cases hids : log.idsOffset ≤ usizeMax
    · by_cases hvalues : log.valuesOffset ≤ usizeMax
      · exact ⟨_, by rw [if_pos hids, if_pos hvalues, if_neg (Nat.not_le_of_lt hover)]⟩
      · exact ⟨_, by rw [if_pos hids, if_neg hvalues]⟩
    · exact ⟨_, by rw [if_neg hids]⟩
  | valuesOffset _ hover =>
    rw [decodeErc1155Batch_eq hbatch hfrom hto]
    by_cases hids : log.idsOffset ≤ usizeMax
    · exact ⟨_, by rw [if_pos hids, if_neg (Nat.not_le_of_lt hover)]⟩
    · exact ⟨_, by rw [if_neg hids]⟩
  | valuesHead _ hids hover =>
    rw [decodeErc1155Batch_eq hbatch hfrom hto]
    by_cases hvalues : log.valuesOffset ≤ usizeMax
    · exact ⟨_, by rw [if_pos (by omega), if_pos hvalues, if_pos (by omega), if_neg (by omega),
        if_neg (Nat.not_le_of_lt hover)]⟩
    · exact ⟨_, by rw [if_pos (by omega), if_neg hvalues]⟩
  | idsLen _ hheads hover =>
    have heq := decodeErc1155Batch_of_heads hsize hbatch hheads hfrom hto
    exact ⟨_, heq.trans (if_neg (Nat.not_le_of_lt hover))⟩
  | valuesLen _ hheads hover =>
    have heq := decodeErc1155Batch_of_heads hsize hbatch hheads hfrom hto
    by_cases hids : log.idsLen ≤ usizeMax
    · exact ⟨_, heq.trans (by rw [if_pos hids, if_neg (Nat.not_le_of_lt hover)])⟩
    · exact ⟨_, heq.trans (if_neg hids)⟩
  | room _ hheads hsame hover =>
    have heq := decodeErc1155Batch_of_heads hsize hbatch hheads hfrom hto
    by_cases hids : log.idsLen ≤ usizeMax
    · exact ⟨_, heq.trans (by rw [if_pos hids, if_pos (hsame ▸ hids), if_neg (not_not.mpr hsame),
        if_neg (Nat.not_le_of_lt hover)])⟩
    · exact ⟨_, heq.trans (if_neg hids)⟩

/-- A malformed batch is rejected with its error. -/
theorem decodeErc1155Batch_malformed (hsize : log.data.length ≤ i64Max)
    (htopic : log.topic0 = some erc1155TransferBatchTopic) {e : DecodeError}
    (h : log.Malformed e) : decodeErc1155Batch log = .fail e := by
  have hmax : i64Max + 32 ≤ usizeMax := by decide
  cases h with
  | erc20Data hother => exact absurd (htopic.symm.trans hother) (by decide)
  | singleData hother => exact absurd (htopic.symm.trans hother) (by decide)
  | sender _ h2 => exact extractAddressFromTopic_bind_none h2 _ _ _
  | receiver _ h2 h3 =>
    obtain ⟨fromAddr, hfrom⟩ := extractAddressFromTopic_isOk h2 log.logIndex 2
    unfold decodeErc1155Batch
    rw [hfrom, ok_bind]
    exact extractAddressFromTopic_bind_none h3 _ _ _
  | batchData _ hparties hdata =>
    obtain ⟨fromAddr, toAddr, hfrom, hto⟩ := decodeErc1155_of_parties hparties
    unfold decodeErc1155Batch
    simp only [hfrom, hto, ok_bind, rejectIf_bind, if_pos hdata]
  | idsHead hbatch hids hvalues hhead =>
    obtain ⟨fromAddr, toAddr, hfrom, hto⟩ := decodeErc1155_of_parties hbatch.parties
    rw [decodeErc1155Batch_eq hbatch hfrom hto, if_pos (by omega), if_pos hvalues, if_pos hids,
      if_pos hhead]
  -- The head of the ids is in bounds, so that the values are looked at.
  | valuesHead hbatch hids hvalues hhead =>
    obtain ⟨fromAddr, toAddr, hfrom, hto⟩ := decodeErc1155_of_parties hbatch.parties
    rw [decodeErc1155Batch_eq hbatch hfrom hto, if_pos (by omega), if_pos (by omega),
      if_pos (by omega), if_neg (by omega), if_pos hvalues, if_pos hhead]
  | lengths hbatch hheads hids hvalues hne =>
    obtain ⟨fromAddr, toAddr, hfrom, hto⟩ := decodeErc1155_of_parties hbatch.parties
    rw [decodeErc1155Batch_of_heads hsize hbatch hheads hfrom hto, if_pos hids, if_pos hvalues,
      if_pos hne]

/-- A malformed log is rejected with its error. -/
theorem decodeLogTransfers_malformed (hsize : log.data.length ≤ i64Max)
    (horder : log.TopicsInOrder) {e : DecodeError} (h : log.Malformed e) :
    decodeLogTransfers log = .fail e := by
  by_cases hbatch : log.topic0 = some erc1155TransferBatchTopic
  · rw [decodeLogTransfers_of_batch hbatch]
    exact decodeErc1155Batch_malformed hsize hbatch h
  cases h with
  | erc20Data htopic hcount hdata =>
    obtain ⟨h1, h2⟩ := horder.of_three htopic hcount
    obtain ⟨fromAddr, hfrom⟩ := extractAddressFromTopic_isOk h1 log.logIndex 1
    obtain ⟨toAddr, hto⟩ := extractAddressFromTopic_isOk h2 log.logIndex 2
    rw [decodeLogTransfers_of_transfer htopic, hcount]
    unfold decodeErc20Transfer
    simp only [hfrom, hto, ok_bind, rejectIf_bind, if_pos hdata]
    rfl
  | sender htopic h2 =>
    rw [decodeLogTransfers_of_single (htopic.resolve_right hbatch)]
    unfold decodeErc1155Single
    rw [extractAddressFromTopic_bind_none h2]
    rfl
  | receiver htopic h2 h3 =>
    obtain ⟨fromAddr, hfrom⟩ := extractAddressFromTopic_isOk h2 log.logIndex 2
    rw [decodeLogTransfers_of_single (htopic.resolve_right hbatch)]
    unfold decodeErc1155Single
    rw [hfrom, ok_bind, extractAddressFromTopic_bind_none h3]
    rfl
  | singleData htopic hparties hdata =>
    obtain ⟨fromAddr, toAddr, hfrom, hto⟩ := decodeErc1155_of_parties hparties
    rw [decodeLogTransfers_of_single htopic]
    unfold decodeErc1155Single
    simp only [hfrom, hto, ok_bind, rejectIf_bind, if_pos hdata]
    rfl
  | batchData htopic => exact absurd htopic hbatch
  | idsHead h => exact absurd h.topic hbatch
  | valuesHead h => exact absurd h.topic hbatch
  | lengths h => exact absurd h.topic hbatch

/-- The checks a batch passes that is neither malformed nor overflows. -/
structure Log.PassesChecks (log : Log) : Prop where
  heads : log.HeadsInBounds
  idsLen : log.idsLen ≤ usizeMax
  valuesLen : log.valuesLen ≤ usizeMax
  lengths : log.idsLen = log.valuesLen
  room : log.idsLen * tokenTransferSize ≤ i64Max

theorem Log.Readable.passesChecks (h : log.Readable) (hbatch : log.IsBatch) :
    log.PassesChecks := by
  -- Each check passes, for otherwise the log would be malformed or overflow there.
  have hids : log.idsOffset + 32 ≤ usizeMax :=
    Nat.le_of_not_lt fun hover => h.not_overflows (.idsOffset hbatch hover)
  have hvalues : log.valuesOffset ≤ usizeMax :=
    Nat.le_of_not_lt fun hover => h.not_overflows (.valuesOffset hbatch hover)
  have hidsHead : log.idsOffset + 32 ≤ log.data.length :=
    Nat.le_of_not_lt fun hover => h.not_malformed _ (.idsHead hbatch hids hvalues hover)
  have hvaluesMax : log.valuesOffset + 32 ≤ usizeMax :=
    Nat.le_of_not_lt fun hover => h.not_overflows (.valuesHead hbatch hidsHead hover)
  have hvaluesHead : log.valuesOffset + 32 ≤ log.data.length :=
    Nat.le_of_not_lt fun hover => h.not_malformed _ (.valuesHead hbatch hidsHead hvaluesMax hover)
  have hheads : log.HeadsInBounds := ⟨hidsHead, hvaluesHead⟩
  have hidsLen : log.idsLen ≤ usizeMax :=
    Nat.le_of_not_lt fun hover => h.not_overflows (.idsLen hbatch hheads hover)
  have hvaluesLen : log.valuesLen ≤ usizeMax :=
    Nat.le_of_not_lt fun hover => h.not_overflows (.valuesLen hbatch hheads hover)
  have hsame : log.idsLen = log.valuesLen := by
    by_contra hne
    exact h.not_malformed _ (.lengths hbatch hheads hidsLen hvaluesLen hne)
  exact ⟨hheads, hidsLen, hvaluesLen, hsame,
    Nat.le_of_not_lt fun hover => h.not_overflows (.room hbatch hheads hsame hover)⟩

/-- What is left of a batch that passes the checks is its loop. -/
theorem decodeErc1155Batch_of_passesChecks (hsize : log.data.length ≤ i64Max)
    (hbatch : log.IsBatch) (h : log.PassesChecks) : ∃ fromAddr toAddr, decodeErc1155Batch log =
      decodeErc1155Pairs log fromAddr toAddr log.idsOffset log.valuesOffset log.idsLen 0 := by
  obtain ⟨fromAddr, toAddr, hfrom, hto⟩ := decodeErc1155_of_parties hbatch.parties
  refine ⟨fromAddr, toAddr, ?_⟩
  rw [decodeErc1155Batch_of_heads hsize hbatch h.heads hfrom hto, if_pos h.idsLen,
    if_pos h.valuesLen, if_neg (not_not.mpr h.lengths), if_pos h.room]

/-- A batch that is neither malformed nor overflows is read to its end. -/
theorem decodeErc1155Batch_readable (hsize : log.data.length ≤ i64Max) (hbatch : log.IsBatch)
    (h : log.Readable) : ∃ ts, decodeErc1155Batch log = .ok ts := by
  have hchecks := h.passesChecks hbatch
  obtain ⟨fromAddr, toAddr, hloop⟩ := decodeErc1155Batch_of_passesChecks hsize hbatch hchecks
  rw [hloop]
  exact decodeErc1155Pairs_isOk hsize fromAddr toAddr hchecks.heads.1 hchecks.heads.2
    (by rw [Nat.zero_add]; exact hchecks.room)

/-- The parties of a readable ERC-1155 log are there. -/
theorem Log.Readable.hasParties (h : log.Readable)
    (htopic : log.topic0 = some erc1155TransferSingleTopic ∨
      log.topic0 = some erc1155TransferBatchTopic) : log.HasParties := by
  have h2 : log.topic2 ≠ none := fun hnone => h.not_malformed _ (.sender htopic hnone)
  exact ⟨h2, fun hnone => h.not_malformed _ (.receiver htopic h2 hnone)⟩

/-- A readable log with the batch topic is a batch. -/
theorem Log.Readable.isBatch (h : log.Readable)
    (htopic : log.topic0 = some erc1155TransferBatchTopic) : log.IsBatch := by
  have hparties := h.hasParties (.inr htopic)
  refine ⟨htopic, hparties, Nat.le_of_not_lt fun hshort => ?_⟩
  exact h.not_malformed _ (.batchData htopic hparties hshort)

/-- A log that is neither malformed nor overflows is read. -/
theorem decodeLogTransfers_readable (hsize : log.data.length ≤ i64Max)
    (horder : log.TopicsInOrder) (h : log.Readable) : ∃ ts, decodeLogTransfers log = .ok ts := by
  by_cases htransfer : log.topic0 = some transferTopic
  · -- The number of topics tells the two standards apart.
    rw [decodeLogTransfers_of_transfer htransfer]
    split
    · next hcount =>
      obtain ⟨h1, h2⟩ := horder.of_three htransfer hcount
      obtain ⟨fromAddr, hfrom⟩ := extractAddressFromTopic_isOk h1 log.logIndex 1
      obtain ⟨toAddr, hto⟩ := extractAddressFromTopic_isOk h2 log.logIndex 2
      have hdata : ¬ log.data.length ≠ 32 := fun hne =>
        h.not_malformed _ (.erc20Data htransfer hcount hne)
      unfold decodeErc20Transfer
      simp only [hfrom, hto, ok_bind, rejectIf_bind, if_neg hdata]
      exact ⟨_, rfl⟩
    · next hcount =>
      obtain ⟨h1, h2, h3⟩ := Log.TopicsInOrder.of_four htransfer hcount
      obtain ⟨fromAddr, hfrom⟩ := extractAddressFromTopic_isOk h1 log.logIndex 1
      obtain ⟨toAddr, hto⟩ := extractAddressFromTopic_isOk h2 log.logIndex 2
      obtain ⟨id, hid⟩ := Option.ne_none_iff_exists'.mp h3
      unfold decodeErc721Transfer
      simp only [hfrom, hto, ok_bind, hid]
      exact ⟨_, rfl⟩
    · exact ⟨_, rfl⟩
  · by_cases hsingle : log.topic0 = some erc1155TransferSingleTopic
    · have hparties := h.hasParties (.inl hsingle)
      obtain ⟨fromAddr, toAddr, hfrom, hto⟩ := decodeErc1155_of_parties hparties
      have hdata : 64 ≤ log.data.length := Nat.le_of_not_lt fun hshort =>
        h.not_malformed _ (.singleData hsingle hparties hshort)
      rw [decodeLogTransfers_of_single hsingle, decodeErc1155Single_eq hfrom hto hdata]
      exact ⟨_, rfl⟩
    · by_cases hbatch : log.topic0 = some erc1155TransferBatchTopic
      · rw [decodeLogTransfers_of_batch hbatch]
        exact decodeErc1155Batch_readable hsize (h.isBatch hbatch) h
      · exact ⟨_, decodeLogTransfers_of_other htransfer hsingle hbatch⟩

/-- **The three outcomes of a log**, each with its reason. -/
theorem decodeLogTransfers_cases (hlog : log.Admissible) :
    (log.Readable ∧ ∃ ts, decodeLogTransfers log = .ok ts) ∨
      (∃ e, log.Malformed e ∧ decodeLogTransfers log = .fail e) ∨
      (log.Overflows ∧ ∃ message, decodeLogTransfers log = .panic message) := by
  by_cases hover : log.Overflows
  · exact Or.inr (Or.inr ⟨hover, decodeLogTransfers_overflows hlog.size hover⟩)
  · by_cases hmal : ∃ e, log.Malformed e
    · obtain ⟨e, he⟩ := hmal
      exact Or.inr (Or.inl ⟨e, he, decodeLogTransfers_malformed hlog.size hlog.order he⟩)
    · have hread : log.Readable := ⟨not_exists.mp hmal, hover⟩
      exact Or.inl ⟨hread, decodeLogTransfers_readable hlog.size hlog.order hread⟩

theorem readable_iff (hlog : log.Admissible) :
    (∃ ts, decodeLogTransfers log = .ok ts) ↔ log.Readable := by
  constructor
  · rintro ⟨ts, hts⟩
    rcases decodeLogTransfers_cases hlog with ⟨hread, -⟩ | ⟨e, -, hfail⟩ | ⟨-, message, hpanic⟩
    · exact hread
    · cases hts.symm.trans hfail
    · cases hts.symm.trans hpanic
  · exact decodeLogTransfers_readable hlog.size hlog.order

theorem malformed_iff (hlog : log.Admissible) (e : DecodeError) :
    decodeLogTransfers log = .fail e ↔ log.Malformed e := by
  constructor
  · intro h
    rcases decodeLogTransfers_cases hlog with ⟨-, ts, hts⟩ | ⟨e', he', hfail⟩ | ⟨-, message, hpanic⟩
    · cases h.symm.trans hts
    · cases h.symm.trans hfail
      exact he'
    · cases h.symm.trans hpanic
  · exact decodeLogTransfers_malformed hlog.size hlog.order

theorem overflows_iff (hlog : log.Admissible) :
    (∃ message, decodeLogTransfers log = .panic message) ↔ log.Overflows := by
  constructor
  · rintro ⟨message, h⟩
    rcases decodeLogTransfers_cases hlog with ⟨-, ts, hts⟩ | ⟨e, -, hfail⟩ | ⟨hover, -⟩
    · cases h.symm.trans hts
    · cases h.symm.trans hfail
    · exact hover
  · exact decodeLogTransfers_overflows hlog.size

end OneLog

end ChainLens
