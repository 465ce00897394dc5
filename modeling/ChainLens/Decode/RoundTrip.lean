import ChainLens.Decode.Outcome

/-!
# Decoding undoes encoding

The events of the three token standards as contracts emit them: the topics, and the data in the
layout of the contract ABI. A batch has two offset words, and behind them the array of ids and
the array of values, each with its length in front. Logs of these events, mixed with logs of other
topics, are decoded to the transfers they were made from.

## Main definitions

* `TransferEvent`: an event of ERC-20, ERC-721 or ERC-1155, with its log and its transfers
* `LogEntry`: such an event, or a log with another topic

## Main results

* `decodeLogTransfers_event`: the log of an event is decoded to its transfers
* `decodeTokenTransfers_entries`: so is any list of logs
-/

namespace ChainLens

/-! ## Words and topics -/

/-- The 32 bytes of a word. -/
def wordBytes (word : U256) : Bytes := BigEndian.encode 32 word.toNat

/-- The topic of a word. -/
def wordTopic (word : U256) : B256 := ⟨wordBytes word, BigEndian.length_encode 32 word.toNat⟩

/-- The topic of an address: the address behind twelve zero bytes. -/
def addressTopic (address : Address) : B256 :=
  ⟨List.replicate 12 0 ++ address.bytes, by simp [address.length_bytes]⟩

/-- The words of an array, behind its length. -/
def arrayBytes (words : List U256) : Bytes :=
  wordBytes (BitVec.ofNat 256 words.length) ++ BigEndian.encodeAll 32 (words.map (·.toNat))

/-- The data of a batch of pairs of an id and a value. -/
def batchBytes (pairs : List (U256 × U256)) : Bytes :=
  -- The ids start behind the two offsets, and the values behind the ids.
  wordBytes 64 ++ wordBytes (BitVec.ofNat 256 (96 + 32 * pairs.length)) ++
    arrayBytes (pairs.map (·.1)) ++ arrayBytes (pairs.map (·.2))

/-- The length a batch of data stays below. -/
def batchBytesLimit : ℕ := 281474976710656

/-! ## Events -/

/-- A transfer as a contract reports it. -/
inductive TransferEvent where
  | erc20 (fromAddr toAddr : Address) (amount : U256)
  | erc721 (fromAddr toAddr : Address) (tokenId : U256)
  | erc1155Single (operator fromAddr toAddr : Address) (tokenId amount : U256)
  | erc1155Batch (operator fromAddr toAddr : Address) (pairs : List (U256 × U256))
      (hsize : (batchBytes pairs).length < batchBytesLimit)

/-- Where a log was emitted. -/
structure LogOrigin where
  blockNumber : ℕ
  logIndex : ℕ
  txHash : B256
  address : Address

namespace TransferEvent

/-- The log of the event. -/
def log (origin : LogOrigin) : TransferEvent → Log
  | erc20 fromAddr toAddr amount =>
    { blockNumber := origin.blockNumber, logIndex := origin.logIndex, txHash := origin.txHash
      address := origin.address
      topic0 := some transferTopic
      topic1 := some (addressTopic fromAddr)
      topic2 := some (addressTopic toAddr)
      topic3 := none
      data := wordBytes amount }
  | erc721 fromAddr toAddr tokenId =>
    { blockNumber := origin.blockNumber, logIndex := origin.logIndex, txHash := origin.txHash
      address := origin.address
      topic0 := some transferTopic
      topic1 := some (addressTopic fromAddr)
      topic2 := some (addressTopic toAddr)
      topic3 := some (wordTopic tokenId)
      data := [] }
  | erc1155Single operator fromAddr toAddr tokenId amount =>
    { blockNumber := origin.blockNumber, logIndex := origin.logIndex, txHash := origin.txHash
      address := origin.address
      topic0 := some erc1155TransferSingleTopic
      topic1 := some (addressTopic operator)
      topic2 := some (addressTopic fromAddr)
      topic3 := some (addressTopic toAddr)
      data := wordBytes tokenId ++ wordBytes amount }
  | erc1155Batch operator fromAddr toAddr pairs _ =>
    { blockNumber := origin.blockNumber, logIndex := origin.logIndex, txHash := origin.txHash
      address := origin.address
      topic0 := some erc1155TransferBatchTopic
      topic1 := some (addressTopic operator)
      topic2 := some (addressTopic fromAddr)
      topic3 := some (addressTopic toAddr)
      data := batchBytes pairs }

/-- The transfers the event stands for. -/
def transfers (origin : LogOrigin) : TransferEvent → List TokenTransfer
  | erc20 fromAddr toAddr amount => [{
      blockNumber := origin.blockNumber, logIndex := origin.logIndex
      tokenAddress := origin.address, fromAddr, toAddr
      value := amount, tokenId := 0, standard := .erc20 }]
  | erc721 fromAddr toAddr tokenId => [{
      blockNumber := origin.blockNumber, logIndex := origin.logIndex
      tokenAddress := origin.address, fromAddr, toAddr
      value := 0, tokenId, standard := .erc721 }]
  | erc1155Single _ fromAddr toAddr tokenId amount => [{
      blockNumber := origin.blockNumber, logIndex := origin.logIndex
      tokenAddress := origin.address, fromAddr, toAddr
      value := amount, tokenId, standard := .erc1155 }]
  | erc1155Batch _ fromAddr toAddr pairs _ => pairs.map fun pair => {
      blockNumber := origin.blockNumber, logIndex := origin.logIndex
      tokenAddress := origin.address, fromAddr, toAddr
      value := pair.2, tokenId := pair.1, standard := .erc1155 }

end TransferEvent

/-- A log of a list: that of a transfer event, or one with another topic or none. -/
inductive LogEntry where
  | event (origin : LogOrigin) (emitted : TransferEvent)
  | other (log : Log) (htransfer : log.topic0 ≠ some transferTopic)
      (hsingle : log.topic0 ≠ some erc1155TransferSingleTopic)
      (hbatch : log.topic0 ≠ some erc1155TransferBatchTopic)

def LogEntry.log : LogEntry → Log
  | event origin emitted => emitted.log origin
  | other log _ _ _ => log

def LogEntry.transfers : LogEntry → List TokenTransfer
  | event origin emitted => emitted.transfers origin
  | other _ _ _ _ => []

/-! ## Reading what was written -/

@[simp] theorem length_wordBytes (word : U256) : (wordBytes word).length = 32 :=
  BigEndian.length_encode 32 word.toNat

theorem value_wordBytes (word : U256) : BigEndian.value (wordBytes word) = word.toNat :=
  BigEndian.value_encode (lt_of_lt_of_le word.isLt (by decide))

@[simp] theorem fromBeSlice_wordBytes (word : U256) :
    U256.fromBeSlice (wordBytes word) = word := by
  apply BitVec.eq_of_toNat_eq
  rw [U256.toNat_fromBeSlice (length_wordBytes word).le, value_wordBytes]

theorem extractAddressFromTopic_addressTopic (address : Address) (logIndex topicIndex : ℕ) :
    extractAddressFromTopic (some (addressTopic address)) logIndex topicIndex = .ok address := by
  unfold extractAddressFromTopic addressTopic
  simp

@[simp] theorem length_arrayBytes (words : List U256) :
    (arrayBytes words).length = 32 + 32 * words.length := by
  simp [arrayBytes]

theorem length_batchBytes (pairs : List (U256 × U256)) :
    (batchBytes pairs).length = 128 + 64 * pairs.length := by
  simp only [batchBytes, List.length_append, length_wordBytes, length_arrayBytes, List.length_map]
  omega

/-! ## Reading a batch -/

/-- A length below the limit fits a word. -/
theorem toNat_ofNat_of_lt {n : ℕ} (h : n < batchBytesLimit) : (BitVec.ofNat 256 n).toNat = n := by
  rw [BitVec.toNat_ofNat]
  apply Nat.mod_eq_of_lt
  exact lt_trans h (by decide)

/-- The word behind `pre` is the value it was written with. -/
theorem wordAt_wordBytes (pre post : Bytes) (word : U256) {pos : ℕ} (hpos : pre.length = pos) :
    BigEndian.wordAt 32 (pre ++ wordBytes word ++ post) pos = word.toNat := by
  rw [BigEndian.wordAt_append hpos (length_wordBytes word), value_wordBytes]

/-- The element of an array behind `pre`. -/
theorem take_drop_words (pre post : Bytes) {words : List U256} {word : U256} {pos k : ℕ}
    (hword : words[k]? = some word) (hpos : pos = pre.length + 32 * k) :
    ((pre ++ BigEndian.encodeAll 32 (words.map (·.toNat)) ++ post).drop pos).take 32 =
      wordBytes word := by
  refine BigEndian.take_drop_encodeAll ?_ hpos post
  rw [List.getElem?_map, hword]
  rfl

section Batch

variable (pairs : List (U256 × U256))

theorem batchBytes_idsOffset : BigEndian.wordAt 32 (batchBytes pairs) 0 = 64 := by
  have h : BigEndian.wordAt 32 _ 0 = 64 := wordAt_wordBytes []
    (wordBytes (BitVec.ofNat 256 (96 + 32 * pairs.length)) ++
      arrayBytes (pairs.map (·.1)) ++ arrayBytes (pairs.map (·.2))) 64 rfl
  simpa only [batchBytes, List.nil_append, List.append_assoc] using h

variable {pairs}

theorem batchBytes_valuesOffset (hsize : (batchBytes pairs).length < batchBytesLimit) :
    BigEndian.wordAt 32 (batchBytes pairs) 32 = 96 + 32 * pairs.length := by
  rw [length_batchBytes] at hsize
  have h := wordAt_wordBytes (wordBytes 64)
    (arrayBytes (pairs.map (·.1)) ++ arrayBytes (pairs.map (·.2)))
    (BitVec.ofNat 256 (96 + 32 * pairs.length)) (length_wordBytes 64)
  rw [toNat_ofNat_of_lt (by omega)] at h
  simpa only [batchBytes, List.append_assoc] using h

theorem batchBytes_idsLen (hsize : (batchBytes pairs).length < batchBytesLimit) :
    BigEndian.wordAt 32 (batchBytes pairs) 64 = pairs.length := by
  rw [length_batchBytes] at hsize
  have hpre : (wordBytes 64 ++
      wordBytes (BitVec.ofNat 256 (96 + 32 * pairs.length))).length = 64 := by simp
  have h := wordAt_wordBytes _
    (BigEndian.encodeAll 32 ((pairs.map (·.1)).map (·.toNat)) ++ arrayBytes (pairs.map (·.2)))
    (BitVec.ofNat 256 (pairs.map (·.1)).length) hpre
  rw [List.length_map, toNat_ofNat_of_lt (by omega)] at h
  simpa only [batchBytes, arrayBytes, List.length_map, List.append_assoc] using h

theorem batchBytes_valuesLen (hsize : (batchBytes pairs).length < batchBytesLimit) :
    BigEndian.wordAt 32 (batchBytes pairs) (96 + 32 * pairs.length) = pairs.length := by
  rw [length_batchBytes] at hsize
  have hpre : (wordBytes 64 ++ wordBytes (BitVec.ofNat 256 (96 + 32 * pairs.length)) ++
      arrayBytes (pairs.map (·.1))).length = 96 + 32 * pairs.length := by
    simp only [List.length_append, length_wordBytes, length_arrayBytes, List.length_map]
    omega
  have h := wordAt_wordBytes _ (BigEndian.encodeAll 32 ((pairs.map (·.2)).map (·.toNat)))
    (BitVec.ofNat 256 (pairs.map (·.2)).length) hpre
  rw [List.length_map, toNat_ofNat_of_lt (by omega)] at h
  simpa only [batchBytes, arrayBytes, List.length_map, List.append_assoc] using h

/-- The words of the pair at an index. -/
theorem batchBytes_pair {k : ℕ} {pair : U256 × U256} (hpair : pairs[k]? = some pair) :
    ((batchBytes pairs).drop (64 + 32 + k * 32)).take 32 = wordBytes pair.1 ∧
      ((batchBytes pairs).drop (96 + 32 * pairs.length + 32 + k * 32)).take 32 =
        wordBytes pair.2 := by
  have hfst : (pairs.map (·.1))[k]? = some pair.1 := by rw [List.getElem?_map, hpair]; rfl
  have hsnd : (pairs.map (·.2))[k]? = some pair.2 := by rw [List.getElem?_map, hpair]; rfl
  constructor
  · have hpos : 64 + 32 + k * 32 =
        (wordBytes 64 ++ wordBytes (BitVec.ofNat 256 (96 + 32 * pairs.length)) ++
          wordBytes (BitVec.ofNat 256 (pairs.map (·.1)).length)).length + 32 * k := by
      simp only [List.length_append, length_wordBytes]
      omega
    have h := take_drop_words _ (arrayBytes (pairs.map (·.2))) hfst hpos
    simpa only [batchBytes, arrayBytes, List.append_assoc] using h
  · have hpos : 96 + 32 * pairs.length + 32 + k * 32 =
        (wordBytes 64 ++ wordBytes (BitVec.ofNat 256 (96 + 32 * pairs.length)) ++
          arrayBytes (pairs.map (·.1)) ++
            wordBytes (BitVec.ofNat 256 (pairs.map (·.2)).length)).length + 32 * k := by
      simp only [List.length_append, length_wordBytes, length_arrayBytes, List.length_map]
      omega
    have h := take_drop_words _ [] hsnd hpos
    simpa only [batchBytes, arrayBytes, List.append_assoc, List.append_nil] using h

end Batch

/-! ## Events are decoded to their transfers -/

/-- A loop whose every turn finds a pair finds them all. -/
theorem decodeErc1155Pairs_of_pairs {log : Log} {fromAddr toAddr : Address}
    {idsOffset valuesOffset : ℕ} {pairs : List (U256 × U256)} {i : ℕ}
    (h : ∀ (k : ℕ) (pair : U256 × U256), pairs[k]? = some pair →
      decodeErc1155Pair log fromAddr toAddr idsOffset valuesOffset (i + k) =
        .ok (some (erc1155Transfer log fromAddr toAddr pair.1 pair.2))) :
    decodeErc1155Pairs log fromAddr toAddr idsOffset valuesOffset pairs.length i =
      .ok (pairs.map fun pair => erc1155Transfer log fromAddr toAddr pair.1 pair.2) := by
  induction pairs generalizing i with
  | nil => rfl
  | cons pair pairs ih =>
    have hhead := h 0 pair rfl
    have htail := ih (i := i + 1) fun k pair' hpair' => by
      rw [Nat.add_assoc, Nat.add_comm 1]
      exact h (k + 1) pair' hpair'
    rw [Nat.add_zero] at hhead
    rw [List.length_cons]
    unfold decodeErc1155Pairs
    rw [hhead]
    change (decodeErc1155Pairs _ _ _ _ _ _ _ >>= _) = _
    rw [htail]
    rfl

/-- A batch in the standard layout gives back its pairs, in order. -/
theorem decodeErc1155Batch_batchBytes {log : Log} {fromAddr toAddr : Address}
    {pairs : List (U256 × U256)} (htopic : log.topic0 = some erc1155TransferBatchTopic)
    (hfrom : log.topic2 = some (addressTopic fromAddr))
    (hto : log.topic3 = some (addressTopic toAddr)) (hdata : log.data = batchBytes pairs)
    (hsize : (batchBytes pairs).length < batchBytesLimit) :
    decodeErc1155Batch log =
      .ok (pairs.map fun pair => erc1155Transfer log fromAddr toAddr pair.1 pair.2) := by
  have hlength : log.data.length = 128 + 64 * pairs.length := by rw [hdata, length_batchBytes]
  have hlimit : 128 + 64 * pairs.length < 281474976710656 := by rwa [length_batchBytes] at hsize
  -- The four words the decoder reads first.
  have hids : log.idsOffset = 64 := by
    unfold Log.idsOffset
    rw [hdata, batchBytes_idsOffset]
  have hvalues : log.valuesOffset = 96 + 32 * pairs.length := by
    unfold Log.valuesOffset
    rw [hdata, batchBytes_valuesOffset hsize]
  have hidsLen : log.idsLen = pairs.length := by
    unfold Log.idsLen
    rw [hids, hdata, batchBytes_idsLen hsize]
  have hvaluesLen : log.valuesLen = pairs.length := by
    unfold Log.valuesLen
    rw [hvalues, hdata, batchBytes_valuesLen hsize]
  have hbatch : log.IsBatch := ⟨htopic, ⟨by simp [hfrom], by simp [hto]⟩, by omega⟩
  have hheads : log.HeadsInBounds := ⟨by omega, by omega⟩
  have hmax : (281474976710656 : ℕ) ≤ i64Max := by decide
  have hmax' : i64Max ≤ usizeMax := by decide
  rw [decodeErc1155Batch_of_heads (by omega) hbatch hheads
      (by rw [hfrom, extractAddressFromTopic_addressTopic])
      (by rw [hto, extractAddressFromTopic_addressTopic]),
    if_pos (by omega), if_pos (by omega), if_neg (by omega),
    if_pos (by unfold tokenTransferSize i64Max; omega), hids, hvalues, hidsLen]
  apply decodeErc1155Pairs_of_pairs
  intro k pair hpair
  have hk : k < pairs.length := (List.getElem?_eq_some_iff.mp hpair).1
  obtain ⟨hfst, hsnd⟩ := batchBytes_pair hpair
  rw [Nat.zero_add, decodeErc1155Pair_eq fromAddr toAddr (by omega) (by omega),
    if_neg (by omega), if_neg (by omega), hdata, hfst, hsnd, fromBeSlice_wordBytes,
    fromBeSlice_wordBytes]

/-- **The log of an event is decoded to its transfers.** -/
theorem decodeLogTransfers_event (origin : LogOrigin) (emitted : TransferEvent) :
    decodeLogTransfers (emitted.log origin) = .ok (emitted.transfers origin) := by
  cases emitted with
  | erc20 fromAddr toAddr amount =>
    rw [decodeLogTransfers_of_transfer rfl]
    change (decodeErc20Transfer _ >>= _) = _
    unfold decodeErc20Transfer
    simp only [TransferEvent.log, extractAddressFromTopic_addressTopic, ok_bind, rejectIf_bind,
      length_wordBytes, ne_eq, not_true_eq_false, if_false, fromBeSlice_wordBytes]
    rfl
  | erc721 fromAddr toAddr tokenId =>
    rw [decodeLogTransfers_of_transfer rfl]
    change (decodeErc721Transfer _ >>= _) = _
    unfold decodeErc721Transfer
    simp only [TransferEvent.log, extractAddressFromTopic_addressTopic, ok_bind, wordTopic,
      fromBeSlice_wordBytes]
    rfl
  | erc1155Single operator fromAddr toAddr tokenId amount =>
    -- The data are two words: the id and the amount.
    have hid : ((wordBytes tokenId ++ wordBytes amount).drop 0).take 32 = wordBytes tokenId :=
      List.take_left' (length_wordBytes tokenId)
    have hvalue : ((wordBytes tokenId ++ wordBytes amount).drop 32).take 32 = wordBytes amount := by
      rw [List.drop_left' (length_wordBytes tokenId)]
      exact List.take_of_length_le (length_wordBytes amount).le
    rw [decodeLogTransfers_of_single rfl,
      decodeErc1155Single_eq (extractAddressFromTopic_addressTopic fromAddr _ _)
        (extractAddressFromTopic_addressTopic toAddr _ _) (by simp [TransferEvent.log])]
    simp only [TransferEvent.log, hid, hvalue, fromBeSlice_wordBytes, ok_bind]
    rfl
  | erc1155Batch operator fromAddr toAddr pairs hsize =>
    rw [decodeLogTransfers_of_batch rfl,
      decodeErc1155Batch_batchBytes rfl rfl rfl rfl hsize]
    rfl

theorem decodeLogTransfers_entry (entry : LogEntry) :
    decodeLogTransfers entry.log = .ok entry.transfers := by
  cases entry with
  | event origin emitted => exact decodeLogTransfers_event origin emitted
  | other log htransfer hsingle hbatch =>
    exact decodeLogTransfers_of_other htransfer hsingle hbatch

/-- **Decoding undoes encoding**: the logs of any transfer events, in any order and among any other
logs, are decoded to exactly the transfers of these events, in order. -/
theorem decodeTokenTransfers_entries (entries : List LogEntry) :
    decodeTokenTransfers (entries.map (·.log)) = .ok (entries.flatMap (·.transfers)) := by
  have h : (entries.map (·.log)).mapM decodeLogTransfers =
      .ok (entries.map (·.transfers)) := by
    rw [List.mapM_map]
    exact Except.mapM_eq_ok_map fun entry _ => decodeLogTransfers_entry entry
  unfold decodeTokenTransfers
  rw [h]
  rfl

end ChainLens
