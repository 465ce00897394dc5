import ChainLens.Domain.Types
import ChainLens.Library.Table

/-!
# Token transfer decoding

Transfers are read off the logs of a block: ERC-20 and ERC-721 logs share a topic and differ in
their number of topics, ERC-1155 logs carry one transfer or a batch. The batch layout is read
through offset and length words of the data. Arithmetic on `usize` overflows with a panic, as in
the profile the tests run under; a slice out of range, a word that does not fit `usize` and an
allocation above `isize::MAX` bytes panic as well.

## Main definitions

* `decodeTokenTransfers`: the transfers of a list of logs, in order
* `decodeErc1155Batch`: the pairs of a batch log
-/

namespace ChainLens

inductive DecodeError where
  | receiptCountMismatch (blockNumber transactions receipts : ℕ)
  | receiptHashMismatch (blockNumber index : ℕ) (receiptHash txHash : B256)
  | logIndexGap (blockNumber expected actual position : ℕ)
  | invalidErc20DataLength (logIndex length : ℕ)
  | invalidTransferAddress (logIndex topicIndex : ℕ)
deriving DecidableEq

/-- The result of a decoding step. -/
abbrev Decode (α : Type) := Except (Fault DecodeError) α

def Decode.fail {α : Type} (e : DecodeError) : Decode α := .error (.error e)

def Decode.panic {α : Type} (message : String) : Decode α := .error (.panic message)

/-- `if bad { return Err(e) }`. -/
def Decode.rejectIf (bad : Prop) [Decidable bad] (e : DecodeError) : Decode Unit :=
  if bad then .fail e else .ok ()

/-! ## Machine words -/

/-- `U256::to::<usize>`. -/
def U256.toUsize (word : U256) : Decode ℕ :=
  if word.toNat ≤ usizeMax then .ok word.toNat else .panic "Uint conversion error"

def addUsize (a b : ℕ) : Decode ℕ :=
  if a + b ≤ usizeMax then .ok (a + b) else .panic "attempt to add with overflow"

def mulUsize (a b : ℕ) : Decode ℕ :=
  if a * b ≤ usizeMax then .ok (a * b) else .panic "attempt to multiply with overflow"

/-- `&data[start..stop]`. -/
def slice (data : Bytes) (start stop : ℕ) : Decode Bytes :=
  if start ≤ stop ∧ stop ≤ data.length then .ok ((data.drop start).take (stop - start))
  else .panic "range out of bounds for slice"

/-- The size of a `TokenTransfer` in memory. -/
def tokenTransferSize : ℕ := 144

/-- `Vec::<TokenTransfer>::with_capacity`. -/
def reserveTransfers (count : ℕ) : Decode Unit :=
  if count * tokenTransferSize ≤ i64Max then .ok () else .panic "capacity overflow"

/-! ## Event topics -/

def transferTopic : B256 := ⟨[
    0xdd, 0xf2, 0x52, 0xad, 0x1b, 0xe2, 0xc8, 0x9b, 0x69, 0xc2, 0xb0, 0x68, 0xfc, 0x37, 0x8d, 0xaa,
    0x95, 0x2b, 0xa7, 0xf1, 0x63, 0xc4, 0xa1, 0x16, 0x28, 0xf5, 0x5a, 0x4d, 0xf5, 0x23, 0xb3, 0xef],
  rfl⟩

def erc1155TransferSingleTopic : B256 := ⟨[
    0xc3, 0xd5, 0x81, 0x68, 0xc5, 0xae, 0x73, 0x97, 0x73, 0x1d, 0x06, 0x3d, 0x5b, 0xbf, 0x3d, 0x65,
    0x78, 0x54, 0x42, 0x73, 0x43, 0xf4, 0xc0, 0x83, 0x24, 0x0f, 0x7a, 0xac, 0xaa, 0x2d, 0x0f, 0x62],
  rfl⟩

def erc1155TransferBatchTopic : B256 := ⟨[
    0x4a, 0x39, 0xdc, 0x06, 0xd4, 0xc0, 0xdb, 0xc6, 0x4b, 0x70, 0xaf, 0x90, 0xfd, 0x69, 0x8a, 0x23,
    0x3a, 0x51, 0x8a, 0xa5, 0xd0, 0x7e, 0x59, 0x5d, 0x98, 0x3b, 0x8c, 0x05, 0x26, 0xc8, 0xf7, 0xfb],
  rfl⟩

/-! ## One log -/

/-- The last twenty bytes of a topic. -/
def extractAddressFromTopic (topic : Option B256) (logIndex topicIndex : ℕ) : Decode Address :=
  match topic with
  | none => .fail (.invalidTransferAddress logIndex topicIndex)
  | some bytes => .ok ⟨bytes.bytes.drop 12, by simp [bytes.length_bytes]⟩

def decodeErc20Transfer (log : Log) : Decode TokenTransfer := do
  let fromAddr ← extractAddressFromTopic log.topic1 log.logIndex 1
  let toAddr ← extractAddressFromTopic log.topic2 log.logIndex 2
  .rejectIf (log.data.length ≠ 32) (.invalidErc20DataLength log.logIndex log.data.length)
  return {
    blockNumber := log.blockNumber
    logIndex := log.logIndex
    tokenAddress := log.address
    fromAddr, toAddr
    value := U256.fromBeSlice log.data
    tokenId := 0
    standard := .erc20 }

def decodeErc721Transfer (log : Log) : Decode TokenTransfer := do
  let fromAddr ← extractAddressFromTopic log.topic1 log.logIndex 1
  let toAddr ← extractAddressFromTopic log.topic2 log.logIndex 2
  match log.topic3 with
  | none => .fail (.invalidTransferAddress log.logIndex 3)
  | some tokenIdBytes =>
    return {
      blockNumber := log.blockNumber
      logIndex := log.logIndex
      tokenAddress := log.address
      fromAddr, toAddr
      value := 0
      tokenId := U256.fromBeSlice tokenIdBytes.bytes
      standard := .erc721 }

/-- An ERC-1155 transfer of the log, with the given addresses, id and value. -/
def erc1155Transfer (log : Log) (fromAddr toAddr : Address) (tokenId value : U256) :
    TokenTransfer where
  blockNumber := log.blockNumber
  logIndex := log.logIndex
  tokenAddress := log.address
  fromAddr := fromAddr
  toAddr := toAddr
  value := value
  tokenId := tokenId
  standard := .erc1155

def decodeErc1155Single (log : Log) : Decode TokenTransfer := do
  let fromAddr ← extractAddressFromTopic log.topic2 log.logIndex 2
  let toAddr ← extractAddressFromTopic log.topic3 log.logIndex 3
  .rejectIf (log.data.length < 64) (.invalidErc20DataLength log.logIndex log.data.length)
  let tokenId ← slice log.data 0 32
  let value ← slice log.data 32 64
  return erc1155Transfer log fromAddr toAddr (U256.fromBeSlice tokenId) (U256.fromBeSlice value)

/-- One turn of the batch loop: the pair at index `i`, or nothing when it runs past the data. -/
def decodeErc1155Pair (log : Log) (fromAddr toAddr : Address) (idsOffset valuesOffset i : ℕ) :
    Decode (Option TokenTransfer) := do
  let idPos ← addUsize (← addUsize idsOffset 32) (← mulUsize i 32)
  let valPos ← addUsize (← addUsize valuesOffset 32) (← mulUsize i 32)
  let idEnd ← addUsize idPos 32
  -- The second sum is evaluated only when the first array's word is in range
  if log.data.length < idEnd then return none
  let valEnd ← addUsize valPos 32
  if log.data.length < valEnd then return none
  let tokenId ← slice log.data idPos idEnd
  let value ← slice log.data valPos valEnd
  return some (erc1155Transfer log fromAddr toAddr (U256.fromBeSlice tokenId)
    (U256.fromBeSlice value))

/-- The batch loop: the pairs from index `i` on, `remaining` of them, or fewer when the data
runs out. -/
def decodeErc1155Pairs (log : Log) (fromAddr toAddr : Address) (idsOffset valuesOffset : ℕ) :
    (remaining i : ℕ) → Decode (List TokenTransfer)
  | 0, _ => return []
  | remaining + 1, i => do
    match ← decodeErc1155Pair log fromAddr toAddr idsOffset valuesOffset i with
    -- The loop is left, and the transfers before this one stay.
    | none => return []
    | some transfer =>
      return transfer ::
        (← decodeErc1155Pairs log fromAddr toAddr idsOffset valuesOffset remaining (i + 1))

def decodeErc1155Batch (log : Log) : Decode (List TokenTransfer) := do
  let fromAddr ← extractAddressFromTopic log.topic2 log.logIndex 2
  let toAddr ← extractAddressFromTopic log.topic3 log.logIndex 3
  let tooShort : DecodeError := .invalidErc20DataLength log.logIndex log.data.length
  .rejectIf (log.data.length < 128) tooShort
  -- The offsets and the lengths are words of the data, of any size up to 256 bits.
  let idsOffset ← U256.toUsize (U256.fromBeSlice (← slice log.data 0 32))
  let valuesOffset ← U256.toUsize (U256.fromBeSlice (← slice log.data 32 64))
  let idsStart ← addUsize idsOffset 32
  .rejectIf (log.data.length < idsStart) tooShort
  let valuesStart ← addUsize valuesOffset 32
  .rejectIf (log.data.length < valuesStart) tooShort
  let idsLen ← U256.toUsize (U256.fromBeSlice (← slice log.data idsOffset idsStart))
  let valuesLen ← U256.toUsize (U256.fromBeSlice (← slice log.data valuesOffset valuesStart))
  .rejectIf (idsLen ≠ valuesLen) tooShort
  -- Room is reserved for the claimed length before any pair is read.
  reserveTransfers idsLen
  decodeErc1155Pairs log fromAddr toAddr idsOffset valuesOffset idsLen 0

/-! ## A list of logs -/

/-- The transfers one log contributes. -/
def decodeLogTransfers (log : Log) : Decode (List TokenTransfer) :=
  if log.topic0 = some transferTopic then
    -- ERC-20 and ERC-721 share the event, and index two and three of its arguments.
    match log.topics.length with
    | 3 => do return [← decodeErc20Transfer log]
    | 4 => do return [← decodeErc721Transfer log]
    | _ => return []
  else if log.topic0 = some erc1155TransferSingleTopic then do
    return [← decodeErc1155Single log]
  else if log.topic0 = some erc1155TransferBatchTopic then
    decodeErc1155Batch log
  else
    return []

def decodeTokenTransfers (logs : List Log) : Decode (List TokenTransfer) := do
  return (← logs.mapM decodeLogTransfers).flatten

/-! ## From one transfer to all -/

/-- A relation that each decoder of a single transfer gives, to the log it was read off. -/
structure OfDecoders (R : TokenTransfer → Log → Prop) : Prop where
  erc20 {log : Log} {t : TokenTransfer} (h : decodeErc20Transfer log = .ok t) : R t log
  erc721 {log : Log} {t : TokenTransfer} (h : decodeErc721Transfer log = .ok t) : R t log
  single {log : Log} {t : TokenTransfer} (h : decodeErc1155Single log = .ok t) : R t log
  pair {log : Log} {fromAddr toAddr : Address} {idsOffset valuesOffset i : ℕ} {t : TokenTransfer}
    (h : decodeErc1155Pair log fromAddr toAddr idsOffset valuesOffset i = .ok (some t)) : R t log

namespace OfDecoders

variable {R : TokenTransfer → Log → Prop} {log : Log} {ts : List TokenTransfer}

theorem pairs (hR : OfDecoders R) {fromAddr toAddr : Address}
    {idsOffset valuesOffset remaining i : ℕ}
    (h : decodeErc1155Pairs log fromAddr toAddr idsOffset valuesOffset remaining i = .ok ts) :
    ∀ t ∈ ts, R t log := by
  induction remaining generalizing i ts with
  | zero =>
    cases h
    simp
  | succ remaining ih =>
    unfold decodeErc1155Pairs at h
    obtain ⟨pair, hpair, h⟩ := Except.bind_eq_ok_iff.mp h
    cases pair with
    | none =>
      cases h
      simp
    | some transfer =>
      obtain ⟨rest, hrest, h⟩ := Except.bind_eq_ok_iff.mp h
      cases h
      exact List.forall_mem_cons.mpr ⟨hR.pair hpair, ih hrest⟩

theorem batch (hR : OfDecoders R) (h : decodeErc1155Batch log = .ok ts) : ∀ t ∈ ts, R t log := by
  unfold decodeErc1155Batch at h
  simp only [Except.bind_eq_ok_iff] at h
  obtain ⟨fromAddr, -, toAddr, -, _, -, _, -, idsOffset, -, _, -, valuesOffset, -, _, -, _, -, _, -,
    _, -, _, -, idsLen, -, _, -, valuesLen, -, _, -, _, -, h⟩ := h
  exact hR.pairs h

theorem logTransfers (hR : OfDecoders R) (h : decodeLogTransfers log = .ok ts) :
    ∀ t ∈ ts, R t log := by
  unfold decodeLogTransfers at h
  split_ifs at h
  · split at h
    · obtain ⟨t, ht, h⟩ := Except.bind_eq_ok_iff.mp h
      cases h
      simpa using hR.erc20 ht
    · obtain ⟨t, ht, h⟩ := Except.bind_eq_ok_iff.mp h
      cases h
      simpa using hR.erc721 ht
    · cases h
      simp
  · obtain ⟨t, ht, h⟩ := Except.bind_eq_ok_iff.mp h
    cases h
    simpa using hR.single ht
  · exact hR.batch h
  · cases h
    simp

/-- Every transfer of a list of logs is related to one of them. -/
theorem tokenTransfers (hR : OfDecoders R) {logs : List Log}
    (h : decodeTokenTransfers logs = .ok ts) : ∀ t ∈ ts, ∃ log ∈ logs, R t log := by
  unfold decodeTokenTransfers at h
  obtain ⟨tss, htss, h⟩ := Except.bind_eq_ok_iff.mp h
  cases h
  intro t ht
  obtain ⟨ts, hts, ht⟩ := List.mem_flatten.mp ht
  obtain ⟨log, hlog, hdecode⟩ := Except.exists_of_mem_mapM htss hts
  exact ⟨log, hlog, hR.logTransfers hdecode t ht⟩

end OfDecoders

/-! ## Transfers name their log -/

theorem decodeErc20Transfer_names {log : Log} {t : TokenTransfer}
    (h : decodeErc20Transfer log = .ok t) : t.Names log := by
  unfold decodeErc20Transfer at h
  simp only [Except.bind_eq_ok_iff] at h
  obtain ⟨fromAddr, -, toAddr, -, _, -, h⟩ := h
  cases h
  exact ⟨rfl, rfl⟩

theorem decodeErc721Transfer_names {log : Log} {t : TokenTransfer}
    (h : decodeErc721Transfer log = .ok t) : t.Names log := by
  unfold decodeErc721Transfer at h
  simp only [Except.bind_eq_ok_iff] at h
  obtain ⟨fromAddr, -, toAddr, -, h⟩ := h
  split at h
  · cases h
  · cases h
    exact ⟨rfl, rfl⟩

theorem decodeErc1155Single_names {log : Log} {t : TokenTransfer}
    (h : decodeErc1155Single log = .ok t) : t.Names log := by
  unfold decodeErc1155Single at h
  simp only [Except.bind_eq_ok_iff] at h
  obtain ⟨fromAddr, -, toAddr, -, _, -, tokenId, -, value, -, h⟩ := h
  cases h
  exact ⟨rfl, rfl⟩

theorem decodeErc1155Pair_names {log : Log} {fromAddr toAddr : Address}
    {idsOffset valuesOffset i : ℕ} {t : TokenTransfer}
    (h : decodeErc1155Pair log fromAddr toAddr idsOffset valuesOffset i = .ok (some t)) :
    t.Names log := by
  unfold decodeErc1155Pair at h
  simp only [Except.bind_eq_ok_iff] at h
  obtain ⟨_, -, _, -, idPos, -, _, -, _, -, valPos, -, idEnd, -, h⟩ := h
  split at h
  · cases h
  · obtain ⟨valEnd, -, h⟩ := Except.bind_eq_ok_iff.mp h
    split at h
    · cases h
    · obtain ⟨tokenId, -, h⟩ := Except.bind_eq_ok_iff.mp h
      obtain ⟨value, -, h⟩ := Except.bind_eq_ok_iff.mp h
      cases h
      exact ⟨rfl, rfl⟩

theorem names_ofDecoders : OfDecoders TokenTransfer.Names where
  erc20 := decodeErc20Transfer_names
  erc721 := decodeErc721Transfer_names
  single := decodeErc1155Single_names
  pair := decodeErc1155Pair_names

/-- **Every transfer of a list of logs names one of them.** -/
theorem decodeTokenTransfers_names {logs : List Log} {ts : List TokenTransfer}
    (h : decodeTokenTransfers logs = .ok ts) : ∀ t ∈ ts, ∃ log ∈ logs, t.Names log :=
  names_ofDecoders.tokenTransfers h

end ChainLens
