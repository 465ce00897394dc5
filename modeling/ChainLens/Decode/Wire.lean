import ChainLens.Decode.BlockOutcome
import ChainLens.Rpc.Node

/-!
# Transaction types on the wire

A node sends the transactions of a block as objects, and one receipt for each. In both the type of
the transaction is the field `type`. The records of the client have a field for it, whose name is
another one in an object, so that it is never there.

## Main definitions

* `NodeLog`, `NodeReceipt`: the receipts of a node
* `decodeReplies`: a block and its receipts, read and decoded
* `TypesSurvive`: the decoded transactions have the types that the node sent

## Main results

* `NodeTransaction.deserialize_toJson`, `NodeReceipt.deserialize_toJson`: what is read
* `decodeReplies_txType`, `decodeReplies_isOk_iff`: every decoded transaction is a legacy one, and
  when the replies are decoded
* `typesSurvive_iff`: when the types survive
-/

namespace ChainLens

/-! ## Receipts of a node -/

/-- The names of the fields that are read of a log. -/
def LogResponse.fieldNames : List String :=
  ["address", "topics", "data", "blockNumber", "transactionHash", "transactionIndex", "blockHash",
    "logIndex", "removed"]

/-- The names of the fields that are read of a receipt. -/
def ReceiptResponse.fieldNames : List String :=
  ["transactionHash", "transactionIndex", "blockHash", "blockNumber", "from", "to",
    "cumulativeGasUsed", "gasUsed", "contractAddress", "status", "logs", "transactionType",
    "effectiveGasPrice"]

structure NodeLog where
  address : Address
  topics : List B256
  data : Bytes
  blockNumber : UInt64
  transactionHash : B256
  transactionIndex : UInt64
  blockHash : B256
  logIndex : UInt64
  removed : Bool
  extra : List (String × Json)
  extra_fresh : ∀ name ∈ extra.map Prod.fst, name ∉ LogResponse.fieldNames

/-- A receipt of a node. Old ones have no status, but another field. -/
structure NodeReceipt where
  transactionHash : B256
  transactionIndex : UInt64
  blockHash : B256
  blockNumber : UInt64
  fromAddr : Address
  toAddr : Option Address
  cumulativeGasUsed : UInt64
  gasUsed : UInt64
  contractAddress : Option Address
  status : Option UInt64
  logs : List NodeLog
  txType : UInt8
  effectiveGasPrice : Option U256
  extra : List (String × Json)
  extra_fresh : ∀ name ∈ extra.map Prod.fst, name ∉ ReceiptResponse.fieldNames

/-- An address, or null. -/
def optionalAddress (a : Option Address) : Json := a.elim .null (hexData ·.bytes)

namespace NodeLog

variable (log : NodeLog)

def known : List (String × Json) :=
  [("address", hexData log.address.bytes),
    ("topics", .array (log.topics.map (hexData ·.bytes))), ("data", hexData log.data),
    ("blockNumber", quantity log.blockNumber.toNat),
    ("transactionHash", hexData log.transactionHash.bytes),
    ("transactionIndex", quantity log.transactionIndex.toNat),
    ("blockHash", hexData log.blockHash.bytes), ("logIndex", quantity log.logIndex.toNat),
    ("removed", .bool log.removed)]

def toJson : Json := .object (log.known ++ log.extra)

/-- The record of the log. -/
def response : LogResponse where
  address := log.address
  topics := log.topics
  data := log.data
  blockNumber := log.blockNumber.toNat
  transactionHash := log.transactionHash
  transactionIndex := log.transactionIndex.toNat
  blockHash := log.blockHash
  logIndex := log.logIndex.toNat
  removed := log.removed

end NodeLog

namespace NodeReceipt

variable (receipt : NodeReceipt)

def known : List (String × Json) :=
  [("transactionHash", hexData receipt.transactionHash.bytes),
    ("transactionIndex", quantity receipt.transactionIndex.toNat),
    ("blockHash", hexData receipt.blockHash.bytes),
    ("blockNumber", quantity receipt.blockNumber.toNat),
    ("from", hexData receipt.fromAddr.bytes), ("to", optionalAddress receipt.toAddr),
    ("cumulativeGasUsed", quantity receipt.cumulativeGasUsed.toNat),
    ("gasUsed", quantity receipt.gasUsed.toNat),
    ("contractAddress", optionalAddress receipt.contractAddress),
    ("logs", .array (receipt.logs.map NodeLog.toJson)), ("type", quantity receipt.txType.toNat)] ++
  (receipt.status.map fun n => ("status", quantity n.toNat)).toList ++
  optionalQuantity "effectiveGasPrice" receipt.effectiveGasPrice

def toJson : Json := .object (receipt.known ++ receipt.extra)

/-- The record of the receipt, without its type. -/
def response : ReceiptResponse where
  transactionHash := receipt.transactionHash
  transactionIndex := receipt.transactionIndex.toNat
  blockHash := receipt.blockHash
  blockNumber := receipt.blockNumber.toNat
  fromAddr := receipt.fromAddr
  toAddr := receipt.toAddr
  cumulativeGasUsed := receipt.cumulativeGasUsed.toNat
  gasUsed := receipt.gasUsed.toNat
  contractAddress := receipt.contractAddress
  status := receipt.status.map (·.toNat)
  logs := receipt.logs.map NodeLog.response
  transactionType := none
  effectiveGasPrice := receipt.effectiveGasPrice

end NodeReceipt

namespace NodeTransaction

variable (tx : NodeTransaction)

/-- The fields that the client reads, and the type. -/
def known : List (String × Json) :=
  [("hash", hexData tx.hash.bytes), ("transactionIndex", quantity tx.transactionIndex.toNat),
    ("from", hexData tx.fromAddr.bytes), ("to", optionalAddress tx.toAddr),
    ("value", quantity tx.value.toNat), ("nonce", quantity tx.nonce.toNat),
    ("gas", quantity tx.gas.toNat), ("input", hexData tx.input),
    ("type", quantity tx.txType.toNat), ("v", quantity tx.v.toNat), ("r", quantity tx.r.toNat),
    ("s", quantity tx.s.toNat)] ++
  optionalQuantity "gasPrice" tx.gasPrice ++ optionalQuantity "maxFeePerGas" tx.maxFeePerGas ++
  optionalQuantity "maxPriorityFeePerGas" tx.maxPriorityFeePerGas ++
  optionalQuantity "chainId" tx.chainId

theorem toJson_eq : tx.toJson = .object (tx.known ++ tx.extra) := rfl

/-- The record of the transaction, without its type. -/
def response : TransactionResponse where
  hash := tx.hash
  transactionIndex := tx.transactionIndex.toNat
  fromAddr := tx.fromAddr
  toAddr := tx.toAddr
  value := tx.value
  nonce := tx.nonce.toNat
  gas := tx.gas.toNat
  gasPrice := tx.gasPrice
  input := tx.input
  transactionType := none
  maxFeePerGas := tx.maxFeePerGas
  maxPriorityFeePerGas := tx.maxPriorityFeePerGas

end NodeTransaction

/-! ## Reading them -/

section Reading

variable (words : Words)

variable {names : List String} {known extra : List (String × Json)} {name : String}

section Fields

variable (h : Json.Layout names known extra) (hname : name ∈ names)

include h hname

theorem required_b256 (hash : B256) (hmem : (name, hexData hash.bytes) ∈ known) :
    Json.required words.b256 name (known ++ extra) = some hash :=
  (h.required hname hmem).trans (words.b256_text hash)

theorem required_address (a : Address) (hmem : (name, hexData a.bytes) ∈ known) :
    Json.required words.address name (known ++ extra) = some a :=
  (h.required hname hmem).trans (words.address_text a)

theorem required_bytes (bytes : Bytes) (hmem : (name, hexData bytes) ∈ known) :
    Json.required words.bytes name (known ++ extra) = some bytes :=
  (h.required hname hmem).trans (words.bytes_text bytes)

theorem required_u256 (n : U256) (hmem : (name, quantity n.toNat) ∈ known) :
    Json.required words.u256 name (known ++ extra) = some n :=
  (h.required hname hmem).trans (words.u256_text n)

theorem required_u64 (n : UInt64) (hmem : (name, quantity n.toNat) ∈ known) :
    Json.required HexQuantity.u64 name (known ++ extra) = some n.toNat :=
  (h.required hname hmem).trans (HexQuantity.u64_quantityText_toNat n)

theorem defaulted_address (a : Option Address) (hmem : (name, optionalAddress a) ∈ known) :
    Json.defaulted (Json.nullable words.address) none name (known ++ extra) = some a := by
  rw [h.defaulted hname hmem]
  cases a with
  | none => rfl
  | some a =>
    show (words.address (.string (hexText a.bytes))).map some = _
    rw [words.address_text, Option.map_some]

/-- A word that may be left out. -/
theorem defaulted_u256 (n : Option U256)
    (hmem : ∀ v, (name, v) ∈ known ↔ ∃ x, n = some x ∧ quantity x.toNat = v) :
    Json.defaulted (Json.nullable words.u256) none name (known ++ extra) = some n := by
  have hread (x : U256) : Json.nullable words.u256 (quantity x.toNat) = some (some x) := by
    show (words.u256 (.string (quantityText x.toNat))).map some = _
    rw [words.u256_text, Option.map_some]
  have hfield := h.optional (f := id) hname hmem hread
  rwa [Option.map_id_fun] at hfield

/-- An integer that may be left out. -/
theorem defaulted_u64 (n : Option UInt64)
    (hmem : ∀ v, (name, v) ∈ known ↔ ∃ x, n = some x ∧ quantity x.toNat = v) :
    Json.defaulted HexQuantity.optionalU64 none name (known ++ extra) =
      some (n.map (·.toNat)) := by
  refine h.optional hname hmem fun x => ?_
  show (HexQuantity.u64 (.string (quantityText x.toNat))).map some = _
  rw [HexQuantity.u64_quantityText_toNat, Option.map_some]

end Fields

theorem optionalQuantity_names (name : String) (n : Option U256) :
    ((optionalQuantity name n).map Prod.fst).Sublist [name] := by
  cases n with
  | none => exact List.nil_sublist _
  | some n => exact List.Sublist.refl _

theorem NodeLog.layout (log : NodeLog) :
    Json.Layout LogResponse.fieldNames log.known log.extra :=
  ⟨by simp [known], log.extra_fresh⟩

theorem NodeReceipt.layout (receipt : NodeReceipt) :
    Json.Layout ReceiptResponse.fieldNames receipt.known receipt.extra := by
  have hstatus : ((receipt.status.map fun n => ("status", quantity n.toNat)).toList.map
      Prod.fst).Sublist ["status"] := by cases receipt.status <;> simp
  have hnames : (receipt.known.map Prod.fst).Sublist
      (["transactionHash", "transactionIndex", "blockHash", "blockNumber", "from", "to",
        "cumulativeGasUsed", "gasUsed", "contractAddress", "logs", "type"] ++ ["status"] ++
        ["effectiveGasPrice"]) := by
    rw [known, List.map_append, List.map_append]
    exact ((List.Sublist.refl _).append hstatus).append (optionalQuantity_names _ _)
  exact ⟨hnames.nodup (by decide), receipt.extra_fresh⟩

theorem NodeTransaction.layout (tx : NodeTransaction) :
    Json.Layout TransactionResponse.fieldNames tx.known tx.extra := by
  have hnames : (tx.known.map Prod.fst).Sublist
      (["hash", "transactionIndex", "from", "to", "value", "nonce", "gas", "input", "type", "v",
        "r", "s"] ++ ["gasPrice"] ++ ["maxFeePerGas"] ++ ["maxPriorityFeePerGas"] ++
        ["chainId"]) := by
    rw [known, List.map_append, List.map_append, List.map_append, List.map_append]
    apply List.Sublist.append _ (optionalQuantity_names _ _)
    apply List.Sublist.append _ (optionalQuantity_names _ _)
    apply List.Sublist.append _ (optionalQuantity_names _ _)
    exact (List.Sublist.refl _).append (optionalQuantity_names _ _)
  exact ⟨hnames.nodup (by decide), tx.extra_fresh⟩

/-- **A log is read.** -/
theorem NodeLog.deserialize_toJson (log : NodeLog) :
    LogResponse.deserialize words log.toJson = some log.response := by
  have h := log.layout
  have htopics : Json.required (Json.elements words.b256) "topics" (log.known ++ log.extra) =
      some log.topics := by
    have hmap : Json.elements words.b256 (.array (log.topics.map (hexData ·.bytes))) =
        some (log.topics.map id) := Json.elements_map words.b256_text log.topics
    rw [List.map_id] at hmap
    exact (h.required (by decide) (by simp [known])).trans hmap
  have hremoved : Json.defaulted Json.boolean false "removed" (log.known ++ log.extra) =
      some log.removed := h.defaulted (v := .bool log.removed) (by decide) (by simp [known])
  rw [LogResponse.deserialize, toJson, Json.fields, Option.bind_eq_bind, Option.bind_some,
    required_address words h (by decide) log.address (by simp [known]), htopics,
    required_bytes words h (by decide) log.data (by simp [known]),
    required_u64 h (by decide) log.blockNumber (by simp [known]),
    required_b256 words h (by decide) log.transactionHash (by simp [known]),
    required_u64 h (by decide) log.transactionIndex (by simp [known]),
    required_b256 words h (by decide) log.blockHash (by simp [known]),
    required_u64 h (by decide) log.logIndex (by simp [known]), hremoved]
  rfl

/-- **A receipt is read**, without its type. -/
theorem NodeReceipt.deserialize_toJson (receipt : NodeReceipt) :
    ReceiptResponse.deserialize words receipt.toJson = some receipt.response := by
  have h := receipt.layout
  have hlogs : Json.required (Json.elements (LogResponse.deserialize words)) "logs"
      (receipt.known ++ receipt.extra) = some (receipt.logs.map NodeLog.response) :=
    (h.required (by decide) (by simp [known])).trans
      (Json.elements_map (NodeLog.deserialize_toJson words) receipt.logs)
  -- The type is not under the name that is looked for.
  have htype : Json.defaulted HexQuantity.optionalU64 none "transactionType"
      (receipt.known ++ receipt.extra) = some none :=
    h.missing (by decide) (by simp [known, optionalQuantity])
  rw [ReceiptResponse.deserialize, toJson, Json.fields, Option.bind_eq_bind, Option.bind_some,
    required_b256 words h (by decide) receipt.transactionHash (by simp [known]),
    required_u64 h (by decide) receipt.transactionIndex (by simp [known]),
    required_b256 words h (by decide) receipt.blockHash (by simp [known]),
    required_u64 h (by decide) receipt.blockNumber (by simp [known]),
    required_address words h (by decide) receipt.fromAddr (by simp [known]),
    defaulted_address words h (by decide) receipt.toAddr (by simp [known]),
    required_u64 h (by decide) receipt.cumulativeGasUsed (by simp [known]),
    required_u64 h (by decide) receipt.gasUsed (by simp [known]),
    defaulted_address words h (by decide) receipt.contractAddress (by simp [known]),
    defaulted_u64 h (by decide) receipt.status (by simp [known, optionalQuantity]), hlogs, htype,
    defaulted_u256 words h (by decide) receipt.effectiveGasPrice
      (by simp [known, optionalQuantity])]
  rfl

/-- **A transaction is read**, without its type. -/
theorem NodeTransaction.deserialize_toJson (tx : NodeTransaction) :
    TransactionResponse.deserialize words tx.toJson = some tx.response := by
  have h := tx.layout
  have htype : Json.defaulted HexQuantity.optionalU64 none "transactionType"
      (tx.known ++ tx.extra) = some none :=
    h.missing (by decide) (by simp [known, optionalQuantity])
  rw [TransactionResponse.deserialize, toJson_eq, Json.fields, Option.bind_eq_bind,
    Option.bind_some, required_b256 words h (by decide) tx.hash (by simp [known]),
    required_u64 h (by decide) tx.transactionIndex (by simp [known]),
    required_address words h (by decide) tx.fromAddr (by simp [known]),
    defaulted_address words h (by decide) tx.toAddr (by simp [known]),
    required_u256 words h (by decide) tx.value (by simp [known]),
    required_u64 h (by decide) tx.nonce (by simp [known]),
    required_u64 h (by decide) tx.gas (by simp [known]),
    defaulted_u256 words h (by decide) tx.gasPrice (by simp [known, optionalQuantity]),
    required_bytes words h (by decide) tx.input (by simp [known]), htype,
    defaulted_u256 words h (by decide) tx.maxFeePerGas (by simp [known, optionalQuantity]),
    defaulted_u256 words h (by decide) tx.maxPriorityFeePerGas
      (by simp [known, optionalQuantity]),
    defaulted_u256 words h (by decide) tx.chainId (by simp [known, optionalQuantity]),
    defaulted_u256 words h (by decide) (some tx.v) (by simp [known, optionalQuantity, eq_comm]),
    defaulted_u256 words h (by decide) (some tx.r) (by simp [known, optionalQuantity, eq_comm]),
    defaulted_u256 words h (by decide) (some tx.s) (by simp [known, optionalQuantity, eq_comm])]
  rfl

end Reading

/-! ## Reading and decoding -/

/-- A block and its receipts are read, and then decoded. -/
def decodeReplies (words : Words) (blockReply receiptsReply : Json) :
    Option (Decode IndexedBlock) := do
  let block ← BlockResponse.deserialize words blockReply
  let receipts ← Json.elements (ReceiptResponse.deserialize words) receiptsReply
  return decodeBlock block receipts

/-- The types are decoded as they are read. -/
theorem decodeTransactions_txType {block : BlockResponse} {receipts : List ReceiptResponse}
    {transactions : List Transaction} (h : decodeTransactions block receipts = .ok transactions) :
    transactions.map (·.txType) =
      block.transactions.map fun tx => u8OrZero (tx.transactionType.getD 0) := by
  obtain ⟨hlength, hreceipts⟩ := length_decodeTransactions h
  apply List.ext_getElem (by rw [List.length_map, List.length_map, hlength])
  intro i hi hi'
  rw [List.length_map] at hi hi'
  obtain ⟨-, t, ht, hsingle⟩ := decodeTransactions_getElem h (List.getElem?_eq_getElem hi')
    (List.getElem?_eq_getElem (hreceipts ▸ hi'))
  obtain rfl : transactions[i] = t := Option.some.inj ((List.getElem?_eq_getElem hi).symm.trans ht)
  rw [List.getElem_map, List.getElem_map, ← Except.ok.inj hsingle]

section Wire

variable {words : Words} {block : NodeBlock} {receipts : List NodeReceipt}

/-- The record of a full block, whose transactions have no types. -/
def NodeBlock.fullResponse (block : NodeBlock) : BlockResponse :=
  block.response (block.transactions.map NodeTransaction.response)

/-- **A full block is read** as long as its base fee has 64 bits. -/
theorem NodeBlock.deserialize_full {b : BlockResponse} :
    BlockResponse.deserialize words (block.reply true) = some b ↔
      block.FeeFits ∧ b = block.fullResponse := by
  have htxs : Json.elements (TransactionResponse.deserialize words)
      (.array (block.transactionsJson true)) =
        some (block.transactions.map NodeTransaction.response) :=
    Json.elements_map (NodeTransaction.deserialize_toJson words) block.transactions
  rw [NodeBlock.deserialize_reply_iff, htxs]
  refine and_congr_right fun _ => ⟨?_, fun hb => ⟨_, rfl, hb⟩⟩
  rintro ⟨txs, htxs, hb⟩
  cases htxs
  exact hb

theorem decodeReplies_iff {decoded : Decode IndexedBlock} :
    decodeReplies words (block.reply true) (.array (receipts.map NodeReceipt.toJson)) =
        some decoded ↔
      block.FeeFits ∧
        decodeBlock block.fullResponse (receipts.map NodeReceipt.response) = decoded := by
  have hreceipts := Json.elements_map (NodeReceipt.deserialize_toJson words) receipts
  simp only [decodeReplies, hreceipts, Option.bind_eq_bind, Option.bind_eq_some_iff,
    Option.pure_def, Option.some_inj, NodeBlock.deserialize_full]
  constructor
  · rintro ⟨b, ⟨hfits, rfl⟩, _, rfl, hdecoded⟩
    exact ⟨hfits, hdecoded⟩
  · rintro ⟨hfits, hdecoded⟩
    exact ⟨_, ⟨hfits, rfl⟩, _, rfl, hdecoded⟩

/-- **Every decoded transaction is a legacy one**, whatever the node sent. -/
theorem decodeReplies_txType {indexed : IndexedBlock}
    (h : decodeReplies words (block.reply true) (.array (receipts.map NodeReceipt.toJson)) =
      some (.ok indexed)) :
    indexed.transactions.map (·.txType) = block.transactions.map fun _ => 0 := by
  obtain ⟨-, hdecoded⟩ := decodeReplies_iff.mp h
  rw [decodeTransactions_txType (decodeBlock_parts hdecoded).2.1]
  show (block.transactions.map NodeTransaction.response).map _ = _
  rw [List.map_map]
  rfl

/-- **The types survive**: the replies are decoded, and every transaction has its type. -/
def TypesSurvive (words : Words) (block : NodeBlock) (receipts : List NodeReceipt) : Prop :=
  ∃ indexed,
    decodeReplies words (block.reply true) (.array (receipts.map NodeReceipt.toJson)) =
      some (.ok indexed) ∧
    indexed.transactions.map (·.txType) = block.transactions.map (·.txType.toNat)

/-- When the replies are decoded. -/
theorem decodeReplies_isOk_iff
    (hsize : ∀ receipt ∈ receipts, ∀ log ∈ receipt.logs, log.data.length ≤ i64Max) :
    (∃ indexed, decodeReplies words (block.reply true) (.array (receipts.map NodeReceipt.toJson)) =
        some (.ok indexed)) ↔
      block.FeeFits ∧ Consistent block.fullResponse (receipts.map NodeReceipt.response) ∧
        ∀ log ∈ decodedLogs block.fullResponse (receipts.map NodeReceipt.response),
          log.Readable := by
  have hlogs : ∀ rawLog ∈ blockLogs (receipts.map NodeReceipt.response),
      rawLog.data.length ≤ i64Max := by
    intro rawLog hraw
    obtain ⟨response, hresponse, hraw⟩ := List.mem_flatMap.mp hraw
    obtain ⟨receipt, hreceipt, rfl⟩ := List.mem_map.mp hresponse
    obtain ⟨log, hlog, rfl⟩ := List.mem_map.mp hraw
    exact hsize receipt hreceipt log hlog
  simp only [decodeReplies_iff, exists_and_left]
  refine and_congr_right fun _ => ?_
  by_cases hconsistent : Consistent block.fullResponse (receipts.map NodeReceipt.response)
  · rw [decodeBlock_isOk_iff hconsistent hlogs, and_iff_right hconsistent]
  · obtain ⟨e, he⟩ := decodeBlock_of_not_consistent hconsistent
    simp [he, hconsistent, Decode.fail]

/-- **When the types survive**: the replies can be decoded at all, and no transaction of the block
has another type than 0. -/
theorem typesSurvive_iff (words : Words) (block : NodeBlock) (receipts : List NodeReceipt)
    (hsize : ∀ receipt ∈ receipts, ∀ log ∈ receipt.logs, log.data.length ≤ i64Max) :
    TypesSurvive words block receipts ↔
      (block.FeeFits ∧ Consistent block.fullResponse (receipts.map NodeReceipt.response) ∧
        ∀ log ∈ decodedLogs block.fullResponse (receipts.map NodeReceipt.response),
          log.Readable) ∧
      ∀ tx ∈ block.transactions, tx.txType = 0 := by
  have hlegacy : (block.transactions.map fun _ => 0) = block.transactions.map (·.txType.toNat) ↔
      ∀ tx ∈ block.transactions, tx.txType = 0 := by
    rw [List.map_inj_left]
    refine forall₂_congr fun tx _ => ?_
    rw [eq_comm, ← UInt8.toNat_zero, UInt8.toNat_inj]
  rw [← @decodeReplies_isOk_iff words block receipts hsize, ← hlegacy]
  constructor
  · rintro ⟨indexed, hdecoded, htypes⟩
    exact ⟨⟨indexed, hdecoded⟩, (decodeReplies_txType hdecoded).symm.trans htypes⟩
  · rintro ⟨⟨indexed, hdecoded⟩, htypes⟩
    exact ⟨indexed, hdecoded, (decodeReplies_txType hdecoded).trans htypes⟩

end Wire

/-- The receipt of a transfer. -/
def nodeReceipt (txType : UInt8) : NodeReceipt where
  transactionHash := .zero 32
  transactionIndex := 0
  blockHash := .zero 32
  blockNumber := 7
  fromAddr := .zero 20
  toAddr := some (.zero 20)
  cumulativeGasUsed := 21000
  gasUsed := 21000
  contractAddress := none
  status := some 1
  logs := []
  txType := txType
  effectiveGasPrice := some 7
  extra := []
  extra_fresh := by simp

/-- A block with a legacy transaction. -/
theorem nodeBlock_typesSurvive_iff :
    TypesSurvive hexWords (nodeBlock [nodeTransaction]) [nodeReceipt 0] ↔
      ((nodeBlock [nodeTransaction]).FeeFits ∧
        Consistent (nodeBlock [nodeTransaction]).fullResponse
          ([nodeReceipt 0].map NodeReceipt.response) ∧
        ∀ log ∈ decodedLogs (nodeBlock [nodeTransaction]).fullResponse
          ([nodeReceipt 0].map NodeReceipt.response), log.Readable) ∧
      ∀ tx ∈ (nodeBlock [nodeTransaction]).transactions, tx.txType = 0 :=
  typesSurvive_iff hexWords (nodeBlock [nodeTransaction]) [nodeReceipt 0] (by simp [nodeReceipt])

/-- A transaction with a dynamic fee is decoded to a legacy one. -/
theorem dynamicFee_type_lost :
    (∃ indexed, decodeReplies hexWords
        ((nodeBlock [{ nodeTransaction with txType := 2 }]).reply true)
        (.array ([nodeReceipt 2].map NodeReceipt.toJson)) = some (.ok indexed)) ∧
      ¬ TypesSurvive hexWords (nodeBlock [{ nodeTransaction with txType := 2 }])
        [nodeReceipt 2] := by
  have hfits : (nodeBlock [{ nodeTransaction with txType := 2 }]).FeeFits := by
    rintro fee ⟨⟩
    decide
  refine ⟨⟨_, decodeReplies_iff.mpr ⟨hfits, rfl⟩⟩, ?_⟩
  rintro ⟨indexed, hdecoded, htypes⟩
  rw [decodeReplies_txType hdecoded] at htypes
  exact absurd htypes (by decide)

end ChainLens
