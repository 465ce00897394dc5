import ChainLens.Library.Table
import ChainLens.Rpc.Http

/-!
# Blocks from a node

A node returns a block with the hashes of its transactions, or with the transactions themselves,
as it is asked. The client reads both with one record, in which the transactions are objects.

## Main definitions

* `HttpRpcClient.getBlockByNumber`, `HttpRpcClient.getBlockNumber`: the requests
* `NodeBlock.reply`: a block as a node returns it, in either form
* `NodeBlock.HeldBy`: a node returns the block to a request
* `HeaderLaw`: the two forms agree on the header

## Main results

* `NodeBlock.deserialize_reply_iff`: when a block is read
* `headerLaw_iff`: when the two forms agree
-/

namespace ChainLens

/-- A JSON-RPC request; its number is not looked at. -/
structure Request where
  method : String
  params : List Json

/-- The replies of a server to the attempts at a request. -/
abbrev Server := ℕ → Request → Reply

namespace HttpRpcClient

variable (lib : HttpLibrary) (words : Words) (client : HttpRpcClient) (genRange : ℕ → ℕ → ℕ)
  (server : Server)

/-- A request for a block, which may be null. -/
def requestBlock (param : String) (fullTransactions : Bool) :
    Except RpcError (Option BlockResponse) :=
  (call lib client genRange (Json.nullable (BlockResponse.deserialize words)) fun attempt =>
    server attempt ⟨"eth_getBlockByNumber", [.string param, .bool fullTransactions]⟩).1

def getBlockByNumber (number : ℕ) (fullTransactions : Bool) :
    Except RpcError (Option BlockResponse) :=
  requestBlock lib words client genRange server (quantityText number) fullTransactions

def getBlockByTag (tag : BlockTag) (fullTransactions : Bool) :
    Except RpcError (Option BlockResponse) :=
  requestBlock lib words client genRange server tag.asStr fullTransactions

/-- The number of the block at a tag, which is asked for without its transactions. -/
def getBlockNumber (tag : BlockTag) : Except RpcError ℕ := do
  match ← requestBlock lib words client genRange server tag.asStr false with
  | some block => return block.number
  | none => throw (.deserialize ("block tag " ++ tag.debug ++ " returned null"))

end HttpRpcClient

/-! ## What a node returns -/

/-- The names of the fields that are read of a transaction. -/
def TransactionResponse.fieldNames : List String :=
  ["hash", "transactionIndex", "from", "to", "value", "nonce", "gas", "gasPrice", "input",
    "transactionType", "maxFeePerGas", "maxPriorityFeePerGas", "chainId", "v", "r", "s"]

/-- The names of the fields that are read of a block. -/
def BlockResponse.fieldNames : List String :=
  ["number", "hash", "parentHash", "timestamp", "miner", "gasUsed", "gasLimit", "size",
    "transactions", "baseFeePerGas"]

/-- A transaction of a node, with the fields of its type and those that nobody reads. -/
structure NodeTransaction where
  hash : B256
  transactionIndex : UInt64
  fromAddr : Address
  toAddr : Option Address
  value : U256
  nonce : UInt64
  gas : UInt64
  gasPrice : Option U256
  input : Bytes
  txType : UInt8
  maxFeePerGas : Option U256
  maxPriorityFeePerGas : Option U256
  chainId : Option U256
  v : U256
  r : U256
  s : U256
  extra : List (String × Json)
  extra_fresh : ∀ name ∈ extra.map Prod.fst, name ∉ TransactionResponse.fieldNames

/-- A block of a node. Only its base fee may have more than 64 bits. -/
structure NodeBlock where
  number : UInt64
  hash : B256
  parentHash : B256
  timestamp : UInt64
  miner : Address
  gasUsed : UInt64
  gasLimit : UInt64
  baseFeePerGas : Option U256
  size : UInt64
  transactions : List NodeTransaction
  extra : List (String × Json)
  extra_fresh : ∀ name ∈ extra.map Prod.fst, name ∉ BlockResponse.fieldNames

def quantity (n : ℕ) : Json := .string (quantityText n)

def hexData (bytes : Bytes) : Json := .string (hexText bytes)

/-- A field that is left out when there is no value. -/
def optionalQuantity (name : String) (n : Option U256) : List (String × Json) :=
  (n.map fun n => (name, quantity n.toNat)).toList

def NodeTransaction.toJson (tx : NodeTransaction) : Json :=
  .object (
    [("hash", hexData tx.hash.bytes), ("transactionIndex", quantity tx.transactionIndex.toNat),
      ("from", hexData tx.fromAddr.bytes), ("to", tx.toAddr.elim .null (hexData ·.bytes)),
      ("value", quantity tx.value.toNat), ("nonce", quantity tx.nonce.toNat),
      ("gas", quantity tx.gas.toNat), ("input", hexData tx.input),
      ("type", quantity tx.txType.toNat), ("v", quantity tx.v.toNat), ("r", quantity tx.r.toNat),
      ("s", quantity tx.s.toNat)] ++
    optionalQuantity "gasPrice" tx.gasPrice ++ optionalQuantity "maxFeePerGas" tx.maxFeePerGas ++
    optionalQuantity "maxPriorityFeePerGas" tx.maxPriorityFeePerGas ++
    optionalQuantity "chainId" tx.chainId ++ tx.extra)

namespace NodeBlock

/-- The transactions of a block, or their hashes. -/
def transactionsJson (block : NodeBlock) (full : Bool) : List Json :=
  block.transactions.map fun tx => if full then tx.toJson else hexData tx.hash.bytes

/-- The fields that the client reads. -/
def known (block : NodeBlock) (full : Bool) : List (String × Json) :=
  [("number", quantity block.number.toNat), ("hash", hexData block.hash.bytes),
    ("parentHash", hexData block.parentHash.bytes),
    ("timestamp", quantity block.timestamp.toNat), ("miner", hexData block.miner.bytes),
    ("gasUsed", quantity block.gasUsed.toNat), ("gasLimit", quantity block.gasLimit.toNat),
    ("size", quantity block.size.toNat), ("transactions", .array (block.transactionsJson full))] ++
  optionalQuantity "baseFeePerGas" block.baseFeePerGas

/-- The block in the form it is asked for. -/
def reply (block : NodeBlock) (full : Bool) : Json := .object (block.known full ++ block.extra)

/-- The response record of a block, with given transactions. -/
def response (block : NodeBlock) (transactions : List TransactionResponse) : BlockResponse where
  number := block.number.toNat
  hash := block.hash
  parentHash := block.parentHash
  timestamp := block.timestamp.toNat
  miner := block.miner
  gasUsed := block.gasUsed.toNat
  gasLimit := block.gasLimit.toNat
  baseFeePerGas := block.baseFeePerGas.map (·.toNat)
  transactions := transactions

/-- The base fee has 64 bits. -/
def FeeFits (block : NodeBlock) : Prop := ∀ fee ∈ block.baseFeePerGas, fee.toNat ≤ u64Max

/-- The envelope around the block, in which nothing else is a result or an error. -/
structure InEnvelope (block : NodeBlock) (full : Bool) (body : Body) : Prop where
  json : ∃ extra, body.json = some (.object (("result", block.reply full) :: extra)) ∧
    "result" ∉ extra.map Prod.fst ∧ "error" ∉ extra.map Prod.fst

/-- To every attempt at a request for the block, the server returns it in the form asked for. -/
def HeldBy (block : NodeBlock) (server : Server) (param : String) : Prop :=
  ∀ attempt full, ∃ body, block.InEnvelope full body ∧
    server attempt ⟨"eth_getBlockByNumber", [.string param, .bool full]⟩ = .received 200 body

/-! ## Reading a block -/

section Reading

variable {block : NodeBlock} {full : Bool} {α : Type} {read : Json → Option α} {name : String}

theorem known_sublist : ((block.known full).map Prod.fst).Sublist BlockResponse.fieldNames := by
  cases hfee : block.baseFeePerGas with
  | none => simp [known, BlockResponse.fieldNames, optionalQuantity, hfee]
  | some fee => simp [known, BlockResponse.fieldNames, optionalQuantity, hfee]

theorem known_nodup : ((block.known full).map Prod.fst).Nodup :=
  known_sublist.nodup (by decide)

theorem layout : Json.Layout BlockResponse.fieldNames (block.known full) block.extra :=
  ⟨known_nodup, block.extra_fresh⟩

/-- The base fee is read as long as it has 64 bits. -/
theorem defaulted_baseFeePerGas {fee : Option ℕ} :
    Json.defaulted HexQuantity.optionalU64 none "baseFeePerGas"
        (block.known full ++ block.extra) = some fee ↔
      block.FeeFits ∧ block.baseFeePerGas.map (·.toNat) = fee := by
  have h := @layout block full
  have hname : "baseFeePerGas" ∈ BlockResponse.fieldNames := by simp [BlockResponse.fieldNames]
  cases hfee : block.baseFeePerGas with
  | none =>
    rw [h.missing hname (by simp [known, optionalQuantity, hfee])]
    simp [FeeFits, hfee]
  | some n =>
    rw [h.defaulted (v := quantity n.toNat) hname (by simp [known, optionalQuantity, hfee])]
    show (HexQuantity.u64 (quantity n.toNat)).map some = some fee ↔ _
    rw [quantity, HexQuantity.u64_quantityText]
    split
    next hfits => simp [FeeFits, hfee, hfits]
    next hlarge => simp [FeeFits, hfee, hlarge]

/-- **When a block is read**: its base fee has 64 bits, and its transactions are read. -/
theorem deserialize_reply_iff (words : Words) {b : BlockResponse} :
    BlockResponse.deserialize words (block.reply full) = some b ↔
      block.FeeFits ∧ ∃ txs, Json.elements (TransactionResponse.deserialize words)
        (.array (block.transactionsJson full)) = some txs ∧ b = block.response txs := by
  have h := @layout block full
  rw [reply, BlockResponse.deserialize_object_iff, defaulted_baseFeePerGas]
  -- The fields in the order in which they are read.
  rw [h.required (v := quantity block.number.toNat) (by decide) (by simp [known]),
    h.required (v := hexData block.hash.bytes) (by decide) (by simp [known]),
    h.required (v := hexData block.parentHash.bytes) (by decide) (by simp [known]),
    h.required (v := quantity block.timestamp.toNat) (by decide) (by simp [known]),
    h.required (v := hexData block.miner.bytes) (by decide) (by simp [known]),
    h.required (v := quantity block.gasUsed.toNat) (by decide) (by simp [known]),
    h.required (v := quantity block.gasLimit.toNat) (by decide) (by simp [known]),
    h.required (v := .array (block.transactionsJson full)) (by decide) (by simp [known]),
    h.required (v := quantity block.size.toNat) (by decide) (by simp [known])]
  simp only [quantity, hexData, HexQuantity.u64_quantityText_toNat, Words.b256_text,
    Words.address_text, Option.some_inj, exists_eq', and_true]
  constructor
  · rintro ⟨hnumber, hhash, hparent, htimestamp, hminer, hused, hlimit, ⟨hfits, hfee⟩, htxs⟩
    refine ⟨hfits, b.transactions, htxs, ?_⟩
    cases b
    simp_all [response]
  · rintro ⟨hfits, txs, htxs, rfl⟩
    exact ⟨rfl, rfl, rfl, rfl, rfl, rfl, rfl, ⟨hfits, rfl⟩, htxs⟩

/-- Hashes are not transactions: only a block without transactions is read without them. -/
theorem elements_hashes_iff (words : Words) {txs : List TransactionResponse} :
    Json.elements (TransactionResponse.deserialize words)
        (.array (block.transactionsJson false)) = some txs ↔
      block.transactions = [] ∧ txs = [] := by
  unfold transactionsJson
  cases block.transactions with
  | nil => simp [Json.elements, eq_comm]
  | cons tx rest => simp [Json.elements, hexData]

/-- The envelope holds the block, and no error. -/
theorem InEnvelope.deserialize {body : Body} (h : block.InEnvelope full body) :
    body.json.bind (JsonRpcResponse.deserialize (Json.nullable read)) =
      (read (block.reply full)).map fun value => ⟨some (some value), none⟩ := by
  obtain ⟨extra, hjson, hresult, herror⟩ := h.json
  have hfound : Json.lookup "result" (("result", block.reply full) :: extra) =
      some (some (block.reply full)) := by
    rw [← List.singleton_append, Json.lookup_append hresult]
    exact Json.lookup_of_mem (by simp) (List.mem_singleton_self _)
  have habsent : Json.Absent "error" (("result", block.reply full) :: extra) :=
    Or.inl (Json.lookup_of_not_mem (by simpa using herror))
  rw [hjson, Option.bind_some, JsonRpcResponse.deserialize_result hfound habsent]
  show (((read (block.reply full)).map some).map some).map _ = _
  cases read (block.reply full) <;> rfl

end Reading

end NodeBlock

/-! ## The two forms of a block -/

section Requests

open HttpRpcClient

variable {lib : HttpLibrary} {words : Words} {client : HttpRpcClient} {genRange : ℕ → ℕ → ℕ}
  {server : Server} {block : NodeBlock} {param : String} {full : Bool}

/-- **A request for a block that the node holds** returns it if it can be read. -/
theorem requestBlock_ok_iff (hheld : block.HeldBy server param) {result : Option BlockResponse} :
    requestBlock lib words client genRange server param full = .ok result ↔
      ∃ b, BlockResponse.deserialize words (block.reply full) = some b ∧ some b = result := by
  obtain ⟨body, henvelope, hserver⟩ := hheld 0 full
  have hends : Ends client.retry.maxRetries
      (server · ⟨"eth_getBlockByNumber", [.string param, .bool full]⟩) 0 := by
    refine ⟨Nat.zero_le _, by simp, Or.inr ?_⟩
    simp [hserver, Reply.Retried]
  have hsuccess : isSuccess 200 = true := rfl
  rw [requestBlock, call_result hends, hserver]
  simp only [executeOnce, hsuccess, not_true_eq_false, if_false, henvelope.deserialize]
  cases BlockResponse.deserialize words (block.reply full) with
  | none => simp
  | some b => simp [JsonRpcResponse.outcome]

/-- The number at a tag is that of the block, which has to be read without its transactions. -/
theorem getBlockNumber_ok_iff {tag : BlockTag} (hheld : block.HeldBy server tag.asStr) {n : ℕ} :
    getBlockNumber lib words client genRange server tag = .ok n ↔
      ∃ b, BlockResponse.deserialize words (block.reply false) = some b ∧ b.number = n := by
  unfold getBlockNumber
  rw [Except.bind_eq_ok_iff]
  constructor
  · rintro ⟨result, hrequest, hn⟩
    obtain ⟨b, hb, rfl⟩ := (requestBlock_ok_iff hheld).mp hrequest
    exact ⟨b, hb, Except.ok.inj hn⟩
  · rintro ⟨b, hb, rfl⟩
    exact ⟨some b, (requestBlock_ok_iff hheld).mpr ⟨b, hb, rfl⟩, rfl⟩

end Requests

/-- **The header does not depend on the form**: both are read, to one number, hash and parent hash,
and the number at the tag is the block's. -/
def HeaderLaw (lib : HttpLibrary) (words : Words) (client : HttpRpcClient)
    (genRange : ℕ → ℕ → ℕ) (server : Server) (block : NodeBlock) (tag : BlockTag) : Prop :=
  let get := client.getBlockByNumber lib words genRange server block.number.toNat
  (∃ short long : BlockResponse, get false = .ok (some short) ∧ get true = .ok (some long) ∧
    short.number = long.number ∧ short.hash = long.hash ∧ short.parentHash = long.parentHash) ∧
  client.getBlockNumber lib words genRange server tag = .ok block.number.toNat

section Law

variable {lib : HttpLibrary} {words : Words} {client : HttpRpcClient} {genRange : ℕ → ℕ → ℕ}
  {server : Server} {block : NodeBlock} {tag : BlockTag}

/-- The short form has to be read, in which the transactions are hashes. -/
theorem HeaderLaw.condition (h : HeaderLaw lib words client genRange server block tag)
    (hnumber : block.HeldBy server (quantityText block.number.toNat)) :
    block.transactions = [] ∧ block.FeeFits := by
  obtain ⟨⟨short, -, hshort, -⟩, -⟩ := h
  obtain ⟨b, hb, -⟩ := (requestBlock_ok_iff hnumber).mp hshort
  obtain ⟨hfits, txs, htxs, -⟩ := (NodeBlock.deserialize_reply_iff words).mp hb
  exact ⟨((NodeBlock.elements_hashes_iff words).mp htxs).1, hfits⟩

/-- A block without transactions is read in either form. -/
theorem NodeBlock.deserialize_empty (htransactions : block.transactions = [])
    (hfits : block.FeeFits) (full : Bool) :
    BlockResponse.deserialize words (block.reply full) = some (block.response []) := by
  refine (NodeBlock.deserialize_reply_iff words).mpr ⟨hfits, [], ?_, rfl⟩
  rw [NodeBlock.transactionsJson, htransactions]
  rfl

end Law

/-- **When the two forms agree on the header**: the block has no transactions, and a base fee of
64 bits. -/
theorem headerLaw_iff (lib : HttpLibrary) (words : Words) (client : HttpRpcClient)
    (genRange : ℕ → ℕ → ℕ) {server : Server} {block : NodeBlock} {tag : BlockTag}
    (hnumber : block.HeldBy server (quantityText block.number.toNat))
    (htag : block.HeldBy server tag.asStr) :
    HeaderLaw lib words client genRange server block tag ↔
      block.transactions = [] ∧ block.FeeFits := by
  constructor
  · intro hlaw
    exact hlaw.condition hnumber
  · rintro ⟨htransactions, hfits⟩
    have hread := fun full =>
      @NodeBlock.deserialize_empty words block htransactions hfits full
    have hget : ∀ full, client.getBlockByNumber lib words genRange server block.number.toNat full =
        .ok (some (block.response [])) := fun full =>
      (requestBlock_ok_iff hnumber).mpr ⟨_, hread full, rfl⟩
    exact ⟨⟨_, _, hget false, hget true, rfl, rfl, rfl⟩,
      (getBlockNumber_ok_iff htag).mpr ⟨_, hread false, rfl⟩⟩

/-! ## A block with a transaction -/

/-- The bytes of a hex text, with its prefix or without. -/
def hexBytesOf (value : Json) : Option Bytes :=
  value.text.bind fun text =>
    match text.toList with
    | '0' :: 'x' :: digits => hexDecode digits
    | digits => hexDecode digits

def FixedBytes.ofBytes (n : ℕ) (bytes : Bytes) : Option (FixedBytes n) :=
  if h : bytes.length = n then some ⟨bytes, h⟩ else none

theorem FixedBytes.ofBytes_bytes {n : ℕ} (a : FixedBytes n) :
    FixedBytes.ofBytes n a.bytes = some a := dif_pos a.length_bytes

theorem hexBytesOf_text (bytes : Bytes) : hexBytesOf (.string (hexText bytes)) = some bytes := by
  show (match (hexText bytes).toList with
    | '0' :: 'x' :: digits => hexDecode digits
    | digits => hexDecode digits) = some bytes
  rw [hexText, String.toList_append]
  exact hexDecode_hexEncode bytes

def u256Max : ℕ := 2 ^ 256 - 1

/-- Words that are read from hex texts only. -/
def hexWords : Words where
  b256 value := (hexBytesOf value).bind (FixedBytes.ofBytes 32)
  address value := (hexBytesOf value).bind (FixedBytes.ofBytes 20)
  u256 value := value.text.bind fun text =>
    ((HexQuantity.fromStrRadix16 u256Max (text.toList.drop 2)).toOption).map
      (BitVec.ofNat 256)
  bytes value := hexBytesOf value
  b256_text hash := by rw [hexBytesOf_text, Option.bind_some, FixedBytes.ofBytes_bytes]
  address_text a := by rw [hexBytesOf_text, Option.bind_some, FixedBytes.ofBytes_bytes]
  u256_text n := by
    have hle : n.toNat ≤ u256Max := Nat.le_pred_of_lt n.isLt
    simp [Json.text, quantityText, HexQuantity.fromStrRadix16_toDigits,
      HexQuantity.accumulate_toDigits, hle, Except.toOption]
  bytes_text := hexBytesOf_text

/-- A block of a node, with the given transactions. -/
def nodeBlock (transactions : List NodeTransaction) : NodeBlock where
  number := 7
  hash := .zero 32
  parentHash := .zero 32
  timestamp := 1600000000
  miner := .zero 20
  gasUsed := 21000
  gasLimit := 30000000
  baseFeePerGas := some 7
  size := 600
  transactions := transactions
  extra := []
  extra_fresh := by simp

/-- A transfer of nothing. -/
def nodeTransaction : NodeTransaction where
  hash := .zero 32
  transactionIndex := 0
  fromAddr := .zero 20
  toAddr := some (.zero 20)
  value := 0
  nonce := 0
  gas := 21000
  gasPrice := some 7
  input := []
  txType := 0
  maxFeePerGas := none
  maxPriorityFeePerGas := none
  chainId := some 1
  v := 37
  r := 1
  s := 1
  extra := []
  extra_fresh := by simp

/-- A server that returns the block to every request, in the form asked for. -/
def serverOf (block : NodeBlock) : Server := fun _ request =>
  match request.params with
  | [_, .bool full] =>
    .received 200 ⟨none, some (.object [("result", block.reply full), ("jsonrpc", .string "2.0")])⟩
  | _ => .failed true "error sending request"

theorem heldBy_serverOf (block : NodeBlock) (param : String) :
    block.HeldBy (serverOf block) param := fun _ _ =>
  ⟨_, ⟨[("jsonrpc", .string "2.0")], rfl, by simp, by simp⟩, rfl⟩

/-- A client of that server. -/
def nodeClient : HttpRpcClient := ⟨"http://localhost:8545/", ⟨3, 200000000, 8000000000⟩⟩

/-- An empty block. -/
theorem nodeBlock_headerLaw_iff :
    HeaderLaw plainLibrary hexWords nodeClient (fun _ _ => 0) (serverOf (nodeBlock []))
        (nodeBlock []) .latest ↔ (nodeBlock []).transactions = [] ∧ (nodeBlock []).FeeFits :=
  headerLaw_iff plainLibrary hexWords nodeClient _ (heldBy_serverOf _ _) (heldBy_serverOf _ _)

/-- With one transaction, the short form is not read. -/
theorem headerLaw_fails :
    ¬ ∀ (block : NodeBlock) (server : Server) (tag : BlockTag),
      block.HeldBy server (quantityText block.number.toNat) → block.HeldBy server tag.asStr →
        HeaderLaw plainLibrary hexWords nodeClient (fun _ _ => 0) server block tag := by
  intro hall
  have hlaw := hall (nodeBlock [nodeTransaction]) _ .latest (heldBy_serverOf _ _)
    (heldBy_serverOf _ _)
  have hnone : [nodeTransaction] = [] := (hlaw.condition (heldBy_serverOf _ _)).1
  cases hnone

end ChainLens
