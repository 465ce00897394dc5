import ChainLens.Decode.Wire
import ChainLens.Pipeline.Committer
import ChainLens.Rpc.Nullable

/-!
# The client of a node

The pipeline fetches through a client over HTTP. A node in front of it answers from its chain, and
any attempt may fail. Whatever the client returns is then in that chain, and a block that it
returns without being asked for the transactions has none.

## Main definitions

* `HttpRpcClient.getBlockReceipts`, `HttpRpcClient.probeBlockReceipts`: the receipts of a block,
  and whether a new client asks for them in one request
* `HttpRpcClient.ethClient`: the client the pipeline fetches through
* `Reply.Fails`, `Reply.Carries`, `Server.Answers`: what a reply carries, and what a server answers
* `Node`, `Node.AnsweredBy`: a node, and the servers that answer for it

## Main results

* `call_of_answers`: a call returns what it reads of the answer
* `Node.AnsweredBy.fullBlock`, `Node.AnsweredBy.header`: the blocks that are returned
* `Node.AnsweredBy.fetchReceipts`: the receipts that are returned
* `Node.AnsweredBy.probe`: when the receipts are asked for in one request
-/

namespace ChainLens

namespace HttpRpcClient

variable (lib : HttpLibrary) (words : Words) (client : HttpRpcClient) (genRange : ℕ → ℕ → ℕ)
  (server : Server)

def getBlockReceipts (number : ℕ) : Except RpcError (List ReceiptResponse) :=
  (call lib client genRange (Json.elements (ReceiptResponse.deserialize words)) fun attempt =>
    server attempt ⟨"eth_getBlockReceipts", [.string (quantityText number)]⟩).1

/-- A new client asks for the receipts of the latest block. -/
def probeBlockReceipts : Bool :=
  match getBlockNumber lib words client genRange server .latest with
  | .error _ => false
  | .ok blockNumber =>
    match getBlockReceipts lib words client genRange server blockNumber with
    | .ok _ => true
    -- An unknown method is told apart from other errors in the log only.
    | .error _ => false

/-- The client, as the pipeline sees it. -/
def ethClient (supportsBlockReceipts : Bool) : EthClient where
  getBlockByNumber := getBlockByNumber lib words client genRange server
  getBlockReceipts := getBlockReceipts lib words client genRange server
  getTransactionReceipt := getTransactionReceipt lib words client genRange server
  supportsBlockReceipts := supportsBlockReceipts

end HttpRpcClient

/-! ## Replies -/

namespace Reply

/-- A success response whose envelope carries the answer. -/
def Carries (answer : Answer) (reply : Reply) : Prop :=
  ∃ status body fields, reply = .received status body ∧ isSuccess status = true ∧
    body.json = some (.object fields) ∧ answer.InEnvelope fields

/-- There is no result: the request failed, or the response is not a success, or no envelope, or it
carries an error. -/
inductive Fails : Reply → Prop where
  | failed (timeout : Bool) (text : String) : Fails (.failed timeout text)
  | status {status : ℕ} (body : Body) (h : isSuccess status = false) :
      Fails (.received status body)
  | body (status : ℕ) {body : Body} (h : body.json = none) : Fails (.received status body)
  | error {reply : Reply} {e : JsonRpcError} (h : reply.Carries (.error e)) : Fails reply

end Reply

/-- Every attempt at the request fails, or its reply carries the result. -/
def Server.Answers (server : Server) (request : Request) (result : Json) : Prop :=
  ∀ attempt, (server attempt request).Fails ∨ (server attempt request).Carries (.result result)

theorem Json.nullable_some_iff {α : Type} {read : Json → Option α} {value : Json} {x : α} :
    Json.nullable read value = some (some x) ↔ value ≠ .null ∧ read value = some x := by
  cases value with
  | null => simp [Json.nullable]
  | _ => simp [Json.nullable]

section Calls

open HttpRpcClient

variable {T : Type} {lib : HttpLibrary} {words : Words} {client : HttpRpcClient}
  {read : Json → Option T} {genRange : ℕ → ℕ → ℕ} {server : Server} {request : Request}
  {reply : Reply} {result : Json} {x : T}

theorem executeOnce_of_fails (h : reply.Fails) :
    ∃ e, executeOnce lib client read reply = .error e := by
  cases h with
  | failed timeout text => cases timeout <;> exact ⟨_, rfl⟩
  | status body hstatus => exact ⟨_, if_pos (by simp [hstatus])⟩
  | body status hbody =>
    by_cases hstatus : isSuccess status = true
    · rw [executeOnce, if_neg (not_not.mpr hstatus), hbody]
      exact ⟨_, rfl⟩
    · exact ⟨_, if_pos hstatus⟩
  | @error _ e hcarries =>
    obtain ⟨status, body, fields, rfl, hsuccess, hjson, ⟨value, herror, hread⟩, hresult⟩ :=
      hcarries
    have hvalue : value ≠ .null := by
      rintro rfl
      cases hread
    have henvelope : JsonRpcResponse.deserialize read (.object fields) = some ⟨none, some e⟩ := by
      rw [JsonRpcResponse.deserialize, Json.fields, Option.bind_eq_bind, Option.bind_some,
        hresult.defaulted, Json.defaulted_of_lookup herror, Json.nullable_of_read hvalue hread]
      rfl
    rw [executeOnce_of_envelope hsuccess hjson henvelope]
    exact ⟨_, rfl⟩

theorem executeOnce_of_carries (h : reply.Carries (.result result)) :
    executeOnce lib client read reply = .ok x ↔ result ≠ .null ∧ read result = some x := by
  obtain ⟨status, body, fields, rfl, hsuccess, hjson, hresult, herror⟩ := h
  have henvelope := @JsonRpcResponse.deserialize_result T read fields _ hresult herror
  rw [← Json.nullable_some_iff, executeOnce, if_neg (by simp [hsuccess]), hjson, Option.bind_some,
    henvelope]
  cases Json.nullable read result with
  | none => simp
  | some value => cases value <;> simp [JsonRpcResponse.outcome]

/-- **A call returns what it reads of the answer.** -/
theorem call_of_answers (h : server.Answers request result)
    (hcall : (call lib client genRange read fun attempt => server attempt request).1 = .ok x) :
    result ≠ .null ∧ read result = some x := by
  obtain ⟨k, hk⟩ := exists_ends client.retry.maxRetries fun attempt => server attempt request
  rw [call_result hk] at hcall
  rcases h k with hfails | hcarries
  · obtain ⟨e, herror⟩ := @executeOnce_of_fails T lib client read _ hfails
    cases herror.symm.trans hcall
  · exact (executeOnce_of_carries hcarries).mp hcall

/-- A call whose first attempt does not fail. -/
theorem call_of_prompt (h : (server 0 request).Carries (.result result)) :
    (call lib client genRange read fun attempt => server attempt request).1 = .ok x ↔
      result ≠ .null ∧ read result = some x := by
  have hends : Ends client.retry.maxRetries (fun attempt => server attempt request) 0 := by
    obtain ⟨status, body, fields, hreply, hsuccess, -⟩ := h
    refine ⟨Nat.zero_le _, by simp, Or.inr ?_⟩
    simp only [hreply, Reply.Retried]
    simp [isSuccess] at hsuccess
    omega
  rw [call_result hends, executeOnce_of_carries h]

end Calls

/-! ## A node -/

/-- A node: the blocks of its chain with their receipts, and the heights that its tags name. -/
structure Node where
  head : ℕ
  block : ℕ → NodeBlock
  receipts : ℕ → List NodeReceipt
  height : BlockTag → ℕ
  number_eq : ∀ n ≤ head, (block n).number.toNat = n
  height_le : ∀ tag, height tag ≤ head

namespace Node

variable (node : Node)

/-- The block at a height in the form it is asked for; null above the head. -/
def blockReply (n : ℕ) (full : Bool) : Json :=
  if n ≤ node.head then (node.block n).reply full else .null

/-- The receipts of the block at a height; null above the head. -/
def receiptsReply (n : ℕ) : Json :=
  if n ≤ node.head then .array ((node.receipts n).map NodeReceipt.toJson) else .null

/-- A receipt of the chain. -/
def Has (receipt : NodeReceipt) : Prop := ∃ n ≤ node.head, receipt ∈ node.receipts n

/-- The receipt of a transaction, or null. -/
def ReceiptReply (hash : B256) (result : Json) : Prop :=
  result = .null ∨
    ∃ receipt, node.Has receipt ∧ receipt.transactionHash = hash ∧ result = receipt.toJson

/-- The server answers for the node, whenever it does not fail. -/
structure AnsweredBy (server : Server) : Prop where
  block : ∀ n full, server.Answers
    ⟨"eth_getBlockByNumber", [.string (quantityText n), .bool full]⟩ (node.blockReply n full)
  tag : ∀ tag full, server.Answers ⟨"eth_getBlockByNumber", [.string tag.asStr, .bool full]⟩
    (node.blockReply (node.height tag) full)
  blockReceipts : ∀ n, server.Answers ⟨"eth_getBlockReceipts", [.string (quantityText n)]⟩
    (node.receiptsReply n)
  transactionReceipt : ∀ hash, ∃ result, node.ReceiptReply hash result ∧
    server.Answers ⟨"eth_getTransactionReceipt", [hexData hash.bytes]⟩ result

namespace AnsweredBy

open HttpRpcClient

variable {node : Node} {lib : HttpLibrary} {words : Words} {client : HttpRpcClient}
  {genRange : ℕ → ℕ → ℕ} {server : Server} {n : ℕ} {full : Bool} {b : BlockResponse}

/-- A block that is returned is on the chain, and was read. -/
theorem requestBlock {param : String} (h : server.Answers
      ⟨"eth_getBlockByNumber", [.string param, .bool full]⟩ (node.blockReply n full))
    (hrequest : HttpRpcClient.requestBlock lib words client genRange server param full =
      .ok (some b)) :
    n ≤ node.head ∧ BlockResponse.deserialize words ((node.block n).reply full) = some b := by
  obtain ⟨hnull, hread⟩ := call_of_answers h hrequest
  obtain ⟨-, hblock⟩ := Json.nullable_some_iff.mp hread
  unfold blockReply at hnull hblock
  split at hblock
  next hle => exact ⟨hle, hblock⟩
  next habove => exact absurd (if_neg habove) hnull

/-- **A block with its transactions** is the one at its height. -/
theorem fullBlock (h : node.AnsweredBy server)
    (hget : client.getBlockByNumber lib words genRange server n true = .ok (some b)) :
    n ≤ node.head ∧ (node.block n).FeeFits ∧ b = (node.block n).fullResponse := by
  obtain ⟨hle, hread⟩ := requestBlock (h.block n true) hget
  exact ⟨hle, NodeBlock.deserialize_full.mp hread⟩

theorem header_of_read
    (hread : BlockResponse.deserialize words ((node.block n).reply false) = some b) :
    (node.block n).transactions = [] ∧ (node.block n).FeeFits ∧
      b = (node.block n).response [] := by
  obtain ⟨hfits, txs, htxs, rfl⟩ := (NodeBlock.deserialize_reply_iff words).mp hread
  obtain ⟨hempty, rfl⟩ := (NodeBlock.elements_hashes_iff words).mp htxs
  exact ⟨hempty, hfits, rfl⟩

/-- **A block without its transactions** has none. -/
theorem header (h : node.AnsweredBy server)
    (hget : client.getBlockByNumber lib words genRange server n false = .ok (some b)) :
    n ≤ node.head ∧ (node.block n).transactions = [] ∧ (node.block n).FeeFits ∧
      b = (node.block n).response [] := by
  obtain ⟨hle, hread⟩ := requestBlock (h.block n false) hget
  exact ⟨hle, header_of_read hread⟩

/-- The number at a tag is that of a block without transactions. -/
theorem blockNumber {tag : BlockTag} (h : node.AnsweredBy server)
    (hget : client.getBlockNumber lib words genRange server tag = .ok n) :
    n = node.height tag ∧ (node.block n).transactions = [] ∧ (node.block n).FeeFits := by
  unfold getBlockNumber at hget
  obtain ⟨result, hrequest, hresult⟩ := Except.bind_eq_ok_iff.mp hget
  cases result with
  | none => cases hresult
  | some b =>
    obtain ⟨hle, hread⟩ := requestBlock (h.tag tag false) hrequest
    obtain ⟨hempty, hfits, rfl⟩ := header_of_read hread
    obtain rfl := Except.ok.inj hresult
    have hnumber : ((node.block (node.height tag)).response []).number = node.height tag :=
      node.number_eq _ hle
    rw [hnumber]
    exact ⟨rfl, hempty, hfits⟩

theorem getBlockReceipts {receipts : List ReceiptResponse} (h : node.AnsweredBy server)
    (hget : client.getBlockReceipts lib words genRange server n = .ok receipts) :
    n ≤ node.head ∧ receipts = (node.receipts n).map NodeReceipt.response := by
  obtain ⟨hnull, hread⟩ := call_of_answers (h.blockReceipts n) hget
  unfold receiptsReply at hnull hread
  split at hread
  next hle =>
    rw [Json.elements_map (NodeReceipt.deserialize_toJson words)] at hread
    exact ⟨hle, (Option.some.inj hread).symm⟩
  next habove => exact absurd (if_neg habove) hnull

theorem getTransactionReceipt {hash : B256} {receipt : ReceiptResponse}
    (h : node.AnsweredBy server)
    (hget : client.getTransactionReceipt lib words genRange server hash = .ok (some receipt)) :
    ∃ r, node.Has r ∧ r.transactionHash = hash ∧ receipt = r.response := by
  obtain ⟨result, hreply, hanswers⟩ := h.transactionReceipt hash
  obtain ⟨hnull, hread⟩ := call_of_answers hanswers hget
  rcases hreply with rfl | ⟨r, hhas, hhash, rfl⟩
  · exact absurd rfl hnull
  · obtain ⟨-, hread⟩ := Json.nullable_some_iff.mp hread
    rw [NodeReceipt.deserialize_toJson] at hread
    exact ⟨r, hhas, hhash, (Option.some.inj hread).symm⟩

/-- **The receipts of a block**, in one request or one by one, are on the chain. -/
theorem fetchReceipts {supports : Bool} {block : BlockResponse} {receipts : List ReceiptResponse}
    (h : node.AnsweredBy server)
    (hfetch : ChainLens.fetchReceipts (client.ethClient lib words genRange server supports) n
      block = .ok receipts) :
    ∀ receipt ∈ receipts, ∃ r, node.Has r ∧ receipt = r.response := by
  intro receipt hreceipt
  unfold ChainLens.fetchReceipts at hfetch
  split at hfetch
  · change (client.getBlockReceipts lib words genRange server n).mapError PipelineError.rpc = _
      at hfetch
    cases hget : client.getBlockReceipts lib words genRange server n with
    | error e =>
      rw [hget] at hfetch
      cases hfetch
    | ok replies =>
      rw [hget] at hfetch
      obtain rfl := Except.ok.inj hfetch
      obtain ⟨hle, rfl⟩ := h.getBlockReceipts hget
      obtain ⟨r, hr, rfl⟩ := List.mem_map.mp hreceipt
      exact ⟨r, ⟨n, hle, hr⟩, rfl⟩
  · obtain ⟨tx, -, htx⟩ := Except.exists_of_mem_mapM hfetch hreceipt
    split at htx
    · cases htx
    · cases htx
    next receipt' hget =>
      obtain rfl := Except.ok.inj htx
      obtain ⟨r, hhas, -, heq⟩ := h.getTransactionReceipt hget
      exact ⟨r, hhas, heq⟩

/-- A new client over a node whose latest block has a transaction asks for receipts one by one. -/
theorem probe (h : node.AnsweredBy server)
    (hprobe : client.probeBlockReceipts lib words genRange server = true) :
    (node.block (node.height .latest)).transactions = [] := by
  unfold probeBlockReceipts at hprobe
  split at hprobe
  · cases hprobe
  next n hnumber =>
    obtain ⟨rfl, hempty, -⟩ := h.blockNumber hnumber
    exact hempty

end AnsweredBy

end Node

/-! ## A server for a node -/

namespace Node

variable (node : Node)

/-- A response with a result. -/
def resultReply (result : Json) : Reply :=
  .received 200 ⟨none, some (.object [("result", result), ("jsonrpc", .string "2.0")])⟩

/-- The height that a parameter names. -/
def heightOf (param : String) : Option ℕ :=
  match [BlockTag.latest, .safe, .finalized, .earliest, .pending].find? (·.asStr = param) with
  | some tag => some (node.height tag)
  | none => (HexQuantity.parse param).toOption

/-- The reply about the height that a parameter names. -/
def heightReply (param : String) (reply : ℕ → Json) : Reply :=
  match node.heightOf param with
  | some n => resultReply (reply n)
  | none => .failed false "error sending request"

/-- The receipt whose transaction hash is written so. -/
def receiptOf (text : String) : Option NodeReceipt :=
  ((List.range (node.head + 1)).flatMap node.receipts).find? fun receipt =>
    hexText receipt.transactionHash.bytes = text

/-- The server that answers every request for the node at once. -/
def server : Server := fun _ request =>
  match request.params with
  | [.string param, .bool full] => node.heightReply param (node.blockReply · full)
  | [.string param] =>
    if request.method = "eth_getBlockReceipts" then node.heightReply param node.receiptsReply
    else resultReply (((node.receiptOf param).map NodeReceipt.toJson).getD .null)
  | _ => .failed false "error sending request"

theorem carries_resultReply (result : Json) : (resultReply result).Carries (.result result) :=
  ⟨200, _, _, rfl, rfl, rfl, by simp [Answer.InEnvelope, Json.lookup, Json.Absent]⟩

theorem heightOf_quantityText (n : ℕ) :
    node.heightOf (quantityText n) = if n ≤ u64Max then some n else none := by
  -- A tag does not begin with a digit.
  have htag : [BlockTag.latest, .safe, .finalized, .earliest, .pending].find?
      (·.asStr = quantityText n) = none := by
    refine List.find?_eq_none.mpr fun tag _ htext => ?_
    have hhead := congrArg (fun s : String => s.toList.head?) (of_decide_eq_true htext)
    cases tag <;> simp [quantityText, BlockTag.asStr] at hhead
  rw [heightOf, htag]
  exact HexQuantity.parse_quantityText_toOption n

theorem heightOf_asStr (tag : BlockTag) : node.heightOf tag.asStr = some (node.height tag) := by
  cases tag <;> simp [heightOf, BlockTag.asStr]

theorem server_block (attempt : ℕ) (param : String) (full : Bool) :
    node.server attempt ⟨"eth_getBlockByNumber", [.string param, .bool full]⟩ =
      node.heightReply param (node.blockReply · full) := rfl

theorem server_receipts (attempt : ℕ) (param : String) :
    node.server attempt ⟨"eth_getBlockReceipts", [.string param]⟩ =
      node.heightReply param node.receiptsReply := by
  simp only [server, if_true]

theorem heightReply_quantityText {n : ℕ} (reply : ℕ → Json) (hn : n ≤ u64Max) :
    node.heightReply (quantityText n) reply = resultReply (reply n) := by
  rw [heightReply, heightOf_quantityText, if_pos hn]

theorem heightReply_asStr (tag : BlockTag) (reply : ℕ → Json) :
    node.heightReply tag.asStr reply = resultReply (reply (node.height tag)) := by
  rw [heightReply, heightOf_asStr]

/-- **Every node has a server.** -/
theorem answeredBy_server : node.AnsweredBy node.server := by
  have hheight (n : ℕ) (reply : ℕ → Json) : (node.heightReply (quantityText n) reply).Fails ∨
      (node.heightReply (quantityText n) reply).Carries (.result (reply n)) := by
    by_cases hn : n ≤ u64Max
    · rw [node.heightReply_quantityText reply hn]
      exact Or.inr (carries_resultReply _)
    · rw [heightReply, heightOf_quantityText, if_neg hn]
      exact Or.inl (.failed _ _)
  refine ⟨fun n full attempt => hheight n _, fun tag full attempt => ?_, fun n attempt => ?_,
    fun hash => ⟨_, ?_, fun attempt => Or.inr (carries_resultReply _)⟩⟩
  · rw [server_block, heightReply_asStr]
    exact Or.inr (carries_resultReply _)
  · rw [server_receipts]
    exact hheight n _
  · show node.ReceiptReply hash (((node.receiptOf (hexText hash.bytes)).map _).getD _)
    cases hfound : node.receiptOf (hexText hash.bytes) with
    | none => exact Or.inl rfl
    | some receipt =>
      unfold receiptOf at hfound
      obtain ⟨n, hn, hreceipt⟩ := List.mem_flatMap.mp (List.mem_of_find?_eq_some hfound)
      have htext := List.find?_some hfound
      have hhash := hexText_inj.mp (of_decide_eq_true htext)
      refine Or.inr ⟨receipt, ⟨n, ?_, hreceipt⟩, FixedBytes.ext hhash, rfl⟩
      exact Nat.le_of_lt_succ (List.mem_range.mp hn)

section Requests

open HttpRpcClient

variable {node : Node} {lib : HttpLibrary} {words : Words} {client : HttpRpcClient}
  {genRange : ℕ → ℕ → ℕ} {n : ℕ} {full : Bool} {b : BlockResponse}

theorem server_requestBlock {param : String}
    (hparam : node.heightReply param (node.blockReply · full) =
      resultReply (node.blockReply n full))
    (hn : n ≤ node.head)
    (hread : BlockResponse.deserialize words ((node.block n).reply full) = some b) :
    requestBlock lib words client genRange node.server param full = .ok (some b) := by
  have hcarries := carries_resultReply (node.blockReply n full)
  rw [← hparam, ← node.server_block 0 param full] at hcarries
  refine (call_of_prompt hcarries).mpr ?_
  rw [blockReply, if_pos hn]
  exact ⟨by simp [NodeBlock.reply], Json.nullable_some_iff.mpr ⟨by simp [NodeBlock.reply], hread⟩⟩

theorem le_u64Max (hn : n ≤ node.head) : n ≤ u64Max := by
  rw [← node.number_eq n hn]
  exact Nat.le_of_lt_succ (node.block n).number.toNat_lt

/-- The server returns the blocks up to its head with their transactions. -/
theorem server_fullBlock (hn : n ≤ node.head) (hfits : (node.block n).FeeFits) :
    client.getBlockByNumber lib words genRange node.server n true =
      .ok (some (node.block n).fullResponse) :=
  server_requestBlock (node.heightReply_quantityText _ (le_u64Max hn)) hn
    (NodeBlock.deserialize_full.mpr ⟨hfits, rfl⟩)

/-- The server returns the blocks without transactions in the short form as well. -/
theorem server_header (hn : n ≤ node.head) (hempty : (node.block n).transactions = [])
    (hfits : (node.block n).FeeFits) :
    client.getBlockByNumber lib words genRange node.server n false =
      .ok (some ((node.block n).response [])) :=
  server_requestBlock (node.heightReply_quantityText _ (le_u64Max hn)) hn
    (NodeBlock.deserialize_empty hempty hfits false)

theorem server_getBlockReceipts (hn : n ≤ node.head) :
    client.getBlockReceipts lib words genRange node.server n =
      .ok ((node.receipts n).map NodeReceipt.response) := by
  have hcarries := carries_resultReply (node.receiptsReply n)
  rw [← node.heightReply_quantityText node.receiptsReply (le_u64Max hn),
    ← node.server_receipts 0] at hcarries
  refine (call_of_prompt hcarries).mpr ?_
  rw [receiptsReply, if_pos hn]
  exact ⟨by simp, Json.elements_map (NodeReceipt.deserialize_toJson words) _⟩

/-- **The number at a tag** of a node that answers at once. -/
theorem server_blockNumber_iff {tag : BlockTag} :
    client.getBlockNumber lib words genRange node.server tag = .ok n ↔
      n = node.height tag ∧ (node.block n).transactions = [] ∧ (node.block n).FeeFits := by
  refine ⟨node.answeredBy_server.blockNumber, ?_⟩
  rintro ⟨rfl, hempty, hfits⟩
  have hrequest := @server_requestBlock node lib words client genRange _ false _ _
    (node.heightReply_asStr tag _) (node.height_le tag)
    (NodeBlock.deserialize_empty hempty hfits false)
  have hnumber := node.number_eq _ (node.height_le tag)
  rw [getBlockNumber, hrequest]
  exact congrArg Except.ok hnumber

end Requests

end Node

end ChainLens
