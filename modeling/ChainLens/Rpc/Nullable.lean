import ChainLens.Rpc.Node

/-!
# Objects that may not exist

A node answers a request for an unknown block, receipt or transaction with a result that is null.
The envelope of the reply takes a null for a result that is left out, before the method has a
chance to take it for an object that does not exist.

## Main definitions

* `NullableMethod`: the requests for objects that may not exist
* `Answer`, `Answer.InEnvelope`: what a node answers, and the reply that carries it
* `Answer.Law`: what a caller is to get for an answer

## Main results

* `NullableMethod.get_ne_none`: no request returns that there is no object
* `nullable_law_iff`: callers get what they should for every answer but null
-/

namespace ChainLens

namespace HttpRpcClient

variable (lib : HttpLibrary) (words : Words) (client : HttpRpcClient) (genRange : ℕ → ℕ → ℕ)
  (server : Server)

def getTransactionReceipt (hash : B256) : Except RpcError (Option ReceiptResponse) :=
  (call lib client genRange (Json.nullable (ReceiptResponse.deserialize words)) fun attempt =>
    server attempt ⟨"eth_getTransactionReceipt", [hexData hash.bytes]⟩).1

def getTransactionByHash (hash : B256) : Except RpcError (Option TransactionResponse) :=
  (call lib client genRange (Json.nullable (TransactionResponse.deserialize words)) fun attempt =>
    server attempt ⟨"eth_getTransactionByHash", [hexData hash.bytes]⟩).1

end HttpRpcClient

/-- The requests for objects that may not exist. -/
inductive NullableMethod where
  | blockByNumber (number : ℕ) (fullTransactions : Bool)
  | blockByTag (tag : BlockTag) (fullTransactions : Bool)
  | transactionReceipt (hash : B256)
  | transactionByHash (hash : B256)

namespace NullableMethod

def Object : NullableMethod → Type
  | .blockByNumber _ _ => BlockResponse
  | .blockByTag _ _ => BlockResponse
  | .transactionReceipt _ => ReceiptResponse
  | .transactionByHash _ => TransactionResponse

def request : NullableMethod → Request
  | .blockByNumber number full =>
    ⟨"eth_getBlockByNumber", [.string (quantityText number), .bool full]⟩
  | .blockByTag tag full => ⟨"eth_getBlockByNumber", [.string tag.asStr, .bool full]⟩
  | .transactionReceipt hash => ⟨"eth_getTransactionReceipt", [hexData hash.bytes]⟩
  | .transactionByHash hash => ⟨"eth_getTransactionByHash", [hexData hash.bytes]⟩

/-- How the object is read. -/
def read (words : Words) : (method : NullableMethod) → Json → Option method.Object
  | .blockByNumber _ _ => BlockResponse.deserialize words
  | .blockByTag _ _ => BlockResponse.deserialize words
  | .transactionReceipt _ => ReceiptResponse.deserialize words
  | .transactionByHash _ => TransactionResponse.deserialize words

section Get

variable (lib : HttpLibrary) (words : Words) (client : HttpRpcClient) (genRange : ℕ → ℕ → ℕ)
  (server : Server)

def get : (method : NullableMethod) → Except RpcError (Option method.Object)
  | .blockByNumber number full => client.getBlockByNumber lib words genRange server number full
  | .blockByTag tag full => client.getBlockByTag lib words genRange server tag full
  | .transactionReceipt hash => client.getTransactionReceipt lib words genRange server hash
  | .transactionByHash hash => client.getTransactionByHash lib words genRange server hash

end Get

end NullableMethod

/-! ## Answers -/

/-- What a node answers: an error, or a result, which may be null. -/
inductive Answer where
  | error (e : JsonRpcError)
  | result (value : Json)

namespace Answer

/-- The envelope carries the answer, in fields of any order, and not both an error and a result. -/
def InEnvelope (fields : List (String × Json)) : Answer → Prop
  | .error e => (∃ value, Json.lookup "error" fields = some (some value) ∧
      JsonRpcError.deserialize value = some e) ∧ Json.Absent "result" fields
  | .result value => Json.lookup "result" fields = some (some value) ∧ Json.Absent "error" fields

/-- The server gives the answer, to the first attempt at a request that it does not fail. -/
def GivenBy (answer : Answer) (maxRetries : ℕ) (server : ℕ → Reply) : Prop :=
  ∃ k status body fields, Ends maxRetries server k ∧ server k = .received status body ∧
    isSuccess status = true ∧ body.json = some (.object fields) ∧ answer.InEnvelope fields

/-- **What a caller is to get for an answer**: the error; that there is no object, for null; or the
object, if it is well formed. -/
def Law {T : Type} (read : Json → Option T) (outcome : Except RpcError (Option T)) : Answer → Prop
  | .error e => outcome = .error (.jsonRpc e.code e.message)
  | .result value => (value = .null → outcome = .ok none) ∧
      ∀ x, read value = some x → outcome = .ok (some x)

end Answer

/-! ## Reading an envelope -/

section Reading

variable {T : Type} {read : Json → Option T} {fields : List (String × Json)}

/-- The envelope of an error. -/
theorem Answer.deserialize_error {e : JsonRpcError} (h : (Answer.error e).InEnvelope fields) :
    JsonRpcResponse.deserialize (Json.nullable read) (.object fields) = some ⟨none, some e⟩ := by
  obtain ⟨⟨value, herror, hread⟩, hresult⟩ := h
  have hvalue : value ≠ .null := by
    rintro rfl
    cases hread
  rw [JsonRpcResponse.deserialize, Json.fields, Option.bind_eq_bind, Option.bind_some,
    hresult.defaulted, Json.defaulted_of_lookup herror, Json.nullable_of_read hvalue hread]
  rfl

/-- The envelope of an object that is read. -/
theorem Answer.deserialize_object {value : Json} {x : T}
    (h : (Answer.result value).InEnvelope fields) (hvalue : value ≠ .null)
    (hread : read value = some x) :
    JsonRpcResponse.deserialize (Json.nullable read) (.object fields) =
      some ⟨some (some x), none⟩ := by
  obtain ⟨hresult, herror⟩ := h
  rw [JsonRpcResponse.deserialize_result hresult herror,
    Json.nullable_of_read hvalue (Json.nullable_of_read hvalue hread), Option.map_some]

/-- No envelope holds a result that is nothing. -/
theorem JsonRpcResponse.result_ne {value : Json} {response : JsonRpcResponse (Option T)}
    (h : JsonRpcResponse.deserialize (Json.nullable read) value = some response) :
    response.result ≠ some none := by
  unfold JsonRpcResponse.deserialize at h
  simp only [Option.bind_eq_bind, Option.bind_eq_some_iff] at h
  obtain ⟨fields, -, result, hresult, error, -, h⟩ := h
  cases h
  rintro rfl
  unfold Json.defaulted at hresult
  split at hresult
  · exact Json.nullable_nullable_ne _ hresult
  · cases hresult
  · cases hresult

end Reading

/-! ## What callers get -/

section Callers

open HttpRpcClient

variable {lib : HttpLibrary} {words : Words} {client : HttpRpcClient} {genRange : ℕ → ℕ → ℕ}
  {server : Server} {T : Type} {read : Json → Option T}

theorem executeOnce_of_envelope {status : ℕ} {body : Body} {value : Json}
    {response : JsonRpcResponse T} (hsuccess : isSuccess status = true)
    (hjson : body.json = some value) (h : JsonRpcResponse.deserialize read value = some response) :
    executeOnce lib client read (.received status body) = response.outcome := by
  simp only [executeOnce, hsuccess, hjson, h, not_true_eq_false, if_false, Option.bind_some]

/-- An envelope never amounts to there being no object. -/
theorem JsonRpcResponse.outcome_ne {value : Json} {response : JsonRpcResponse (Option T)}
    (h : JsonRpcResponse.deserialize (Json.nullable read) value = some response) :
    response.outcome ≠ .ok none := by
  have hresult := JsonRpcResponse.result_ne h
  intro houtcome
  obtain ⟨_ | result, _ | error⟩ := response
  · cases houtcome
  · cases houtcome
  · exact hresult (congrArg some (Except.ok.inj houtcome))
  · cases houtcome

/-- An attempt never returns that there is no object. -/
theorem executeOnce_nullable_ne (reply : Reply) :
    executeOnce lib client (Json.nullable read) reply ≠ .ok none := by
  intro h
  cases reply with
  | failed timeout text => cases timeout <;> cases h
  | received status body =>
    rw [executeOnce] at h
    split at h
    · cases h
    · split at h
      · cases h
      next response hresponse =>
        obtain ⟨value, -, hvalue⟩ := Option.bind_eq_some_iff.mp hresponse
        exact JsonRpcResponse.outcome_ne hvalue h

namespace NullableMethod

/-- A request returns what the attempt that ends it does. -/
theorem get_eq {method : NullableMethod} {k : ℕ}
    (h : Ends client.retry.maxRetries (server · method.request) k) :
    method.get lib words client genRange server =
      executeOnce lib client (Json.nullable (method.read words)) (server k method.request) := by
  cases method <;> exact call_result h

/-- **No request returns that there is no object**, whatever the server replies. -/
theorem get_ne_none (method : NullableMethod) :
    method.get lib words client genRange server ≠ .ok none := by
  obtain ⟨k, hk⟩ := exists_ends client.retry.maxRetries (server · method.request)
  rw [get_eq hk]
  exact executeOnce_nullable_ne _

end NullableMethod

/-- **Callers get what they should exactly for the answers that are not null**: a null result is
an error, as if the result had been left out. -/
theorem nullable_law_iff (lib : HttpLibrary) (words : Words) (client : HttpRpcClient)
    (genRange : ℕ → ℕ → ℕ) (server : Server) (method : NullableMethod) (answer : Answer)
    (hanswer : answer.GivenBy client.retry.maxRetries (server · method.request)) :
    answer.Law (method.read words) (method.get lib words client genRange server) ↔
      answer ≠ .result .null := by
  obtain ⟨k, status, body, fields, hk, hreply, hsuccess, hjson, henvelope⟩ := hanswer
  constructor
  · rintro hlaw rfl
    exact method.get_ne_none (hlaw.1 rfl)
  · intro hnull
    change server k method.request = _ at hreply
    rw [NullableMethod.get_eq hk, hreply]
    cases answer with
    | error e =>
      exact executeOnce_of_envelope hsuccess hjson (Answer.deserialize_error henvelope)
    | result value =>
      have hvalue : value ≠ .null := fun h => hnull (congrArg Answer.result h)
      refine ⟨fun h => absurd h hvalue, fun x hx => ?_⟩
      exact executeOnce_of_envelope hsuccess hjson
        (Answer.deserialize_object henvelope hvalue hx)

end Callers

/-- A server that sends the same fields to every request. -/
def envelopeServer (fields : List (String × Json)) : Server := fun _ _ =>
  .received 200 ⟨none, some (.object fields)⟩

theorem Answer.InEnvelope.givenBy {answer : Answer} {fields : List (String × Json)}
    (h : answer.InEnvelope fields) (maxRetries : ℕ) (request : Request) :
    answer.GivenBy maxRetries (envelopeServer fields · request) := by
  refine ⟨0, 200, _, fields, ⟨Nat.zero_le _, by simp, Or.inr ?_⟩, rfl, rfl, rfl, h⟩
  simp [envelopeServer, Reply.Retried]

/-- The envelope of an error. -/
def notFoundFields : List (String × Json) :=
  [("jsonrpc", .string "2.0"), ("id", .integer 1),
    ("error", .object [("code", .integer (-32601)), ("message", .string "method not found")])]

theorem notFound_inEnvelope :
    (Answer.error ⟨-32601, "method not found"⟩).InEnvelope notFoundFields :=
  ⟨⟨_, rfl, rfl⟩, Or.inl rfl⟩

/-- A node that cannot be asked for a receipt. -/
theorem notFound_law_iff :
    (Answer.error ⟨-32601, "method not found"⟩).Law
        ((NullableMethod.transactionReceipt (.zero 32)).read hexWords)
        ((NullableMethod.transactionReceipt (.zero 32)).get plainLibrary hexWords nodeClient
          (fun _ _ => 0) (envelopeServer notFoundFields)) ↔
      Answer.error ⟨-32601, "method not found"⟩ ≠ .result .null :=
  nullable_law_iff plainLibrary hexWords nodeClient _ _ _ _ (notFound_inEnvelope.givenBy _ _)

/-- A node without the block and the receipt: their requests fail. -/
theorem null_law_fails :
    ¬ ∀ (server : Server) (method : NullableMethod) (answer : Answer),
      answer.GivenBy nodeClient.retry.maxRetries (server · method.request) →
        answer.Law (method.read hexWords)
          (method.get plainLibrary hexWords nodeClient (fun _ _ => 0) server) := by
  intro hall
  have henvelope : (Answer.result .null).InEnvelope
      [("jsonrpc", .string "2.0"), ("id", .integer 1), ("result", .null)] := ⟨rfl, Or.inl rfl⟩
  have hlaw := hall _ (.blockByNumber 9 true) _ (henvelope.givenBy _ _)
  exact NullableMethod.get_ne_none _ (hlaw.1 rfl)

end ChainLens
