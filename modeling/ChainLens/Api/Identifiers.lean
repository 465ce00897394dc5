import ChainLens.Api.Lookup
import ChainLens.Intelligence.Export
import ChainLens.Intelligence.Relationships

/-!
# The identifiers of the API

Hashes and addresses travel as hex texts. The core handlers write them without a prefix and read
them without one. The handlers of the intelligence layer write the prefix and read a text with or
without it. What one of these returns is therefore rejected by the core handlers.

## Main definitions

* `Api.Field`, `Api.Returns`: the fields of the responses that hold an identifier
* `Api.Reader`, `Api.Reader.resolve`: the endpoints that take one, and the bytes they take it for

## Main results

* `Api.resolve_returned_iff`: which endpoints take what a response returned for the same bytes
-/

namespace ChainLens

namespace Api

/-! ## Reading identifiers -/

/-- The endpoints that take an identifier. -/
inductive Reader where
  | getTransaction
  | getAddressTransactions
  | getContractEvents
  | explainTransaction
  | analyzeAddress
  | buildGraph

namespace Reader

/-- The handlers that decode with `from_hex`. -/
def Core : Reader → Prop
  | getTransaction | getAddressTransactions | getContractEvents => True
  | explainTransaction | analyzeAddress | buildGraph => False

/-- The bytes an endpoint takes a text for, unless it rejects the text. -/
def resolve (reader : Reader) (text : String) : Option Bytes :=
  match reader with
  | getTransaction | getAddressTransactions | getContractEvents => fromHex text
  | explainTransaction | analyzeAddress | buildGraph => hexDecodeTrimmed text

end Reader

/-! ## Returning identifiers -/

/-- An identifier is written without a prefix, as the request wrote it, or with the prefix. -/
inductive Style where
  | plain
  | echo
  | prefixed

/-- The fields of the responses that hold an identifier. -/
inductive Field where
  | blockMiner
  | transactionHash
  | transactionFrom
  | transactionTo
  | historyHash
  | eventHash
  | eventAddress
  | explainedHash
  | explainedFrom
  | explainedTo
  | explainedContract
  | actionAddress
  | analyzedAddress
  | graphCenter
  | graphNode
  | graphEdge
  | exportHash
  | exportFrom
  | exportTo

namespace Field

/-- How a field writes its identifier. -/
def style : Field → Style
  | blockMiner | transactionHash | transactionFrom | transactionTo | historyHash | eventHash
  | eventAddress => .plain
  | explainedHash | analyzedAddress | graphCenter => .echo
  | explainedFrom | explainedTo | explainedContract | actionAddress | graphNode | graphEdge
  | exportHash | exportFrom | exportTo => .prefixed

/-- The text has the prefix: always, or if the request had it. -/
def Prefixed (field : Field) (path : String) : Prop :=
  match field.style with
  | .plain => False
  | .echo => ['0', 'x'] <+: path.toList
  | .prefixed => True

end Field

/-- The addresses of an action. -/
def actionAddresses (action : TransactionAction) : List String :=
  action.fromAddr :: [action.toAddr, action.tokenAddress, action.spender].filterMap id

/-- A response to a request with this path parameter has, in a field, a text for these bytes: those
of the stored row it was made from, or those it is decoded to when it is persisted. The lookup of a
block and the analysis of an address fail before they reply, so their fields are those of the
records they are to reply. -/
inductive Returns (setup : Setup) (db : Db) : Field → String → String → Bytes → Prop where
  -- The core handlers answer from stored rows.
  | blockMiner {path : String} {row : BlockRow} (h : selectBlock path db = some row) :
      Returns setup db .blockMiner path (blockResponse setup row).miner row.miner
  | transactionHash {path : String} {row : TransactionRow} (hrow : row ∈ db.transactions)
      (h : getTransaction path (.ok db) = .ok (transactionResponse row)) :
      Returns setup db .transactionHash path (transactionResponse row).hash row.hash
  | transactionFrom {path : String} {row : TransactionRow} (hrow : row ∈ db.transactions)
      (h : getTransaction path (.ok db) = .ok (transactionResponse row)) :
      Returns setup db .transactionFrom path (transactionResponse row).fromAddr row.fromAddr
  | transactionTo {path text : String} {row : TransactionRow} {bytes : Bytes}
      (hrow : row ∈ db.transactions)
      (h : getTransaction path (.ok db) = .ok (transactionResponse row))
      (hto : row.toAddr = some bytes) (htext : (transactionResponse row).toAddr = some text) :
      Returns setup db .transactionTo path text bytes
  | historyHash {path : String} {query : AddressQuery} {row : AddressTransactionRow}
      {page : List AddressTransactionResponse} (hrow : row ∈ db.addressTransactions)
      (h : GetAddressTransactions db path query (.ok page))
      (hmem : addressTransactionResponse row ∈ page) :
      Returns setup db .historyHash path (addressTransactionResponse row).txHash row.txHash
  | eventHash {path : String} {query : EventQuery} {row : LogRow} {page : List LogResponse}
      (hrow : row ∈ db.logs) (h : GetContractEvents db path query (.ok page))
      (hmem : logResponse row ∈ page) :
      Returns setup db .eventHash path (logResponse row).txHash row.txHash
  | eventAddress {path : String} {query : EventQuery} {row : LogRow} {page : List LogResponse}
      (hrow : row ∈ db.logs) (h : GetContractEvents db path query (.ok page))
      (hmem : logResponse row ∈ page) :
      Returns setup db .eventAddress path (logResponse row).address row.address
  -- An explanation has texts of its transaction, its logs and its calldata.
  | explainedHash {path : String} {now : ℕ} {e : ExplainedTransaction} {pool : PgPool}
      {tx : TransactionRow} (htx : tx ∈ db.transactions)
      (hpath : hexDecodeTrimmed path = some tx.hash)
      (h : (explainTransaction setup path).runOn ⟨db, [], now⟩ = (.ok e, pool)) :
      Returns setup db .explainedHash path e.txHash tx.hash
  | explainedFrom {path : String} {now : ℕ} {e : ExplainedTransaction} {pool : PgPool}
      {tx : TransactionRow} (htx : tx ∈ db.transactions)
      (hpath : hexDecodeTrimmed path = some tx.hash)
      (h : (explainTransaction setup path).runOn ⟨db, [], now⟩ = (.ok e, pool)) :
      Returns setup db .explainedFrom path e.fromAddr tx.fromAddr
  | explainedTo {path text : String} {now : ℕ} {e : ExplainedTransaction} {pool : PgPool}
      {tx : TransactionRow} {bytes : Bytes} (htx : tx ∈ db.transactions)
      (hpath : hexDecodeTrimmed path = some tx.hash)
      (h : (explainTransaction setup path).runOn ⟨db, [], now⟩ = (.ok e, pool))
      (hto : tx.toAddr = some bytes) (htext : e.toAddr = some text) :
      Returns setup db .explainedTo path text bytes
  | explainedContract {path text : String} {now : ℕ} {e : ExplainedTransaction} {pool : PgPool}
      {bytes : Bytes} (h : (explainTransaction setup path).runOn ⟨db, [], now⟩ = (.ok e, pool))
      (htext : text ∈ e.contractsInvolved) (hbytes : hexDecodeTrimmed text = some bytes) :
      Returns setup db .explainedContract path text bytes
  | actionAddress {path text : String} {now : ℕ} {e : ExplainedTransaction} {pool : PgPool}
      {action : TransactionAction} {bytes : Bytes}
      (h : (explainTransaction setup path).runOn ⟨db, [], now⟩ = (.ok e, pool))
      (haction : action ∈ e.actions) (htext : text ∈ actionAddresses action)
      (hbytes : hexDecodeTrimmed text = some bytes) :
      Returns setup db .actionAddress path text bytes
  -- An analysis repeats the path parameter, and so does a graph for its center.
  | analyzedAddress {path : String} {bytes : Bytes} (hpath : hexDecodeTrimmed path = some bytes)
      (found : AddressFindings) :
      Returns setup db .analyzedAddress path (found.intelligence path).address bytes
  | graphCenter {path : String} {store : GraphStore} {depth limit : ℕ} {graph : AddressGraph}
      {bytes : Bytes} (hstore : store.Answers setup db)
      (hpath : hexDecodeTrimmed path = some bytes)
      (h : buildGraph store.queries depth limit path (limit + 2) = some (.ok graph)) :
      Returns setup db .graphCenter path graph.center bytes
  | graphNode {path : String} {store : GraphStore} {depth limit : ℕ} {graph : AddressGraph}
      {node : GraphNode} {bytes : Bytes} (hstore : store.Answers setup db)
      (h : buildGraph store.queries depth limit path (limit + 2) = some (.ok graph))
      (hnode : node ∈ graph.nodes) (hbytes : hexDecodeTrimmed node.address = some bytes) :
      Returns setup db .graphNode path node.address bytes
  | graphEdge {path text : String} {store : GraphStore} {depth limit : ℕ} {graph : AddressGraph}
      {edge : GraphEdge} {bytes : Bytes} (hstore : store.Answers setup db)
      (h : buildGraph store.queries depth limit path (limit + 2) = some (.ok graph))
      (hedge : edge ∈ graph.edges) (htext : text = edge.fromAddr ∨ text = edge.toAddr)
      (hbytes : hexDecodeTrimmed text = some bytes) :
      Returns setup db .graphEdge path text bytes
  | exportHash {path : String} {limit : Int} {rows : List ExportRow} {source : ExportSource}
      (hsource : source.tx ∈ db.transactions)
      (h : ExportAddressTransactions setup db path limit (.ok rows))
      (hmem : exportRow setup source ∈ rows) :
      Returns setup db .exportHash path (exportRow setup source).txHash source.tx.hash
  | exportFrom {path : String} {limit : Int} {rows : List ExportRow} {source : ExportSource}
      (hsource : source.tx ∈ db.transactions)
      (h : ExportAddressTransactions setup db path limit (.ok rows))
      (hmem : exportRow setup source ∈ rows) :
      Returns setup db .exportFrom path (exportRow setup source).fromAddr source.tx.fromAddr
  | exportTo {path text : String} {limit : Int} {rows : List ExportRow} {source : ExportSource}
      {bytes : Bytes} (hsource : source.tx ∈ db.transactions)
      (h : ExportAddressTransactions setup db path limit (.ok rows))
      (hmem : exportRow setup source ∈ rows) (hto : source.tx.toAddr = some bytes)
      (htext : (exportRow setup source).toAddr = some text) :
      Returns setup db .exportTo path text bytes

/-! ## How the fields are written -/

section Explained

variable {setup : Setup} {db : Db} {path : String} {now : ℕ} {e : ExplainedTransaction}
  {pool : PgPool}

/-- The identifiers of an explanation are those of the stored transaction. -/
theorem explained_identifiers
    (h : (explainTransaction setup path).runOn ⟨db, [], now⟩ = (.ok e, pool)) :
    ∃ hash tx timestamp, hexDecodeTrimmed path = some hash ∧
      selectTransaction setup hash db = some (tx, timestamp) ∧ e.txHash = path ∧
      e.fromAddr = hexText tx.fromAddr ∧ e.toAddr = tx.toAddr.map hexText ∧
      transactionActions tx.context = .ok e.actions ∧
      e.contractsInvolved = contractsInvolved (selectLogAddresses tx.blockNumber hash db) := by
  unfold explainTransaction at h
  -- The path parameter is decoded, and the row with this hash is read.
  obtain ⟨hash, pool₀, hparameter, h⟩ := Session.runOn_bind_ok h
  rw [Session.hexParameter, Session.runOn_lift] at hparameter
  have hpath : hexDecodeTrimmed path = some hash := by
    cases hdecode : hexDecodeTrimmed path with
    | none =>
      rw [hdecode] at hparameter
      cases hparameter
    | some bytes =>
      rw [hdecode] at hparameter
      exact congrArg some (Except.ok.inj (congrArg Prod.fst hparameter))
  obtain rfl := congrArg Prod.snd hparameter
  obtain ⟨found, pool₁, hquery, h⟩ := Session.runOn_bind_ok h
  rw [Session.runOn_query] at hquery
  cases hquery
  obtain ⟨⟨tx, timestamp⟩, pool₂, hrow, h⟩ := Session.runOn_bind_ok h
  rw [Session.runOn_lift] at hrow
  obtain rfl := congrArg Prod.snd hrow
  -- All but the contracts, which are those of its logs, is computed from the row.
  obtain ⟨fee, pool₃, hfee, h⟩ := Session.runOn_bind_ok h
  rw [Session.runOn_lift] at hfee
  obtain rfl := congrArg Prod.snd hfee
  obtain ⟨actions, pool₄, hactions, h⟩ := Session.runOn_bind_ok h
  rw [Session.runOn_lift] at hactions
  obtain rfl := congrArg Prod.snd hactions
  obtain ⟨addresses, pool₅, hlogs, h⟩ := Session.runOn_bind_ok h
  rw [Session.runOn_query] at hlogs
  cases hlogs
  obtain ⟨summary, pool₆, -, h⟩ := Session.runOn_bind_ok h
  cases h
  refine ⟨hash, tx, timestamp, hpath, ?_, rfl, rfl, rfl, congrArg Prod.fst hactions, rfl⟩
  split at hrow
  next found => exact found.trans (congrArg some (Except.ok.inj (congrArg Prod.fst hrow)))
  next => cases hrow

/-- The row that is explained is the one with the decoded hash. -/
theorem explained_row (hdb : db.Valid)
    (h : (explainTransaction setup path).runOn ⟨db, [], now⟩ = (.ok e, pool))
    {tx : TransactionRow} (htx : tx ∈ db.transactions)
    (hpath : hexDecodeTrimmed path = some tx.hash) :
    e.txHash = path ∧ e.fromAddr = hexText tx.fromAddr ∧ e.toAddr = tx.toAddr.map hexText := by
  obtain ⟨hash, tx', timestamp, hdecode, hfound, htxHash, hfrom, hto, -, -⟩ :=
    explained_identifiers h
  rw [hpath] at hdecode
  cases hdecode
  obtain ⟨hmem, hhash⟩ := selectTransaction_mem hfound
  obtain rfl := List.inj_on_of_nodup_map hdb.transactions_hash hmem htx hhash
  exact ⟨htxHash, hfrom, hto⟩

end Explained

/-- The contracts are texts of byte strings. -/
theorem contractsInvolved_isHex (addresses : List Bytes) :
    ∀ text ∈ contractsInvolved addresses, IsHexText text := by
  have hfold : ∀ (texts seen : List String), (∀ text ∈ texts, IsHexText text) →
      (∀ text ∈ seen, IsHexText text) →
      ∀ text ∈ texts.foldl (fun seen address =>
        if address ∈ seen then seen else seen ++ [address]) seen, IsHexText text := by
    -- The loop only keeps texts it is given.
    intro texts
    induction texts with
    | nil => exact fun seen _ hseen => hseen
    | cons t texts ih =>
      intro seen htexts hseen
      obtain ⟨ht, htexts⟩ := List.forall_mem_cons.mp htexts
      rw [List.foldl_cons]
      refine ih _ htexts ?_
      split
      · exact hseen
      · simpa [List.forall_mem_append, or_imp, forall_and] using ⟨hseen, ht⟩
  refine hfold _ [] (fun text htext => ?_) (List.forall_mem_nil _)
  obtain ⟨address, -, rfl⟩ := List.mem_map.mp htext
  exact ⟨address, rfl⟩

theorem actionAddresses_isHex {action : TransactionAction} (h : action.Decodable) :
    ∀ text ∈ actionAddresses action, IsHexText text := by
  intro text htext
  simp only [actionAddresses, List.mem_cons, List.mem_filterMap, id_eq, exists_eq_right,
    List.not_mem_nil, or_false] at htext
  rcases htext with rfl | htext | htext | htext
  · exact h.fromAddr
  · exact h.toAddr text htext.symm
  · exact h.tokenAddress text htext.symm
  · exact h.spender text htext.symm

/-- A text of some byte string is the text of the bytes it is decoded to. -/
theorem eq_hexText_of_decode {text : String} {bytes : Bytes} (h : IsHexText text)
    (hbytes : hexDecodeTrimmed text = some bytes) : text = hexText bytes := by
  obtain ⟨bs, rfl⟩ := h
  rw [hexDecodeTrimmed_hexText] at hbytes
  rw [Option.some.inj hbytes]

section Graph

variable {store : GraphStore} {path : String} {depth limit : ℕ} {graph : AddressGraph}

/-- A graph is only made around the address of the request. -/
theorem buildGraph_center {queries : GraphQueries} {fuel : ℕ}
    (h : buildGraph queries depth limit path fuel = some (.ok graph)) :
    graph.center = path ∧ ∃ bytes, hexDecodeTrimmed path = some bytes := by
  unfold buildGraph at h
  split at h
  · cases h
  next bytes hdecode =>
    obtain ⟨r, -, hr⟩ := Option.map_eq_some_iff.mp h
    cases r with
    | error e => cases hr
    | ok s =>
      cases hr
      exact ⟨rfl, bytes, hdecode⟩

theorem graphNode_isHex (h : buildGraph store.queries depth limit path (limit + 2) =
      some (.ok graph)) {node : GraphNode} (hnode : node ∈ graph.nodes) :
    IsHexText node.address := by
  obtain ⟨-, center, hcenter⟩ := buildGraph_center h
  obtain ⟨graph', hgraph', hball⟩ := buildGraph_ball store hcenter depth limit (le_refl _)
  rw [h] at hgraph'
  cases hgraph'
  have hmem : node.address ∈ graph.nodes.map (·.address) := List.mem_map_of_mem hnode
  rw [hball.nodes_eq] at hmem
  obtain ⟨address, -, haddress⟩ := List.mem_map.mp hmem
  exact ⟨address, haddress.symm⟩

theorem graphEdge_isHex (h : buildGraph store.queries depth limit path (limit + 2) =
      some (.ok graph)) {edge : GraphEdge} (hedge : edge ∈ graph.edges) :
    IsHexText edge.fromAddr ∧ IsHexText edge.toAddr := by
  obtain ⟨-, center, hcenter⟩ := buildGraph_center h
  obtain ⟨graph', hgraph', hedges⟩ := buildGraph_edges store hcenter depth limit (le_refl _)
  rw [h] at hgraph'
  cases hgraph'
  rw [hedges] at hedge
  obtain ⟨a, -, hedge⟩ := List.mem_flatMap.mp hedge
  rcases GraphStore.mem_edgesOf.mp hedge with ⟨row, -, rfl⟩ | ⟨row, -, rfl⟩ | ⟨row, -, rfl⟩
  · exact ⟨⟨a, rfl⟩, ⟨row.address, rfl⟩⟩
  · exact ⟨⟨row.address, rfl⟩, ⟨a, rfl⟩⟩
  · exact ⟨⟨a, rfl⟩, ⟨row.address, rfl⟩⟩

end Graph

/-- A text for these bytes in a style, in the response to a request with this path parameter. -/
def Style.Writes (style : Style) (path text : String) (bytes : Bytes) : Prop :=
  match style with
  | plain => text = toHex bytes
  | echo => text = path ∧ hexDecodeTrimmed path = some bytes
  | prefixed => text = hexText bytes

variable {setup : Setup} {db : Db} {field : Field} {path text : String} {bytes : Bytes}

/-- **Every field is written in its style.** -/
theorem returns_writes (hdb : db.Valid) (h : Returns setup db field path text bytes) :
    field.style.Writes path text bytes := by
  cases h with
  | blockMiner | transactionHash | transactionFrom | historyHash | eventHash | eventAddress => rfl
  | exportHash | exportFrom => rfl
  | transactionTo _ _ hto htext =>
    rw [transactionResponse, hto] at htext
    exact (Option.some.inj htext).symm
  | exportTo _ _ _ hto htext =>
    rw [exportRow, hto] at htext
    exact (Option.some.inj htext).symm
  | explainedHash htx hpath h => exact ⟨(explained_row hdb h htx hpath).1, hpath⟩
  | explainedFrom htx hpath h => exact (explained_row hdb h htx hpath).2.1
  | explainedTo htx hpath h hto htext =>
    rw [(explained_row hdb h htx hpath).2.2, hto] at htext
    exact (Option.some.inj htext).symm
  | explainedContract h htext hbytes =>
    obtain ⟨hash, tx, timestamp, -, -, -, -, -, -, hcontracts⟩ := explained_identifiers h
    rw [hcontracts] at htext
    exact eq_hexText_of_decode (contractsInvolved_isHex _ text htext) hbytes
  | actionAddress h haction htext hbytes =>
    obtain ⟨hash, tx, timestamp, -, -, -, -, -, hactions, -⟩ := explained_identifiers h
    have hdecodable := transactionActions_hex tx.context_isHex hactions _ haction
    exact eq_hexText_of_decode (actionAddresses_isHex hdecodable text htext) hbytes
  | analyzedAddress hpath found => exact ⟨rfl, hpath⟩
  | graphCenter _ hpath h => exact ⟨(buildGraph_center h).1, hpath⟩
  | graphNode _ h hnode hbytes => exact eq_hexText_of_decode (graphNode_isHex h hnode) hbytes
  | graphEdge hstore h hedge htext hbytes =>
    obtain ⟨hfrom, hto⟩ := graphEdge_isHex h hedge
    rcases htext with rfl | rfl
    · exact eq_hexText_of_decode hfrom hbytes
    · exact eq_hexText_of_decode hto hbytes

/-! ## Which endpoints take what is returned -/

@[simp] theorem fromHex_toHex (bytes : Bytes) : fromHex (toHex bytes) = some bytes :=
  hexDecode_hexEncode bytes

@[simp] theorem hexDecodeTrimmed_toHex (bytes : Bytes) :
    hexDecodeTrimmed (toHex bytes) = some bytes := by
  rw [hexDecodeTrimmed, toHex, trimStart0x_hexEncode, hexDecode_hexEncode]

/-- No digit is an `x`. -/
theorem fromHex_of_prefixed (h : ['0', 'x'] <+: text.toList) : fromHex text = none := by
  obtain ⟨rest, hrest⟩ := h
  rw [fromHex, ← hrest]
  rfl

/-- Without a prefix there is nothing to trim. -/
theorem fromHex_of_unprefixed (h : ¬ ['0', 'x'] <+: text.toList) :
    fromHex text = hexDecodeTrimmed text := by
  rw [fromHex, hexDecodeTrimmed]
  unfold trimStart0x
  split
  next rest heq => exact absurd ⟨rest, heq.symm⟩ h
  next => rfl

theorem hexText_prefixed (bytes : Bytes) : ['0', 'x'] <+: (hexText bytes).toList := by
  rw [hexText, String.toList_append]
  exact List.prefix_append _ _

/-- **The core handlers reject a text with the prefix**, whatever is stored. -/
theorem core_rejects_prefixed (h : ['0', 'x'] <+: text.toList) :
    getTransaction text (.ok db) = .error (.error .badRequest) ∧
      (∀ query reply, GetAddressTransactions db text query reply → reply = .error .badRequest) ∧
      ∀ query reply, GetContractEvents db text query reply → reply = .error .badRequest := by
  have hnone := fromHex_of_prefixed h
  refine ⟨?_, fun query reply hreply => ?_, fun query reply hreply => ?_⟩
  · simp only [getTransaction, hnone]
  · cases hreply with
    | invalidHex => rfl
    | page hsome | failed hsome =>
      rw [hnone] at hsome
      cases hsome
  · cases hreply with
    | invalidHex | invalidTopic => rfl
    | page hsome | failed hsome =>
      rw [hnone] at hsome
      cases hsome

/-- The handlers of the intelligence layer decode every style. -/
theorem Style.Writes.hexDecodeTrimmed {style : Style} (h : style.Writes path text bytes) :
    hexDecodeTrimmed text = some bytes := by
  cases style with
  | plain =>
    obtain rfl : text = toHex bytes := h
    exact hexDecodeTrimmed_toHex bytes
  | echo =>
    obtain ⟨rfl, hpath⟩ := h
    exact hpath
  | prefixed =>
    obtain rfl : text = hexText bytes := h
    exact hexDecodeTrimmed_hexText bytes

/-- The core handlers decode a text without the prefix. -/
theorem Style.Writes.fromHex_iff (h : field.style.Writes path text bytes) :
    fromHex text = some bytes ↔ ¬ field.Prefixed path := by
  unfold Field.Prefixed
  generalize field.style = style at h
  cases style with
  | plain =>
    obtain rfl : text = toHex bytes := h
    simp
  | echo =>
    obtain ⟨rfl, hpath⟩ := h
    by_cases hprefixed : ['0', 'x'] <+: text.toList
    · simp [hprefixed, fromHex_of_prefixed hprefixed]
    · simp [hprefixed, fromHex_of_unprefixed hprefixed, hpath]
  | prefixed =>
    obtain rfl : text = hexText bytes := h
    simp [fromHex_of_prefixed (hexText_prefixed bytes)]

/-- **Which endpoints take what a response returned for the same bytes**: all of them, but for the
core handlers and a text with the prefix. -/
theorem resolve_returned_iff (hdb : db.Valid) (h : Returns setup db field path text bytes)
    (reader : Reader) :
    reader.resolve text = some bytes ↔ ¬ (reader.Core ∧ field.Prefixed path) := by
  have hwrites := returns_writes hdb h
  have hcore : fromHex text = some bytes ↔ ¬ field.Prefixed path :=
    hwrites.fromHex_iff
  have hintelligence : hexDecodeTrimmed text = some bytes := hwrites.hexDecodeTrimmed
  cases reader with
  | getTransaction | getAddressTransactions | getContractEvents =>
    exact hcore.trans (by simp [Reader.Core])
  | explainTransaction | analyzeAddress | buildGraph =>
    exact iff_of_true hintelligence (by simp [Reader.Core])

open Export in
theorem transferPool_valid : transferPool.db.Valid := by
  obtain ⟨moves, hrun⟩ := run_commit
  exact (sound_run hrun).valid

open Export in
/-- The hash in a response of `get_transaction` can be explained. -/
theorem transfer_explainable :
    Reader.explainTransaction.resolve (transactionResponse transferRow).hash =
      some transferRow.hash := by
  have hmem : transferRow ∈ transferPool.db.transactions := by
    simp [transferPool_transactions]
  have hreply : getTransaction (toHex transferRow.hash) (.ok transferPool.db) =
      .ok (transactionResponse transferRow) :=
    getTransaction_of_mem transferPool_valid hmem (fromHex_toHex _)
  have hreturns := @Returns.transactionHash Reprocess.plainSetup _ _ _ hmem hreply
  apply (resolve_returned_iff transferPool_valid hreturns .explainTransaction).mpr
  exact fun h => h.1

open Export in
/-- The text of the sender in an explanation is rejected as an address. -/
theorem transfer_sender_rejected : ∃ path sender,
    Returns Reprocess.plainSetup transferPool.db .explainedFrom path sender
      transferRow.fromAddr ∧
    ∀ query reply, GetAddressTransactions transferPool.db sender query reply →
      reply = .error .badRequest := by
  have hmem : transferRow ∈ transferPool.db.transactions := by
    simp [transferPool_transactions]
  have hpath : hexDecodeTrimmed (hexText transferRow.hash) = some transferRow.hash :=
    hexDecodeTrimmed_hexText _
  obtain ⟨timestamp, hfound⟩ := @selectTransaction_of_mem Reprocess.plainSetup _ _
    transferPool_valid hmem
  obtain ⟨e, hrun, -⟩ := explainTransaction_runOn hfound hpath transferRow_recorded 0
  obtain ⟨-, hfrom, -⟩ := explained_row transferPool_valid hrun hmem hpath
  refine ⟨_, e.fromAddr, .explainedFrom hmem hpath hrun, ?_⟩
  rw [hfrom]
  exact (core_rejects_prefixed (hexText_prefixed _)).2.1

end Api

end ChainLens
