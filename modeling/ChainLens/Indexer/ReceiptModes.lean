import ChainLens.Indexer.OverNodes

/-!
# Two ways to the receipts

A client asks for the receipts of a block in one request, or for each of them by the hash of its
transaction, whichever it found out to work when it was made. A node that has one receipt for each
transaction answers both alike. Requests fail one by one, and a block without transactions needs
none the second way, but whatever the service reaches the one way it reaches the other way as well.

## Main definitions

* `Node.Paired`: the receipts of a node are those of its transactions
* `Node.receiptServer`: a server that answers for receipts at once
* `Indexer.Event.By`: events over paired nodes, with receipts fetched in a given way

## Main results

* `Node.Paired.fetchReceipts`, `Node.Paired.server_fetchReceipts`: what is fetched, either way
* `commitBlock_receipts`: what a call needs the receipts for
* `Indexer.exists_step_by`: a step of the one way is a step of the other
* `Service.reaches_either_way`: both ways reach the same states
-/

namespace ChainLens

open Transition

/-! ## Receipts of transactions -/

/-- The receipts of a block are those of its transactions, in their order, and the chain has one
receipt for a hash. -/
structure Node.Paired (node : Node) : Prop where
  hashes : ∀ n ≤ node.head,
    (node.receipts n).map (·.transactionHash) = (node.block n).transactions.map (·.hash)
  unique : ∀ r r', node.Has r → node.Has r' → r.transactionHash = r'.transactionHash → r = r'

/-- The server, with receipts that are answered at once. -/
def Node.receiptServer (node : Node) (server : Server) : Server := fun attempt request =>
  if request.method = "eth_getBlockByNumber" then server attempt request
  else node.server attempt request

namespace Node

open HttpRpcClient

variable {node : Node} {lib : HttpLibrary} {words : Words} {client : HttpRpcClient}
  {genRange : ℕ → ℕ → ℕ} {server : Server} {supports : Bool} {n : ℕ}
  {receipts : List ReceiptResponse}

theorem AnsweredBy.receiptServer (h : node.AnsweredBy server) :
    node.AnsweredBy (node.receiptServer server) where
  block n full := h.block n full
  tag tag full := h.tag tag full
  blockReceipts n := node.answeredBy_server.blockReceipts n
  transactionReceipt hash := node.answeredBy_server.transactionReceipt hash

/-- A receipt that is asked for by the hash of a transaction. -/
theorem Paired.server_getTransactionReceipt (hnode : node.Paired) {r : NodeReceipt}
    (hr : node.Has r) :
    client.getTransactionReceipt lib words genRange node.server r.transactionHash =
      .ok (some r.response) := by
  have hfound : node.receiptOf (hexText r.transactionHash.bytes) = some r := by
    obtain ⟨n, hn, hmem⟩ := hr
    refine Table.find?_eq_some_of_unique ?_ (decide_eq_true rfl) fun r' hr' hhash => ?_
    · exact List.mem_flatMap.mpr ⟨n, List.mem_range.mpr (Nat.lt_succ_of_le hn), hmem⟩
    · obtain ⟨m, hm, hmem'⟩ := List.mem_flatMap.mp hr'
      have hsame := hexText_inj.mp (of_decide_eq_true hhash)
      exact hnode.unique r' r ⟨m, Nat.le_of_lt_succ (List.mem_range.mp hm), hmem'⟩
        ⟨n, hn, hmem⟩ (FixedBytes.ext hsame)
  have hcarries := carries_resultReply r.toJson
  have hreply : node.server 0 ⟨"eth_getTransactionReceipt", [hexData r.transactionHash.bytes]⟩ =
      resultReply r.toJson := by
    show resultReply (((node.receiptOf (hexText r.transactionHash.bytes)).map _).getD _) = _
    rw [hfound]
    rfl
  rw [← hreply] at hcarries
  refine (call_of_prompt hcarries).mpr ⟨?_, Json.nullable_some_iff.mpr ⟨?_, ?_⟩⟩
  · simp [NodeReceipt.toJson]
  · simp [NodeReceipt.toJson]
  · exact NodeReceipt.deserialize_toJson words r

/-- **Either way a server that answers at once** returns the receipts of the node. -/
theorem Paired.server_fetchReceipts (hnode : node.Paired) (hn : n ≤ node.head) :
    ChainLens.fetchReceipts
      (client.ethClient lib words genRange (node.receiptServer server) supports) n
      (node.block n).fullResponse = .ok ((node.receipts n).map NodeReceipt.response) := by
  cases supports with
  | true =>
    have hget : client.getBlockReceipts lib words genRange (node.receiptServer server) n =
        .ok ((node.receipts n).map NodeReceipt.response) := server_getBlockReceipts hn
    show (client.getBlockReceipts lib words genRange _ n).mapError PipelineError.rpc = _
    rw [hget]
    rfl
  | false =>
    have hhashes := List.forall₂_eq_eq_eq ▸ (hnode.hashes n hn).symm
    obtain ⟨hlength, hpairs⟩ := List.forall₂_iff_zip.mp
      (List.forall₂_map_left_iff.mp (List.forall₂_map_right_iff.mp hhashes))
    refine Except.mapM_eq_ok_iff.mpr ?_
    refine List.forall₂_map_left_iff.mpr (List.forall₂_map_right_iff.mpr ?_)
    refine List.forall₂_iff_zip.mpr ⟨hlength, fun {tx r} hmem => ?_⟩
    have hget : (client.ethClient lib words genRange (node.receiptServer server)
        false).getTransactionReceipt tx.response.hash = .ok (some r.response) := by
      show client.getTransactionReceipt lib words genRange node.server tx.hash = _
      rw [hpairs hmem]
      exact hnode.server_getTransactionReceipt ⟨n, hn, (List.of_mem_zip hmem).2⟩
    simp only [hget]

/-- **Either way the receipts of the node are fetched**, when they are. -/
theorem Paired.fetchReceipts (hnode : node.Paired) (h : node.AnsweredBy server)
    (hn : n ≤ node.head)
    (hfetch : ChainLens.fetchReceipts (client.ethClient lib words genRange server supports) n
      (node.block n).fullResponse = .ok receipts) :
    receipts = (node.receipts n).map NodeReceipt.response := by
  cases supports with
  | true =>
    change (client.getBlockReceipts lib words genRange server n).mapError PipelineError.rpc = _
      at hfetch
    cases hget : client.getBlockReceipts lib words genRange server n with
    | error e =>
      rw [hget] at hfetch
      cases hfetch
    | ok replies =>
      rw [hget] at hfetch
      obtain rfl := Except.ok.inj hfetch
      exact (h.getBlockReceipts hget).2
  | false =>
    -- A server that answers at once returns the same, one by one.
    have hserved := @Paired.server_fetchReceipts node lib words client genRange server false n
      hnode hn
    refine Except.ok.inj (Eq.trans ?_ hserved)
    refine (Except.mapM_eq_ok_iff.mpr ?_).symm
    refine (Except.mapM_eq_ok_iff.mp hfetch).imp fun tx receipt hreceipt => ?_
    split at hreceipt
    · cases hreceipt
    · cases hreceipt
    next receipt' hget =>
      obtain rfl := Except.ok.inj hreceipt
      obtain ⟨r, hhas, hhash, rfl⟩ := h.getTransactionReceipt hget
      have hserve : (client.ethClient lib words genRange (node.receiptServer server)
          false).getTransactionReceipt tx.hash = .ok (some r.response) :=
        hhash ▸ hnode.server_getTransactionReceipt hhas
      simp only [hserve]

end Node

/-! ## What a call needs the receipts for -/

section Call

variable {client client' : EthClient} {store : PostgresStore} {n maxDepth : ℕ}

theorem findAncestorFrom_congr (hget : client'.getBlockByNumber = client.getBlockByNumber)
    {start remaining depth : ℕ} :
    findAncestorFrom client' start maxDepth remaining depth store =
      findAncestorFrom client start maxDepth remaining depth store := by
  induction remaining generalizing depth store with
  | zero => rfl
  | succ remaining ih => simp only [findAncestorFrom, hget, ih]

/-- Detection needs no receipts. -/
theorem detect_congr (hget : client'.getBlockByNumber = client.getBlockByNumber)
    {parentHash : B256} :
    detect client' store n parentHash maxDepth = detect client store n parentHash maxDepth := by
  simp only [detect, findAncestor, findAncestorFrom_congr hget]

theorem commitBlock_congr (hget : client'.getBlockByNumber = client.getBlockByNumber)
    (hreceipts : ∀ block, client.getBlockByNumber n true = .ok (some block) →
      fetchReceipts client' n block = fetchReceipts client n block) :
    commitBlock client' store n maxDepth = commitBlock client store n maxDepth := by
  unfold commitBlock
  rw [hget]
  cases hblock : client.getBlockByNumber n true with
  | error e => rfl
  | ok found =>
    cases found with
    | none => rfl
    | some block => simp only [detect_congr hget, storeBlock, hreceipts block hblock]

/-- **What a call needs the receipts for**: without them it fails with the database as it was, or
it ends before it needs them. -/
theorem commitBlock_receipts {block : BlockResponse} {e : PipelineError}
    (hblock : client.getBlockByNumber n true = .ok (some block))
    (hfetch : fetchReceipts client n block = .error e) :
    ((∃ fault, (commitBlock client store n maxDepth).1 = .error (.error fault)) ∧
      (commitBlock client store n maxDepth).2.db = store.db) ∨
      ∀ client' : EthClient, client'.getBlockByNumber = client.getBlockByNumber →
        commitBlock client' store n maxDepth = commitBlock client store n maxDepth := by
  have hstore (store : PostgresStore) :
      storeBlock client store n block = (.error (.error e), store) := by
    simp only [storeBlock, hfetch]
  by_cases hpos : 0 < n
  · have hkeep : (detect client store n block.parentHash maxDepth).2.db = store.db := detect_db
    cases hdetect : detect client store n block.parentHash maxDepth with
    | mk result store' =>
      rw [hdetect] at hkeep
      cases result with
      | error e' =>
        refine Or.inl ?_
        simp only [commitBlock, hblock, if_pos hpos, hdetect]
        exact ⟨⟨_, rfl⟩, hkeep⟩
      | ok ancestor =>
        cases ancestor with
        | none =>
          refine Or.inl ?_
          simp only [commitBlock, hblock, if_pos hpos, hdetect, hstore]
          exact ⟨⟨_, rfl⟩, hkeep⟩
        -- A reorg is handled without the receipts.
        | some ancestor =>
          refine Or.inr fun client' hget => ?_
          simp only [commitBlock, hget, hblock, if_pos hpos, detect_congr hget, hdetect]
  · refine Or.inl ?_
    simp only [commitBlock, hblock, if_neg hpos, hstore]
    exact ⟨⟨_, rfl⟩, trivial⟩

end Call

/-! ## One step -/

/-- A server that no request gets through to. -/
def Server.down : Server := fun _ _ => .failed false "error sending request"

theorem Node.answeredBy_down (node : Node) : node.AnsweredBy Server.down where
  block _ _ _ := Or.inl (.failed _ _)
  tag _ _ _ := Or.inl (.failed _ _)
  blockReceipts _ _ := Or.inl (.failed _ _)
  transactionReceipt _ := ⟨.null, Or.inl rfl, fun _ => Or.inl (.failed _ _)⟩

/-- A block that is asked for in vain. -/
theorem HttpStack.down_getBlockByNumber (stack : HttpStack) (genRange : ℕ → ℕ → ℕ)
    (supports : Bool) (n : ℕ) (full : Bool) :
    ∃ e, (stack.ethClient genRange Server.down supports).getBlockByNumber n full = .error e := by
  let request : Request := ⟨"eth_getBlockByNumber", [.string (quantityText n), .bool full]⟩
  obtain ⟨k, hk⟩ := exists_ends stack.client.retry.maxRetries fun attempt =>
    Server.down attempt request
  obtain ⟨e, he⟩ := @executeOnce_of_fails _ stack.lib stack.client
    (Json.nullable (BlockResponse.deserialize stack.words)) _
    (.failed false "error sending request")
  exact ⟨e, (call_result hk).trans he⟩

namespace Indexer

/-- The calls fetch from paired nodes, and the receipts in the given way. -/
def Event.By (stack : HttpStack) (supports : Bool) : Event → Prop
  | .poll latest delivered => ∃ node, Event.Meets stack node (.poll latest delivered)
  | .commit client _ _ => ∃ (node : Node) (genRange : ℕ → ℕ → ℕ) (server : Server),
      node.Paired ∧ node.AnsweredBy server ∧ client = stack.ethClient genRange server supports
  | _ => True

section Step

variable {stack : HttpStack} {cfg : Config} {s t : State} {e : Event} {supports supports' : Bool}
  {client client' : EthClient} {db : Db} {fates : List Fate} {cursor n now : ℕ} {pending : List ℕ}

theorem step_commit_congr
    (hcommit : commitBlock client' ⟨db, fates, now⟩ n cfg.maxReorgDepth =
      commitBlock client ⟨db, fates, now⟩ n cfg.maxReorgDepth)
    (h : Step cfg ⟨db, .receiving cursor (n :: pending)⟩ (.commit client fates now) t) :
    Step cfg ⟨db, .receiving cursor (n :: pending)⟩ (.commit client' fates now) t := by
  simp only [Step, next, receive, hcommit]
  exact h

/-- A call that fails leaves the cursor, and the rest of the batch is to come. -/
theorem step_failed
    (hfault : ∃ fault,
      (commitBlock client ⟨db, fates, now⟩ n cfg.maxReorgDepth).1 = .error (.error fault))
    (hdb : (commitBlock client ⟨db, fates, now⟩ n cfg.maxReorgDepth).2.db = db) :
    Step cfg ⟨db, .receiving cursor (n :: pending)⟩ (.commit client fates now)
      ⟨db, .receiving cursor pending⟩ := by
  obtain ⟨fault, hfault⟩ := hfault
  cases hcommit : commitBlock client ⟨db, fates, now⟩ n cfg.maxReorgDepth with
  | mk result store =>
    rw [hcommit] at hfault hdb
    obtain rfl : result = .error (.error fault) := hfault
    obtain rfl : store.db = db := hdb
    simp only [Step, next, receive, hcommit]

/-- A call that fetches receipts the one way is matched by one that fetches them the other way,
with the same replies, or with a request that fails earlier. -/
theorem exists_commit_by {node : Node} {genRange : ℕ → ℕ → ℕ} {server : Server}
    (hpaired : node.Paired) (hanswered : node.AnsweredBy server)
    (h : Step cfg ⟨db, .receiving cursor (n :: pending)⟩
      (.commit (stack.ethClient genRange server supports) fates now) t) :
    ∃ e, Step cfg ⟨db, .receiving cursor (n :: pending)⟩ e t ∧ e.By stack supports' := by
  let client := stack.ethClient genRange server supports
  let client' := stack.ethClient genRange (node.receiptServer server) supports'
  have hget : client'.getBlockByNumber = client.getBlockByNumber := rfl
  have hby : (Event.commit client' fates now).By stack supports' :=
    ⟨node, genRange, _, hpaired, hanswered.receiptServer, rfl⟩
  by_cases hfails : ∃ block e, client.getBlockByNumber n true = .ok (some block) ∧
      fetchReceipts client n block = .error e
  · obtain ⟨block, e, hblock, hfetch⟩ := hfails
    rcases @commitBlock_receipts client ⟨db, fates, now⟩ n cfg.maxReorgDepth _ e hblock hfetch
      with ⟨hfault, hdb⟩ | hneeded
    · -- The other way the block may need no receipts, so that the block itself is not received.
      let down := stack.ethClient genRange Server.down supports'
      obtain ⟨e', hdown⟩ := stack.down_getBlockByNumber genRange supports' n true
      have hcommit : commitBlock down ⟨db, fates, now⟩ n cfg.maxReorgDepth =
          (.error (.error (.rpc e')), ⟨db, fates, now⟩) := by
        simp only [commitBlock, down, hdown]
      obtain rfl := Option.some.inj (h.symm.trans (step_failed hfault hdb))
      have hstep : Step cfg ⟨db, .receiving cursor (n :: pending)⟩ (.commit down fates now)
          ⟨db, .receiving cursor pending⟩ :=
        step_failed ⟨_, congrArg Prod.fst hcommit⟩ (by rw [hcommit])
      exact ⟨_, hstep, node, genRange, _, hpaired, node.answeredBy_down, rfl⟩
    · exact ⟨_, step_commit_congr (hneeded client' hget) h, hby⟩
  · -- The receipts of the one way are those of the other, since a paired node has one for each.
    refine ⟨_, step_commit_congr (commitBlock_congr hget fun block hblock => ?_) h, hby⟩
    obtain ⟨hle, -, rfl⟩ := hanswered.fullBlock hblock
    cases hfetch : fetchReceipts client n (node.block n).fullResponse with
    | error e => exact absurd ⟨_, e, hblock, hfetch⟩ hfails
    | ok receipts =>
      rw [hpaired.fetchReceipts hanswered hle hfetch]
      exact hpaired.server_fetchReceipts hle

/-- **A step of the one way is a step of the other.** -/
theorem exists_step_by (h : Step cfg s e t) (hby : e.By stack supports) :
    ∃ e', Step cfg s e' t ∧ e'.By stack supports' := by
  cases e with
  | start => exact ⟨_, h, trivial⟩
  | poll latest delivered => exact ⟨_, h, hby⟩
  | finish => exact ⟨_, h, trivial⟩
  | stop => exact ⟨_, h, trivial⟩
  | commit client fates now =>
    obtain ⟨db, process⟩ := s
    obtain ⟨node, genRange, server, hpaired, hanswered, rfl⟩ := hby
    cases process with
    | stopped => cases h
    | polling cursor => cases h
    | receiving cursor pending =>
      cases pending with
      | nil => cases h
      | cons n pending => exact exists_commit_by hpaired hanswered h

end Step

end Indexer

/-! ## Every run -/

namespace Service

variable {stack : HttpStack} {cfg : Config} {setup : Setup} {analyses : Analyses} {s : State}

/-- The loop fetches from paired nodes, and the receipts in the given way. -/
def Event.By (stack : HttpStack) (supports : Bool) : Event → Prop
  | .main e => e.By stack supports
  | _ => True

/-- **Both ways reach the same states**: what the service reaches with calls that fetch receipts in
one request or one by one, as the clients of its processes found out, it reaches with calls that
fetch them in the given way. -/
theorem reaches_either_way (supports : Bool) :
    (∃ moves, Run (Step cfg setup analyses) initial moves s ∧
      ∀ move ∈ moves, ∃ supports', move.event.By stack supports') ↔
    ∃ moves, Run (Step cfg setup analyses) initial moves s ∧
      ∀ move ∈ moves, move.event.By stack supports := by
  constructor
  · rintro ⟨moves, hrun, hby⟩
    let either (e : Event) : Prop := ∃ supports', e.By stack supports'
    refine @Run.relabel _ _ _ _ _ _ either (·.By stack supports) (fun s e t hstep he => ?_) hrun hby
    obtain ⟨supports', he⟩ := he
    cases hstep with
    | main hmain =>
      obtain ⟨e', hstep', hby'⟩ := Indexer.exists_step_by hmain he
      exact ⟨_, .main hstep', hby'⟩
    | arrive => exact ⟨_, .arrive, trivial⟩
    | advance hp hstep => exact ⟨_, .advance hp hstep, trivial⟩
    | abandon => exact ⟨_, .abandon, trivial⟩
  · rintro ⟨moves, hrun, hby⟩
    exact ⟨moves, hrun, fun move hmove => ⟨supports, hby move hmove⟩⟩

end Service

end ChainLens
