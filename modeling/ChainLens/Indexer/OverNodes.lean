import ChainLens.Api.Lookup
import ChainLens.Indexer.Scheduler
import ChainLens.Intelligence.Provenance
import ChainLens.Rpc.Client

/-!
# The service over nodes

The service reaches its nodes over HTTP, and may meet another node, or another chain, in every
move. During one call, with all its requests and attempts, a node is one fixed snapshot of a chain;
a node that follows its chain is another node in the next move. The service asks for the head, and
for the blocks among which it looks for a common ancestor, without their transactions, which it can
read only of blocks that have none. The blocks it stores it asks for with their transactions; what
is read of them lacks their types.

## Main definitions

* `HttpStack`, `fetchHead`: what a node is reached with, and its head
* `Node.Quiet`: the head of the node can be read
* `Indexer.Event.Meets`, `Indexer.Event.Over`: the node of an event, and events that have one
* `servedTransaction`: a transaction of a node, as the API returns it

## Main results

* `HttpStack.fetchHead_iff`: when the head is read
* `Service.polled_of_stored`: below which blocks blocks are stored
* `Service.reorgs_over_nodes`: where a rollback goes through
* `Service.transactions_over_nodes`: what the API returns
-/

namespace ChainLens

open Transition

/-! ## The head -/

/-- The tags are asked for one after the other. -/
def fetchHead (getBlockNumber : BlockTag → Except RpcError ℕ) : Except RpcError ChainHead := do
  let latest ← getBlockNumber .latest
  let safe ← getBlockNumber .safe
  let finalized ← getBlockNumber .finalized
  return { latest, safe, finalized }

/-- What a node is reached with. -/
structure HttpStack where
  lib : HttpLibrary
  words : Words
  client : HttpRpcClient

namespace HttpStack

variable (stack : HttpStack) (genRange : ℕ → ℕ → ℕ) (server : Server)

def ethClient (supportsBlockReceipts : Bool) : EthClient :=
  stack.client.ethClient stack.lib stack.words genRange server supportsBlockReceipts

def fetchHead : Except RpcError ChainHead :=
  ChainLens.fetchHead fun tag =>
    stack.client.getBlockNumber stack.lib stack.words genRange server tag

end HttpStack

/-- The blocks that the head is read from have no transactions, and fees of 64 bits. -/
def Node.Quiet (node : Node) : Prop :=
  ∀ tag ∈ [BlockTag.latest, .safe, .finalized],
    (node.block (node.height tag)).transactions = [] ∧ (node.block (node.height tag)).FeeFits

/-- The heights that the tags of a node name. -/
def Node.chainHead (node : Node) : ChainHead where
  latest := node.height .latest
  safe := node.height .safe
  finalized := node.height .finalized

theorem fetchHead_eq_ok_iff {getBlockNumber : BlockTag → Except RpcError ℕ} {head : ChainHead} :
    fetchHead getBlockNumber = .ok head ↔ getBlockNumber .latest = .ok head.latest ∧
      getBlockNumber .safe = .ok head.safe ∧ getBlockNumber .finalized = .ok head.finalized := by
  simp only [fetchHead, Except.bind_eq_ok_iff]
  constructor
  · rintro ⟨latest, hlatest, safe, hsafe, finalized, hfinalized, h⟩
    obtain rfl := Except.ok.inj h
    exact ⟨hlatest, hsafe, hfinalized⟩
  · rintro ⟨hlatest, hsafe, hfinalized⟩
    exact ⟨_, hlatest, _, hsafe, _, hfinalized, rfl⟩

section Head

variable {stack : HttpStack} {genRange : ℕ → ℕ → ℕ} {server : Server} {node : Node}
  {head : ChainHead}

/-- A head that is read is the node's, which is quiet. -/
theorem HttpStack.fetchHead_ok (h : node.AnsweredBy server)
    (hfetch : stack.fetchHead genRange server = .ok head) : node.Quiet ∧ head = node.chainHead := by
  obtain ⟨hlatest, hsafe, hfinalized⟩ := fetchHead_eq_ok_iff.mp hfetch
  obtain ⟨hlatest, hlatestQuiet⟩ := h.blockNumber hlatest
  obtain ⟨hsafe, hsafeQuiet⟩ := h.blockNumber hsafe
  obtain ⟨hfinalized, hfinalizedQuiet⟩ := h.blockNumber hfinalized
  obtain ⟨latest, safe, finalized⟩ := head
  dsimp only at *
  subst hlatest hsafe hfinalized
  exact ⟨by simp [Node.Quiet, *], rfl⟩

/-- **When the head is read**, of a node that answers at once. -/
theorem HttpStack.fetchHead_iff :
    stack.fetchHead genRange node.server = .ok head ↔ node.Quiet ∧ head = node.chainHead := by
  refine ⟨HttpStack.fetchHead_ok node.answeredBy_server, ?_⟩
  rintro ⟨hquiet, rfl⟩
  exact fetchHead_eq_ok_iff.mpr
    ⟨Node.server_blockNumber_iff.mpr ⟨rfl, hquiet _ (by simp)⟩,
      Node.server_blockNumber_iff.mpr ⟨rfl, hquiet _ (by simp)⟩,
      Node.server_blockNumber_iff.mpr ⟨rfl, hquiet _ (by simp)⟩⟩

end Head

/-! ## Events -/

namespace Indexer

/-- In the event the node is met: its head is polled, or blocks are fetched from it. -/
inductive Event.Meets (stack : HttpStack) (node : Node) : Event → Prop where
  | poll {genRange : ℕ → ℕ → ℕ} {server : Server} {head : ChainHead} (delivered : ℕ)
      (h : node.AnsweredBy server) (hfetch : stack.fetchHead genRange server = .ok head) :
      Meets stack node (.poll head.latest delivered)
  | commit {genRange : ℕ → ℕ → ℕ} {server : Server} (supports : Bool) (fates : List Fate)
      (now : ℕ) (h : node.AnsweredBy server) :
      Meets stack node (.commit (stack.ethClient genRange server supports) fates now)

/-- Some node is met in every poll and every call. -/
def Event.Over (stack : HttpStack) : Event → Prop
  | .poll latest delivered => ∃ node, Event.Meets stack node (.poll latest delivered)
  | .commit client fates now => ∃ node, Event.Meets stack node (.commit client fates now)
  | _ => True

section Step

variable {stack : HttpStack} {cfg : Config} {s t : State} {e : Event} {indexed : IndexedBlock}
  {client : EthClient} {store : PostgresStore} {n : ℕ}

/-- The node of a call. -/
theorem Calls.node (hcalls : Calls ⟨s, e, t⟩ client store n) (hover : e.Over stack) :
    ∃ node genRange server supports, e.Meets stack node ∧ node.AnsweredBy server ∧
      client = stack.ethClient genRange server supports := by
  cases hcalls
  obtain ⟨node, hmeets⟩ := hover
  generalize he : Event.commit _ _ _ = e at hmeets
  cases hmeets with
  | poll => cases he
  | commit supports fates now h =>
    cases he
    exact ⟨node, _, _, supports, .commit supports _ _ h, h, rfl⟩

/-- **A block that is stored** is on the chain of the node. -/
theorem Stores.node (hstores : Stores ⟨s, e, t⟩ indexed) (hover : e.Over stack) :
    ∃ node n receipts, e.Meets stack node ∧ n ≤ node.head ∧
      (∃ cursor pending, s.process = .receiving cursor (n :: pending)) ∧
      decodeBlock (node.block n).fullResponse receipts = .ok indexed ∧
      ∀ receipt ∈ receipts, ∃ r, node.Has r ∧ receipt = r.response := by
  cases hstores with
  | intro hcalls hblock hreceipts hdecode =>
    obtain ⟨node, genRange, server, supports, hmeets, hanswered, rfl⟩ := hcalls.node hover
    obtain ⟨hle, -, rfl⟩ := hanswered.fullBlock hblock
    refine ⟨node, _, _, hmeets, hle, ?_, hdecode, hanswered.fetchReceipts hreceipts⟩
    cases hcalls
    exact ⟨_, _, rfl⟩

/-- What a rollback needs: the client returned each block from the ancestor up to the block below
the incoming one. -/
theorem step_rollsBack (h : Step cfg s e t) :
    t.db = s.db ∨ (∃ indexed, Stores ⟨s, e, t⟩ indexed) ∨
      ∃ client store n a now, Calls ⟨s, e, t⟩ client store n ∧ a < n ∧
        (∀ m, a ≤ m → m < n → ∃ block, client.getBlockByNumber m false = .ok (some block)) ∧
        t.db = s.db.rollback (reorgEvent a n) now := by
  rcases next_db h with hsame | ⟨client, store, n, hcalls⟩
  · exact Or.inl hsame
  · obtain ⟨hbefore, hafter⟩ := hcalls.db h
    have hstep := @commitBlock_step client store n cfg.maxReorgDepth
    rw [← hafter] at hstep
    generalize (commitBlock client store n cfg.maxReorgDepth).1 = result at hstep
    generalize hdb : t.db = db at hstep
    cases hstep with
    | failed => exact Or.inl hbefore
    | @rolledBack _ a now _ hblock hunlinked hlow hhigh hstops hpasses =>
      have htwo := hunlinked.1
      refine Or.inr (Or.inr ⟨client, store, n, a, now, hcalls, by omega, fun m hm hmn => ?_, ?_⟩)
      · rcases Nat.lt_or_eq_of_le hm with hlt | rfl
        · obtain ⟨block, hget, -⟩ := hpasses m hlt (by omega)
          exact ⟨block, hget⟩
        · obtain ⟨block, hget, -⟩ := hstops
          exact ⟨block, hget⟩
      · rw [← hbefore]
    | committed hblock _ hreceipts hdecode hcommit =>
      exact Or.inr (Or.inl ⟨_, .intro hcalls hblock hreceipts hdecode (hdb ▸ hcommit)⟩)

/-- A number that is still to be committed was so before, or comes with a poll of the head. -/
theorem step_pending (h : Step cfg s e t) {cursor : ℕ} {pending : List ℕ}
    (hprocess : t.process = .receiving cursor pending) {n : ℕ} (hn : n ∈ pending) :
    (∃ cursor' pending', s.process = .receiving cursor' pending' ∧ n ∈ pending') ∨
      ∃ latest delivered, e = .poll latest delivered ∧ n ≤ latest := by
  obtain ⟨db, process⟩ := s
  unfold Step at h
  cases e with
  | start =>
    cases process <;> cases h
    cases hprocess
  | poll latest delivered =>
    cases process <;> cases h
    cases hprocess
    exact Or.inr ⟨latest, delivered, rfl, (cfg.mem_blocksToFetch (List.mem_of_mem_take hn)).2⟩
  | commit client fates now =>
    cases process with
    | stopped => cases h
    | polling cursor => cases h
    | receiving cursor' pending' =>
      cases pending' with
      | nil => cases h
      | cons m pending' =>
        obtain rfl := Option.some.inj h
        refine Or.inl ⟨cursor', m :: pending', rfl, List.mem_cons_of_mem m ?_⟩
        -- Unless the call ends the process or the batch, the rest of the numbers is kept.
        dsimp only [receive] at hprocess
        split at hprocess <;> cases hprocess
        · exact hn
        · exact hn
  | finish =>
    cases process with
    | stopped => cases h
    | polling cursor => cases h
    | receiving cursor' pending' =>
      cases pending' <;> cases h
      cases hprocess
  | stop =>
    cases h
    cases hprocess

/-- The numbers still to be committed, and the stored ones, lie within a bound. -/
structure Headed (bounded : ℕ → Prop) (s : State) : Prop where
  pending : ∀ cursor pending, s.process = .receiving cursor pending → ∀ n ∈ pending, bounded n
  blocks : ∀ row ∈ s.db.blocks, bounded row.number

theorem headed_step {bounded : ℕ → Prop} (hdown : ∀ m n, m ≤ n → bounded n → bounded m)
    (h : Step cfg s e t) (hover : e.Over stack) (hvalid : s.db.Valid)
    (hpoll : ∀ latest delivered, e = .poll latest delivered → bounded latest)
    (hs : Headed bounded s) : Headed bounded t where
  pending cursor pending hprocess n hn := by
    rcases step_pending h hprocess hn with ⟨cursor', pending', hbefore, hmem⟩ |
      ⟨latest, delivered, hevent, hle⟩
    · exact hs.pending cursor' pending' hbefore n hmem
    · exact hdown n latest hle (hpoll latest delivered hevent)
  blocks row hrow := by
    rcases step_changes h with hsame | ⟨indexed, hstores⟩ | ⟨event, now, hrollback⟩
    · exact hs.blocks row (hsame ▸ hrow)
    · obtain ⟨now, hdb⟩ := hstores.db h
      rw [Db.commitBlock_eq hdb] at hrow
      rcases Table.mem_of_mem_insertIfAbsent hrow with hold | rfl
      · exact hs.blocks row hold
      · obtain ⟨node, n, receipts, -, hle, ⟨cursor, pending, hprocess⟩, hdecode, -⟩ :=
          hstores.node hover
        have hnumber : indexed.block.number = n :=
          (decodeBlock_header hdecode).1.trans (node.number_eq n hle)
        have hbounded := hs.pending cursor _ hprocess n List.mem_cons_self
        -- What the column holds is the number, or less.
        refine hdown (saturate i64Max indexed.block.number) n ?_ hbounded
        rw [hnumber]
        unfold saturate
        split <;> omega
    · rw [hrollback, Db.rollback_blocks hvalid] at hrow
      exact hs.blocks row (List.mem_of_mem_filter hrow)

end Step

end Indexer

/-! ## Every run -/

/-- The heights from the ancestor of a recorded reorg up to below the block it was found at have
blocks without transactions on the node. -/
def Node.Walked (node : Node) (row : ReorgRow) : Prop :=
  ∃ a n, a < n ∧ row.commonAncestorNumber = saturate i64Max a ∧
    row.orphanedTo = saturate i64Max n ∧ ∀ m, a ≤ m → m < n →
      m ≤ node.head ∧ (node.block m).transactions = [] ∧ (node.block m).FeeFits

/-- A transaction at a position of a block of a node, as the API returns it. -/
def servedTransaction (n position : ℕ) (tx : NodeTransaction) (receipt : NodeReceipt) :
    Api.TransactionResponse where
  hash := Api.toHex tx.hash.bytes
  blockNumber := saturate i64Max n
  txIndex := saturate i32Max position
  fromAddr := Api.toHex tx.fromAddr.bytes
  toAddr := tx.toAddr.map (Api.toHex ·.bytes)
  value := u256ToNumeric tx.value
  nonce := saturate i64Max tx.nonce.toNat
  -- Whatever the type is.
  txType := 0
  gasLimit := saturate i64Max tx.gas.toNat
  gasPrice := tx.gasPrice.map u256ToNumeric
  status := receipt.status.map (u8OrZero ·.toNat)
  gasUsed := saturate i64Max receipt.gasUsed.toNat

/-- A transaction of the node is asked for, and returned with a receipt of the node. -/
def Node.Explains (node : Node) (text : String) (response : Api.TransactionResponse) : Prop :=
  ∃ n ≤ node.head, ∃ position tx receipt, (node.block n).transactions[position]? = some tx ∧
    node.Has receipt ∧ receipt.transactionHash = tx.hash ∧
    Api.fromHex text = some tx.hash.bytes ∧ response = servedTransaction n position tx receipt

theorem saturate_saturate (n : ℕ) : saturate i32Max (saturate u32Max n) = saturate i32Max n := by
  unfold saturate i32Max u32Max
  split_ifs <;> omega

/-- A decoded transaction, as the API returns it. -/
theorem transactionResponse_decoded {n position : ℕ} {tx : NodeTransaction}
    {receipt : NodeReceipt} {t : Transaction}
    (h : decodeSingleTransaction n position tx.response receipt.response = .ok t) :
    Api.transactionResponse (transactionRow t) = servedTransaction n position tx receipt := by
  obtain rfl := Except.ok.inj h
  simp only [Api.transactionResponse, transactionRow, servedTransaction, NodeTransaction.response,
    NodeReceipt.response, saturate_saturate, Option.map_map]
  rfl

/-! ## Two nodes -/

namespace Wired

def stack : HttpStack := ⟨plainLibrary, hexWords, nodeClient⟩

/-- A node with three blocks, the second of which has the transactions. -/
def node (hash : B256) (transactions : List NodeTransaction) (receipts : List NodeReceipt) :
    Node where
  head := 2
  block n :=
    { nodeBlock (if n = 1 then transactions else []) with
      number := .ofNat n
      hash := hash
      parentHash := hash }
  receipts n := if n = 1 then receipts else []
  height _ := 2
  number_eq n hn := UInt64.toNat_ofNat_of_lt (by show n < 2 ^ 64; omega)
  height_le _ := Nat.le_refl 2

def receipt : NodeReceipt := { nodeReceipt 2 with blockNumber := 1 }

/-- A node whose second block has a transaction of type 2. -/
def first : Node := node (.zero 32) [{ nodeTransaction with txType := 2 }] [receipt]

/-- A node on another chain, whose blocks have no transactions. -/
def second : Node := node (.withLastByte 31 1) [] []

/-- What the block decodes to. -/
def indexed : IndexedBlock where
  block := {
    number := 1
    hash := .zero 32
    parentHash := .zero 32
    timestamp := 1600000000
    miner := .zero 20
    gasUsed := 21000
    gasLimit := 30000000
    baseFeePerGas := some 7
    txCount := 1 }
  transactions := [{
    hash := .zero 32
    blockNumber := 1
    txIndex := 0
    fromAddr := .zero 20
    toAddr := some (.zero 20)
    value := 0
    nonce := 0
    txType := 0
    gasLimit := 21000
    gasPrice := some 7
    maxFeePerGas := none
    maxPriorityFeePerGas := none
    input := []
    status := some 1
    gasUsed := 21000
    effectiveGasPrice := some 7
    contractAddress := none }]
  logs := []
  tokenTransfers := []

theorem decodeBlock_eq :
    decodeBlock (first.block 1).fullResponse [receipt.response] = .ok indexed := by
  decide +kernel

def client (node : Node) : EthClient := stack.ethClient (fun _ _ => 0) node.server true

/-- The store with the block, and without it again. -/
def db : Db := Db.migrated.committed indexed 0

def rolledBack : Db := db.rollback (reorgEvent 0 2) 0

section Client

variable {node : Node} {n : ℕ} (hn : n ≤ node.head)

include hn

theorem client_fullBlock (hfits : (node.block n).FeeFits) :
    (client node).getBlockByNumber n true = .ok (some (node.block n).fullResponse) :=
  Node.server_fullBlock hn hfits

theorem client_header (hempty : (node.block n).transactions = [])
    (hfits : (node.block n).FeeFits) :
    (client node).getBlockByNumber n false = .ok (some ((node.block n).response [])) :=
  Node.server_header hn hempty hfits

theorem client_receipts (block : BlockResponse) : fetchReceipts (client node) n block =
    .ok ((node.receipts n).map NodeReceipt.response) := by
  have hget : (client node).getBlockReceipts n =
      .ok ((node.receipts n).map NodeReceipt.response) := Node.server_getBlockReceipts hn
  have hsupports : (client node).supportsBlockReceipts = true := rfl
  rw [fetchReceipts, if_pos hsupports, hget]
  rfl

end Client

theorem feeFits (hash : B256) (transactions : List NodeTransaction) (receipts : List NodeReceipt)
    (n : ℕ) : ((node hash transactions receipts).block n).FeeFits := by
  intro fee hfee
  obtain rfl := Option.some.inj hfee
  decide

theorem commit_first : commitBlock (client first) ⟨.migrated, [], 0⟩ 1 3 =
    (.ok false, ⟨db, [], 0⟩) := by
  have hone : 1 ≤ first.head := Nat.le_succ 1
  exact commitBlock_accepts (client_fullBlock hone (feeFits _ _ _ 1))
    (fun h => absurd h.1 (by decide)) (client_receipts hone _) decodeBlock_eq (by decide)
    (fun _ h => absurd h List.not_mem_nil) rfl

theorem read_db : PostgresStore.lastIndexedBlock ⟨db, [], 0⟩ =
    (.ok (some (1, (FixedBytes.zero 32).bytes)), ⟨db, [], 0⟩) := rfl

section Forked

variable {c : EthClient} {block one zero : BlockResponse}

/-- The walk from another block 1 down ends at block 0. -/
theorem walk_forked (hone : c.getBlockByNumber 1 false = .ok (some one))
    (hzero : c.getBlockByNumber 0 false = .ok (some zero)) (htold : one.hash ≠ .zero 32) :
    findAncestor c ⟨db, [], 0⟩ 1 3 = (.ok 0, ⟨db, [], 0⟩) := by
  have hpass : ¬ (1 = 0 ∨ (FixedBytes.zero 32).bytes = one.hash.bytes) := by
    rintro (h | h)
    · cases h
    · exact htold (FixedBytes.ext h.symm)
  simp only [findAncestor, findAncestorFrom, hone, hzero, read_db, Nat.sub_zero, Nat.sub_self]
  exact (if_neg (by decide)).trans ((if_neg hpass).trans
    ((if_neg (by decide)).trans (if_pos (Or.inl trivial))))

theorem commit_forked (hblock : c.getBlockByNumber 2 true = .ok (some block))
    (hone : c.getBlockByNumber 1 false = .ok (some one))
    (hzero : c.getBlockByNumber 0 false = .ok (some zero))
    (hparent : block.parentHash ≠ .zero 32) (htold : one.hash ≠ .zero 32) :
    commitBlock c ⟨db, [], 0⟩ 2 3 = (.ok true, ⟨rolledBack, [], 0⟩) := by
  have hunlinked : ¬ (2 - 1 = 0 ∨ (FixedBytes.zero 32).bytes = block.parentHash.bytes) := by
    rintro (h | h)
    · cases h
    · exact hparent (FixedBytes.ext h.symm)
  have hdetect : detect c ⟨db, [], 0⟩ 2 block.parentHash 3 = (.ok (some 0), ⟨db, [], 0⟩) := by
    rw [detect, if_neg (by decide), read_db]
    exact (if_neg hunlinked).trans (by rw [walk_forked hone hzero htold])
  simp only [commitBlock, hblock, hdetect]
  rfl

end Forked

theorem commit_second : commitBlock (client second) ⟨db, [], 0⟩ 2 3 =
    (.ok true, ⟨rolledBack, [], 0⟩) :=
  commit_forked (client_fullBlock (Nat.le_refl 2) (feeFits _ _ _ 2))
    (client_header (Nat.le_succ 1) rfl (feeFits _ _ _ 1))
    (client_header (Nat.zero_le 2) rfl (feeFits _ _ _ 0)) (by decide) (by decide)

theorem quiet (hash : B256) (transactions : List NodeTransaction)
    (receipts : List NodeReceipt) : (node hash transactions receipts).Quiet := by
  intro tag htag
  exact ⟨rfl, feeFits hash transactions receipts 2⟩

theorem meets_poll (node : Node) (hquiet : node.Quiet) (delivered : ℕ) :
    Indexer.Event.Meets stack node (.poll (node.height .latest) delivered) :=
  @Indexer.Event.Meets.poll stack node (fun _ _ => 0) node.server node.chainHead delivered
    node.answeredBy_server (HttpStack.fetchHead_iff.mpr ⟨hquiet, rfl⟩)

theorem meets_commit (node : Node) :
    Indexer.Event.Meets stack node (.commit (client node) [] 0) :=
  .commit true [] 0 node.answeredBy_server

/-- The block with the transaction is stored. -/
theorem run_first : ∃ moves, Run (Indexer.Step (Indexer.smallConfig 1 3)) ⟨.migrated, .stopped⟩
      moves ⟨db, .receiving 1 [2]⟩ ∧ ∀ move ∈ moves, move.event.Over stack := by
  have hstart : Indexer.Step (Indexer.smallConfig 1 3) ⟨.migrated, .stopped⟩ .start
      ⟨.migrated, .polling 0⟩ := rfl
  have hpoll : Indexer.Step (Indexer.smallConfig 1 3) ⟨.migrated, .polling 0⟩ (.poll 2 2)
      ⟨.migrated, .receiving 0 [1, 2]⟩ := rfl
  have hcommit := @Indexer.step_stored (Indexer.smallConfig 1 3) (client first) .migrated []
    ⟨db, [], 0⟩ 0 1 0 [2] commit_first
  refine ⟨_, .cons hstart (.cons hpoll (.cons hcommit (.nil _))), ?_⟩
  simp only [List.forall_mem_cons, List.not_mem_nil, false_implies, implies_true, and_true]
  exact ⟨trivial, ⟨first, meets_poll first (quiet _ _ _) 2⟩, first, meets_commit first⟩

/-- The other chain rolls it back. -/
theorem run_second : ∃ moves, Run (Indexer.Step (Indexer.smallConfig 1 3)) ⟨.migrated, .stopped⟩
      moves ⟨rolledBack, .polling 0⟩ ∧ ∀ move ∈ moves, move.event.Over stack := by
  obtain ⟨moves, hrun, hover⟩ := run_first
  have hcommit := @Indexer.step_reorg (Indexer.smallConfig 1 3) (client second) db []
    ⟨rolledBack, [], 0⟩ 1 2 0 [] commit_second
  refine ⟨_, hrun.append (.cons hcommit (.nil _)), fun move hmove => ?_⟩
  rcases List.mem_append.mp hmove with hmove | hmove
  · exact hover move hmove
  · rw [List.mem_singleton.mp hmove]
    exact ⟨second, meets_commit second⟩

end Wired

namespace Service

variable {stack : HttpStack} {cfg : Config} {setup : Setup} {analyses : Analyses}
  {moves : List (Move State Event)} {s t : State} {e : Event}

/-- The node that the loop meets in an event. -/
def Event.Meets (stack : HttpStack) (node : Node) : Event → Prop
  | .main e => e.Meets stack node
  | _ => False

/-- Where the loop needs a node, it meets one. -/
def Event.Over (stack : HttpStack) : Event → Prop
  | .main e => e.Over stack
  | _ => True

/-- **Below which blocks blocks are stored**: every stored block lies at or below a latest block
without transactions, which a move of the run polled. -/
theorem polled_of_stored (hrun : Run (Step cfg setup analyses) initial moves s)
    (hover : ∀ move ∈ moves, move.event.Over stack) :
    ∀ row ∈ s.indexer.db.blocks, ∃ move ∈ moves, ∃ node delivered,
      move.event = .main (.poll (node.height .latest) delivered) ∧
      move.event.Meets stack node ∧ node.Quiet ∧ row.number ≤ node.height .latest := by
  let bounded (n : ℕ) : Prop := ∃ move ∈ moves, ∃ node delivered,
    move.event = .main (.poll (node.height .latest) delivered) ∧
      move.event.Meets stack node ∧ node.Quiet ∧ n ≤ node.height .latest
  have hdown : ∀ m n, m ≤ n → bounded n → bounded m := by
    rintro m n hmn ⟨move, hmove, node, delivered, hevent, hmeets, hquiet, hle⟩
    exact ⟨move, hmove, node, delivered, hevent, hmeets, hquiet, hmn.trans hle⟩
  let allowed (move : Move State Event) : Prop := move ∈ moves
  have hkeep : ∀ s e t, Step cfg setup analyses s e t → allowed ⟨s, e, t⟩ →
      Sound s ∧ Indexer.Headed bounded s.indexer → Sound t ∧ Indexer.Headed bounded t.indexer := by
    rintro s e t hstep hmove ⟨hsound, hs⟩
    refine ⟨sound_step hstep hsound, ?_⟩
    rcases step_cases hstep hsound with ⟨e, rfl, -, hmain⟩ | ⟨-, hprocess, hconfined, -⟩
    · -- Numbers come in with a poll, which read the head of its node.
      refine Indexer.headed_step hdown hmain (hover _ hmove) hsound.valid ?_ hs
      rintro latest delivered rfl
      obtain ⟨node, hmeets⟩ := hover _ hmove
      have hpolled := hmeets
      generalize he : Indexer.Event.poll latest delivered = e at hpolled
      cases hpolled with
      | commit => cases he
      | @poll genRange server head _ hanswered hfetch =>
        obtain ⟨hquiet, rfl⟩ := HttpStack.fetchHead_ok hanswered hfetch
        cases he
        exact ⟨_, hmove, node, delivered, rfl, hmeets, hquiet, Nat.le_refl _⟩
    · refine ⟨fun cursor pending hreceiving => ?_, fun row hrow => ?_⟩
      · exact hs.pending cursor pending (hprocess ▸ hreceiving)
      · exact hs.blocks row ((Db.sameIndexed_of_bare hconfined.bare).blocks ▸ hrow)
  have hstart : Indexer.Headed bounded initial.indexer :=
    ⟨fun _ _ h => Indexer.Process.noConfusion h, fun _ h => absurd h List.not_mem_nil⟩
  exact (hrun.invariant hkeep (fun _ hmove => hmove) ⟨sound_initial, hstart⟩).2.blocks

/-- The stored block lies below the block that was polled. -/
theorem polled_wired : ∃ moves s, Run (Step (Indexer.smallConfig 1 3) Reprocess.plainSetup
      plainAnalyses) initial moves s ∧
    ∃ row ∈ s.indexer.db.blocks, ∃ move ∈ moves, ∃ node delivered,
      move.event = .main (.poll (node.height .latest) delivered) ∧
      move.event.Meets Wired.stack node ∧ node.Quiet ∧ row.number ≤ node.height .latest := by
  obtain ⟨moves, hrun, hover⟩ := Wired.run_first
  have hservice := @run_main _ Reprocess.plainSetup plainAnalyses _ _ _ hrun
  have hpolled := polled_of_stored hservice (List.forall_mem_map.mpr hover)
  exact ⟨_, _, hservice, _, List.mem_singleton_self _, hpolled _ (List.mem_singleton_self _)⟩

/-- What the loop adds to the record of reorgs: a reorg whose blocks have no transactions. -/
theorem walked_main {s t : Indexer.State} {e : Indexer.Event} (h : Indexer.Step cfg s e t)
    (hover : e.Over stack) :
    ∀ row ∈ t.db.reorgs, row ∈ s.db.reorgs ∨ ∃ node, e.Meets stack node ∧ node.Walked row := by
  intro row hrow
  rcases Indexer.step_rollsBack h with hsame | ⟨indexed, hstores⟩ |
    ⟨client, store, n, a, now, hcalls, han, hblocks, hrollback⟩
  · exact Or.inl (hsame ▸ hrow)
  · obtain ⟨now, hdb⟩ := hstores.db h
    rw [Db.commitBlock_eq hdb] at hrow
    exact Or.inl hrow
  · rw [hrollback] at hrow
    rcases List.mem_append.mp hrow with hold | hnew
    · exact Or.inl hold
    · obtain ⟨node, genRange, server, supports, hmeets, hanswered, rfl⟩ := hcalls.node hover
      rw [List.mem_singleton.mp hnew]
      refine Or.inr ⟨node, hmeets, a, n, han, rfl, rfl, fun m hm hmn => ?_⟩
      obtain ⟨block, hget⟩ := hblocks m hm hmn
      obtain ⟨hle, hempty, hfits, -⟩ := hanswered.header hget
      exact ⟨hle, hempty, hfits⟩

/-- **Where a rollback goes through**: for every recorded reorg the loop met a node that has no
transactions in any block from the common ancestor up to below the block the reorg was found at. -/
theorem reorgs_over_nodes (hrun : Run (Step cfg setup analyses) initial moves s)
    (hover : ∀ move ∈ moves, move.event.Over stack) :
    ∀ row ∈ s.indexer.db.reorgs, ∃ move ∈ moves, ∃ node,
      move.event.Meets stack node ∧ node.Walked row := by
  let known (row : ReorgRow) : Prop :=
    ∃ move ∈ moves, ∃ node, move.event.Meets stack node ∧ node.Walked row
  let allowed (move : Move State Event) : Prop := move ∈ moves
  have hkeep : ∀ s e t, Step cfg setup analyses s e t → allowed ⟨s, e, t⟩ →
      (Sound s ∧ ∀ row ∈ s.indexer.db.reorgs, known row) →
      Sound t ∧ ∀ row ∈ t.indexer.db.reorgs, known row := by
    rintro s e t hstep hmove ⟨hsound, hs⟩
    refine ⟨sound_step hstep hsound, fun row hrow => ?_⟩
    rcases step_cases hstep hsound with ⟨e, rfl, -, hmain⟩ | ⟨-, -, hconfined, -⟩
    · rcases walked_main hmain (hover _ hmove) row hrow with hold | ⟨node, hmeets, hwalked⟩
      · exact hs row hold
      · exact ⟨_, hmove, node, hmeets, hwalked⟩
    · exact hs row ((Db.sameIndexed_of_bare hconfined.bare).reorgs ▸ hrow)
  exact (hrun.invariant hkeep (fun _ hmove => hmove)
    ⟨sound_initial, fun _ h => absurd h List.not_mem_nil⟩).2

/-- The other chain has a reorg recorded, and no transactions down to block 0. -/
theorem reorgs_wired : ∃ moves s, Run (Step (Indexer.smallConfig 1 3) Reprocess.plainSetup
      plainAnalyses) initial moves s ∧
    ∃ row ∈ s.indexer.db.reorgs, ∃ move ∈ moves, ∃ node,
      move.event.Meets Wired.stack node ∧ node.Walked row := by
  obtain ⟨moves, hrun, hover⟩ := Wired.run_second
  have hservice := @run_main _ Reprocess.plainSetup plainAnalyses _ _ _ hrun
  have hreorgs := reorgs_over_nodes hservice (List.forall_mem_map.mpr hover)
  exact ⟨_, _, hservice, _, List.mem_singleton_self _, hreorgs _ (List.mem_singleton_self _)⟩

/-- The transactions of a stored block are a node's, and so are the receipts they came with. -/
theorem explains_stored {move : Move State Event} {indexed : IndexedBlock}
    (hstores : Stores move indexed) (hover : move.event.Over stack) {text : String}
    {row : TransactionRow} (hrow : row ∈ indexed.transactionRows)
    (htext : Api.fromHex text = some row.hash) :
    ∃ node, move.event.Meets stack node ∧ node.Explains text (Api.transactionResponse row) := by
  obtain ⟨h⟩ := hstores
  obtain ⟨node, n, receipts, hmeets, hle, -, hdecode, hreceipts⟩ := h.node hover
  obtain ⟨t, ht, rfl⟩ := List.mem_map.mp hrow
  obtain ⟨position, hposition, rfl⟩ := List.mem_iff_getElem.mp ht
  have htransactions := (decodeBlock_parts hdecode).2.1
  obtain ⟨hlength, hlength'⟩ := length_decodeTransactions htransactions
  have htxs : (node.block n).fullResponse.transactions =
      (node.block n).transactions.map NodeTransaction.response := rfl
  have hlt : position < (node.block n).transactions.length := by
    rw [hlength, htxs, List.length_map] at hposition
    exact hposition
  have hlt' : position < receipts.length := by omega
  -- The transaction and the receipt at the position.
  have htx : (node.block n).fullResponse.transactions[position]? =
      some ((node.block n).transactions[position]).response := by
    rw [htxs, List.getElem?_map, List.getElem?_eq_getElem hlt]
    rfl
  obtain ⟨receipt, hhas, hreceipt⟩ := hreceipts _ (List.getElem_mem hlt')
  have hreceipt' : receipts[position]? = some receipt.response := by
    rw [List.getElem?_eq_getElem hlt', hreceipt]
  obtain ⟨hhash, t, ht, hsingle⟩ := decodeTransactions_getElem htransactions htx hreceipt'
  have hnumber : (node.block n).fullResponse.number = n := node.number_eq n hle
  rw [hnumber] at hsingle
  obtain rfl := Option.some.inj (ht.symm.trans (List.getElem?_eq_getElem hposition))
  refine ⟨node, hmeets, n, hle, position, _, receipt, List.getElem?_eq_getElem hlt, hhas,
    hhash.symm, ?_, transactionResponse_decoded hsingle⟩
  rw [htext]
  have hdecoded := Except.ok.inj hsingle
  exact congrArg (fun t : Transaction => some t.hash.bytes) hdecoded.symm

/-- **What the API returns** of a transaction is what a node had that the loop met, with a receipt
of its hash, except for its type, which is always 0. -/
theorem transactions_over_nodes (hrun : Run (Step cfg setup analyses) initial moves s)
    (hover : ∀ move ∈ moves, move.event.Over stack) {text : String}
    {response : Api.TransactionResponse}
    (hget : Api.getTransaction text (.ok s.indexer.db) = .ok response) :
    ∃ move ∈ moves, ∃ node, move.event.Meets stack node ∧ node.Explains text response := by
  have hs := sourced_run hrun
  obtain ⟨row, hmem, htext, rfl⟩ := Api.exists_row_of_getTransaction hget
  obtain ⟨move, hmove, indexed, hstores, hrow⟩ := hs.transactions row hmem
  obtain ⟨node, hmeets, hexplains⟩ := explains_stored hstores (hover move hmove) hrow htext
  exact ⟨move, hmove, node, hmeets, hexplains⟩

/-- A transaction of type 2 is returned with type 0. -/
theorem transactions_wired :
    ∃ moves s, Run (Step (Indexer.smallConfig 1 3) Reprocess.plainSetup plainAnalyses) initial
        moves s ∧
      ∃ response, Api.getTransaction (Api.toHex (FixedBytes.zero 32).bytes) (.ok s.indexer.db) =
          .ok response ∧ response.txType = 0 ∧
        ∃ move ∈ moves, ∃ node, move.event.Meets Wired.stack node ∧
          node.Explains (Api.toHex (FixedBytes.zero 32).bytes) response := by
  obtain ⟨moves, hrun, hover⟩ := Wired.run_first
  have hservice := @run_main _ Reprocess.plainSetup plainAnalyses _ _ _ hrun
  have hget : Api.getTransaction (Api.toHex (FixedBytes.zero 32).bytes) (.ok Wired.db) =
      .ok (Api.transactionResponse
        (transactionRow (Wired.indexed.transactions.head (by decide)))) := rfl
  have hserved := transactions_over_nodes hservice (List.forall_mem_map.mpr hover) hget
  exact ⟨_, _, hservice, _, hget, rfl, hserved⟩

end Service

end ChainLens
