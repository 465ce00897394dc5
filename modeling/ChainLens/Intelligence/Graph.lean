import ChainLens.Intelligence.Address
import ChainLens.Library.BreadthFirst
import ChainLens.Library.Grouping

/-!
# The graph of an address

The graph of an address lists the addresses it has dealt with, directly or through others, up to a
depth and a limit. Each address that is expanded is asked for the addresses it sent to, those it
received from, and those it sent tokens to, and each answer gives an edge. Only the first two kinds
become nodes.

## Main definitions

* `GraphQueries`, `GraphStore`: the answers to the queries, with and without errors
* `GraphStore.Answers`: the answers are those of a database
* `buildGraph`: the traversal
* `GraphStore.Ball`: what the nodes of a graph should be

## Main results

* `buildGraphLoop_search`: the traversal is a bounded breadth-first search
* `buildGraph_ball`: its nodes are the first addresses in the order of discovery
-/

namespace ChainLens

/-! ## What is returned -/

inductive RelationshipType where
  | transferredTo
  | receivedFrom
  | called
  | approved
  | deployed
  | interactedWith
  | transferredTokenTo
deriving DecidableEq

/-- `format!("{:?}", relationship).to_lowercase()`. -/
def RelationshipType.lowercase : RelationshipType → String
  | .transferredTo => "transferredto"
  | .receivedFrom => "receivedfrom"
  | .called => "called"
  | .approved => "approved"
  | .deployed => "deployed"
  | .interactedWith => "interactedwith"
  | .transferredTokenTo => "transferredtokento"

structure GraphNode where
  address : String
  label : Option String
  interactionCount : Int
  firstInteraction : Option String
  lastInteraction : Option String
deriving DecidableEq

structure GraphEdge where
  fromAddr : String
  toAddr : String
  relationship : RelationshipType
  count : Int
  totalValue : Option String
  firstSeen : Option String
  lastSeen : Option String
deriving DecidableEq

structure AddressGraph where
  center : String
  nodes : List GraphNode
  edges : List GraphEdge
  depthReached : ℕ
  totalNodes : ℕ
  totalEdges : ℕ
deriving DecidableEq

/-! ## The queries -/

/-- A row of the queries for the addresses an address sent to or received from. -/
structure NeighbourRow where
  address : Bytes
  count : Int
  totalValue : Numeric
  firstSeen : Option String
  lastSeen : Option String
deriving DecidableEq

/-- A row of the query for the addresses an address sent tokens to. -/
structure TokenReceiverRow where
  address : Bytes
  count : Int
deriving DecidableEq

/-- The replies to the queries. No query is made twice for an address, so that they may come from
one database or from several states of it. -/
structure GraphQueries where
  sentTxs : Bytes → Except QueryError (List NeighbourRow)
  nodeInfo : Bytes → Except QueryError Int
  receivedTxs : Bytes → Except QueryError (List NeighbourRow)
  tokenTransfers : Bytes → Except QueryError (List TokenReceiverRow)

/-- The answers of a database that serves every query. -/
structure GraphStore where
  sentTxs : Bytes → List NeighbourRow
  nodeInfo : Bytes → Int
  receivedTxs : Bytes → List NeighbourRow
  tokenTransfers : Bytes → List TokenReceiverRow

def GraphStore.queries (store : GraphStore) : GraphQueries where
  sentTxs address := .ok (store.sentTxs address)
  nodeInfo address := .ok (store.nodeInfo address)
  receivedTxs address := .ok (store.receivedTxs address)
  tokenTransfers address := .ok (store.tokenTransfers address)

/-- The row of a group of transactions, each with its block. -/
def neighbourRow (setup : Setup) (group : Bytes × List (TransactionRow × BlockRow)) :
    NeighbourRow where
  address := group.1
  count := group.2.length
  totalValue := sumText (group.2.map (·.1.value))
  firstSeen := setup.minText (group.2.map (setup.timestampText ·.2.timestamp))
  lastSeen := setup.maxText (group.2.map (setup.timestampText ·.2.timestamp))

namespace Db

/-- `transactions t JOIN blocks b ON b.number = t.block_number`. -/
def transactionBlocks (db : Db) : List (TransactionRow × BlockRow) :=
  db.transactions.flatMap fun tx =>
    (db.blocks.filter (·.number = tx.blockNumber)).map fun block => (tx, block)

/-- The groups of the transactions an address sent, by their recipient. -/
def sentNeighbours (setup : Setup) (address : Bytes) (db : Db) : List NeighbourRow :=
  let sent := db.transactionBlocks.filter (·.1.fromAddr = address)
  (Grouping.groups (sent.filterMap fun p => p.1.toAddr.map (·, p))).map (neighbourRow setup)

/-- The groups of the transactions an address received, by their sender. -/
def receivedNeighbours (setup : Setup) (address : Bytes) (db : Db) : List NeighbourRow :=
  let received := db.transactionBlocks.filter (·.1.toAddr = some address)
  (Grouping.groups (received.map fun p => (p.1.fromAddr, p))).map (neighbourRow setup)

/-- The groups of the token transfers from an address, by their recipient. -/
def tokenReceivers (address : Bytes) (db : Db) : List TokenReceiverRow :=
  (Grouping.groups ((db.transfersFrom address).map fun t => (t.toAddr, t))).map fun group =>
    ⟨group.1, group.2.length⟩

end Db

/-- The answers are those of a database. In `ORDER BY count DESC` groups of one count come in any
order. -/
structure GraphStore.Answers (store : GraphStore) (setup : Setup) (db : Db) : Prop where
  sentTxs : ∀ address, Grouping.IsTop NeighbourRow.count 20 (db.sentNeighbours setup address)
    (store.sentTxs address)
  nodeInfo : ∀ address, store.nodeInfo address = (db.sentBy address).length
  receivedTxs : ∀ address, Grouping.IsTop NeighbourRow.count 20
    (db.receivedNeighbours setup address) (store.receivedTxs address)
  tokenTransfers : ∀ address, Grouping.IsTop TokenReceiverRow.count 10 (db.tokenReceivers address)
    (store.tokenTransfers address)

/-- The answers in which groups of one count stay in their order. -/
def Db.graphStore (setup : Setup) (db : Db) : GraphStore where
  sentTxs address := Grouping.top NeighbourRow.count 20 (db.sentNeighbours setup address)
  nodeInfo address := (db.sentBy address).length
  receivedTxs address := Grouping.top NeighbourRow.count 20 (db.receivedNeighbours setup address)
  tokenTransfers address := Grouping.top TokenReceiverRow.count 10 (db.tokenReceivers address)

theorem Db.graphStore_answers (setup : Setup) (db : Db) :
    (db.graphStore setup).Answers setup db where
  sentTxs _ := Grouping.isTop_top _
  nodeInfo _ := rfl
  receivedTxs _ := Grouping.isTop_top _
  tokenTransfers _ := Grouping.isTop_top _

/-! ## The traversal -/

structure GraphState where
  nodes : List GraphNode
  edges : List GraphEdge
  visited : List Bytes
  queue : List (Bytes × ℕ)

def sentEdge (currentAddr : Bytes) (row : NeighbourRow) : GraphEdge where
  fromAddr := hexText currentAddr
  toAddr := hexText row.address
  relationship := .transferredTo
  count := row.count
  totalValue := some (weiToEth row.totalValue)
  firstSeen := row.firstSeen
  lastSeen := row.lastSeen

def receivedEdge (currentAddr : Bytes) (row : NeighbourRow) : GraphEdge where
  fromAddr := hexText row.address
  toAddr := hexText currentAddr
  relationship := .receivedFrom
  count := row.count
  totalValue := some (weiToEth row.totalValue)
  firstSeen := row.firstSeen
  lastSeen := row.lastSeen

def tokenEdge (currentAddr : Bytes) (row : TokenReceiverRow) : GraphEdge where
  fromAddr := hexText currentAddr
  toAddr := hexText row.address
  relationship := .transferredTokenTo
  count := row.count
  totalValue := none
  firstSeen := none
  lastSeen := none

def graphNode (address : Bytes) (interactionCount : Int) : GraphNode :=
  ⟨hexText address, none, interactionCount, none, none⟩

section Build

variable (queries : GraphQueries) (depth limit : ℕ)

/-- One row of the addresses that were sent to. -/
def visitSent (currentAddr : Bytes) (currentDepth : ℕ) (s : GraphState) (row : NeighbourRow) :
    Except QueryError GraphState := do
  let s := { s with edges := s.edges ++ [sentEdge currentAddr row] }
  if row.address ∉ s.visited ∧ s.nodes.length < limit then
    let txCount ← queries.nodeInfo row.address
    return { s with
      visited := s.visited ++ [row.address]
      queue := s.queue ++ [(row.address, currentDepth + 1)]
      nodes := s.nodes ++ [graphNode row.address txCount] }
  else return s

/-- One row of the addresses that were received from. -/
def visitReceived (currentAddr : Bytes) (currentDepth : ℕ) (s : GraphState) (row : NeighbourRow) :
    Except QueryError GraphState :=
  let s := { s with edges := s.edges ++ [receivedEdge currentAddr row] }
  if row.address ∉ s.visited ∧ s.nodes.length < limit then
    .ok { s with
      visited := s.visited ++ [row.address]
      queue := s.queue ++ [(row.address, currentDepth + 1)]
      nodes := s.nodes ++ [graphNode row.address row.count] }
  else .ok s

/-- The body of the loop after the check of the depth and the limit. -/
def expandAddress (currentAddr : Bytes) (currentDepth : ℕ) (s : GraphState) :
    Except QueryError GraphState := do
  let sentTxs ← queries.sentTxs currentAddr
  let s ← sentTxs.foldlM (visitSent queries limit currentAddr currentDepth) s
  let receivedTxs ← queries.receivedTxs currentAddr
  let s ← receivedTxs.foldlM (visitReceived limit currentAddr currentDepth) s
  let tokenTransfers ← queries.tokenTransfers currentAddr
  return { s with edges := s.edges ++ tokenTransfers.map (tokenEdge currentAddr) }

/-- The loop, for at most `fuel` rounds. -/
def buildGraphLoop : ℕ → GraphState → Option (Except QueryError GraphState)
  | 0, _ => none
  | fuel + 1, s =>
    match s.queue with
    | [] => some (.ok s)
    | (currentAddr, currentDepth) :: queue =>
      if depth ≤ currentDepth ∨ limit ≤ s.nodes.length then some (.ok { s with queue })
      else
        match expandAddress queries limit currentAddr currentDepth { s with queue } with
        | .error e => some (.error e)
        | .ok s => buildGraphLoop fuel s

/-- The depth at the end of what is left of the queue. -/
def currentDepth (queue : List (Bytes × ℕ)) : ℕ :=
  match queue.getLast? with
  | some (_, d) => d
  | none => 0

def addressGraph (address : String) (s : GraphState) : AddressGraph where
  center := address
  nodes := s.nodes
  edges := s.edges
  depthReached := min depth (currentDepth s.queue)
  totalNodes := s.nodes.length
  totalEdges := s.edges.length

/-- The graph, unless the loop needs more than `fuel` rounds. -/
def buildGraph (address : String) (fuel : ℕ) : Option (Except QueryError AddressGraph) :=
  match hexDecodeTrimmed address with
  | none => some (.error .rowNotFound)
  | some addrBytes =>
    (buildGraphLoop queries depth limit fuel ⟨[], [], [addrBytes], [(addrBytes, 0)]⟩).map
      fun r => r.map (addressGraph depth address)

end Build

/-! ## The traversal as a search -/

/-- A row that can become a node, with the query it was found by. -/
inductive Neighbour where
  | sent (row : NeighbourRow)
  | received (row : NeighbourRow)

namespace Neighbour

def row : Neighbour → NeighbourRow
  | sent row => row
  | received row => row

def address (n : Neighbour) : Bytes := n.row.address

end Neighbour

namespace GraphStore

variable (store : GraphStore)

/-- The rows of an address in the order in which they are visited. -/
def neighbours (address : Bytes) : List Neighbour :=
  (store.sentTxs address).map .sent ++ (store.receivedTxs address).map .received

def node : Neighbour → GraphNode
  | .sent row => graphNode row.address (store.nodeInfo row.address)
  | .received row => graphNode row.address row.count

/-- The edges of an address that is expanded. -/
def edgesOf (address : Bytes) : List GraphEdge :=
  (store.sentTxs address).map (sentEdge address) ++
    (store.receivedTxs address).map (receivedEdge address) ++
      (store.tokenTransfers address).map (tokenEdge address)

/-- The state of the loop for a state of the search. -/
def render (center : Bytes) (edges : List GraphEdge) (s : BreadthFirst.State Bytes Neighbour) :
    GraphState where
  nodes := s.found.map store.node
  edges := edges
  visited := center :: s.found.map Neighbour.address
  queue := s.queue

variable {store} {center : Bytes} {depth limit : ℕ} {currentAddr : Bytes} {d : ℕ}
  {edges : List GraphEdge} {s : BreadthFirst.State Bytes Neighbour}

theorem mem_neighbours {address : Bytes} {n : Neighbour} : n ∈ store.neighbours address ↔
    (∃ row ∈ store.sentTxs address, .sent row = n) ∨
      ∃ row ∈ store.receivedTxs address, .received row = n := by
  unfold neighbours
  rw [List.mem_append, List.mem_map, List.mem_map]

theorem mem_edgesOf {address : Bytes} {edge : GraphEdge} : edge ∈ store.edgesOf address ↔
    (∃ row ∈ store.sentTxs address, sentEdge address row = edge) ∨
      (∃ row ∈ store.receivedTxs address, receivedEdge address row = edge) ∨
        ∃ row ∈ store.tokenTransfers address, tokenEdge address row = edge := by
  unfold edgesOf
  rw [List.mem_append, List.mem_append, List.mem_map, List.mem_map, List.mem_map, or_assoc]

/-- A row is visited if it is new and the limit allows it. -/
theorem visits_iff (row : NeighbourRow) :
    (row.address ∉ (store.render center edges s).visited ∧
      (store.render center edges s).nodes.length < limit) ↔
    ¬ (row.address ∈ center :: s.found.map Neighbour.address ∨
      ¬ BreadthFirst.Room (some limit) s.found.length) := by
  rw [not_or, not_not, BreadthFirst.room_some, render, List.length_map]

theorem visitSent_render (row : NeighbourRow) :
    visitSent store.queries limit currentAddr d (store.render center edges s) row =
      .ok (store.render center (edges ++ [sentEdge currentAddr row])
        (BreadthFirst.offer Neighbour.address (some limit) center (d + 1) s (.sent row))) := by
  have hiff := @visits_iff store center limit edges s row
  unfold visitSent
  by_cases hskip : row.address ∈ center :: s.found.map Neighbour.address ∨
      ¬ BreadthFirst.Room (some limit) s.found.length
  · rw [BreadthFirst.offer_of_skip hskip]
    exact if_neg fun h => hiff.mp h hskip
  · refine (if_pos (hiff.mpr hskip)).trans ?_
    rw [not_or, not_not] at hskip
    rw [BreadthFirst.offer_of_new hskip.1 hskip.2]
    simp [render, queries, node, Neighbour.address, Neighbour.row]

theorem visitReceived_render (row : NeighbourRow) :
    visitReceived limit currentAddr d (store.render center edges s) row =
      .ok (store.render center (edges ++ [receivedEdge currentAddr row])
        (BreadthFirst.offer Neighbour.address (some limit) center (d + 1) s (.received row))) := by
  have hiff := @visits_iff store center limit edges s row
  unfold visitReceived
  by_cases hskip : row.address ∈ center :: s.found.map Neighbour.address ∨
      ¬ BreadthFirst.Room (some limit) s.found.length
  · rw [BreadthFirst.offer_of_skip hskip]
    exact if_neg fun h => hiff.mp h hskip
  · refine (if_pos (hiff.mpr hskip)).trans ?_
    rw [not_or, not_not] at hskip
    rw [BreadthFirst.offer_of_new hskip.1 hskip.2]
    simp [render, node, Neighbour.address, Neighbour.row]

/-- A loop over rows is a loop of the search, if every row is. -/
theorem foldlM_render {visit : GraphState → NeighbourRow → Except QueryError GraphState}
    {edge : NeighbourRow → GraphEdge} {neighbour : NeighbourRow → Neighbour}
    (hvisit : ∀ edges s row, visit (store.render center edges s) row =
      .ok (store.render center (edges ++ [edge row])
        (BreadthFirst.offer Neighbour.address (some limit) center (d + 1) s (neighbour row))))
    (rows : List NeighbourRow) :
    rows.foldlM visit (store.render center edges s) =
      .ok (store.render center (edges ++ rows.map edge) ((rows.map neighbour).foldl
        (BreadthFirst.offer Neighbour.address (some limit) center (d + 1)) s)) := by
  induction rows generalizing edges s with
  | nil =>
    rw [List.map_nil, List.append_nil]
    rfl
  | cons row rows ih =>
    rw [List.foldlM_cons, hvisit]
    refine ih.trans ?_
    simp

/-- **One expansion** of the loop is one of the search. -/
theorem expandAddress_render :
    expandAddress store.queries limit currentAddr d (store.render center edges s) =
      .ok (store.render center (edges ++ store.edgesOf currentAddr)
        (BreadthFirst.expand Neighbour.address store.neighbours (some limit) center currentAddr d
          s)) := by
  have hsent (edges) (s) := @foldlM_render store center limit d edges s
    (visitSent store.queries limit currentAddr d) (sentEdge currentAddr) .sent
    (fun _ _ => visitSent_render) (store.sentTxs currentAddr)
  have hreceived (edges) (s) := @foldlM_render store center limit d edges s
    (visitReceived limit currentAddr d) (receivedEdge currentAddr) .received
    (fun _ _ => visitReceived_render) (store.receivedTxs currentAddr)
  unfold expandAddress
  refine Except.bind_eq_ok_iff.mpr ⟨_, rfl, ?_⟩
  refine Except.bind_eq_ok_iff.mpr
    ⟨_, hsent edges { s with expanded := s.expanded ++ [currentAddr] }, ?_⟩
  refine Except.bind_eq_ok_iff.mpr ⟨_, rfl, ?_⟩
  refine Except.bind_eq_ok_iff.mpr ⟨_, hreceived _ _, ?_⟩
  refine Except.bind_eq_ok_iff.mpr ⟨_, rfl, ?_⟩
  unfold BreadthFirst.expand neighbours edgesOf
  rw [List.foldl_append, ← List.append_assoc, ← List.append_assoc]
  rfl

/-- **The loop is a search**, rendered. -/
theorem buildGraphLoop_search (fuel : ℕ) :
    buildGraphLoop store.queries depth limit fuel
        (store.render center (s.expanded.flatMap store.edgesOf) s) =
      (BreadthFirst.search Neighbour.address store.neighbours (some limit) depth center fuel s).map
        fun s => .ok (store.render center (s.expanded.flatMap store.edgesOf) s) := by
  induction fuel generalizing s with
  | zero => rfl
  | succ fuel ih =>
    unfold buildGraphLoop
    cases hqueue : s.queue with
    | nil =>
      rw [BreadthFirst.search_of_nil hqueue]
      simp only [render, hqueue, Option.map_some]
    | cons p rest =>
      obtain ⟨a, d⟩ := p
      by_cases hstop : depth ≤ d ∨ ¬ BreadthFirst.Room (some limit) s.found.length
      · rw [BreadthFirst.search_of_stop hqueue hstop]
        rw [BreadthFirst.room_some, Nat.not_lt] at hstop
        simp only [render, hqueue, List.length_map, if_pos hstop, Option.map_some]
      · rw [BreadthFirst.search_of_expand hqueue hstop, ← ih, BreadthFirst.expanded_expand]
        rw [BreadthFirst.room_some, Nat.not_lt] at hstop
        have hexpand := @expandAddress_render store center limit a d
          (s.expanded.flatMap store.edgesOf) { s with queue := rest }
        simp only [render] at hexpand
        simp only [render, hqueue, List.length_map, if_neg hstop, hexpand]
        simp

/-- **The traversal ends**, after the rounds of a search. -/
theorem buildGraph_finished {address : String} (haddress : hexDecodeTrimmed address = some center)
    {fuel : ℕ} (hfuel : limit + 2 ≤ fuel) :
    ∃ s, BreadthFirst.Finished Neighbour.address store.neighbours (some limit) depth center s ∧
      buildGraph store.queries depth limit address fuel = some (.ok (addressGraph depth address
        (store.render center (s.expanded.flatMap store.edgesOf) s))) := by
  have hlength : (BreadthFirst.cut (some limit)
      (BreadthFirst.discovery Neighbour.address store.neighbours center depth)).length ≤ limit :=
    List.length_take_le _ _
  obtain ⟨s, hsearch, hfinished⟩ := @BreadthFirst.search_finished _ _ _ Neighbour.address
    store.neighbours (some limit) depth center fuel (by omega)
  have hloop := @buildGraphLoop_search store center depth limit (BreadthFirst.start center) fuel
  rw [hsearch] at hloop
  refine ⟨s, hfinished, ?_⟩
  simp only [buildGraph, haddress]
  refine (congrArg (Option.map _) hloop).trans ?_
  rfl

/-! ## The nodes -/

variable (store) in
/-- Whether a number of transactions, sent or received, lead from one address to another. -/
abbrev Hops (n : ℕ) (a b : Bytes) : Prop :=
  BreadthFirst.Walk Neighbour.address store.neighbours n a b

variable (store) in
/-- The smallest such number. -/
abbrev Distance (center : Bytes) (n : ℕ) (a : Bytes) : Prop :=
  BreadthFirst.IsDist Neighbour.address store.neighbours center n a

variable (store) in
/-- The addresses up to a distance, in the order in which a breadth-first search without a limit
discovers them. -/
def discovered (center : Bytes) (depth : ℕ) : List Bytes :=
  (BreadthFirst.discovery Neighbour.address store.neighbours center depth).map Neighbour.address

variable (store) in
/-- The nodes are the beginning of the ball around the centre, in the order of discovery. -/
structure Ball (center : Bytes) (depth limit : ℕ) (nodes : List GraphNode) : Prop where
  nodes_eq : nodes.map (·.address) = ((store.discovered center depth).take limit).map hexText
  nodup : (nodes.map (·.address)).Nodup
  center_notMem : hexText center ∉ nodes.map (·.address)
  mem_discovered : ∀ a, a ∈ store.discovered center depth ↔
    ∃ n, 1 ≤ n ∧ n ≤ depth ∧ store.Distance center n a
  sorted : (store.discovered center depth).Pairwise fun a b =>
    ∀ m n, store.Distance center m a → store.Distance center n b → m ≤ n
  complete : nodes.length < limit → ∀ n ≤ depth, ∀ a, store.Hops n center a →
    a = center ∨ hexText a ∈ nodes.map (·.address)

theorem node_address (n : Neighbour) : (store.node n).address = hexText n.address := by
  cases n <;> rfl

theorem ball_of_take {nodes : List GraphNode}
    (hnodes : nodes.map (·.address) = ((store.discovered center depth).take limit).map hexText) :
    store.Ball center depth limit nodes := by
  have hinj : Function.Injective hexText := fun _ _ => hexText_inj.mp
  obtain ⟨hcenter, hnodup⟩ : center ∉ store.discovered center depth ∧
      (store.discovered center depth).Nodup :=
    List.nodup_cons.mp (@BreadthFirst.nodup_order _ _ _ Neighbour.address store.neighbours center
      depth)
  refine ⟨hnodes, ?_, ?_, fun a => BreadthFirst.mem_discovery, ?_, ?_⟩
  · rw [hnodes]
    exact (hnodup.sublist (List.take_sublist _ _)).map hinj
  · rw [hnodes, List.mem_map_of_injective hinj]
    exact fun h => hcenter (List.mem_of_mem_take h)
  · exact (List.pairwise_cons.mp BreadthFirst.order_sorted).2
  · intro hfewer n hn a hhops
    -- Fewer than the limit were taken, so all of them were.
    have hlength := congrArg List.length hnodes
    simp only [List.length_map, List.length_take] at hlength
    rw [List.take_of_length_le (by omega)] at hnodes
    rw [hnodes, List.mem_map_of_injective hinj]
    exact List.mem_cons.mp (BreadthFirst.mem_order.mpr ⟨n, hn, hhops⟩)

end GraphStore

open GraphStore in
/-- **The nodes of a graph** are the first addresses of the ball around its centre, as many as the
limit allows, for all answers to the queries. -/
theorem buildGraph_ball (store : GraphStore) {address : String} {center : Bytes}
    (haddress : hexDecodeTrimmed address = some center) (depth limit : ℕ) {fuel : ℕ}
    (hfuel : limit + 2 ≤ fuel) :
    ∃ graph, buildGraph store.queries depth limit address fuel = some (.ok graph) ∧
      store.Ball center depth limit graph.nodes := by
  obtain ⟨s, hfinished, hgraph⟩ := @buildGraph_finished store center depth limit address haddress
    fuel hfuel
  refine ⟨_, hgraph, ball_of_take ?_⟩
  show (s.found.map store.node).map (·.address) = _
  rw [hfinished.found, List.map_map, discovered, ← List.map_take, List.map_map]
  exact List.map_congr_left fun n _ => node_address n

/-! ## A database of single transactions -/

namespace Links

/-- A server where every timestamp has one text. -/
def setup : Setup where
  timestampText _ := "2024-01-01 00:00:00+00"
  minText texts := texts.head?
  maxText texts := texts.head?
  overflowChecks := true

def blockRow : BlockRow := ⟨7, [7], [6], 0, [], 0, 0, none, 0⟩

/-- A transaction without value. -/
def transactionRow (txIndex : ℕ) (fromAddr toAddr : Bytes) : TransactionRow where
  hash := [UInt8.ofNat txIndex]
  blockNumber := 7
  txIndex := txIndex
  fromAddr := fromAddr
  toAddr := some toAddr
  value := "0"
  nonce := 0
  txType := 0
  gasLimit := 21000
  gasPrice := none
  maxFeePerGas := none
  maxPriorityFeePerGas := none
  input := []
  status := some 1
  gasUsed := 21000
  effectiveGasPrice := none
  contractAddress := none

/-- A block with a transaction for every link. -/
def db (links : List (Bytes × Bytes)) : Db :=
  { Db.migrated with
    blocks := [blockRow]
    transactions := links.zipIdx.map fun (link, i) => transactionRow i link.1 link.2 }

/-- Two addresses that sent to each other, and a third one the first sent to. -/
def triangle : GraphStore := (db [([1], [2]), ([1], [3]), ([2], [1])]).graphStore setup

theorem triangle_ball : ∃ graph, buildGraph triangle.queries 2 1 "0x01" 3 = some (.ok graph) ∧
    triangle.Ball [1] 2 1 graph.nodes :=
  buildGraph_ball triangle (by decide) 2 1 (by decide)

end Links

end ChainLens
