import ChainLens.Api.Handlers
import ChainLens.Intelligence.GraphShape

/-!
# Persisting the edges of a graph

The handler that serves a graph persists each of its edges in a statement of its own, which is to
overwrite the row of its addresses and its relationship. The edges of a graph have pairwise distinct
keys, since no address is expanded twice and each answer has one row for an address, and the count
of an edge is how often the database links its addresses. But every statement is refused, so that
the table has the row of an edge only if it had it before.

## Main definitions

* `GraphEdge.key`, `Db.linkCount`: what identifies an edge, and what it counts
* `persistEdges`: the edges persisted one after the other
* `PersistsEdges`: persisting edges in any order leaves the same rows, with the counts of the edges
* `Api.getAddressGraph`: the handler

## Main results

* `edges_nodup`, `edgesOf_linked`: the edges of a graph have distinct keys, and count links
* `buildGraph_persistsEdges_iff`: when persisting them leaves their counts
-/

namespace ChainLens

/-! ## The edges of a graph -/

/-- What identifies an edge. -/
def GraphEdge.key (edge : GraphEdge) : String × String × RelationshipType :=
  (edge.fromAddr, edge.toAddr, edge.relationship)

namespace GraphStore

variable {store : GraphStore}

/-- No answer has two rows for an address. -/
structure Grouped (store : GraphStore) : Prop where
  sentTxs : ∀ a, ((store.sentTxs a).map (·.address)).Nodup
  receivedTxs : ∀ a, ((store.receivedTxs a).map (·.address)).Nodup
  tokenTransfers : ∀ a, ((store.tokenTransfers a).map (·.address)).Nodup

/-- The answers of a database are grouped. -/
theorem Answers.grouped {setup : Setup} {db : Db} (h : store.Answers setup db) : store.Grouped := by
  have hrows : ∀ rows : List (Bytes × TransactionRow × BlockRow),
      (((Grouping.groups rows).map (neighbourRow setup)).map NeighbourRow.address).Nodup := by
    intro rows
    rw [List.map_map]
    exact Grouping.nodup_groups
  refine ⟨fun a => (h.sentTxs a).nodup_map (hrows _), fun a => (h.receivedTxs a).nodup_map
    (hrows _), fun a => (h.tokenTransfers a).nodup_map ?_⟩
  unfold Db.tokenReceivers
  rw [List.map_map]
  exact Grouping.nodup_groups

/-- The end of an edge that was expanded. -/
def owner (key : String × String × RelationshipType) : String :=
  match key with
  | (_, toAddr, .receivedFrom) => toAddr
  | (fromAddr, _, _) => fromAddr

theorem owner_key {a : Bytes} {edge : GraphEdge} (h : edge ∈ store.edgesOf a) :
    owner edge.key = hexText a := by
  rcases mem_edgesOf.mp h with ⟨row, -, rfl⟩ | ⟨row, -, rfl⟩ | ⟨row, -, rfl⟩ <;> rfl

/-- The rows of one answer give edges with distinct keys. -/
theorem nodup_keys_of_rows {ρ : Type} {rows : List ρ} {address : ρ → Bytes} {edge : ρ → GraphEdge}
    {key : Bytes → String × String × RelationshipType} (hkey : ∀ row, (edge row).key =
      key (address row)) (hinj : Function.Injective key) (h : (rows.map address).Nodup) :
    ((rows.map edge).map GraphEdge.key).Nodup := by
  rw [List.map_map, show GraphEdge.key ∘ edge = key ∘ address from funext hkey, ← List.map_map]
  exact h.map hinj

theorem edgesOf_nodup (h : store.Grouped) (a : Bytes) :
    ((store.edgesOf a).map GraphEdge.key).Nodup := by
  have hsent := @nodup_keys_of_rows _ (store.sentTxs a) _ (sentEdge a)
    (fun b => (hexText a, hexText b, .transferredTo)) (fun _ => rfl)
    (fun b c heq => hexText_inj.mp (congrArg (·.2.1) heq)) (h.sentTxs a)
  have hreceived := @nodup_keys_of_rows _ (store.receivedTxs a) _ (receivedEdge a)
    (fun b => (hexText b, hexText a, .receivedFrom)) (fun _ => rfl)
    (fun b c heq => hexText_inj.mp (congrArg (·.1) heq)) (h.receivedTxs a)
  have htokens := @nodup_keys_of_rows _ (store.tokenTransfers a) _ (tokenEdge a)
    (fun b => (hexText a, hexText b, .transferredTokenTo)) (fun _ => rfl)
    (fun b c heq => hexText_inj.mp (congrArg (·.2.1) heq)) (h.tokenTransfers a)
  unfold edgesOf
  rw [List.map_append, List.map_append]
  refine (hsent.append hreceived ?_).append htokens ?_
  -- Edges of different answers have different relationships.
  · intro key hmem hmem'
    simp only [List.mem_map] at hmem hmem'
    obtain ⟨_, ⟨_, _, rfl⟩, rfl⟩ := hmem
    obtain ⟨_, ⟨_, _, rfl⟩, heq⟩ := hmem'
    cases congrArg (·.2.2) heq
  · intro key hmem hmem'
    simp only [List.mem_append, List.mem_map] at hmem hmem'
    obtain ⟨_, ⟨_, _, rfl⟩, rfl⟩ := hmem'
    rcases hmem with ⟨_, ⟨_, _, rfl⟩, heq⟩ | ⟨_, ⟨_, _, rfl⟩, heq⟩ <;>
      cases congrArg (·.2.2) heq

/-- **The edges of addresses** that are expanded once have distinct keys. -/
theorem edges_nodup (h : store.Grouped) {expanded : List Bytes} (hexpanded : expanded.Nodup) :
    ((expanded.flatMap store.edgesOf).map GraphEdge.key).Nodup := by
  rw [List.map_flatMap, List.nodup_flatMap]
  refine ⟨fun a _ => edgesOf_nodup h a, hexpanded.imp fun hne key hmem hmem' => ?_⟩
  obtain ⟨edge, hedge, rfl⟩ := List.mem_map.mp hmem
  obtain ⟨edge', hedge', hkey⟩ := List.mem_map.mp hmem'
  have howner := (owner_key hedge).symm.trans ((congrArg owner hkey).symm.trans (owner_key hedge'))
  exact hne (hexText_inj.mp howner)

end GraphStore

/-! ## Persisting them -/

/-- The row of an edge whose addresses can be decoded, as it is to be inserted. -/
def relationshipRow (edge : GraphEdge) : AddressRelationshipRow where
  fromAddr := (hexDecodeTrimmed edge.fromAddr).getD []
  toAddr := (hexDecodeTrimmed edge.toAddr).getD []
  relationshipType := edge.relationship.lowercase
  interactionCount := edge.count
  totalValue := edge.totalValue
  lastSeen := none

/-- `for edge in &graph.edges { let _ = persist_address_relationship(…).await; }`. -/
def persistEdges (pool : PgPool) (edges : List GraphEdge) : PgPool :=
  edges.foldl (fun pool edge => (persistAddressRelationship pool edge.fromAddr edge.toAddr
    edge.relationship.lowercase edge.count edge.totalValue).2) pool

/-- **Persisting edges** leaves the database, whatever happens to the calls. -/
theorem persistEdges_db (pool : PgPool) (edges : List GraphEdge) :
    (persistEdges pool edges).db = pool.db := by
  induction edges generalizing pool with
  | nil => rfl
  | cons edge edges ih =>
    exact (ih _).trans (persistAddressRelationship_refused _ _ _ _ _ pool).2

/-- A row apart from the time of the last interaction. -/
def AddressRelationshipRow.timeless (row : AddressRelationshipRow) : AddressRelationshipRow :=
  { row with lastSeen := none }

/-- The rows that persisting leaves, apart from their times. -/
def persistedRows (pool : PgPool) (edges : List GraphEdge) : List AddressRelationshipRow :=
  (persistEdges pool edges).db.addressRelationships.map AddressRelationshipRow.timeless

/-- The rows have one of the edge's key, and those that have it have its count. -/
structure HoldsEdge (rows : List AddressRelationshipRow) (edge : GraphEdge) : Prop where
  exists_row : ∃ row ∈ rows, row.key = (relationshipRow edge).key
  row_eq : ∀ row ∈ rows, row.key = (relationshipRow edge).key → row.interactionCount = edge.count

/-- The edges have distinct keys, and persisting them into a table, in any order, leaves the same
rows apart from their times, each edge with its count. -/
structure PersistsEdges (into : Db) (edges : List GraphEdge) : Prop where
  nodup : (edges.map GraphEdge.key).Nodup
  order : ∀ edges', edges'.Perm edges → ∀ pool pool', pool.db = into → pool'.db = into →
    (persistedRows pool edges').Perm (persistedRows pool' edges)
  counts : ∀ edges', edges'.Perm edges → ∀ pool, pool.db = into →
    ∀ edge ∈ edges, HoldsEdge (persistedRows pool edges') edge

theorem holdsEdge_timeless {rows : List AddressRelationshipRow} {edge : GraphEdge} :
    HoldsEdge (rows.map AddressRelationshipRow.timeless) edge ↔ HoldsEdge rows edge := by
  constructor
  · rintro ⟨⟨_, hmem, hkey⟩, hcount⟩
    obtain ⟨row, hrow, rfl⟩ := List.mem_map.mp hmem
    refine ⟨⟨row, hrow, hkey⟩, fun row' hrow' hkey' => ?_⟩
    exact hcount row'.timeless (List.mem_map_of_mem hrow') hkey'
  · rintro ⟨⟨row, hrow, hkey⟩, hcount⟩
    refine ⟨⟨_, List.mem_map_of_mem hrow, hkey⟩, fun row' hrow' hkey' => ?_⟩
    obtain ⟨row, hrow, rfl⟩ := List.mem_map.mp hrow'
    exact hcount row hrow hkey'

/-- **When persisting edges leaves their counts**: the table has them already. -/
theorem persistsEdges_iff {edges : List GraphEdge} (hnd : (edges.map GraphEdge.key).Nodup)
    (into : Db) : PersistsEdges into edges ↔
      ∀ edge ∈ edges, HoldsEdge into.addressRelationships edge := by
  have hrows : ∀ pool edges', pool.db = into → persistedRows pool edges' =
      into.addressRelationships.map AddressRelationshipRow.timeless := by
    intro pool edges' hpool
    rw [persistedRows, persistEdges_db, hpool]
  constructor
  · intro h edge hedge
    have hcount := h.counts edges .rfl ⟨into, [], 0⟩ rfl edge hedge
    rwa [hrows _ _ rfl, holdsEdge_timeless] at hcount
  · refine fun h => ⟨hnd, fun edges' _ pool pool' hpool hpool' => ?_,
      fun edges' _ pool hpool edge hedge => ?_⟩
    · rw [hrows pool edges' hpool, hrows pool' edges hpool']
    · rw [hrows pool edges' hpool, holdsEdge_timeless]
      exact h edge hedge

/-- A table without rows has the counts of no edge. -/
theorem persistsEdges_iff_of_nil {edges : List GraphEdge} (hnd : (edges.map GraphEdge.key).Nodup)
    {into : Db} (hnone : into.addressRelationships = []) :
    PersistsEdges into edges ↔ edges = [] := by
  rw [persistsEdges_iff hnd, hnone]
  constructor
  · intro h
    refine List.eq_nil_iff_forall_not_mem.mpr fun edge hedge => ?_
    obtain ⟨row, hrow, -⟩ := (h edge hedge).exists_row
    cases hrow
  · rintro rfl
    exact List.forall_mem_nil _

/-! ## What an edge counts -/

/-- How many transactions, or token transfers, lead from one address to another. -/
def Db.linkCount (db : Db) (fromAddr toAddr : Bytes) : RelationshipType → ℕ
  | .transferredTokenTo =>
    (db.tokenTransfers.filter fun t => t.fromAddr = fromAddr ∧ t.toAddr = toAddr).length
  | _ =>
    (db.transactionBlocks.filter fun p =>
      p.1.fromAddr = fromAddr ∧ p.1.toAddr = some toAddr).length

/-- The database links the addresses of the edge, as often as the edge counts. -/
def Db.Links (db : Db) (edge : GraphEdge) : Prop :=
  ∃ a b, edge.fromAddr = hexText a ∧ edge.toAddr = hexText b ∧
    edge.count = db.linkCount a b edge.relationship ∧ 0 < db.linkCount a b edge.relationship

/-- The database links the address to none that its graph would show. -/
structure Db.Unlinked (db : Db) (address : Bytes) : Prop where
  sent : ∀ p ∈ db.transactionBlocks, p.1.fromAddr = address → p.1.toAddr = none
  received : ∀ p ∈ db.transactionBlocks, p.1.toAddr ≠ some address
  tokens : ∀ t ∈ db.tokenTransfers, t.fromAddr ≠ address

theorem length_filter_keyed {α κ : Type} [DecidableEq κ] (xs : List α) (key : α → Option κ)
    (k : κ) : ((xs.filterMap fun x => (key x).map (·, x)).filter (·.1 = k)).length =
      (xs.filter fun x => key x = some k).length := by
  induction xs with
  | nil => rfl
  | cons x xs ih => cases hx : key x <;> simp [List.filter_cons, hx, ← ih, apply_ite]

section Answers

variable {store : GraphStore} {setup : Setup} {db : Db}

theorem sentNeighbours_count {a : Bytes} {row : NeighbourRow}
    (h : row ∈ db.sentNeighbours setup a) :
    row.count = db.linkCount a row.address .transferredTo ∧
      0 < db.linkCount a row.address .transferredTo := by
  obtain ⟨group, hgroup, rfl⟩ := List.mem_map.mp h
  obtain ⟨hlength, hpos⟩ := Grouping.length_of_mem_groups hgroup
  have hcount : group.2.length = db.linkCount a group.1 .transferredTo := by
    rw [hlength, length_filter_keyed _ (fun p : TransactionRow × BlockRow => p.1.toAddr),
      List.filter_filter]
    exact congrArg List.length (List.filter_congr fun p _ => by simp [Bool.and_comm])
  exact ⟨congrArg Int.ofNat hcount, hcount ▸ hpos⟩

theorem receivedNeighbours_count {a : Bytes} {row : NeighbourRow}
    (h : row ∈ db.receivedNeighbours setup a) :
    row.count = db.linkCount row.address a .receivedFrom ∧
      0 < db.linkCount row.address a .receivedFrom := by
  obtain ⟨group, hgroup, rfl⟩ := List.mem_map.mp h
  obtain ⟨hlength, hpos⟩ := Grouping.length_of_mem_groups hgroup
  have hcount : group.2.length = db.linkCount group.1 a .receivedFrom := by
    rw [hlength, List.filter_map, List.length_map, List.filter_filter]
    exact congrArg List.length (List.filter_congr fun p _ => by simp)
  exact ⟨congrArg Int.ofNat hcount, hcount ▸ hpos⟩

theorem tokenReceivers_count {a : Bytes} {row : TokenReceiverRow}
    (h : row ∈ db.tokenReceivers a) :
    row.count = db.linkCount a row.address .transferredTokenTo ∧
      0 < db.linkCount a row.address .transferredTokenTo := by
  obtain ⟨group, hgroup, rfl⟩ := List.mem_map.mp h
  obtain ⟨hlength, hpos⟩ := Grouping.length_of_mem_groups hgroup
  have hcount : group.2.length = db.linkCount a group.1 .transferredTokenTo := by
    rw [hlength, List.filter_map, List.length_map, Db.transfersFrom, List.filter_filter]
    exact congrArg List.length (List.filter_congr fun p _ => by simp [Bool.and_comm])
  exact ⟨congrArg Int.ofNat hcount, hcount ▸ hpos⟩

variable (hstore : store.Answers setup db)
include hstore

/-- **Every edge counts what links its addresses.** -/
theorem GraphStore.Answers.edgesOf_linked {a : Bytes} {edge : GraphEdge}
    (h : edge ∈ store.edgesOf a) : db.Links edge := by
  rcases mem_edgesOf.mp h with ⟨row, hrow, rfl⟩ | ⟨row, hrow, rfl⟩ | ⟨row, hrow, rfl⟩
  · exact ⟨a, row.address, rfl, rfl, sentNeighbours_count ((hstore.sentTxs a).mem hrow)⟩
  · exact ⟨row.address, a, rfl, rfl, receivedNeighbours_count ((hstore.receivedTxs a).mem hrow)⟩
  · exact ⟨a, row.address, rfl, rfl, tokenReceivers_count ((hstore.tokenTransfers a).mem hrow)⟩

/-- An address without edges is one without links. -/
theorem GraphStore.Answers.edgesOf_eq_nil_iff {a : Bytes} :
    store.edgesOf a = [] ↔ db.Unlinked a := by
  have hsent : store.sentTxs a = [] ↔ ∀ p ∈ db.transactionBlocks, p.1.fromAddr = a →
      p.1.toAddr = none := by
    rw [(hstore.sentTxs a).eq_nil_iff (by decide), Db.sentNeighbours, List.map_eq_nil_iff,
      Grouping.groups_eq_nil_iff, List.filterMap_eq_nil_iff]
    simp
  have hreceived : store.receivedTxs a = [] ↔ ∀ p ∈ db.transactionBlocks,
      p.1.toAddr ≠ some a := by
    rw [(hstore.receivedTxs a).eq_nil_iff (by decide), Db.receivedNeighbours, List.map_eq_nil_iff,
      Grouping.groups_eq_nil_iff, List.map_eq_nil_iff, List.filter_eq_nil_iff]
    simp
  have htokens : store.tokenTransfers a = [] ↔ ∀ t ∈ db.tokenTransfers, t.fromAddr ≠ a := by
    rw [(hstore.tokenTransfers a).eq_nil_iff (by decide), Db.tokenReceivers, List.map_eq_nil_iff,
      Grouping.groups_eq_nil_iff, List.map_eq_nil_iff, Db.transfersFrom, List.filter_eq_nil_iff]
    simp
  unfold edgesOf
  rw [List.append_eq_nil_iff, List.append_eq_nil_iff, List.map_eq_nil_iff, List.map_eq_nil_iff,
    List.map_eq_nil_iff, hsent, hreceived, htokens]
  exact ⟨fun ⟨⟨h, h'⟩, h''⟩ => ⟨h, h', h''⟩, fun h => ⟨⟨h.sent, h.received⟩, h.tokens⟩⟩

/-- **Whether a graph has edges** is a matter of its centre. -/
theorem GraphStore.Answers.edges_eq_nil_iff {center : Bytes} {depth limit : ℕ} :
    (store.expandedAddrs center depth limit).flatMap store.edgesOf = [] ↔
      depth = 0 ∨ limit = 0 ∨ db.Unlinked center := by
  have hpos : 0 < store.expandedCount center depth limit ↔ 0 < depth ∧ 0 < limit := by
    rw [expandedCount, BreadthFirst.expansions_pos_iff, BreadthFirst.room_some]
  rw [← hstore.edgesOf_eq_nil_iff, List.flatMap_eq_nil_iff]
  constructor
  · intro h
    by_cases hcount : 0 < store.expandedCount center depth limit
    · refine Or.inr (Or.inr (h center ?_))
      obtain ⟨n, hn⟩ := Nat.exists_eq_succ_of_ne_zero (Nat.pos_iff_ne_zero.mp hcount)
      rw [expandedAddrs, hn, Nat.succ_eq_add_one, List.take_succ_cons]
      exact List.mem_cons_self
    · rw [hpos] at hcount
      omega
  · rintro h a ha
    by_cases hcount : 0 < store.expandedCount center depth limit
    · obtain ⟨hdepth, hlimit⟩ := hpos.mp hcount
      have hnil : store.edgesOf center = [] := by
        rcases h with h | h | h
        · omega
        · omega
        · exact h
      -- From a centre without edges nothing is discovered.
      have hneighbours : store.neighbours center = [] := by
        simp only [edgesOf, List.append_eq_nil_iff, List.map_eq_nil_iff] at hnil
        simp [neighbours, hnil.1.1, hnil.1.2]
      rw [expandedAddrs, discovered, BreadthFirst.discovery_eq_nil hneighbours] at ha
      rw [List.mem_singleton.mp (List.mem_of_mem_take ha), hnil]
    · rw [expandedAddrs, Nat.eq_zero_of_not_pos hcount] at ha
      cases ha

end Answers

/-! ## The edges of the traversal -/

/-- **The graph of a store** has the edges of the addresses that are expanded. -/
theorem buildGraph_edges (store : GraphStore) {address : String} {center : Bytes}
    (haddress : hexDecodeTrimmed address = some center) (depth limit : ℕ) {fuel : ℕ}
    (hfuel : limit + 2 ≤ fuel) :
    ∃ graph, buildGraph store.queries depth limit address fuel = some (.ok graph) ∧
      graph.edges = (store.expandedAddrs center depth limit).flatMap store.edgesOf := by
  obtain ⟨s, hfinished, hgraph⟩ := @GraphStore.buildGraph_finished store center depth limit address
    haddress fuel hfuel
  refine ⟨_, hgraph, ?_⟩
  show s.expanded.flatMap store.edgesOf = _
  rw [hfinished.expanded]
  rfl

theorem GraphStore.graphEdges_nodup {store : GraphStore} (hstore : store.Grouped) (center : Bytes)
    (depth limit : ℕ) :
    (((store.expandedAddrs center depth limit).flatMap store.edgesOf).map GraphEdge.key).Nodup :=
  edges_nodup hstore (BreadthFirst.nodup_order.sublist (List.take_sublist _ _))

/-- **When persisting the edges of a graph leaves their counts.** The edges have distinct keys, and
each counts the links of its addresses, and persisting them in any order leaves the same rows. But a
table has their counts afterwards exactly if it had them before. One without rows does exactly if
there is nothing to persist. -/
theorem buildGraph_persistsEdges_iff {setup : Setup} {db : Db} {store : GraphStore}
    (hstore : store.Answers setup db) {address : String} {center : Bytes}
    (haddress : hexDecodeTrimmed address = some center) (depth limit : ℕ) {fuel : ℕ}
    (hfuel : limit + 2 ≤ fuel) :
    ∃ graph, buildGraph store.queries depth limit address fuel = some (.ok graph) ∧
      (graph.edges.map GraphEdge.key).Nodup ∧ (∀ edge ∈ graph.edges, db.Links edge) ∧
      (∀ pool edges, (persistEdges pool edges).db = pool.db) ∧
      (∀ into, PersistsEdges into graph.edges ↔
        ∀ a ∈ store.expandedAddrs center depth limit, ∀ edge ∈ store.edgesOf a,
          HoldsEdge into.addressRelationships edge) ∧
      ∀ into, into.addressRelationships = [] →
        (PersistsEdges into graph.edges ↔ depth = 0 ∨ limit = 0 ∨ db.Unlinked center) := by
  obtain ⟨graph, hgraph, hedges⟩ := buildGraph_edges store haddress depth limit hfuel
  have hnd : (graph.edges.map GraphEdge.key).Nodup := by
    rw [hedges]
    exact GraphStore.graphEdges_nodup hstore.grouped center depth limit
  refine ⟨graph, hgraph, hnd, fun edge hedge => ?_, persistEdges_db, fun into => ?_,
    fun into hnone => ?_⟩
  · rw [hedges] at hedge
    obtain ⟨a, -, hedge⟩ := List.mem_flatMap.mp hedge
    exact hstore.edgesOf_linked hedge
  · rw [persistsEdges_iff hnd, hedges]
    simp only [List.mem_flatMap, forall_exists_index, and_imp]
    exact ⟨fun h a ha edge hedge => h edge a ha hedge, fun h edge a ha hedge => h a ha edge hedge⟩
  · rw [persistsEdges_iff_of_nil hnd hnone, ← hstore.edges_eq_nil_iff, ← hedges]

namespace Links

/-- The edges of the triangle are persisted into a table that has them. -/
theorem triangle_persistsEdges_iff : ∃ graph,
    buildGraph triangle.queries 2 5 "0x01" 7 = some (.ok graph) ∧
      (graph.edges.map GraphEdge.key).Nodup ∧
      (∀ edge ∈ graph.edges, (db [([1], [2]), ([1], [3]), ([2], [1])]).Links edge) ∧
      (∀ pool edges, (persistEdges pool edges).db = pool.db) ∧
      (∀ into, PersistsEdges into graph.edges ↔
        ∀ a ∈ triangle.expandedAddrs [1] 2 5, ∀ edge ∈ triangle.edgesOf a,
          HoldsEdge into.addressRelationships edge) ∧
      ∀ into, into.addressRelationships = [] →
        (PersistsEdges into graph.edges ↔
          2 = 0 ∨ 5 = 0 ∨ (db [([1], [2]), ([1], [3]), ([2], [1])]).Unlinked [1]) :=
  buildGraph_persistsEdges_iff (Db.graphStore_answers setup _)
    (by decide : hexDecodeTrimmed "0x01" = some [1]) 2 5 (by decide)

/-- Its own database has no row for the edges, and gets none. -/
theorem triangle_edges_lost : ∃ graph,
    buildGraph triangle.queries 2 5 "0x01" 7 = some (.ok graph) ∧ graph.edges ≠ [] ∧
      (∀ edges, persistedRows ⟨db [([1], [2]), ([1], [3]), ([2], [1])], [], 0⟩ edges = []) ∧
      ¬ PersistsEdges (db [([1], [2]), ([1], [3]), ([2], [1])]) graph.edges := by
  have hstore := Db.graphStore_answers setup (db [([1], [2]), ([1], [3]), ([2], [1])])
  obtain ⟨graph, hgraph, hedges⟩ := @buildGraph_edges triangle "0x01" [1] (by decide) 2 5 7
    (by decide)
  have hne : graph.edges ≠ [] := by
    rw [hedges]
    intro hnil
    rcases hstore.edges_eq_nil_iff.mp hnil with h | h | h
    · cases h
    · cases h
    · exact h.received (transactionRow 2 [2] [1], blockRow) (by decide) rfl
  refine ⟨graph, hgraph, hne, fun edges => ?_, fun hpersists => hne ?_⟩
  · rw [persistedRows, persistEdges_db]
    rfl
  · refine (persistsEdges_iff_of_nil ?_ rfl).mp hpersists
    rw [hedges]
    exact GraphStore.graphEdges_nodup hstore.grouped [1] 2 5

end Links

/-! ## The handler -/

namespace Api

structure GraphQuery where
  depth : Option ℕ
  limit : Option ℕ

/-- The reply of `get_address_graph` and the pool it leaves, unless the traversal needs more than
`fuel` rounds. -/
def getAddressGraph (queries : GraphQueries) (pool : PgPool) (address : String)
    (query : GraphQuery) (fuel : ℕ) : Option (Except HandlerError AddressGraph × PgPool) :=
  let depth := min (query.depth.getD 2) 5
  let limit := min (query.limit.getD 50) 200
  (buildGraph queries depth limit address fuel).map fun r =>
    match r with
    | .ok graph => (.ok graph, persistEdges pool graph.edges)
    | .error _ => (.error .internalServerError, pool)

/-- **The handler** replies a graph, and leaves the database. -/
theorem getAddressGraph_same (store : GraphStore) {address : String} {center : Bytes}
    (haddress : hexDecodeTrimmed address = some center) (query : GraphQuery) {fuel : ℕ}
    (hfuel : 202 ≤ fuel) (pool : PgPool) :
    ∃ graph pool', getAddressGraph store.queries pool address query fuel = some (.ok graph, pool') ∧
      pool'.db = pool.db := by
  obtain ⟨graph, hgraph, -⟩ := @buildGraph_edges store address center haddress
    (min (query.depth.getD 2) 5) (min (query.limit.getD 50) 200) fuel (by omega)
  refine ⟨graph, _, ?_, persistEdges_db pool graph.edges⟩
  simp only [getAddressGraph, hgraph, Option.map_some]

end Api

end ChainLens
