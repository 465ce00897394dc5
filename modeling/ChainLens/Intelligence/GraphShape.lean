import ChainLens.Intelligence.Graph

/-!
# The shape of a graph

A graph is well formed if its edges end in its nodes or the centre and its depth is that of its
farthest node. The traversal adds an edge for every row it visits, also when the address does not
become a node, and it takes the depth from what is left in the queue.

## Main definitions

* `AddressGraph.WellFormed`: the edges and the depth fit the nodes
* `GraphStore.expandedAddrs`, `GraphStore.counterparties`: the addresses that are expanded, and
  those they sent to or received from

## Main results

* `buildGraph_wellFormed_iff`: which graphs are well formed
-/

namespace ChainLens

open BreadthFirst (State Finished)

namespace AddressGraph

/-- The depth is the greatest distance of a node, and zero without nodes. -/
structure DepthFits (store : GraphStore) (center : Bytes) (graph : AddressGraph) : Prop where
  of_nil : graph.nodes = [] → graph.depthReached = 0
  attained : graph.nodes ≠ [] → ∃ a,
    hexText a ∈ graph.nodes.map (·.address) ∧ store.Distance center graph.depthReached a
  le : ∀ a n, hexText a ∈ graph.nodes.map (·.address) → store.Distance center n a →
    n ≤ graph.depthReached

/-- Every edge is between addresses of the graph, and the depth fits. -/
structure WellFormed (store : GraphStore) (center : Bytes) (graph : AddressGraph) : Prop where
  endpoints : ∀ edge ∈ graph.edges,
    edge.fromAddr ∈ hexText center :: graph.nodes.map (·.address) ∧
      edge.toAddr ∈ hexText center :: graph.nodes.map (·.address)
  depth : graph.DepthFits store center

end AddressGraph

namespace GraphStore

variable (store : GraphStore) (center : Bytes) (depth limit : ℕ)

/-- How many addresses are expanded: those nearer than the depth, up to the first one before which
as many counterparties are known as the limit allows. -/
def expandedCount : ℕ :=
  BreadthFirst.expansions Neighbour.address store.neighbours (some limit) depth center

/-- The addresses that are expanded, in the order of discovery. -/
def expandedAddrs : List Bytes :=
  (center :: store.discovered center depth).take (store.expandedCount center depth limit)

/-- The addresses other than the centre that the expanded ones sent to or received from. -/
def counterparties : List Bytes :=
  (BreadthFirst.fresh Neighbour.address [center]
    ((store.expandedAddrs center depth limit).flatMap store.neighbours)).map Neighbour.address

/-- The counterparties are no more than the limit allows, tokens were sent to none but them and
the centre, and some of them are still queued when the traversal stops, if there are any. -/
structure Contained : Prop where
  length_le : (store.counterparties center depth limit).length ≤ limit
  tokens : ∀ a ∈ store.expandedAddrs center depth limit, ∀ row ∈ store.tokenTransfers a,
    row.address ∈ center :: store.counterparties center depth limit
  queued : store.counterparties center depth limit = [] ∨
    store.expandedCount center depth limit < (store.counterparties center depth limit).length

variable {store center depth limit}

theorem mem_counterparties {a : Bytes} : a ∈ store.counterparties center depth limit ↔
    (∃ b ∈ store.expandedAddrs center depth limit, ∃ n ∈ store.neighbours b, n.address = a) ∧
      a ≠ center := by
  unfold counterparties
  rw [BreadthFirst.mem_map_fresh, List.mem_singleton, List.mem_map]
  simp only [List.mem_flatMap]
  grind

/-- The addresses of the nodes, as the edges have them. -/
theorem map_node_address (found : List Neighbour) :
    (found.map store.node).map (·.address) = (found.map Neighbour.address).map hexText := by
  rw [List.map_map, List.map_map]
  exact List.map_congr_left fun n _ => node_address n

/-! ## The edges -/

/-- Edges of addresses in a list end in the list, if the counterparties and the recipients of
tokens are in it. -/
theorem endpoints_iff {expanded known : List Bytes} (hexpanded : expanded ⊆ known) :
    (∀ edge ∈ expanded.flatMap store.edgesOf,
      edge.fromAddr ∈ known.map hexText ∧ edge.toAddr ∈ known.map hexText) ↔
    (∀ a ∈ expanded, ∀ n ∈ store.neighbours a, n.address ∈ known) ∧
      ∀ a ∈ expanded, ∀ row ∈ store.tokenTransfers a, row.address ∈ known := by
  have hmem : ∀ {a : Bytes}, hexText a ∈ known.map hexText ↔ a ∈ known :=
    List.mem_map_of_injective fun _ _ => hexText_inj.mp
  constructor
  · intro hedges
    have hedge : ∀ a ∈ expanded, ∀ edge ∈ store.edgesOf a, _ :=
      fun a ha edge hedge => hedges edge (List.mem_flatMap_of_mem ha hedge)
    refine ⟨fun a ha n hn => ?_, fun a ha row hrow => ?_⟩
    · rcases mem_neighbours.mp hn with ⟨row, hrow, rfl⟩ | ⟨row, hrow, rfl⟩
      · exact hmem.mp (hedge a ha _ (mem_edgesOf.mpr (.inl ⟨row, hrow, rfl⟩))).2
      · exact hmem.mp (hedge a ha _ (mem_edgesOf.mpr (.inr (.inl ⟨row, hrow, rfl⟩)))).1
    · exact hmem.mp (hedge a ha _ (mem_edgesOf.mpr (.inr (.inr ⟨row, hrow, rfl⟩)))).2
  · rintro ⟨hneighbours, htokens⟩ edge hedge
    obtain ⟨a, ha, hedge⟩ := List.mem_flatMap.mp hedge
    have hself := hmem.mpr (hexpanded ha)
    rcases mem_edgesOf.mp hedge with ⟨row, hrow, rfl⟩ | ⟨row, hrow, rfl⟩ | ⟨row, hrow, rfl⟩
    · exact ⟨hself,
        hmem.mpr (hneighbours a ha _ (mem_neighbours.mpr (.inl ⟨row, hrow, rfl⟩)))⟩
    · exact ⟨hmem.mpr (hneighbours a ha _ (mem_neighbours.mpr (.inr ⟨row, hrow, rfl⟩))), hself⟩
    · exact ⟨hself, hmem.mpr (htokens a ha row hrow)⟩

section Finished

variable {s : State Bytes Neighbour}
  (h : Finished Neighbour.address store.neighbours (some limit) depth center s)
include h

theorem found_eq_take :
    s.found.map Neighbour.address = (store.counterparties center depth limit).take limit := by
  rw [h.found_known, counterparties, ← List.map_take]
  rfl

/-- The counterparties become nodes if the limit leaves room for all of them. -/
theorem neighbours_found_iff :
    (∀ a ∈ s.expanded, ∀ n ∈ store.neighbours a, n.address ∈ center :: s.found.map
      Neighbour.address) ↔ (store.counterparties center depth limit).length ≤ limit := by
  have hexpanded : s.expanded = store.expandedAddrs center depth limit := h.expanded
  rw [hexpanded, found_eq_take h]
  constructor
  · intro hclosed
    have hsubset : store.counterparties center depth limit ⊆
        (store.counterparties center depth limit).take limit := by
      intro a ha
      obtain ⟨⟨b, hb, n, hn, rfl⟩, hne⟩ := mem_counterparties.mp ha
      exact (List.mem_cons.mp (hclosed b hb n hn)).resolve_left hne
    have hle := (List.subperm_of_subset BreadthFirst.nodup_map_fresh hsubset).length_le
    rw [List.length_take] at hle
    exact hle.trans (Nat.min_le_left _ _)
  · intro hle a ha n hn
    rw [List.take_of_length_le hle, List.mem_cons, mem_counterparties]
    exact or_iff_not_imp_left.mpr fun hne => ⟨⟨a, ha, n, hn, rfl⟩, hne⟩

/-! ## The depth -/

theorem depthFits_iff {graph : AddressGraph} (hnodes : graph.nodes = s.found.map store.node)
    (hdepth : graph.depthReached = min depth (currentDepth s.queue)) :
    graph.DepthFits store center ↔
      s.found = [] ∨ store.expandedCount center depth limit < s.found.length := by
  have hmem : ∀ {a : Bytes}, hexText a ∈ graph.nodes.map (·.address) ↔
      a ∈ s.found.map Neighbour.address := by
    rw [hnodes, map_node_address]
    exact List.mem_map_of_injective fun _ _ => hexText_inj.mp
  have hnil : graph.nodes = [] ↔ s.found = [] := by rw [hnodes, List.map_eq_nil_iff]
  have hqueue : s.queue.length = s.found.length - store.expandedCount center depth limit :=
    h.length_queue
  cases hlast : s.queue.getLast? with
  | none =>
    -- With nothing left in the queue the depth is zero, and no node is that near.
    have hzero : graph.depthReached = 0 := by
      rw [hdepth, currentDepth, hlast]
      exact Nat.min_zero _
    rw [List.getLast?_eq_none_iff.mp hlast, List.length_nil] at hqueue
    constructor
    · intro hfits
      refine Or.inl (hnil.mp (by_contra fun hne => ?_))
      obtain ⟨a, ha, hdist⟩ := hfits.attained hne
      rw [hmem, h.found] at ha
      obtain ⟨n, hn, -, hdist'⟩ := BreadthFirst.mem_discovery.mp
        ((BreadthFirst.cut_prefix.map _).subset ha)
      have hzero := hzero ▸ hdist.unique hdist'
      omega
    · rintro (hfound | hlt)
      · refine ⟨fun _ => hzero, fun hne => absurd (hnil.mpr hfound) hne, fun a n ha => ?_⟩
        rw [hmem, hfound] at ha
        cases ha
      · omega
  | some p =>
    obtain ⟨hfound, hdist, hle, hgreatest⟩ := h.getLast hlast
    have hreached : graph.depthReached = p.2 := by
      rw [hdepth, currentDepth, hlast]
      exact Nat.min_eq_right hle
    have hne : s.found ≠ [] := fun hnil => by
      rw [hnil] at hfound
      cases hfound
    constructor
    · intro _
      have hpos := List.length_pos_of_mem (List.mem_of_getLast? hlast)
      exact Or.inr (by omega)
    · intro _
      refine ⟨fun hnodes => absurd (hnil.mp hnodes) hne, fun _ => ⟨p.1, hmem.mpr hfound, ?_⟩, ?_⟩
      · rw [hreached]
        exact hdist
      · intro a n ha hn
        rw [hreached]
        exact hgreatest a (hmem.mp ha) n hn

end Finished

end GraphStore

open GraphStore in
/-- **Which graphs are well formed**: those whose traversal finds room for every counterparty of an
address it expands, meets no other recipient of tokens, and stops before the queue is used up. -/
theorem buildGraph_wellFormed_iff (store : GraphStore) {address : String} {center : Bytes}
    (haddress : hexDecodeTrimmed address = some center) (depth limit : ℕ) {fuel : ℕ}
    (hfuel : limit + 2 ≤ fuel) :
    ∃ graph, buildGraph store.queries depth limit address fuel = some (.ok graph) ∧
      (graph.WellFormed store center ↔ store.Contained center depth limit) := by
  obtain ⟨s, hfinished, hgraph⟩ := @buildGraph_finished store center depth limit address haddress
    fuel hfuel
  refine ⟨_, hgraph, ?_⟩
  have hends := @endpoints_iff store s.expanded (center :: s.found.map Neighbour.address)
    hfinished.expanded_prefix.subset
  rw [neighbours_found_iff hfinished, List.map_cons, ← map_node_address] at hends
  have hexpanded : s.expanded = store.expandedAddrs center depth limit := hfinished.expanded
  have hdepth : (addressGraph depth address (store.render center (s.expanded.flatMap store.edgesOf)
      s)).DepthFits store center ↔ _ := depthFits_iff hfinished rfl rfl
  -- With room for all of them, the counterparties are the nodes.
  have hfound : (store.counterparties center depth limit).length ≤ limit →
      s.found.map Neighbour.address = store.counterparties center depth limit := fun hle => by
    rw [found_eq_take hfinished, List.take_of_length_le hle]
  have hqueued : (store.counterparties center depth limit).length ≤ limit →
      ((s.found = [] ∨ store.expandedCount center depth limit < s.found.length) ↔
        (store.counterparties center depth limit = [] ∨
          store.expandedCount center depth limit <
            (store.counterparties center depth limit).length)) := fun hle => by
    rw [← hfound hle, List.map_eq_nil_iff, List.length_map]
  constructor
  · rintro ⟨hedges, hfits⟩
    obtain ⟨hle, htokens⟩ := hends.mp hedges
    rw [hfound hle, hexpanded] at htokens
    exact ⟨hle, htokens, (hqueued hle).mp (hdepth.mp hfits)⟩
  · rintro ⟨hle, htokens, hleft⟩
    refine ⟨hends.mpr ⟨hle, ?_⟩, hdepth.mpr ((hqueued hle).mpr hleft)⟩
    rw [hfound hle, hexpanded]
    exact htokens

/-! ## Graphs of the triangle -/

namespace Links

theorem triangle_wellFormed_iff : ∃ graph,
    buildGraph triangle.queries 1 5 "0x01" 7 = some (.ok graph) ∧
      (graph.WellFormed triangle [1] ↔ triangle.Contained [1] 1 5) :=
  buildGraph_wellFormed_iff triangle (by decide) 1 5 (by decide)

/-- With room for one node, an edge leads to an address that is none. -/
theorem triangle_not_wellFormed : ∃ graph,
    buildGraph triangle.queries 1 1 "0x01" 3 = some (.ok graph) ∧
      ¬ graph.WellFormed triangle [1] := by
  refine ⟨_, rfl, fun h => ?_⟩
  have hends := h.endpoints (sentEdge [1] ⟨[3], 1, "0", some "2024-01-01 00:00:00+00",
    some "2024-01-01 00:00:00+00"⟩) (by decide +kernel)
  exact absurd hends.2 (by decide +kernel)

/-- When every address in reach has been expanded, nothing is left to read the depth from. -/
example : ∃ graph, buildGraph triangle.queries 2 5 "0x01" 7 = some (.ok graph) ∧
    graph.nodes ≠ [] ∧ graph.depthReached = 0 :=
  ⟨_, rfl, by decide +kernel, by decide +kernel⟩

end Links

end ChainLens
