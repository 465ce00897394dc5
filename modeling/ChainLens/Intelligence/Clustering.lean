import ChainLens.Api.Handlers
import ChainLens.Intelligence.Graph
import Mathlib.Algebra.BigOperators.Ring.Finset
import Mathlib.Algebra.Order.BigOperators.Group.List

/-!
# The cluster of an address

The cluster of an address are the addresses it has dealt with at least three times, directly or
through others, up to a depth. Each address that is expanded is asked for the ten addresses it sent
to most often and the ten it received from most often.

## Main definitions

* `ClusterQueries`, `ClusterStore`: the answers to the queries, with and without errors
* `ClusterStore.Answers`: the answers are those of a database
* `findClusters`: the traversal
* `ClusterStore.IsBall`: what the cluster should be

## Main results

* `clusterLoop_search`: the traversal is a breadth-first search without a limit
* `fits_discovery`: no transaction is counted twice
* `findClusters_ball`: the cluster is the ball around the address
-/

namespace ChainLens

structure AddressCluster where
  clusterId : Int
  addresses : List String
  totalInteractions : Int
  firstSeen : Option String
  lastSeen : Option String
  clusterType : String
deriving DecidableEq

/-! ## The queries -/

structure ClusterRow where
  address : Bytes
  cnt : Int
deriving DecidableEq

/-- The replies to the queries. Those for related addresses are not made twice for an address. -/
structure ClusterQueries where
  related : Bytes → Except QueryError (List ClusterRow)
  relatedFrom : Bytes → Except QueryError (List ClusterRow)
  firstLast : Bytes → Except QueryError (Option String × Option String)

/-- The answers of a database that serves every query. -/
structure ClusterStore where
  related : Bytes → List ClusterRow
  relatedFrom : Bytes → List ClusterRow
  firstLast : Bytes → Option String × Option String

def ClusterStore.queries (store : ClusterStore) : ClusterQueries where
  related address := .ok (store.related address)
  relatedFrom address := .ok (store.relatedFrom address)
  firstLast address := .ok (store.firstLast address)

namespace Db

/-- The groups with at least three transactions. -/
def clusterRows (rows : List (Bytes × TransactionRow)) : List ClusterRow :=
  ((Grouping.groups rows).filter (3 ≤ ·.2.length)).map fun group => ⟨group.1, group.2.length⟩

/-- The transactions an address sent, by their recipient. -/
def relatedTo (address : Bytes) (db : Db) : List ClusterRow :=
  clusterRows ((db.sentBy address).filterMap fun tx => tx.toAddr.map (·, tx))

/-- The transactions an address received, by their sender. -/
def relatedFrom (address : Bytes) (db : Db) : List ClusterRow :=
  clusterRows ((db.receivedBy address).map fun tx => (tx.fromAddr, tx))

end Db

/-- The answers are those of a database. In `ORDER BY cnt DESC` groups of one count come in any
order. -/
structure ClusterStore.Answers (store : ClusterStore) (setup : Setup) (db : Db) : Prop where
  related : ∀ address, Grouping.IsTop ClusterRow.cnt 10 (db.relatedTo address)
    (store.related address)
  relatedFrom : ∀ address, Grouping.IsTop ClusterRow.cnt 10 (db.relatedFrom address)
    (store.relatedFrom address)
  firstLast : ∀ address, store.firstLast address = selectFirstLast setup address db

/-- The answers in which groups of one count stay in their order. -/
def Db.clusterStore (setup : Setup) (db : Db) : ClusterStore where
  related address := Grouping.top ClusterRow.cnt 10 (db.relatedTo address)
  relatedFrom address := Grouping.top ClusterRow.cnt 10 (db.relatedFrom address)
  firstLast address := selectFirstLast setup address db

theorem Db.clusterStore_answers (setup : Setup) (db : Db) :
    (db.clusterStore setup).Answers setup db where
  related _ := Grouping.isTop_top _
  relatedFrom _ := Grouping.isTop_top _
  firstLast _ := rfl

/-! ## The traversal -/

structure ClusterState where
  visited : List Bytes
  queue : List (Bytes × Int)
  addresses : List String
  totalInteractions : Int

/-- The sum of two `i64`. -/
def addI64 (setup : Setup) (a b : Int) : Except (Fault QueryError) Int :=
  if -(i64Max + 1) ≤ a + b ∧ a + b ≤ i64Max then .ok (a + b)
  else if setup.overflowChecks then .error (.panic "attempt to add with overflow")
  else .ok ((a + b).bmod (2 * (i64Max + 1)))

section Build

variable (setup : Setup) (queries : ClusterQueries) (maxDepth : Int)

/-- One row of either query. -/
def visitRelated (depth : Int) (s : ClusterState) (row : ClusterRow) :
    Except (Fault QueryError) ClusterState :=
  if row.address ∈ s.visited then .ok s
  else
    (addI64 setup s.totalInteractions row.cnt).map fun totalInteractions => {
      visited := s.visited ++ [row.address]
      queue := s.queue ++ [(row.address, depth + 1)]
      addresses := s.addresses ++ [hexText row.address]
      totalInteractions }

/-- The body of the loop after the check of the depth. -/
def expandRelated (currentAddr : Bytes) (depth : Int) (s : ClusterState) :
    Except (Fault QueryError) ClusterState := do
  let related ← (queries.related currentAddr).mapError .error
  let s ← related.foldlM (visitRelated setup depth) s
  let relatedFrom ← (queries.relatedFrom currentAddr).mapError .error
  relatedFrom.foldlM (visitRelated setup depth) s

/-- The loop, for at most `fuel` rounds. -/
def clusterLoop : ℕ → ClusterState → Option (Except (Fault QueryError) ClusterState)
  | 0, _ => none
  | fuel + 1, s =>
    match s.queue with
    | [] => some (.ok s)
    | (currentAddr, depth) :: queue =>
      if maxDepth ≤ depth then some (.ok { s with queue })
      else
        match expandRelated setup queries currentAddr depth { s with queue } with
        | .error e => some (.error e)
        | .ok s => clusterLoop fuel s

def clusterType (addresses : ℕ) : String :=
  if 10 < addresses then "large_cluster"
  else if 5 < addresses then "medium_cluster"
  else "small_cluster"

def addressCluster (s : ClusterState) (firstLast : Option String × Option String) :
    AddressCluster where
  clusterId := 0
  addresses := s.addresses
  totalInteractions := s.totalInteractions
  firstSeen := firstLast.1
  lastSeen := firstLast.2
  clusterType := clusterType s.addresses.length

/-- The cluster, unless the loop needs more than `fuel` rounds. -/
def findClusters (address : String) (fuel : ℕ) :
    Option (Except (Fault QueryError) AddressCluster) :=
  match hexDecodeTrimmed address with
  | none => some (.error (.error (.sql (.protocol "invalid address"))))
  | some addrBytes =>
    (clusterLoop setup queries maxDepth fuel ⟨[addrBytes], [(addrBytes, 0)], [address], 0⟩).map
      fun r => do
        let s ← r
        let firstLast ← (queries.firstLast addrBytes).mapError .error
        return addressCluster s firstLast

end Build

/-! ## The traversal as a search -/

/-- A row with the address that it was asked for, and whether that one sent. -/
structure ClusterLink where
  owner : Bytes
  sent : Bool
  row : ClusterRow

namespace ClusterLink

def address (link : ClusterLink) : Bytes := link.row.address

/-- Whether a transaction is one of those that the row counts. -/
def Counts (link : ClusterLink) (tx : TransactionRow) : Bool :=
  match link.sent with
  | true => tx.fromAddr = link.owner ∧ tx.toAddr = some link.address
  | false => tx.fromAddr = link.address ∧ tx.toAddr = some link.owner

theorem counts_sent {owner : Bytes} {row : ClusterRow} {tx : TransactionRow} :
    Counts ⟨owner, true, row⟩ tx ↔ tx.fromAddr = owner ∧ tx.toAddr = some row.address :=
  decide_eq_true_iff

theorem counts_received {owner : Bytes} {row : ClusterRow} {tx : TransactionRow} :
    Counts ⟨owner, false, row⟩ tx ↔ tx.fromAddr = row.address ∧ tx.toAddr = some owner :=
  decide_eq_true_iff

end ClusterLink

namespace ClusterStore

variable (store : ClusterStore)

/-- The rows of an address in the order in which they are visited. -/
def links (address : Bytes) : List ClusterLink :=
  (store.related address).map (⟨address, true, ·⟩) ++
    (store.relatedFrom address).map (⟨address, false, ·⟩)

/-- The state of the loop for a state of the search. -/
def render (center : Bytes) (address : String) (s : BreadthFirst.State Bytes ClusterLink) :
    ClusterState where
  visited := center :: s.found.map ClusterLink.address
  queue := s.queue.map fun p => (p.1, (p.2 : Int))
  addresses := address :: s.found.map (hexText ·.address)
  totalInteractions := (s.found.map (·.row.cnt)).sum

variable {store} {setup : Setup} {center : Bytes} {address : String} {currentAddr : Bytes} {d : ℕ}
  {s : BreadthFirst.State Bytes ClusterLink}

/-- The counts are no less than zero, and their sum is an `i64`. -/
def Fits (found : List ClusterLink) : Prop :=
  (∀ link ∈ found, 0 ≤ link.row.cnt) ∧ (found.map (·.row.cnt)).sum ≤ i64Max

theorem Fits.of_prefix {found found' : List ClusterLink} (h : Fits found')
    (hpre : found <+: found') : Fits found := by
  obtain ⟨rest, rfl⟩ := hpre
  refine ⟨fun link hlink => h.1 link (List.mem_append_left _ hlink), ?_⟩
  have hrest : 0 ≤ (rest.map (·.row.cnt)).sum := by
    refine List.sum_nonneg fun n hn => ?_
    obtain ⟨link, hlink, rfl⟩ := List.mem_map.mp hn
    exact h.1 link (List.mem_append_right _ hlink)
  have hsum := h.2
  rw [List.map_append, List.sum_append] at hsum
  omega

theorem visitRelated_render (link : ClusterLink)
    (hfits : Fits (BreadthFirst.offer ClusterLink.address none center (d + 1) s link).found) :
    visitRelated setup d (render center address s) link.row =
      .ok (render center address
        (BreadthFirst.offer ClusterLink.address none center (d + 1) s link)) := by
  unfold visitRelated
  by_cases hmem : link.address ∈ center :: s.found.map ClusterLink.address
  · rw [BreadthFirst.offer_of_skip (Or.inl hmem)]
    exact if_pos hmem
  · rw [BreadthFirst.offer_of_new hmem (BreadthFirst.room_none _)] at hfits ⊢
    have hsum : (s.found.map (·.row.cnt)).sum + link.row.cnt =
        ((s.found ++ [link]).map (·.row.cnt)).sum := by simp
    have hnonneg : 0 ≤ ((s.found ++ [link]).map (·.row.cnt)).sum := by
      refine List.sum_nonneg fun n hn => ?_
      obtain ⟨link', hlink, rfl⟩ := List.mem_map.mp hn
      exact hfits.1 link' hlink
    have hadd : addI64 setup (s.found.map (·.row.cnt)).sum link.row.cnt =
        .ok ((s.found ++ [link]).map (·.row.cnt)).sum := by
      rw [addI64, hsum]
      exact if_pos ⟨by omega, hfits.2⟩
    refine (if_neg hmem).trans ?_
    simp only [render, hadd, Except.map]
    simp [ClusterLink.address]

/-- A loop over rows is a loop of the search. -/
theorem foldlM_visitRelated (links : List ClusterLink) (hfits : Fits
    (links.foldl (BreadthFirst.offer ClusterLink.address none center (d + 1)) s).found) :
    (links.map (·.row)).foldlM (visitRelated setup d) (render center address s) =
      .ok (render center address
        (links.foldl (BreadthFirst.offer ClusterLink.address none center (d + 1)) s)) := by
  induction links generalizing s with
  | nil => rfl
  | cons link links ih =>
    rw [List.map_cons, List.foldlM_cons,
      visitRelated_render link (hfits.of_prefix (BreadthFirst.found_prefix_foldl links))]
    exact ih hfits

/-- **One expansion** of the loop is one of the search. -/
theorem expandRelated_render (hfits : Fits (BreadthFirst.expand ClusterLink.address store.links none
    center currentAddr d s).found) :
    expandRelated setup store.queries currentAddr d (render center address s) =
      .ok (render center address
        (BreadthFirst.expand ClusterLink.address store.links none center currentAddr d s)) := by
  unfold BreadthFirst.expand links at hfits ⊢
  rw [List.foldl_append] at hfits ⊢
  have hsent := @foldlM_visitRelated setup center address d
    { s with expanded := s.expanded ++ [currentAddr] } _
    (hfits.of_prefix (BreadthFirst.found_prefix_foldl _))
  have hreceived := @foldlM_visitRelated setup center address d _ _ hfits
  simp only [List.map_map, Function.comp_def, List.map_id'] at hsent hreceived
  unfold expandRelated
  refine Except.bind_eq_ok_iff.mpr ⟨store.related currentAddr, rfl, ?_⟩
  refine Except.bind_eq_ok_iff.mpr ⟨_, hsent, ?_⟩
  refine Except.bind_eq_ok_iff.mpr ⟨store.relatedFrom currentAddr, rfl, ?_⟩
  exact hreceived

/-- **The loop is a search**, rendered, if what is found in the end fits. -/
theorem clusterLoop_search {maxDepth : Int} {fuel : ℕ} {s' : BreadthFirst.State Bytes ClusterLink}
    (hsearch : BreadthFirst.search ClusterLink.address store.links none maxDepth.toNat center fuel
      s = some s') (hfits : Fits s'.found) :
    clusterLoop setup store.queries maxDepth fuel (render center address s) =
      some (.ok (render center address s')) := by
  induction fuel generalizing s with
  | zero => cases hsearch
  | succ fuel ih =>
    unfold clusterLoop
    cases hqueue : s.queue with
    | nil =>
      rw [BreadthFirst.search_of_nil hqueue] at hsearch
      cases hsearch
      simp only [render, hqueue, List.map_nil]
    | cons p rest =>
      obtain ⟨a, d⟩ := p
      have hroom := BreadthFirst.room_none s.found.length
      by_cases hdepth : maxDepth.toNat ≤ d
      · rw [BreadthFirst.search_of_stop hqueue (Or.inl hdepth)] at hsearch
        cases hsearch
        have hdepth : maxDepth ≤ d := Int.toNat_le.mp hdepth
        simp only [render, hqueue, List.map_cons, if_pos hdepth]
      · have hgo : ¬ (maxDepth.toNat ≤ d ∨ ¬ BreadthFirst.Room none s.found.length) :=
          not_or.mpr ⟨hdepth, not_not_intro hroom⟩
        rw [BreadthFirst.search_of_expand hqueue hgo] at hsearch
        have hexpand := @expandRelated_render store setup center address a d
          { s with queue := rest } (hfits.of_prefix (BreadthFirst.found_prefix_search hsearch))
        have hdepth : ¬ maxDepth ≤ d := fun h => hdepth (Int.toNat_le.mpr h)
        simp only [render] at hexpand
        simp only [render, hqueue, List.map_cons, if_neg hdepth, hexpand]
        exact ih hsearch

/-! ## What the counts add up to -/

theorem clusterRows_cnt {rows : List (Bytes × TransactionRow)} {row : ClusterRow}
    (h : row ∈ Db.clusterRows rows) : row.cnt = (rows.filter (·.1 = row.address)).length := by
  obtain ⟨group, hgroup, rfl⟩ := List.mem_map.mp h
  have hrows := (Grouping.mem_groups.mp (List.mem_of_mem_filter hgroup)).2
  simp only [hrows, List.length_map]

/-- A row counts the transactions between two addresses. -/
theorem cnt_eq {db : Db} (hstore : store.Answers setup db) {a : Bytes} {link : ClusterLink}
    (h : link ∈ store.links a) :
    link.owner = a ∧ link.row.cnt = (db.transactions.filter link.Counts).length := by
  unfold links at h
  rcases List.mem_append.mp h with h | h
  · obtain ⟨row, hrow, rfl⟩ := List.mem_map.mp h
    refine ⟨rfl, ?_⟩
    rw [clusterRows_cnt ((hstore.related a).mem hrow), List.filter_filterMap,
      List.length_filterMap_eq_countP, Db.sentBy, List.countP_filter, List.countP_eq_length_filter]
    refine congrArg (fun p => ((db.transactions.filter p).length : Int))
      (funext fun tx => Bool.eq_iff_iff.mpr ?_)
    rw [ClusterLink.counts_sent]
    cases hto : tx.toAddr <;> simp [and_comm]
  · obtain ⟨row, hrow, rfl⟩ := List.mem_map.mp h
    refine ⟨rfl, ?_⟩
    rw [clusterRows_cnt ((hstore.relatedFrom a).mem hrow), List.filter_map, List.length_map,
      Db.receivedBy, List.filter_filter]
    refine congrArg (fun p => ((db.transactions.filter p).length : Int))
      (funext fun tx => Bool.eq_iff_iff.mpr ?_)
    rw [ClusterLink.counts_received]
    simp

/-- A transaction of two rows would be between the same addresses both times. -/
theorem counts_disjoint {link link' : ClusterLink} (hne : link.address ≠ link'.address)
    (howner : link'.address ≠ link.owner) (tx : TransactionRow) (h : link.Counts tx) :
    ¬ link'.Counts tx := by
  intro h'
  obtain ⟨owner, sent, row⟩ := link
  obtain ⟨owner', sent', row'⟩ := link'
  cases sent <;> cases sent'
  · exact hne
      ((ClusterLink.counts_received.mp h).1.symm.trans (ClusterLink.counts_received.mp h').1)
  · exact howner (Option.some.inj
      ((ClusterLink.counts_sent.mp h').2.symm.trans (ClusterLink.counts_received.mp h).2))
  · exact howner ((ClusterLink.counts_received.mp h').1.symm.trans (ClusterLink.counts_sent.mp h).1)
  · exact hne (Option.some.inj
      ((ClusterLink.counts_sent.mp h).2.symm.trans (ClusterLink.counts_sent.mp h').2))

/-- **No transaction is counted twice** by the rows that discover the addresses. -/
theorem fits_discovery {db : Db} (hstore : store.Answers setup db)
    (hrows : db.transactions.length ≤ i64Max) (depth : ℕ) :
    Fits (BreadthFirst.discovery ClusterLink.address store.links center depth) := by
  have hcnt : ∀ link ∈ BreadthFirst.discovery ClusterLink.address store.links center depth,
      link.row.cnt = ((db.transactions.filter link.Counts).length : ℕ) := by
    intro link hlink
    obtain ⟨a, ha⟩ := BreadthFirst.exists_of_mem_discovery hlink
    exact (cnt_eq hstore ha).2
  refine ⟨fun link hlink => (hcnt link hlink).symm ▸ Int.natCast_nonneg _, ?_⟩
  have hnodup := (List.nodup_cons.mp (@BreadthFirst.nodup_order _ _ _ ClusterLink.address
    store.links center depth)).2
  have howner := @BreadthFirst.discovery_pairwise _ _ _ ClusterLink.address store.links center
    depth ClusterLink.owner fun a link hlink => (cnt_eq hstore hlink).1
  have hdisjoint := (List.pairwise_map.mp hnodup).imp₂ (fun _ _ => counts_disjoint) howner
  have hsum := Grouping.sum_length_filter_le hdisjoint db.transactions
  rw [List.map_congr_left hcnt]
  have hcast := Nat.cast_list_sum (R := Int)
    ((BreadthFirst.discovery ClusterLink.address store.links center depth).map
      fun link => (db.transactions.filter link.Counts).length)
  rw [List.map_map] at hcast
  refine hcast.symm.le.trans (Int.ofNat_le.mpr (hsum.trans hrows))

/-! ## The cluster -/

variable (store) in
/-- The smallest number of rows that lead from one address to another. -/
abbrev Distance (center : Bytes) (n : ℕ) (a : Bytes) : Prop :=
  BreadthFirst.IsDist ClusterLink.address store.links center n a

variable (store) in
/-- The rows through which the addresses up to a distance are first discovered. -/
def discoveries (center : Bytes) (depth : ℕ) : List ClusterLink :=
  BreadthFirst.discovery ClusterLink.address store.links center depth

variable (store) in
/-- The addresses, decoded, are those of the ball around the centre, each once, and the
interactions are counted on the rows that discover them. -/
structure IsBall (center : Bytes) (maxDepth : Int) (cluster : AddressCluster) : Prop where
  nodup : (cluster.addresses.map hexDecodeTrimmed).Nodup
  decodes : ∀ text ∈ cluster.addresses, hexDecodeTrimmed text ≠ none
  mem_iff : ∀ a, some a ∈ cluster.addresses.map hexDecodeTrimmed ↔
    ∃ n : ℕ, (n : Int) ≤ max maxDepth 0 ∧ store.Distance center n a
  totalInteractions_eq : cluster.totalInteractions =
    ((store.discoveries center maxDepth.toNat).map (·.row.cnt)).sum

/-- The cluster with the given discoveries. -/
def clusterOf (address : String) (found : List ClusterLink)
    (firstLast : Option String × Option String) : AddressCluster :=
  addressCluster ⟨[], [], address :: found.map (hexText ·.address), (found.map (·.row.cnt)).sum⟩
    firstLast

/-- **The traversal ends** with everything discovered. -/
theorem findClusters_eq (haddress : hexDecodeTrimmed address = some center) {maxDepth : Int}
    (hfits : Fits (store.discoveries center maxDepth.toNat)) {fuel : ℕ}
    (hfuel : (store.discoveries center maxDepth.toNat).length + 2 ≤ fuel) :
    findClusters setup store.queries maxDepth address fuel = some (.ok (clusterOf address
      (store.discoveries center maxDepth.toNat) (store.firstLast center))) := by
  obtain ⟨s, hsearch, hfinished⟩ := @BreadthFirst.search_finished _ _ _ ClusterLink.address
    store.links none maxDepth.toNat center fuel hfuel
  have hfound : s.found = store.discoveries center maxDepth.toNat := hfinished.found
  have hloop := @clusterLoop_search store setup center address _ maxDepth fuel s hsearch
    (hfound ▸ hfits)
  simp only [findClusters, haddress]
  refine (congrArg (Option.map _) hloop).trans ?_
  rw [← hfound]
  rfl

theorem clusterOf_isBall (haddress : hexDecodeTrimmed address = some center) (maxDepth : Int)
    (firstLast : Option String × Option String) : store.IsBall center maxDepth
      (clusterOf address (store.discoveries center maxDepth.toNat) firstLast) := by
  -- Decoded, the addresses are the order of discovery.
  have hdecoded : (clusterOf address (store.discoveries center maxDepth.toNat)
      firstLast).addresses.map hexDecodeTrimmed =
        (BreadthFirst.order ClusterLink.address store.links center maxDepth.toNat).map some := by
    simp only [clusterOf, addressCluster, List.map_cons, haddress, List.map_map,
      Function.comp_def, hexDecodeTrimmed_hexText, BreadthFirst.order, discoveries]
  have hinj : Function.Injective (some : Bytes → Option Bytes) := Option.some_injective _
  refine ⟨?_, fun text htext hnone => ?_, fun a => ?_, rfl⟩
  · rw [hdecoded]
    exact BreadthFirst.nodup_order.map hinj
  · have hmem := List.mem_map_of_mem (f := hexDecodeTrimmed) htext
    rw [hdecoded, hnone] at hmem
    obtain ⟨a, -, ha⟩ := List.mem_map.mp hmem
    cases ha
  · rw [hdecoded, List.mem_map_of_injective hinj, BreadthFirst.mem_order]
    constructor
    · rintro ⟨n, hn, hwalk⟩
      obtain ⟨m, hm, hdist⟩ := hwalk.exists_isDist
      exact ⟨m, by omega, hdist⟩
    · rintro ⟨n, hn, hdist⟩
      exact ⟨n, by omega, hdist.walk⟩

end ClusterStore

/-- **The cluster of an address** is the ball around it, for all answers of a database whose
transactions can be counted. -/
theorem findClusters_ball {setup : Setup} {db : Db} {store : ClusterStore}
    (hstore : store.Answers setup db) (hrows : db.transactions.length ≤ i64Max) {address : String}
    {center : Bytes} (haddress : hexDecodeTrimmed address = some center) (maxDepth : Int) :
    ∃ cluster, store.IsBall center maxDepth cluster ∧
      ∃ fuel₀, ∀ fuel, fuel₀ ≤ fuel →
        findClusters setup store.queries maxDepth address fuel = some (.ok cluster) :=
  ⟨_, ClusterStore.clusterOf_isBall haddress maxDepth _, _, fun _ hfuel =>
    ClusterStore.findClusters_eq haddress
      (ClusterStore.fits_discovery hstore hrows maxDepth.toNat) hfuel⟩

namespace Links

/-- An address that sent to another three times, and received from it twice. -/
def pair : Db := db [([1], [2]), ([1], [2]), ([2], [1]), ([1], [2]), ([2], [1])]

theorem pair_ball : ∃ cluster, (pair.clusterStore setup).IsBall [1] 2 cluster ∧
    ∃ fuel₀, ∀ fuel, fuel₀ ≤ fuel →
      findClusters setup (pair.clusterStore setup).queries 2 "0x01" fuel = some (.ok cluster) :=
  findClusters_ball (Db.clusterStore_answers setup pair) (by decide) (by decide) 2

example : ∃ cluster,
    findClusters setup (pair.clusterStore setup).queries 2 "0x01" 4 = some (.ok cluster) ∧
      cluster.addresses = ["0x01", "0x02"] ∧ cluster.totalInteractions = 3 :=
  ⟨_, rfl, by decide +kernel, by decide +kernel⟩

end Links

/-! ## The handler -/

namespace Api

structure ClusterQuery where
  depth : Option Int

/-- The reply of `get_address_cluster`, unless the traversal needs more than `fuel` rounds. -/
def getAddressCluster (setup : Setup) (queries : ClusterQueries) (address : String)
    (query : ClusterQuery) (fuel : ℕ) : Option (Except (Fault HandlerError) AddressCluster) :=
  (findClusters setup queries (min (query.depth.getD 2) 5) address fuel).map fun r =>
    r.mapError (·.map fun _ => .internalServerError)

/-- **The handler** serves a ball of at most five hops. -/
theorem getAddressCluster_ball {setup : Setup} {db : Db} {store : ClusterStore}
    (hstore : store.Answers setup db) (hrows : db.transactions.length ≤ i64Max) {address : String}
    {center : Bytes} (haddress : hexDecodeTrimmed address = some center) (query : ClusterQuery) :
    ∃ depth ≤ 5, ∃ cluster, store.IsBall center depth cluster ∧ ∃ fuel₀, ∀ fuel, fuel₀ ≤ fuel →
      getAddressCluster setup store.queries address query fuel = some (.ok cluster) := by
  refine ⟨min (query.depth.getD 2) 5, min_le_right _ _, _,
    ClusterStore.clusterOf_isBall haddress _ (store.firstLast center),
    (store.discoveries center (min (query.depth.getD 2) 5).toNat).length + 2, fun fuel hfuel => ?_⟩
  rw [getAddressCluster, ClusterStore.findClusters_eq haddress
    (ClusterStore.fits_discovery hstore hrows _) hfuel]
  rfl

end Api

end ChainLens
