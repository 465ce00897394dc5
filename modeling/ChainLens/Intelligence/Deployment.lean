import ChainLens.Intelligence.Contract
import ChainLens.Intelligence.Graph

/-!
# The deployment of a contract

The analysis of a contract takes the creator and the transaction of its deployment from the row
that created it, and the block from the transactions it sent or received. The transaction that
creates a contract is none of these: it has no recipient, and its sender is the deployer.

## Main definitions

* `DeploymentConsistent`: the three facts are about one transaction, and no other one is older

## Main results

* `deploymentConsistent_iff`: when the facts of an analysis are consistent
-/

namespace ChainLens

/-- A deployment transaction is a stored one, and the creator and the block of the deployment are
its sender and its block; no transaction to or from the contract is in an earlier block. -/
def DeploymentConsistent (db : Db) (k : Bytes) (intel : ContractIntelligence) : Prop :=
  ∀ text ∈ intel.deploymentTx, ∃ tx ∈ db.transactions, text = hexText tx.hash ∧
    intel.creator = some (hexText tx.fromAddr) ∧
    intel.deploymentBlock = some (tx.blockNumber : Int) ∧
    ∀ t ∈ db.transactionsOf k, tx.blockNumber ≤ t.blockNumber

variable {setup : Setup} {db : Db} {k : Bytes}

/-- The first block is the smallest one of the transactions. -/
theorem selectFirstSeen_eq_some_iff (hdb : db.Valid) {number : ℕ} :
    (selectFirstSeen setup k db).1 = some number ↔
      (∃ t ∈ db.transactionsOf k, t.blockNumber = number) ∧
        ∀ t ∈ db.transactionsOf k, number ≤ t.blockNumber := by
  have hnumbers : ∀ n, n ∈ ((db.transactionsOf k).flatMap fun tx =>
      db.blocks.filter (·.number = tx.blockNumber)).map (·.number) ↔
        ∃ t ∈ db.transactionsOf k, t.blockNumber = n := by
    intro n
    constructor
    · intro hn
      obtain ⟨block, hblock, rfl⟩ := List.mem_map.mp hn
      obtain ⟨t, ht, hmem⟩ := List.mem_flatMap.mp hblock
      exact ⟨t, ht, (of_decide_eq_true (List.mem_filter.mp hmem).2).symm⟩
    · rintro ⟨t, ht, rfl⟩
      obtain ⟨block, hblock, hnumber⟩ :=
        List.mem_map.mp (hdb.transactions_block t (List.mem_filter.mp ht).1)
      refine List.mem_map.mpr ⟨block, List.mem_flatMap.mpr ⟨t, ht, ?_⟩, hnumber⟩
      exact List.mem_filter.mpr ⟨hblock, decide_eq_true hnumber⟩
  rw [selectFirstSeen, List.min?_eq_some_iff, hnumbers]
  simp only [hnumbers, forall_exists_index, and_imp, forall_apply_eq_imp_iff₂]

/-- What an analysis takes its facts from. -/
theorem analyzeContract_deployment {path : String} {pool pool' : PgPool} {intel : AnalyzedContract}
    (hpath : hexDecodeTrimmed path = some k)
    (h : (analyzeContract setup path).runOn pool = (.ok intel, pool')) :
    intel.deploymentTx = (selectCreator k pool.db).map (hexText ·.hash) ∧
      intel.creator = (selectCreator k pool.db).map (hexText ·.fromAddr) ∧
      intel.deploymentBlock = (selectFirstSeen setup k pool.db).1.map Int.ofNat := by
  unfold analyzeContract at h
  obtain ⟨bytes, pool₀, hbytes, h⟩ := Session.runOn_bind_ok h
  rw [Session.hexParameter, hpath, Session.runOn_lift] at hbytes
  cases hbytes
  obtain ⟨first, pool₁, hfirst, h⟩ := Session.runOn_bind_ok h
  obtain ⟨rfl, hdb₁⟩ := Session.runOn_query_ok hfirst
  obtain ⟨row, pool₂, hrow, h⟩ := Session.runOn_bind_ok h
  obtain ⟨rfl, -⟩ := Session.runOn_query_ok hrow
  -- No other query is about the deployment.
  iterate 9 obtain ⟨_, _, -, h⟩ := Session.runOn_bind_ok h
  cases h
  rw [hdb₁]
  exact ⟨rfl, rfl, rfl⟩

/-- **When the facts of a deployment are consistent**: some transaction to or from the contract is
in the block it was created in, and none in an earlier one. -/
theorem deploymentConsistent_iff {path : String} {pool pool' : PgPool} {intel : AnalyzedContract}
    (hdb : pool.db.Valid) (hpath : hexDecodeTrimmed path = some k)
    (h : (analyzeContract setup path).runOn pool = (.ok intel, pool')) :
    DeploymentConsistent pool.db k intel.toContractIntelligence ↔
      ∀ tx ∈ selectCreator k pool.db,
        (∃ t ∈ pool.db.transactionsOf k, t.blockNumber = tx.blockNumber) ∧
          ∀ t ∈ pool.db.transactionsOf k, tx.blockNumber ≤ t.blockNumber := by
  obtain ⟨htx, hcreator, hblock⟩ := analyzeContract_deployment hpath h
  rw [DeploymentConsistent, htx, hcreator, hblock]
  cases hselect : selectCreator k pool.db with
  | none => simp
  | some tx =>
    have hmem : tx ∈ pool.db.transactions :=
      (List.mem_filter.mp (List.mem_of_head? hselect)).1
    simp only [Option.map_some, Option.mem_some_iff, forall_eq']
    constructor
    · rintro ⟨tx', htx', hhash, -, hnumber, -⟩
      -- A hash is that of one row, so that the block is compared with its own.
      obtain rfl := List.inj_on_of_nodup_map hdb.transactions_hash hmem htx' (hexText_inj.mp hhash)
      obtain ⟨n, hn, hcast⟩ := Option.map_eq_some_iff.mp hnumber
      obtain rfl : n = tx.blockNumber := Int.ofNat_inj.mp hcast
      exact (selectFirstSeen_eq_some_iff hdb).mp hn
    · intro hfirst
      have hnumber := (@selectFirstSeen_eq_some_iff setup _ k hdb tx.blockNumber).mpr hfirst
      rw [hnumber]
      exact ⟨tx, hmem, rfl, rfl, rfl, hfirst.2⟩

/-! ## A deployment with and without a call -/

namespace Deployed

/-- The transaction that creates a contract. -/
def creation : TransactionRow :=
  { Links.transactionRow 0 (List.replicate 20 1) [] with
    hash := List.replicate 32 1
    toAddr := none
    contractAddress := some (List.replicate 20 9) }

/-- A call of the contract in the same block. -/
def call : TransactionRow :=
  { Links.transactionRow 1 (List.replicate 20 2) (List.replicate 20 9) with
    hash := List.replicate 32 2 }

def pool (txs : List TransactionRow) : PgPool :=
  ⟨{ Db.migrated with
    blocks := [Links.blockRow]
    transactions := txs }, [], 0⟩

/-- With the call, the facts are consistent. -/
theorem called_consistent : ∃ intel,
    (analyzeContract Links.setup (hexText (List.replicate 20 9))).runOn (pool [creation, call]) =
        (.ok intel, pool [creation, call]) ∧
      DeploymentConsistent (pool [creation, call]).db (List.replicate 20 9)
        intel.toContractIntelligence := by
  have hvalid : (pool [creation, call]).db.Valid := by
    constructor <;> simp [pool, Db.migrated, creation, call, Links.blockRow, Links.transactionRow,
      i64Max]
  obtain ⟨intel, hrun, -⟩ := @analyzeContract_runOn Links.setup (List.replicate 20 9)
    (pool [creation, call]).db 0
  refine ⟨intel, hrun, ?_⟩
  apply (deploymentConsistent_iff hvalid (hexDecodeTrimmed_hexText _) hrun).mpr
  rintro tx htx
  obtain rfl : creation = tx := Option.some.inj htx
  exact ⟨⟨call, by decide, rfl⟩, by decide⟩

/-- Without one, the deployment has no block. -/
theorem uncalled_inconsistent : ∃ intel,
    (analyzeContract Links.setup (hexText (List.replicate 20 9))).runOn (pool [creation]) =
        (.ok intel, pool [creation]) ∧
      intel.deploymentTx = some (hexText creation.hash) ∧ intel.deploymentBlock = none ∧
      ¬ DeploymentConsistent (pool [creation]).db (List.replicate 20 9)
        intel.toContractIntelligence := by
  obtain ⟨intel, hrun, -⟩ := @analyzeContract_runOn Links.setup (List.replicate 20 9)
    (pool [creation]).db 0
  obtain ⟨htx, -, hblock⟩ := analyzeContract_deployment (hexDecodeTrimmed_hexText _) hrun
  have hselect : selectCreator (List.replicate 20 9) (pool [creation]).db = some creation := by
    decide
  have hnone :
      (selectFirstSeen Links.setup (List.replicate 20 9) (pool [creation]).db).1 = none := by
    decide
  rw [hselect] at htx
  rw [hnone] at hblock
  refine ⟨intel, hrun, htx, hblock, fun h => ?_⟩
  obtain ⟨tx, -, -, -, hnumber, -⟩ := h _ htx
  rw [hblock] at hnumber
  cases hnumber

end Deployed

end ChainLens
