import ChainLens.Reorg.Rollback

/-!
# Derived rows after a rollback

A rollback is to mark the statistics and the profiles of the parties of orphaned transactions. It
looks those transactions up after it deleted them, so it marks nothing.

## Main definitions

* `Db.PartyAbove`, `Db.RecipientAbove`: the addresses of the orphaned transactions
* `Db.MarksAffected`: the rows of these addresses are marked, and no others

## Main results

* `rollback_marksAffected_iff`: when a rollback marks the affected rows
-/

namespace ChainLens

namespace Db

/-- The address sends or receives in a block above a height. -/
def PartyAbove (db : Db) (a : ℕ) (address : Bytes) : Prop :=
  ∃ tx ∈ db.transactions, a < tx.blockNumber ∧ (tx.fromAddr = address ∨ tx.toAddr = some address)

/-- The address receives in a block above a height. -/
def RecipientAbove (db : Db) (a : ℕ) (address : Bytes) : Prop :=
  ∃ tx ∈ db.transactions, a < tx.blockNumber ∧ tx.toAddr = some address

/-- The affected rows carry the time of the rollback, and no other row is touched. The deployment
block of a profile is left open: the foreign key clears it with the block. -/
structure MarksAffected (db db' : Db) (a now : ℕ) : Prop where
  addressStats : List.Forall₂
    (fun row row' => (db.PartyAbove a row.address → row' = { row with updatedAt := now }) ∧
      (¬ db.PartyAbove a row.address → row' = row))
    db.addressStats db'.addressStats
  contractProfiles : List.Forall₂
    (fun row row' => ∃ deploymentBlock,
      (db.RecipientAbove a row.address →
        row' = { row with deploymentBlock := deploymentBlock, updatedAt := now }) ∧
      (¬ db.RecipientAbove a row.address → row' = { row with deploymentBlock := deploymentBlock }))
    db.contractProfiles db'.contractProfiles

/-- The profile after the foreign key from its deployment block. -/
def clearDeployment (gone : List ℕ) (row : ContractProfileRow) : ContractProfileRow :=
  if ∃ number ∈ row.deploymentBlock, number ∈ gone then { row with deploymentBlock := none }
  else row

theorem clearDeployment_eq (gone : List ℕ) (row : ContractProfileRow) :
    ∃ deploymentBlock,
      clearDeployment gone row = { row with deploymentBlock := deploymentBlock } := by
  unfold clearDeployment
  split
  · exact ⟨none, rfl⟩
  · exact ⟨row.deploymentBlock, rfl⟩

/-- Without a transaction above the ancestor the updates find nothing. -/
theorem touchDerived_eq {db : Db} {ancestor now : ℕ}
    (h : db.transactions.filter (ancestor < ·.blockNumber) = []) :
    db.touchDerived ancestor now = db := by
  simp [touchDerived, h]

section Rollback

variable {db : Db} (hdb : db.Valid) (event : ReorgEvent) (now : ℕ)

include hdb

/-- When the updates run, no transaction above the ancestor is left. -/
theorem rollback_noneAbove :
    (db.rollback event now).transactions.filter
      (saturate i64Max event.commonAncestor < ·.blockNumber) = [] := by
  rw [rollback_transactions hdb, List.filter_filter, List.filter_eq_nil_iff]
  intro row hrow
  have hle := blockNumber_le hdb (hdb.transactions_block row hrow)
  have hsaturate := @le_saturate_iff i64Max row.blockNumber event.commonAncestor hle
  simp only [Bool.and_eq_true, decide_eq_true_eq]
  omega

/-- A rollback is its deletes and the new cursor. -/
theorem rollback_eq_deletes :
    db.rollback event now =
      (((db.recordReorg event now).deleteIntelligence
        (saturate i64Max event.commonAncestor)).deleteBlocks
          (saturate i64Max event.commonAncestor < ·.number)).rewindCursor event now :=
  congrArg (rewindCursor event now) (touchDerived_eq (rollback_noneAbove hdb event now))

theorem rollback_addressStats : (db.rollback event now).addressStats = db.addressStats := by
  rw [rollback_eq_deletes hdb]
  rfl

theorem rollback_contractProfiles : (db.rollback event now).contractProfiles =
    db.contractProfiles.map (clearDeployment (db.deletedHeights event)) := by
  rw [rollback_eq_deletes hdb]
  rfl

/-- **When a rollback marks the affected rows**: each of them carries its time already. -/
theorem marksAffected_rollback_iff :
    db.MarksAffected (db.rollback event now) event.commonAncestor now ↔
      (∀ row ∈ db.addressStats, db.PartyAbove event.commonAncestor row.address →
        row.updatedAt = now) ∧
      ∀ row ∈ db.contractProfiles, db.RecipientAbove event.commonAncestor row.address →
        row.updatedAt = now := by
  constructor
  · intro h
    have hstats := h.addressStats
    have hprofiles := h.contractProfiles
    rw [rollback_addressStats hdb, List.forall₂_same] at hstats
    rw [rollback_contractProfiles hdb, List.forall₂_map_right_iff, List.forall₂_same] at hprofiles
    refine ⟨fun row hrow hparty => ?_, fun row hrow hrecipient => ?_⟩
    · exact congrArg (·.updatedAt) ((hstats row hrow).1 hparty)
    · obtain ⟨_, hmarked, -⟩ := hprofiles row hrow
      obtain ⟨_, hcleared⟩ := clearDeployment_eq (db.deletedHeights event) row
      exact congrArg (·.updatedAt) (hcleared.symm.trans (hmarked hrecipient))
  · rintro ⟨hstats, hprofiles⟩
    constructor
    · rw [rollback_addressStats hdb, List.forall₂_same]
      intro row hrow
      exact ⟨fun hparty => by rw [← hstats row hrow hparty], fun _ => rfl⟩
    · rw [rollback_contractProfiles hdb, List.forall₂_map_right_iff, List.forall₂_same]
      intro row hrow
      obtain ⟨deploymentBlock, hcleared⟩ := clearDeployment_eq (db.deletedHeights event) row
      rw [hcleared]
      exact ⟨deploymentBlock, fun hrecipient => by rw [← hprofiles row hrow hrecipient],
        fun _ => rfl⟩

end Rollback

end Db

/-- **When a rollback marks the affected rows**, from any database that meets the constraints. -/
theorem rollback_marksAffected_iff {pool pool' : PgPool} (hvalid : pool.db.Valid)
    {event : ReorgEvent} (h : rollback pool event = (.ok (), pool')) :
    pool.db.MarksAffected pool'.db event.commonAncestor pool.now ↔
      (∀ row ∈ pool.db.addressStats, pool.db.PartyAbove event.commonAncestor row.address →
        row.updatedAt = pool.now) ∧
      ∀ row ∈ pool.db.contractProfiles, pool.db.RecipientAbove event.commonAncestor row.address →
        row.updatedAt = pool.now := by
  rw [rollback_ok h]
  exact Db.marksAffected_rollback_iff hvalid event pool.now

namespace BatchLog

/-- The statistics of the block's sender, as of time 0. -/
def senderStats : AddressStatsRow where
  address := (FixedBytes.withLastByte 19 1).bytes
  firstSeen := none
  lastActive := none
  totalTransactions := 1
  totalEthSent := "0"
  totalEthReceived := "0"
  uniqueContractsCalled := 1
  uniqueCallers := 0
  tokenTransfersSent := 0
  tokenTransfersReceived := 0
  behaviorClassifications := []
  activityLevel := "low"
  updatedAt := 0

/-- The store with the block committed and statistics of its sender, at time 1. -/
def analyzed : PgPool :=
  { committed with db := { committed.db with addressStats := [senderStats] }, now := 1 }

theorem analyzed_valid : analyzed.db.Valid := { committed_reachable.valid with }

theorem analyzed_rollback : rollback analyzed orphaning =
    (.ok (), { analyzed with db := analyzed.db.rollback orphaning 1 }) :=
  PgPool.transact_served rfl rfl

end BatchLog

/-- The statistics of an orphaned sender keep their old time. -/
theorem rollback_marks_nothing :
    BatchLog.analyzed.db.Valid ∧
      ∃ pool', rollback BatchLog.analyzed BatchLog.orphaning = (.ok (), pool') ∧
        (∃ row ∈ pool'.db.addressStats, BatchLog.analyzed.db.PartyAbove 6 row.address ∧
          row.updatedAt = 0) ∧
        ¬ BatchLog.analyzed.db.MarksAffected pool'.db 6 1 := by
  have hstale : ∃ row ∈ BatchLog.analyzed.db.addressStats,
      (∃ tx ∈ BatchLog.analyzed.db.transactions, 6 < tx.blockNumber ∧
        (tx.fromAddr = row.address ∨ tx.toAddr = some row.address)) ∧ row.updatedAt = 0 := by
    decide
  have hvalid := BatchLog.analyzed_valid
  have hkept := Db.rollback_addressStats hvalid BatchLog.orphaning 1
  refine ⟨hvalid, _, BatchLog.analyzed_rollback, hkept ▸ hstale, ?_⟩
  intro hmarks
  obtain ⟨row, hrow, hparty, hold⟩ := hstale
  have hnew := ((Db.marksAffected_rollback_iff hvalid BatchLog.orphaning 1).mp hmarks).1 row hrow
    hparty
  omega

/-- The equivalence at that rollback, where both sides fail. -/
theorem rollback_analyzed_iff :
    ∃ pool', rollback BatchLog.analyzed BatchLog.orphaning = (.ok (), pool') ∧
      (BatchLog.analyzed.db.MarksAffected pool'.db 6 1 ↔
        (∀ row ∈ BatchLog.analyzed.db.addressStats,
          BatchLog.analyzed.db.PartyAbove 6 row.address → row.updatedAt = 1) ∧
        ∀ row ∈ BatchLog.analyzed.db.contractProfiles,
          BatchLog.analyzed.db.RecipientAbove 6 row.address → row.updatedAt = 1) :=
  ⟨_, BatchLog.analyzed_rollback,
    rollback_marksAffected_iff BatchLog.analyzed_valid BatchLog.analyzed_rollback⟩

end ChainLens
