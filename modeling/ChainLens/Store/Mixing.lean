import ChainLens.Store.Chain
import ChainLens.Store.Replay

/-!
# Two blocks at one height

A commit resolves the conflicts of each table on that table's own key and sets the cursor in any
case. When another block is stored at the height, its header stays and the cursor gets the new
block's hash, so an applied commit always mixes the two. The store is spared only when the
transaction does not take effect: the call is refused, a constraint rejects one of the block's
rows, or the effects are those the store has already.

## Main definitions

* `Db.Rejects db indexed`: a constraint stops the commit of the block
* `Db.HoldsOnly db indexed`: what is stored at the block's height, and the cursor, are the block's

## Main results

* `Db.commitBlock_isOk_iff`, `PostgresStore.commitBlock_isOk_iff`: a commit succeeds unless a
  constraint stops it, or its call is not served
* `PostgresStore.commitBlock_unmixed_iff`: when a commit does not mix two blocks
-/

namespace ChainLens

namespace Db

/-! ## Constraints that stop a commit -/

/-- A block of this height is stored once the block's header has been inserted. -/
def HasHeight (db : Db) (indexed : IndexedBlock) (number : ℕ) : Prop :=
  number ∈ db.blocks.map (·.number) ∨ number = saturate i64Max indexed.block.number

/-- The key of a log that is stored once the block's logs have been inserted. -/
def HasLog (db : Db) (indexed : IndexedBlock) (key : ℕ × ℕ) : Prop :=
  key ∈ db.logs.map LogRow.key ∨ key ∈ (indexed.logs.map logRow).map LogRow.key

/-- A constraint stops the commit of the block. -/
inductive Rejects (db : Db) (indexed : IndexedBlock) : Prop where
  | timestamp : 9224318016000 ≤ indexed.block.timestamp → Rejects db indexed
  | blockHash : saturate i64Max indexed.block.number ∉ db.blocks.map (·.number) →
      indexed.block.hash.bytes ∈ db.blocks.map (·.hash) → Rejects db indexed
  | transaction : Orphaned TransactionRow.hash (fun row => db.HasHeight indexed row.blockNumber)
      db.transactions (indexed.transactions.map transactionRow) → Rejects db indexed
  | log : Orphaned LogRow.key (fun row => db.HasHeight indexed row.blockNumber)
      db.logs (indexed.logs.map logRow) → Rejects db indexed
  | tokenTransfer : Orphaned TokenTransferRow.key (fun row => db.HasLog indexed row.key)
      db.tokenTransfers (indexed.tokenTransfers.map tokenTransferRow) → Rejects db indexed

/-! ## When a commit succeeds -/

section Commit

variable {db : Db} {indexed : IndexedBlock}

theorem insertBlock_isOk_iff :
    (∃ db', db.insertBlock indexed = .ok db') ↔
      indexed.block.timestamp < 9224318016000 ∧
        (saturate i64Max indexed.block.number ∉ db.blocks.map (·.number) →
          indexed.block.hash.bytes ∉ db.blocks.map (·.hash)) := by
  by_cases htime : indexed.block.timestamp < 9224318016000
  · have hsat : saturate i64Max indexed.block.timestamp = indexed.block.timestamp :=
      saturate_of_le (by unfold i64Max; omega)
    unfold insertBlock toTimestamp
    rw [hsat, if_pos htime]
    by_cases hnumber : saturate i64Max indexed.block.number ∈ db.blocks.map (·.number)
    · simp only [blockRow, hnumber]
      simp [htime]
    · by_cases hhash : indexed.block.hash.bytes ∈ db.blocks.map (·.hash)
      · simp only [blockRow, hnumber, hhash]
        simp
      · simp only [blockRow, hnumber, hhash]
        simp [htime]
  · -- A saturated timestamp is beyond the range as well.
    have hsat : ¬ saturate i64Max indexed.block.timestamp < 9224318016000 := by
      unfold saturate i64Max
      split <;> omega
    unfold insertBlock toTimestamp
    rw [if_neg hsat]
    simp [htime]

theorem insertTransactions_isOk_iff :
    (∃ db', db.insertTransactions indexed = .ok db') ↔
      ¬ Orphaned TransactionRow.hash (fun row => db.hasBlock row.blockNumber = true)
        db.transactions (indexed.transactions.map transactionRow) :=
  Except.map_isOk_iff.trans insertChecked_foldlM_isOk_iff

theorem insertLogs_isOk_iff :
    (∃ db', db.insertLogs indexed = .ok db') ↔
      ¬ Orphaned LogRow.key (fun row => db.hasBlock row.blockNumber = true)
        db.logs (indexed.logs.map logRow) :=
  Except.map_isOk_iff.trans insertChecked_foldlM_isOk_iff

theorem insertTokenTransfers_isOk_iff :
    (∃ db', db.insertTokenTransfers indexed = .ok db') ↔
      ¬ Orphaned TokenTransferRow.key (fun row => row.key ∈ db.logs.map LogRow.key)
        db.tokenTransfers (indexed.tokenTransfers.map tokenTransferRow) := by
  refine (Except.map_isOk_iff.trans insertChecked_foldlM_isOk_iff).trans ?_
  simp only [decide_eq_true_eq]

/-- The heights that are stored behind the header. -/
theorem hasBlock_insertBlock_iff {db₁ : Db} (h : db.insertBlock indexed = .ok db₁) (number : ℕ) :
    db₁.hasBlock number = true ↔ db.HasHeight indexed number := by
  have hkeys := @Table.key_mem_insertAll_iff _ _ _ BlockRow.number db.blocks
    [blockRow indexed.block (saturate i64Max indexed.block.timestamp)] number
  rw [List.map_singleton, List.mem_singleton] at hkeys
  rw [hasBlock_iff, (insertBlock_eq h).1]
  exact hkeys

/-- **A commit succeeds unless a constraint stops it.** -/
theorem commitBlock_isOk_iff {now : ℕ} :
    (∃ db', db.commitBlock indexed now = .ok db') ↔ ¬ db.Rejects indexed := by
  constructor
  · rintro ⟨db', h⟩ hrejects
    obtain ⟨db₁, db₂, db₃, db₄, h₁, h₂, h₃, h₄, -⟩ := commitBlock_steps h
    obtain ⟨htime, hhash⟩ := insertBlock_isOk_iff.mp ⟨db₁, h₁⟩
    have hheight := hasBlock_insertBlock_iff h₁
    obtain rfl := (insertBlock_eq h₁).1
    have htransactions := insertTransactions_isOk_iff.mp ⟨db₂, h₂⟩
    obtain rfl := (insertTransactions_eq h₂).1
    have hlogs := insertLogs_isOk_iff.mp ⟨db₃, h₃⟩
    obtain rfl := (insertLogs_eq h₃).1
    have htransfers := insertTokenTransfers_isOk_iff.mp ⟨db₄, h₄⟩
    -- Each group of rows had its parents when it was inserted.
    cases hrejects with
    | timestamp hlate => exact absurd htime (Nat.not_lt_of_le hlate)
    | blockHash hnumber hstored => exact hhash hnumber hstored
    | transaction horphan => exact htransactions ((orphaned_congr fun _ => hheight _).mpr horphan)
    | log horphan => exact hlogs ((orphaned_congr fun _ => hheight _).mpr horphan)
    | tokenTransfer horphan =>
      exact htransfers ((orphaned_congr fun _ => Table.key_mem_insertAll_iff).mpr horphan)
  · intro hrejects
    have htime : indexed.block.timestamp < 9224318016000 :=
      Nat.lt_of_not_le fun hlate => hrejects (.timestamp hlate)
    obtain ⟨db₁, h₁⟩ := insertBlock_isOk_iff.mpr
      ⟨htime, fun hnumber hstored => hrejects (.blockHash hnumber hstored)⟩
    have hheight := hasBlock_insertBlock_iff h₁
    have heq₁ := (insertBlock_eq h₁).1
    -- The tables other than the one being filled are as they were.
    have htransactions : ∃ db₂, db₁.insertTransactions indexed = .ok db₂ := by
      have hsame : db₁.transactions = db.transactions := by rw [heq₁]
      rw [insertTransactions_isOk_iff, hsame, orphaned_congr fun _ => hheight _]
      exact fun horphan => hrejects (.transaction horphan)
    obtain ⟨db₂, h₂⟩ := htransactions
    have heq₂ := (insertTransactions_eq h₂).1
    have hlogs : ∃ db₃, db₂.insertLogs indexed = .ok db₃ := by
      have hsame : db₂.logs = db.logs := by rw [heq₂, heq₁]
      have hheight₂ : ∀ number, db₂.hasBlock number = true ↔ db.HasHeight indexed number := by
        rw [heq₂]
        exact hheight
      rw [insertLogs_isOk_iff, hsame, orphaned_congr fun _ => hheight₂ _]
      exact fun horphan => hrejects (.log horphan)
    obtain ⟨db₃, h₃⟩ := hlogs
    have heq₃ := (insertLogs_eq h₃).1
    have htransfers : ∃ db₄, db₃.insertTokenTransfers indexed = .ok db₄ := by
      have hsame : db₃.tokenTransfers = db.tokenTransfers := by rw [heq₃, heq₂, heq₁]
      have hkeys : ∀ key, key ∈ db₃.logs.map LogRow.key ↔ db.HasLog indexed key := by
        rw [heq₃, heq₂, heq₁]
        exact fun key => Table.key_mem_insertAll_iff
      rw [insertTokenTransfers_isOk_iff, hsame, orphaned_congr fun _ => hkeys _]
      exact fun horphan => hrejects (.tokenTransfer horphan)
    obtain ⟨db₄, h₄⟩ := htransfers
    exact ⟨_, commitBlock_of_steps h₁ h₂ h₃ h₄ now⟩

end Commit

/-! ## Mixing -/

/-- What is stored at the block's height, and the cursor, are the block's. -/
structure HoldsOnly (db : Db) (indexed : IndexedBlock) : Prop where
  blocks : ∀ row ∈ db.blocks, row.number = indexed.block.number →
    row = blockRow indexed.block indexed.block.timestamp
  transactions : ∀ row ∈ db.transactions, row.blockNumber = indexed.block.number →
    row ∈ indexed.transactions.map transactionRow
  logs : ∀ row ∈ db.logs, row.blockNumber = indexed.block.number → row ∈ indexed.logs.map logRow
  tokenTransfers : ∀ row ∈ db.tokenTransfers, row.blockNumber = indexed.block.number →
    row ∈ indexed.tokenTransfers.map tokenTransferRow
  addressTransactions : ∀ row ∈ db.addressTransactions, row.blockNumber = indexed.block.number →
    row ∈ indexed.transactions.flatMap addressTransactionRows
  cursor : db.cursor = some (indexed.block.number, indexed.block.hash.bytes)

end Db

namespace PostgresStore

section Fates

variable {store : PostgresStore} {indexed : IndexedBlock} {db : Db}

theorem commitBlock_of_served (hfate : store.draw.1 = .served)
    (hdb : store.db.commitBlock indexed store.now = .ok db) :
    store.commitBlock indexed = (.ok (), { store.draw.2 with db }) := by
  unfold commitBlock PgPool.transact
  simp [hfate, hdb, Except.mapError]

theorem commitBlock_of_unacknowledged (hfate : store.draw.1 = .unacknowledged)
    (hdb : store.db.commitBlock indexed store.now = .ok db) :
    store.commitBlock indexed = (.error (.database .io), { store.draw.2 with db }) := by
  unfold commitBlock PgPool.transact
  simp [hfate, hdb, Except.mapError]

theorem commitBlock_of_refused (hfate : store.draw.1 = .refused) :
    (∃ e, (store.commitBlock indexed).1 = .error e) ∧
      (store.commitBlock indexed).2.db = store.db := by
  unfold commitBlock PgPool.transact
  simp [hfate, Except.mapError]

/-- The transaction is rolled back, whatever becomes of the call. -/
theorem commitBlock_of_rejects (h : store.db.Rejects indexed) :
    (∃ e, (store.commitBlock indexed).1 = .error e) ∧
      (store.commitBlock indexed).2.db = store.db := by
  cases hbody : store.db.commitBlock indexed store.now with
  | error e =>
    unfold commitBlock PgPool.transact
    cases hfate : store.draw.1 <;> simp [hfate, hbody, Except.mapError]
  | ok db => exact absurd h (Db.commitBlock_isOk_iff.mp ⟨db, hbody⟩)

end Fates

/-- **A commit is acknowledged** exactly if its call is served and no constraint stops the block. -/
theorem commitBlock_isOk_iff {store : PostgresStore} {indexed : IndexedBlock} :
    (∃ store', store.commitBlock indexed = (.ok (), store')) ↔
      store.draw.1 = .served ∧ ¬ store.db.Rejects indexed := by
  rw [← @Db.commitBlock_isOk_iff store.db indexed store.now]
  constructor
  · rintro ⟨store', h⟩
    obtain ⟨db, hdb, -⟩ := commitBlock_ok h
    refine ⟨?_, db, hdb⟩
    cases hfate : store.draw.1 with
    | served => rfl
    | refused =>
      obtain ⟨e, he⟩ := (@commitBlock_of_refused store indexed hfate).1
      rw [h] at he
      cases he
    | unacknowledged =>
      rw [commitBlock_of_unacknowledged hfate hdb] at h
      cases h
  · rintro ⟨hfate, db, hdb⟩
    exact ⟨_, commitBlock_of_served hfate hdb⟩

/-- A commit fails and leaves the state as it was, or leaves nothing of another block at the
height. -/
def Unmixed (store : PostgresStore) (indexed : IndexedBlock)
    (after : Except StoreError Unit × PostgresStore) : Prop :=
  ((∃ e, after.1 = .error e) ∧ after.2.db = store.db) ∨ after.2.db.HoldsOnly indexed

/-- **When a commit does not mix two blocks**: the height holds another block, and the call is
refused, or a constraint stops it, or it ends without acknowledgement and the store holds all its
rows and its cursor already. -/
theorem commitBlock_unmixed_iff {store : PostgresStore} {indexed : IndexedBlock} {row : BlockRow}
    (hrow : row ∈ store.db.blocks) (hnumber : row.number = indexed.block.number)
    (hhash : row.hash ≠ indexed.block.hash.bytes) :
    store.Unmixed indexed (store.commitBlock indexed) ↔
      store.draw.1 = .refused ∨ store.db.Rejects indexed ∨
        (store.draw.1 = .unacknowledged ∧ store.db.Absorbs indexed ∧
          (store.db.updateCursor indexed store.now).indexerState = store.db.indexerState) := by
  by_cases hrejects : store.db.Rejects indexed
  · exact ⟨fun _ => Or.inr (Or.inl hrejects), fun _ => Or.inl (commitBlock_of_rejects hrejects)⟩
  obtain ⟨db', hbody⟩ := Db.commitBlock_isOk_iff.mpr hrejects
  have heq := Db.commitBlock_eq hbody
  -- The other block's header is still there.
  have hmixed : ¬ db'.HoldsOnly indexed := by
    intro h
    have hstays : row ∈ db'.blocks := by
      rw [heq]
      exact Table.mem_insertIfAbsent_of_mem hrow
    apply hhash
    rw [h.blocks row hstays hnumber]
    rfl
  cases hfate : store.draw.1 with
  | refused => exact ⟨fun _ => Or.inl rfl, fun _ => Or.inl (commitBlock_of_refused hfate)⟩
  | served =>
    rw [commitBlock_of_served hfate hbody]
    constructor
    · rintro (⟨⟨e, he⟩, -⟩ | h)
      · cases he
      · exact absurd h hmixed
    · rintro (h | h | ⟨h, -⟩)
      · cases h
      · exact absurd h hrejects
      · cases h
  | unacknowledged =>
    rw [commitBlock_of_unacknowledged hfate hbody, ← Db.committed_eq_self_iff, ← heq]
    constructor
    · rintro (⟨-, hsame⟩ | h)
      · exact Or.inr (Or.inr ⟨rfl, hsame⟩)
      · exact absurd h hmixed
    · rintro (h | h | ⟨-, hsame⟩)
      · cases h
      · exact absurd h hrejects
      · exact Or.inl ⟨⟨_, rfl⟩, hsame⟩

/-- A store that holds another block at the height of the batch block. -/
def holdingOther : PostgresStore := ⟨Db.numbered (fun _ => 1) 7 7, [], 0⟩

/-- The batch block is committed over it: the header is the old block's, the transactions, the logs
and the cursor are the new one's. -/
theorem commitBlock_mixes :
    holdingOther.db.blocks.map (·.hash) = [(branchHash 1 7).bytes] ∧
      (holdingOther.commitBlock BatchLog.indexed).1 = .ok () ∧
      (holdingOther.commitBlock BatchLog.indexed).2.db.blocks = holdingOther.db.blocks ∧
      (holdingOther.commitBlock BatchLog.indexed).2.db.transactions =
        BatchLog.indexed.transactions.map transactionRow ∧
      (holdingOther.commitBlock BatchLog.indexed).2.db.cursor =
        some (7, BatchLog.indexed.block.hash.bytes) ∧
      ¬ holdingOther.Unmixed BatchLog.indexed (holdingOther.commitBlock BatchLog.indexed) := by
  have hblocks : (holdingOther.commitBlock BatchLog.indexed).2.db.blocks =
      holdingOther.db.blocks := by decide +kernel
  have hok : (holdingOther.commitBlock BatchLog.indexed).1 = .ok () := by decide +kernel
  refine ⟨by decide +kernel, hok, hblocks, by decide +kernel, by decide +kernel, ?_⟩
  rintro (⟨⟨e, he⟩, -⟩ | h)
  · rw [hok] at he
    cases he
  · have hrow := h.blocks (Db.branchRow (fun _ => 1) 7) (by rw [hblocks]; decide +kernel) rfl
    exact absurd (congrArg BlockRow.hash hrow) (by decide +kernel)

theorem branchRow_mem_holdingOther :
    Db.branchRow (fun _ => 1) 7 ∈ holdingOther.db.blocks := by decide +kernel

/-- The same store, with a database that refuses the call. -/
def refusingOther : PostgresStore := ⟨holdingOther.db, [.refused], 0⟩

theorem refusingOther_unmixed :
    refusingOther.Unmixed BatchLog.indexed (refusingOther.commitBlock BatchLog.indexed) :=
  (@commitBlock_unmixed_iff refusingOther BatchLog.indexed _ branchRow_mem_holdingOther rfl
    (by decide +kernel)).mpr (Or.inl rfl)

end PostgresStore

end ChainLens
