import ChainLens.Decode.Block
import ChainLens.Store.Postgres
import Mathlib.Data.List.Induction

/-!
# Replaying commits

A block whose rows all have their keys in the tables is absorbed: committing it again inserts
nothing and only sets the cursor. A commit leaves its block absorbed, and no later commit removes
a row, so the blocks of a run of commits are all absorbed at its end. Replaying the run therefore
succeeds and changes nothing but the time of the last update.

## Main definitions

* `Db.Absorbs db indexed`: every row of the block has its key in the tables
* `PostgresStore.commitAll`: a run of commits
* `Db.SameButTime`: two databases that differ at most in the time of the cursor's last update

## Main results

* `Db.Absorbs.commitBlock`: committing an absorbed block only sets the cursor
* `PostgresStore.commitAll_replay`: replaying a run of commits changes nothing
-/

namespace ChainLens

namespace Db

/-- The keys of the block's rows are all present. -/
structure Absorbs (db : Db) (indexed : IndexedBlock) : Prop where
  block : saturate i64Max indexed.block.number ∈ db.blocks.map (·.number)
  transactions : ∀ row ∈ indexed.transactions.map transactionRow,
    row.hash ∈ db.transactions.map (·.hash)
  logs : ∀ row ∈ indexed.logs.map logRow, row.key ∈ db.logs.map LogRow.key
  tokenTransfers : ∀ row ∈ indexed.tokenTransfers.map tokenTransferRow,
    row.key ∈ db.tokenTransfers.map TokenTransferRow.key
  addressTransactions : ∀ row ∈ indexed.transactions.flatMap addressTransactionRows,
    row.key ∈ db.addressTransactions.map AddressTransactionRow.key

/-- The tables of the chain lose no row. -/
structure Grows (db db' : Db) : Prop where
  blocks : ∀ row ∈ db.blocks, row ∈ db'.blocks
  transactions : ∀ row ∈ db.transactions, row ∈ db'.transactions
  logs : ∀ row ∈ db.logs, row ∈ db'.logs
  tokenTransfers : ∀ row ∈ db.tokenTransfers, row ∈ db'.tokenTransfers
  addressTransactions : ∀ row ∈ db.addressTransactions, row ∈ db'.addressTransactions

theorem Grows.refl (db : Db) : Grows db db :=
  ⟨fun _ h => h, fun _ h => h, fun _ h => h, fun _ h => h, fun _ h => h⟩

theorem Grows.trans {db db' db'' : Db} (h : Grows db db') (h' : Grows db' db'') :
    Grows db db'' where
  blocks row hrow := h'.blocks row (h.blocks row hrow)
  transactions row hrow := h'.transactions row (h.transactions row hrow)
  logs row hrow := h'.logs row (h.logs row hrow)
  tokenTransfers row hrow := h'.tokenTransfers row (h.tokenTransfers row hrow)
  addressTransactions row hrow := h'.addressTransactions row (h.addressTransactions row hrow)

/-- A commit removes no row. -/
theorem grows_committed (db : Db) (indexed : IndexedBlock) (now : ℕ) :
    Grows db (db.committed indexed now) where
  blocks _ hrow := Table.mem_insertIfAbsent_of_mem hrow
  transactions _ hrow := Table.mem_insertAll_of_mem hrow _
  logs _ hrow := Table.mem_insertAll_of_mem hrow _
  tokenTransfers _ hrow := Table.mem_insertAll_of_mem hrow _
  addressTransactions _ hrow := Table.mem_insertAll_of_mem hrow _

/-- What is absorbed stays so while the tables grow. -/
theorem Absorbs.mono {db db' : Db} {indexed : IndexedBlock} (h : db.Absorbs indexed)
    (hgrows : Grows db db') : db'.Absorbs indexed where
  block := List.map_subset _ hgrows.blocks h.block
  transactions row hrow := List.map_subset _ hgrows.transactions (h.transactions row hrow)
  logs row hrow := List.map_subset _ hgrows.logs (h.logs row hrow)
  tokenTransfers row hrow := List.map_subset _ hgrows.tokenTransfers (h.tokenTransfers row hrow)
  addressTransactions row hrow :=
    List.map_subset _ hgrows.addressTransactions (h.addressTransactions row hrow)

/-- A commit leaves its block absorbed. -/
theorem absorbs_committed (db : Db) (indexed : IndexedBlock) (now : ℕ) :
    (db.committed indexed now).Absorbs indexed where
  block := Table.key_mem_insertIfAbsent BlockRow.number db.blocks
    (blockRow indexed.block (saturate i64Max indexed.block.timestamp))
  transactions _ hrow := Table.key_mem_insertAll hrow
  logs _ hrow := Table.key_mem_insertAll hrow
  tokenTransfers _ hrow := Table.key_mem_insertAll hrow
  addressTransactions _ hrow := Table.key_mem_insertAll hrow

/-- **A commit changes nothing but the cursor exactly when the block is absorbed.** -/
theorem committed_eq_updateCursor_iff {db : Db} {indexed : IndexedBlock} {now : ℕ} :
    db.committed indexed now = db.updateCursor indexed now ↔ db.Absorbs indexed := by
  constructor
  · intro h
    have habsorbs := absorbs_committed db indexed now
    rw [h] at habsorbs
    exact habsorbs.mono ⟨fun _ h => h, fun _ h => h, fun _ h => h, fun _ h => h, fun _ h => h⟩
  · intro h
    unfold committed updateCursor
    rw [Table.insertIfAbsent_of_mem h.block, Table.insertAll_eq_self_iff.mpr h.transactions,
      Table.insertAll_eq_self_iff.mpr h.logs, Table.insertAll_eq_self_iff.mpr h.tokenTransfers,
      Table.insertAll_eq_self_iff.mpr h.addressTransactions]

/-- A commit changes nothing at all when the cursor is the block's, too. -/
theorem committed_eq_self_iff {db : Db} {indexed : IndexedBlock} {now : ℕ} :
    db.committed indexed now = db ↔
      db.Absorbs indexed ∧ (db.updateCursor indexed now).indexerState = db.indexerState := by
  constructor
  · intro h
    have habsorbs := absorbs_committed db indexed now
    rw [h] at habsorbs
    have hcursor := (committed_eq_updateCursor_iff.mpr habsorbs).symm.trans h
    exact ⟨habsorbs, congrArg Db.indexerState hcursor⟩
  · rintro ⟨habsorbs, hcursor⟩
    rw [committed_eq_updateCursor_iff.mpr habsorbs]
    change { db with indexerState := (db.updateCursor indexed now).indexerState } = db
    rw [hcursor]

/-- **Committing an absorbed block** succeeds, and only sets the cursor. -/
theorem Absorbs.commitBlock {db : Db} {indexed : IndexedBlock} (h : db.Absorbs indexed)
    (htime : indexed.block.timestamp < 9224318016000) (now : ℕ) :
    db.commitBlock indexed now = .ok (db.updateCursor indexed now) := by
  have hsat : saturate i64Max indexed.block.timestamp = indexed.block.timestamp :=
    saturate_of_le (by unfold i64Max; omega)
  have hblock : db.insertBlock indexed = .ok db := by
    unfold insertBlock toTimestamp
    rw [hsat, if_pos htime]
    exact if_pos h.block
  have htransactions : db.insertTransactions indexed = .ok db := by
    unfold insertTransactions
    rw [insertChecked_foldlM_of_present h.transactions]
    rfl
  have hlogs : db.insertLogs indexed = .ok db := by
    unfold insertLogs
    rw [insertChecked_foldlM_of_present h.logs]
    rfl
  have htransfers : db.insertTokenTransfers indexed = .ok db := by
    unfold insertTokenTransfers
    rw [insertChecked_foldlM_of_present h.tokenTransfers]
    rfl
  have hok := commitBlock_of_steps hblock htransactions hlogs htransfers now
  rw [hok, commitBlock_eq hok, committed_eq_updateCursor_iff.mpr h]

/-- The same tables and the same cursor, up to the time of its last update. -/
def SameButTime (db db' : Db) : Prop :=
  { db with indexerState := { db.indexerState with updatedAt := db'.indexerState.updatedAt } } = db'

/-- The cursor set through some blocks, each at its time. -/
def updateCursorAll (db : Db) (calls : List (IndexedBlock × ℕ)) : Db :=
  calls.foldl (fun db call => db.updateCursor call.1 call.2) db

/-- Only the cursor that was there before matters for the cursor. -/
theorem updateCursorAll_congr {db db' : Db} (h : db.indexerState = db'.indexerState)
    (calls : List (IndexedBlock × ℕ)) :
    (db.updateCursorAll calls).indexerState = (db'.updateCursorAll calls).indexerState := by
  induction calls generalizing db db' with
  | nil => exact h
  | cons call calls ih =>
    apply ih
    exact congrArg (fun state : IndexerState => { state with
      lastIndexedNumber := some (saturate i64Max call.1.block.number)
      lastIndexedHash := some call.1.block.hash.bytes
      updatedAt := call.2 }) h

theorem updateCursorAll_append (db : Db) (calls : List (IndexedBlock × ℕ))
    (call : IndexedBlock × ℕ) :
    db.updateCursorAll (calls ++ [call]) = (db.updateCursorAll calls).updateCursor call.1 call.2 :=
  List.foldl_append ..

/-- Setting the cursor again overrides what was set before. -/
theorem updateCursor_updateCursorAll (db : Db) (calls : List (IndexedBlock × ℕ))
    (indexed : IndexedBlock) (now : ℕ) :
    (db.updateCursorAll calls).updateCursor indexed now = db.updateCursor indexed now := by
  induction calls using List.reverseRecOn with
  | nil => rfl
  | append_singleton calls call ih =>
    rw [updateCursorAll_append]
    exact ih

end Db

namespace PostgresStore

theorem commitBlock_served {store : PostgresStore} (hserved : store.fates = [])
    {indexed : IndexedBlock} {db : Db} (h : store.db.commitBlock indexed store.now = .ok db) :
    store.commitBlock indexed = (.ok (), { store with db }) := by
  unfold commitBlock
  rw [PgPool.transact_served hserved h]
  rfl

/-- Commit blocks one after the other, each at the server's time of its transaction, until a call
fails. -/
def commitAll (store : PostgresStore) :
    List (IndexedBlock × ℕ) → Except StoreError Unit × PostgresStore
  | [] => (.ok (), store)
  | (indexed, now) :: calls =>
    match commitBlock { store with now } indexed with
    | (.ok (), store) => commitAll store calls
    | (.error e, store) => (.error e, store)

/-- What a run of successful commits leaves: no row is lost, every block is absorbed, and the cursor
is the last block's. -/
theorem commitAll_ok {store store' : PostgresStore} {calls : List (IndexedBlock × ℕ)}
    (h : store.commitAll calls = (.ok (), store')) :
    Db.Grows store.db store'.db ∧
      (∀ call ∈ calls, store'.db.Absorbs call.1 ∧ call.1.block.timestamp < 9224318016000) ∧
      store'.db.indexerState = (store.db.updateCursorAll calls).indexerState := by
  induction calls generalizing store with
  | nil =>
    cases h
    exact ⟨Db.Grows.refl _, by simp, rfl⟩
  | cons call calls ih =>
    obtain ⟨indexed, now⟩ := call
    unfold commitAll at h
    split at h
    · next middle hcommit =>
      obtain ⟨db, hdb, hmiddle⟩ := commitBlock_ok hcommit
      have htime := Db.timestamp_lt_of_commitBlock hdb
      obtain ⟨hgrows, habsorbs, hcursor⟩ := ih h
      rw [hmiddle, Db.commitBlock_eq hdb] at hgrows hcursor
      refine ⟨(Db.grows_committed store.db indexed now).trans hgrows, ?_, ?_⟩
      · intro call hcall
        rcases List.mem_cons.mp hcall with rfl | hcall
        -- The block of the first call was absorbed when it was committed.
        · exact ⟨(Db.absorbs_committed store.db indexed now).mono hgrows, htime⟩
        · exact habsorbs call hcall
      · rw [hcursor]
        exact @Db.updateCursorAll_congr (store.db.committed indexed now)
          (store.db.updateCursor indexed now) rfl calls
    · cases h

/-- Served commits of absorbed blocks succeed, and only set the cursor. -/
theorem commitAll_of_absorbs {store : PostgresStore} (hserved : store.fates = [])
    {calls : List (IndexedBlock × ℕ)}
    (h : ∀ call ∈ calls, store.db.Absorbs call.1 ∧ call.1.block.timestamp < 9224318016000) :
    ∃ store', store.commitAll calls = (.ok (), store') ∧
      store'.db = store.db.updateCursorAll calls := by
  induction calls generalizing store with
  | nil => exact ⟨store, rfl, rfl⟩
  | cons call calls ih =>
    obtain ⟨indexed, now⟩ := call
    obtain ⟨habsorbs, htime⟩ := h (indexed, now) List.mem_cons_self
    have hcommit : commitBlock { store with now } indexed =
        (.ok (), { store with db := store.db.updateCursor indexed now, now }) :=
      @commitBlock_served { store with now } hserved indexed _ (habsorbs.commitBlock htime now)
    unfold commitAll
    rw [hcommit]
    -- The cursor is no part of what the later blocks need.
    apply @ih { store with db := store.db.updateCursor indexed now, now } hserved
    intro call hcall
    obtain ⟨habsorbs', htime'⟩ := h call (List.mem_cons_of_mem _ hcall)
    exact ⟨habsorbs'.mono ⟨fun _ h => h, fun _ h => h, fun _ h => h, fun _ h => h, fun _ h => h⟩,
      htime'⟩

/-- Setting the cursor again, through the blocks that set it, changes at most its time. -/
theorem sameButTime_updateCursorAll {db₀ db : Db} {calls again : List (IndexedBlock × ℕ)}
    (hagain : again.map Prod.fst = calls.map Prod.fst)
    (hcursor : db.indexerState = (db₀.updateCursorAll calls).indexerState) :
    Db.SameButTime db (db.updateCursorAll again) := by
  rcases List.eq_nil_or_concat calls with rfl | ⟨init, ⟨indexed, now⟩, rfl⟩
  · obtain rfl : again = [] := by simpa using hagain
    rfl
  · rcases List.eq_nil_or_concat again with rfl | ⟨init', ⟨indexed', now'⟩, rfl⟩
    · simp at hagain
    · -- Both runs end with the same block.
      rw [List.concat_eq_append, List.concat_eq_append, List.map_append, List.map_append] at hagain
      obtain rfl : indexed' = indexed := by simpa using (List.append_inj' hagain rfl).2
      rw [List.concat_eq_append, Db.updateCursorAll_append,
        Db.updateCursor_updateCursorAll] at hcursor
      rw [List.concat_eq_append, Db.updateCursorAll_append, Db.updateCursor_updateCursorAll]
      have hnumber := congrArg IndexerState.lastIndexedNumber hcursor
      have hhash := congrArg IndexerState.lastIndexedHash hcursor
      change ({ db with indexerState := ⟨db.indexerState.lastIndexedNumber,
        db.indexerState.lastIndexedHash, db.indexerState.finalizedNumber, now'⟩ } : Db) = _
      rw [hnumber, hhash]
      rfl

/-- **Replaying commits is idempotent**: after a run of successful commits, whatever the store held
before it, running it again succeeds and changes nothing but the time of the last update. -/
theorem commitAll_replay {store store' : PostgresStore} {calls : List (IndexedBlock × ℕ)}
    (h : store.commitAll calls = (.ok (), store')) {again : List (IndexedBlock × ℕ)}
    (hagain : again.map Prod.fst = calls.map Prod.fst) {restarted : PostgresStore}
    (hdb : restarted.db = store'.db) (hserved : restarted.fates = []) :
    ∃ store'', restarted.commitAll again = (.ok (), store'') ∧
      Db.SameButTime store'.db store''.db := by
  obtain ⟨-, habsorbs, hcursor⟩ := commitAll_ok h
  have hblocks : ∀ call ∈ again,
      restarted.db.Absorbs call.1 ∧ call.1.block.timestamp < 9224318016000 := by
    intro call hcall
    obtain ⟨call', hcall', heq⟩ := List.mem_map.mp (hagain ▸ List.mem_map_of_mem hcall)
    rw [hdb, ← heq]
    exact habsorbs call' hcall'
  obtain ⟨store'', hrun, hfinal⟩ := commitAll_of_absorbs hserved hblocks
  refine ⟨store'', hrun, ?_⟩
  rw [hfinal, hdb]
  exact sameButTime_updateCursorAll hagain hcursor

/-- The batch block, committed to a new database and again. -/
def firstRun : Except StoreError Unit × PostgresStore :=
  commitAll ⟨Db.migrated, [], 0⟩ [(BatchLog.indexed, 1), (BatchLog.indexed, 2)]

theorem firstRun_eq :
    commitAll ⟨Db.migrated, [], 0⟩ [(BatchLog.indexed, 1), (BatchLog.indexed, 2)] =
      (.ok (), firstRun.2) := by
  have hok : firstRun.1 = .ok () := by decide +kernel
  exact Prod.ext hok rfl

theorem commitAll_replay_batchLog :
    ∃ store'', commitAll ⟨firstRun.2.db, [], 0⟩ [(BatchLog.indexed, 3), (BatchLog.indexed, 4)] =
        (.ok (), store'') ∧ Db.SameButTime firstRun.2.db store''.db :=
  @commitAll_replay _ _ _ firstRun_eq [(BatchLog.indexed, 3), (BatchLog.indexed, 4)] rfl
    ⟨firstRun.2.db, [], 0⟩ rfl rfl

end PostgresStore

end ChainLens
