import ChainLens.Indexer.Main

/-!
# The loop without the intelligence tables

The indexer decides and writes from the tables it fills itself. With the intelligence tables
emptied, every call of the loop returns the same and leaves the same in the other tables.

## Main definitions

* `Db.bare`: the database without what the intelligence layer wrote

## Main results

* `Db.commitBlock_bare`, `Db.rollback_bare`: the statements of the indexer
* `commitBlock_bare`: a call of the committer
* `Indexer.step_bare`: a move of the loop
-/

namespace ChainLens

namespace Db

/-- The tables and the sequence the indexer writes; those of the intelligence layer are as the
migrations leave them. -/
def bare (db : Db) : Db :=
  { migrated with
    blocks := db.blocks
    transactions := db.transactions
    logs := db.logs
    tokenTransfers := db.tokenTransfers
    addressTransactions := db.addressTransactions
    indexerState := db.indexerState
    reorgs := db.reorgs
    serials := { migrated.serials with reorgs := db.serials.reorgs } }

variable (db : Db)

@[simp] theorem bare_blocks : db.bare.blocks = db.blocks := rfl

@[simp] theorem bare_transactions : db.bare.transactions = db.transactions := rfl

@[simp] theorem bare_logs : db.bare.logs = db.logs := rfl

@[simp] theorem bare_tokenTransfers : db.bare.tokenTransfers = db.tokenTransfers := rfl

@[simp] theorem bare_addressTransactions :
    db.bare.addressTransactions = db.addressTransactions := rfl

@[simp] theorem bare_indexerState : db.bare.indexerState = db.indexerState := rfl

@[simp] theorem bare_reorgs : db.bare.reorgs = db.reorgs := rfl

@[simp] theorem bare_cursor : db.bare.cursor = db.cursor := rfl

@[simp] theorem bare_bare : db.bare.bare = db.bare := rfl

@[simp] theorem bare_migrated : migrated.bare = migrated := rfl

theorem sameIndexed_of_bare {db db' : Db} (h : db'.bare = db.bare) : db.SameIndexed db' where
  blocks := by simpa using congrArg Db.blocks h
  transactions := by simpa using congrArg Db.transactions h
  logs := by simpa using congrArg Db.logs h
  tokenTransfers := by simpa using congrArg Db.tokenTransfers h
  addressTransactions := by simpa using congrArg Db.addressTransactions h
  indexerState := by simpa using congrArg Db.indexerState h
  reorgs := by simpa using congrArg Db.reorgs h

/-! ## Statements -/

variable (indexed : IndexedBlock) (now : ℕ)

theorem insertBlock_bare : db.bare.insertBlock indexed = (db.insertBlock indexed).map bare := by
  unfold insertBlock
  cases toTimestamp (saturate i64Max indexed.block.timestamp) with
  | error e => rfl
  | ok timestamp =>
    by_cases hnumber : (blockRow indexed.block timestamp).number ∈ db.blocks.map (·.number)
    · simp only [bare_blocks, hnumber, if_true, Except.map]
    · by_cases hhash : (blockRow indexed.block timestamp).hash ∈ db.blocks.map (·.hash)
      · simp only [bare_blocks, hnumber, hhash, if_true, if_false, Except.map]
      · simp only [bare_blocks, hnumber, hhash, if_false, Except.map]
        rfl

theorem insertTransactions_bare :
    db.bare.insertTransactions indexed = (db.insertTransactions indexed).map bare := by
  have h (rows : Except SqlError (List TransactionRow)) :
      (rows.map fun rows => { db.bare with transactions := rows }) =
        (rows.map fun rows => { db with transactions := rows }).map bare := by
    cases rows <;> rfl
  exact h _

theorem insertLogs_bare : db.bare.insertLogs indexed = (db.insertLogs indexed).map bare := by
  have h (rows : Except SqlError (List LogRow)) :
      (rows.map fun rows => { db.bare with logs := rows }) =
        (rows.map fun rows => { db with logs := rows }).map bare := by
    cases rows <;> rfl
  exact h _

theorem insertTokenTransfers_bare :
    db.bare.insertTokenTransfers indexed = (db.insertTokenTransfers indexed).map bare := by
  have h (rows : Except SqlError (List TokenTransferRow)) :
      (rows.map fun rows => { db.bare with tokenTransfers := rows }) =
        (rows.map fun rows => { db with tokenTransfers := rows }).map bare := by
    cases rows <;> rfl
  exact h _

/-- **The statements of a commit** on the bare database. -/
theorem commitBlock_bare :
    db.bare.commitBlock indexed now = (db.commitBlock indexed now).map bare := by
  simp only [commitBlock, bind, Except.bind, insertBlock_bare]
  cases db.insertBlock indexed with
  | error e => rfl
  | ok db₁ =>
    simp only [Except.map, insertTransactions_bare]
    cases db₁.insertTransactions indexed with
    | error e => rfl
    | ok db₂ =>
      simp only [Except.map, insertLogs_bare]
      cases db₂.insertLogs indexed with
      | error e => rfl
      | ok db₃ =>
        simp only [Except.map, insertTokenTransfers_bare]
        cases db₃.insertTokenTransfers indexed with
        | error e => rfl
        | ok db₄ => rfl

/-- **The statements of a rollback** on the bare database. -/
theorem rollback_bare (event : ReorgEvent) :
    db.bare.rollback event now = (db.rollback event now).bare := rfl

end Db

/-! ## Calls on the pool -/

namespace PgPool

/-- The pool over the bare database. -/
def bare (pool : PgPool) : PgPool := { pool with db := pool.db.bare }

variable {pool : PgPool}

@[simp] theorem bare_db : pool.bare.db = pool.db.bare := rfl

@[simp] theorem bare_now : pool.bare.now = pool.now := rfl

theorem draw_bare : pool.bare.draw = (pool.draw.1, pool.draw.2.bare) := rfl

theorem transact_bare {body : Db → Except SqlError Db}
    (hbody : body pool.db.bare = (body pool.db).map Db.bare) :
    pool.bare.transact body = ((pool.transact body).1, (pool.transact body).2.bare) := by
  unfold transact
  rw [draw_bare]
  dsimp only
  rw [bare_db, draw_db, hbody]
  cases pool.draw.1 <;> cases body pool.db <;> rfl

end PgPool

section Calls

variable (client : EthClient) (store : PostgresStore)

theorem lastIndexedBlock_bare : PostgresStore.lastIndexedBlock store.bare =
    ((PostgresStore.lastIndexedBlock store).1, (PostgresStore.lastIndexedBlock store).2.bare) := by
  unfold PostgresStore.lastIndexedBlock
  rw [PgPool.draw_bare]
  cases PgPool.draw store with
  | mk fate store => cases fate <;> rfl

theorem postgresCommit_bare (indexed : IndexedBlock) :
    PostgresStore.commitBlock store.bare indexed =
    ((PostgresStore.commitBlock store indexed).1,
      (PostgresStore.commitBlock store indexed).2.bare) := by
  unfold PostgresStore.commitBlock
  rw [PgPool.bare_now, PgPool.transact_bare (Db.commitBlock_bare _ _ _)]

theorem rollback_bare (event : ReorgEvent) :
    rollback store.bare event = ((rollback store event).1, (rollback store event).2.bare) :=
  PgPool.transact_bare rfl

theorem findAncestorFrom_bare (start maxDepth remaining depth : ℕ) :
    findAncestorFrom client start maxDepth remaining depth store.bare =
      ((findAncestorFrom client start maxDepth remaining depth store).1,
        (findAncestorFrom client start maxDepth remaining depth store).2.bare) := by
  induction remaining generalizing depth store with
  | zero => rfl
  | succ remaining ih =>
    unfold findAncestorFrom
    split
    · rfl
    · dsimp only
      cases client.getBlockByNumber (start - depth) false with
      | error e => rfl
      | ok found =>
        cases found with
        | none => rfl
        | some block =>
          dsimp only
          rw [lastIndexedBlock_bare]
          cases PostgresStore.lastIndexedBlock store with
          | mk read store =>
            cases read with
            | error e => rfl
            | ok cursor =>
              dsimp only
              split
              · rfl
              · exact ih store (depth + 1)

theorem detect_bare (n : ℕ) (parentHash : B256) (maxDepth : ℕ) :
    detect client store.bare n parentHash maxDepth =
      ((detect client store n parentHash maxDepth).1,
        (detect client store n parentHash maxDepth).2.bare) := by
  unfold detect
  split
  · rfl
  · dsimp only
    rw [lastIndexedBlock_bare]
    cases PostgresStore.lastIndexedBlock store with
    | mk read store =>
      cases read with
      | error e => rfl
      | ok cursor =>
        dsimp only
        split
        · rfl
        · simp only [findAncestor, findAncestorFrom_bare]
          cases findAncestorFrom client (n - 1) maxDepth (maxDepth + 1) 0 store with
          | mk result store => cases result <;> rfl

theorem storeBlock_bare (n : ℕ) (block : BlockResponse) : storeBlock client store.bare n block =
    ((storeBlock client store n block).1, (storeBlock client store n block).2.bare) := by
  unfold storeBlock
  cases fetchReceipts client n block with
  | error e => rfl
  | ok receipts =>
    dsimp only
    cases decodeBlock block receipts with
    | error fault => rfl
    | ok indexed =>
      dsimp only
      rw [postgresCommit_bare]
      cases PostgresStore.commitBlock store indexed with
      | mk result store => cases result <;> rfl

/-- **A call of the committer** returns the same on the bare database. -/
theorem commitBlock_bare (n maxReorgDepth : ℕ) : commitBlock client store.bare n maxReorgDepth =
    ((commitBlock client store n maxReorgDepth).1,
      (commitBlock client store n maxReorgDepth).2.bare) := by
  unfold commitBlock
  cases client.getBlockByNumber n true with
  | error e => rfl
  | ok found =>
    cases found with
    | none => rfl
    | some block =>
      dsimp only
      split
      · rw [detect_bare]
        cases detect client store n block.parentHash maxReorgDepth with
        | mk result store =>
          cases result with
          | error e => rfl
          | ok ancestor =>
            cases ancestor with
            | none => exact storeBlock_bare client store n block
            | some ancestor =>
              dsimp only
              rw [rollback_bare]
              cases rollback store (reorgEvent ancestor n) with
              | mk result store => cases result <;> rfl
      · exact storeBlock_bare client store n block

end Calls

/-! ## The loop -/

namespace Indexer

/-- The process over the bare database. -/
def State.bare (s : State) : State := ⟨s.db.bare, s.process⟩

variable {cfg : Config} {s t : State} {e : Event}

theorem rewindCursor_bare (store : PostgresStore) : rewindCursor cfg store.bare =
    ((rewindCursor cfg store).1, (rewindCursor cfg store).2.bare) := by
  unfold rewindCursor
  rw [lastIndexedBlock_bare]
  cases PostgresStore.lastIndexedBlock store with
  | mk read store =>
    cases read with
    | error e => rfl
    | ok cursor => cases cursor <;> rfl

theorem receive_bare (client : EthClient) (store : PostgresStore) (cursor n : ℕ)
    (pending : List ℕ) : receive cfg client store.bare cursor n pending =
      ((receive cfg client store cursor n pending).1,
        (receive cfg client store cursor n pending).2.bare) := by
  unfold receive
  rw [commitBlock_bare]
  cases commitBlock client store n cfg.maxReorgDepth with
  | mk result store =>
    cases result with
    | error fault => cases fault <;> rfl
    | ok reorg =>
      cases reorg with
      | false => rfl
      | true =>
        dsimp only
        rw [rewindCursor_bare]

/-- **A move of the loop** is a move of it over the bare database. -/
theorem step_bare (h : Step cfg s e t) : Step cfg s.bare e t.bare := by
  obtain ⟨db, process⟩ := s
  unfold Step at h ⊢
  cases e with
  | start =>
    cases process <;> cases h
    rfl
  | poll latest delivered =>
    cases process <;> cases h
    rfl
  | commit client fates now =>
    cases process with
    | stopped => cases h
    | polling cursor => cases h
    | receiving cursor pending =>
      cases pending with
      | nil => cases h
      | cons n pending =>
        obtain rfl := Option.some.inj h
        -- The call reads and writes only tables that both databases have.
        have hreceive := @receive_bare cfg client ⟨db, fates, now⟩ cursor n pending
        show some (State.mk
          (receive cfg client (PgPool.bare ⟨db, fates, now⟩) cursor n pending).2.db
          (receive cfg client (PgPool.bare ⟨db, fates, now⟩) cursor n pending).1) = _
        rw [hreceive]
        rfl
  | finish =>
    cases process with
    | stopped => cases h
    | polling cursor => cases h
    | receiving cursor pending =>
      cases pending <;> cases h
      rfl
  | stop =>
    cases h
    rfl

end Indexer

end ChainLens
