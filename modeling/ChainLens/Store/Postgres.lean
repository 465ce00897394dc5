import ChainLens.Store.Schema

/-!
# The PostgreSQL store

`PostgresStore` commits a decoded block in one transaction: the header, the transactions, the
logs, the token transfers and the address index, each row inserted unless its key is present, and
the cursor. Every call on the pool may be refused, and a transaction may become durable without
its acknowledgement reaching the program.

## Main definitions

* `PgPool`: the database, and what happens to the calls still to be made on it
* `Db.commitBlock`: the statements of one commit
* `PostgresStore.commitBlock`, `PostgresStore.lastIndexedBlock`

## Main results

* `Db.commitBlock_eq`: what a successful commit leaves in every table
* `Db.commitBlock_isOk`: when a commit succeeds
* `Db.Valid.commitBlock`: a commit keeps the constraints
-/

namespace ChainLens

/-! ## The pool -/

/-- What happens to a call on the database: it is served, refused, or takes effect while the
acknowledgement is lost. -/
inductive Fate where
  | served
  | refused
  | unacknowledged
deriving DecidableEq

/-- The database behind the pool, the fates of the coming calls, and the server's clock. Calls
beyond the list are served. -/
structure PgPool where
  db : Db
  fates : List Fate
  now : ℕ
deriving DecidableEq

namespace PgPool

/-- Draw the fate of the next call. -/
def draw (pool : PgPool) : Fate × PgPool :=
  (pool.fates.headD .served, { pool with fates := pool.fates.tail })

@[simp] theorem draw_db (pool : PgPool) : pool.draw.2.db = pool.db := rfl

/-- Run `body` in one transaction. An error of a statement rolls it back. -/
def transact (pool : PgPool) (body : Db → Except SqlError Db) : Except SqlError Unit × PgPool :=
  let (fate, pool) := pool.draw
  match fate, body pool.db with
  | .refused, _ => (.error .io, pool)
  | _, .error e => (.error e, pool)
  | .served, .ok db => (.ok (), { pool with db })
  -- The effects are durable, and the program sees an error.
  | .unacknowledged, .ok db => (.error .io, { pool with db })

/-- A transaction either leaves the database as it was and fails, or makes the effects of its
body durable, acknowledged or not. -/
theorem transact_cases (pool : PgPool) (body : Db → Except SqlError Db) :
    ((∃ e, (pool.transact body).1 = .error e) ∧ (pool.transact body).2.db = pool.db) ∨
    ∃ db, body pool.db = .ok db ∧ (pool.transact body).2.db = db ∧
      ((pool.transact body).1 = .ok () ∨ (pool.transact body).1 = .error .io) := by
  unfold transact
  cases hbody : body pool.db with
  | error e => cases hfate : pool.draw.1 <;> simp [hfate, hbody]
  | ok db => cases hfate : pool.draw.1 <;> simp [hfate, hbody]

/-- What every successful body preserves, a transaction preserves, however it ends. -/
theorem transact_preserves {inv : Db → Prop} {pool : PgPool} {body : Db → Except SqlError Db}
    (hbody : ∀ db, body pool.db = .ok db → inv db) (hpool : inv pool.db) :
    inv (pool.transact body).2.db := by
  rcases pool.transact_cases body with ⟨-, heq⟩ | ⟨db, hok, heq, -⟩
  · exact heq ▸ hpool
  · exact heq ▸ hbody db hok

/-- A served transaction reports what its body does. -/
theorem transact_served {pool : PgPool} (h : pool.fates = []) {body : Db → Except SqlError Db}
    {db : Db} (hbody : body pool.db = .ok db) :
    pool.transact body = (.ok (), { pool with db }) := by
  obtain ⟨db₀, fates, now⟩ := pool
  subst h
  simp only at hbody
  simp [transact, draw, hbody]

end PgPool

/-! ## Bound parameters -/

/-- `value.to_string()` for a 256-bit amount. -/
def u256ToNumeric (value : U256) : Numeric := toString value.toNat

/-- `value.to_string()` for a `u64`. -/
def numBigint (value : ℕ) : Numeric := toString value

/-- `to_timestamp`, which rejects seconds from the year 294277 on. -/
def toTimestamp (seconds : ℕ) : Except SqlError ℕ :=
  if seconds < 9224318016000 then .ok seconds else .error .datetimeFieldOverflow

def TokenStandard.toSmallint : TokenStandard → ℕ
  | .erc20 => 0
  | .erc721 => 1
  | .erc1155 => 2

def blockRow (b : Block) (timestamp : ℕ) : BlockRow where
  number := saturate i64Max b.number
  hash := b.hash.bytes
  parentHash := b.parentHash.bytes
  timestamp := timestamp
  miner := b.miner.bytes
  gasUsed := saturate i64Max b.gasUsed
  gasLimit := saturate i64Max b.gasLimit
  baseFee := b.baseFeePerGas.map numBigint
  txCount := saturate i32Max b.txCount

def transactionRow (t : Transaction) : TransactionRow where
  hash := t.hash.bytes
  blockNumber := saturate i64Max t.blockNumber
  txIndex := saturate i32Max t.txIndex
  fromAddr := t.fromAddr.bytes
  toAddr := t.toAddr.map (·.bytes)
  value := u256ToNumeric t.value
  nonce := saturate i64Max t.nonce
  txType := t.txType
  gasLimit := saturate i64Max t.gasLimit
  gasPrice := t.gasPrice.map u256ToNumeric
  maxFeePerGas := t.maxFeePerGas.map u256ToNumeric
  maxPriorityFeePerGas := t.maxPriorityFeePerGas.map u256ToNumeric
  input := t.input
  status := t.status
  gasUsed := saturate i64Max t.gasUsed
  effectiveGasPrice := t.effectiveGasPrice.map u256ToNumeric
  contractAddress := t.contractAddress.map (·.bytes)

def logRow (l : Log) : LogRow where
  blockNumber := saturate i64Max l.blockNumber
  logIndex := saturate i32Max l.logIndex
  txHash := l.txHash.bytes
  address := l.address.bytes
  topic0 := l.topic0.map (·.bytes)
  topic1 := l.topic1.map (·.bytes)
  topic2 := l.topic2.map (·.bytes)
  topic3 := l.topic3.map (·.bytes)
  data := l.data

def tokenTransferRow (t : TokenTransfer) : TokenTransferRow where
  blockNumber := saturate i64Max t.blockNumber
  logIndex := saturate i32Max t.logIndex
  tokenAddress := t.tokenAddress.bytes
  fromAddr := t.fromAddr.bytes
  toAddr := t.toAddr.bytes
  value := u256ToNumeric t.value
  tokenId := u256ToNumeric t.tokenId
  standard := t.standard.toSmallint

/-- The index row of one side of a transaction: direction 0 for its sender, 1 for its
recipient. -/
def addressTransactionRow (t : Transaction) (address : Address) (direction : ℕ) :
    AddressTransactionRow where
  address := address.bytes
  blockNumber := saturate i64Max t.blockNumber
  txIndex := saturate i32Max t.txIndex
  txHash := t.hash.bytes
  direction := direction

/-- The index rows of a transaction: its sender's, and its recipient's if there is one. -/
def addressTransactionRows (t : Transaction) : List AddressTransactionRow :=
  addressTransactionRow t t.fromAddr 0 ::
    (t.toAddr.map fun toAddr => addressTransactionRow t toAddr 1).toList

theorem addressTransactionRows_refers {t : Transaction} {row : AddressTransactionRow}
    (h : row ∈ addressTransactionRows t) :
    row.blockNumber = saturate i64Max t.blockNumber ∧ row.txHash = t.hash.bytes := by
  simp only [addressTransactionRows, List.mem_cons, Option.mem_toList,
    Option.map_eq_some_iff] at h
  rcases h with rfl | ⟨toAddr, -, rfl⟩
  · exact ⟨rfl, rfl⟩
  · exact ⟨rfl, rfl⟩

/-! ## The statements of a commit -/

/-- `INSERT … ON CONFLICT (key) DO NOTHING` into a table with a foreign key: a row whose key is
present is skipped before the foreign key is checked. -/
def insertChecked {α κ : Type} [DecidableEq κ] (key : α → κ) (parent : α → Bool)
    (constraint : String) (t : List α) (row : α) : Except SqlError (List α) :=
  if key row ∈ t.map key then .ok t
  else if parent row then .ok (t ++ [row])
  else .error (.foreignKeyViolation constraint)

section Orphans

variable {α κ : Type} {key : α → κ} {parent : α → Prop} {t rows : List α} {row : α}

/-- The first row of its key that is new to the table has no parent. -/
def Orphaned {α κ : Type} (key : α → κ) (parent : α → Prop) (t rows : List α) : Prop :=
  ∃ pre row post, rows = pre ++ row :: post ∧ key row ∉ t.map key ∧ key row ∉ pre.map key ∧
    ¬ parent row

theorem orphaned_congr {parent' : α → Prop} (h : ∀ row, parent row ↔ parent' row) :
    Orphaned key parent t rows ↔ Orphaned key parent' t rows := by
  simp only [Orphaned, h]

/-- A row whose key is present is no orphan, and hides none. -/
theorem orphaned_cons_of_mem (hkey : key row ∈ t.map key) :
    Orphaned key parent t (row :: rows) ↔ Orphaned key parent t rows := by
  constructor
  · rintro ⟨_ | ⟨first, pre⟩, r, post, hsplit, hnew, hpre, hparent⟩
    · cases hsplit
      exact absurd hkey hnew
    · cases hsplit
      exact ⟨pre, r, post, rfl, hnew, fun hmem => hpre (List.mem_cons_of_mem _ hmem), hparent⟩
  · rintro ⟨pre, r, post, rfl, hnew, hpre, hparent⟩
    refine ⟨row :: pre, r, post, rfl, hnew, ?_, hparent⟩
    rw [List.map_cons, List.mem_cons]
    rintro (heq | hmem)
    · exact hnew (heq ▸ hkey)
    · exact hpre hmem

/-- A new row with a parent counts as present for the rows after it. -/
theorem orphaned_cons_of_parent (hparent : parent row) :
    Orphaned key parent t (row :: rows) ↔ Orphaned key parent (t ++ [row]) rows := by
  have hmem : ∀ r, key r ∉ (t ++ [row]).map key ↔ key r ∉ t.map key ∧ key r ≠ key row := by
    intro r
    rw [List.map_append, List.map_singleton, List.mem_append, List.mem_singleton, not_or]
  constructor
  · rintro ⟨_ | ⟨first, pre⟩, r, post, hsplit, hnew, hpre, horphan⟩
    · cases hsplit
      exact absurd hparent horphan
    · cases hsplit
      rw [List.map_cons, List.mem_cons, not_or] at hpre
      exact ⟨pre, r, post, rfl, (hmem r).mpr ⟨hnew, hpre.1⟩, hpre.2, horphan⟩
  · rintro ⟨pre, r, post, rfl, hnew, hpre, horphan⟩
    obtain ⟨hnew, hne⟩ := (hmem r).mp hnew
    refine ⟨row :: pre, r, post, rfl, hnew, ?_, horphan⟩
    rw [List.map_cons, List.mem_cons, not_or]
    exact ⟨hne, hpre⟩

end Orphans

section InsertChecked

variable {α κ : Type} [DecidableEq κ] {key : α → κ} {parent : α → Bool} {constraint : String}

theorem insertChecked_eq {t t' : List α} {row : α}
    (h : insertChecked key parent constraint t row = .ok t') :
    t' = Table.insertIfAbsent key t row := by
  unfold insertChecked at h
  unfold Table.insertIfAbsent
  split_ifs at h ⊢ with hkey hparent
  · exact (Except.ok.inj h).symm
  · exact (Except.ok.inj h).symm

theorem insertChecked_parent {t t' : List α} {row : α}
    (h : insertChecked key parent constraint t row = .ok t') :
    ∀ r ∈ t', r ∈ t ∨ parent r = true := by
  unfold insertChecked at h
  split_ifs at h with hkey hparent <;> cases h
  · exact fun r hr => Or.inl hr
  · intro r hr
    rcases List.mem_append.mp hr with hr | hr
    · exact Or.inl hr
    · exact Or.inr (List.mem_singleton.mp hr ▸ hparent)

/-- A successful loop of inserts is an insertion of all rows. -/
theorem insertChecked_foldlM {t t' rows : List α}
    (h : rows.foldlM (insertChecked key parent constraint) t = .ok t') :
    t' = Table.insertAll key t rows :=
  Except.foldlM_proj (π := id) (g := Table.insertIfAbsent key)
    (fun _ _ _ hstep => insertChecked_eq hstep) h

/-- Rows a successful loop of inserts added have their parents. -/
theorem insertChecked_foldlM_parent {t t' rows : List α}
    (h : rows.foldlM (insertChecked key parent constraint) t = .ok t') :
    ∀ r ∈ t', r ∈ t ∨ parent r = true := by
  induction rows generalizing t with
  | nil =>
    cases h
    exact fun r hr => Or.inl hr
  | cons row rows ih =>
    rw [List.foldlM_cons, Except.bind_eq_ok_iff] at h
    obtain ⟨u, hu, hrest⟩ := h
    intro r hr
    -- A row was there after the first insert, or a later one added it.
    rcases ih hrest r hr with hr | hr
    · exact insertChecked_parent hu r hr
    · exact Or.inr hr

/-- The loop succeeds when every row has its parent. -/
theorem insertChecked_foldlM_isOk {rows : List α} (hparent : ∀ r ∈ rows, parent r = true)
    (t : List α) : rows.foldlM (insertChecked key parent constraint) t =
      .ok (Table.insertAll key t rows) := by
  obtain ⟨t', ht', -⟩ := Except.foldlM_isOk (f := insertChecked key parent constraint)
    (fun _ => True) (l := rows) (s := t) (by
      intro s _ row hrow
      unfold insertChecked
      rw [if_pos (hparent row hrow)]
      split <;> exact ⟨_, rfl, trivial⟩) trivial
  rw [ht', insertChecked_foldlM ht']

/-- Rows whose keys are present are all skipped. -/
theorem insertChecked_foldlM_of_present {t rows : List α} (h : ∀ r ∈ rows, key r ∈ t.map key) :
    rows.foldlM (insertChecked key parent constraint) t = .ok t := by
  induction rows with
  | nil => rfl
  | cons row rows ih =>
    have hrow : insertChecked key parent constraint t row = .ok t :=
      if_pos (h row List.mem_cons_self)
    rw [List.foldlM_cons, hrow]
    exact ih fun r hr => h r (List.mem_cons_of_mem _ hr)

/-- **When a loop of inserts succeeds**: no new row is without a parent. -/
theorem insertChecked_foldlM_isOk_iff {t rows : List α} :
    (∃ t', rows.foldlM (insertChecked key parent constraint) t = .ok t') ↔
      ¬ Orphaned key (parent · = true) t rows := by
  induction rows generalizing t with
  | nil =>
    constructor
    · rintro - ⟨pre, row, post, hsplit, -⟩
      simp at hsplit
    · intro _
      exact ⟨t, rfl⟩
  | cons row rows ih =>
    rw [List.foldlM_cons]
    -- A row with a key that is present is skipped before its parent is looked for.
    by_cases hkey : key row ∈ t.map key
    · have hskip : insertChecked key parent constraint t row = .ok t := if_pos hkey
      rw [hskip, orphaned_cons_of_mem hkey]
      exact ih
    · by_cases hparent : parent row = true
      · have hinsert : insertChecked key parent constraint t row = .ok (t ++ [row]) := by
          unfold insertChecked
          rw [if_neg hkey, if_pos hparent]
        rw [hinsert, @orphaned_cons_of_parent _ _ key (parent · = true) t rows row hparent]
        exact ih
      · have hreject : insertChecked key parent constraint t row =
            .error (.foreignKeyViolation constraint) := by
          unfold insertChecked
          rw [if_neg hkey, if_neg hparent]
        rw [hreject]
        constructor
        · rintro ⟨t', ht'⟩
          cases ht'
        · intro h
          exact absurd ⟨[], row, rows, rfl, hkey, by simp, hparent⟩ h

end InsertChecked

namespace Db

/-- Whether a block of this height is stored: the parent of the `block_number` foreign keys. -/
def hasBlock (db : Db) (number : ℕ) : Bool := number ∈ db.blocks.map (·.number)

def insertBlock (db : Db) (indexed : IndexedBlock) : Except SqlError Db :=
  match toTimestamp (saturate i64Max indexed.block.timestamp) with
  | .error e => .error e
  | .ok timestamp =>
    let row := blockRow indexed.block timestamp
    -- The conflict target is the height; a stored hash at another height is an error.
    if row.number ∈ db.blocks.map (·.number) then .ok db
    else if row.hash ∈ db.blocks.map (·.hash) then .error (.uniqueViolation "blocks_hash_key")
    else .ok { db with blocks := db.blocks ++ [row] }

def insertTransactions (db : Db) (indexed : IndexedBlock) : Except SqlError Db :=
  ((indexed.transactions.map transactionRow).foldlM
    (insertChecked TransactionRow.hash (db.hasBlock ·.blockNumber)
      "transactions_block_number_fkey") db.transactions).map
    fun rows => { db with transactions := rows }

def insertLogs (db : Db) (indexed : IndexedBlock) : Except SqlError Db :=
  ((indexed.logs.map logRow).foldlM
    (insertChecked LogRow.key (db.hasBlock ·.blockNumber) "logs_block_number_fkey") db.logs).map
    fun rows => { db with logs := rows }

def insertTokenTransfers (db : Db) (indexed : IndexedBlock) : Except SqlError Db :=
  ((indexed.tokenTransfers.map tokenTransferRow).foldlM
    (insertChecked TokenTransferRow.key (·.key ∈ db.logs.map LogRow.key)
      "token_transfers_block_number_log_index_fkey") db.tokenTransfers).map
    fun rows => { db with tokenTransfers := rows }

def insertAddressTransactions (db : Db) (indexed : IndexedBlock) : Db :=
  { db with
    addressTransactions := Table.insertAll AddressTransactionRow.key db.addressTransactions
      (indexed.transactions.flatMap addressTransactionRows) }

def updateCursor (db : Db) (indexed : IndexedBlock) (now : ℕ) : Db :=
  { db with
    indexerState := { db.indexerState with
      lastIndexedNumber := some (saturate i64Max indexed.block.number)
      lastIndexedHash := some indexed.block.hash.bytes
      updatedAt := now } }

/-- The statements of one commit, in order. -/
def commitBlock (indexed : IndexedBlock) (now : ℕ) (db : Db) : Except SqlError Db := do
  let db ← db.insertBlock indexed
  let db ← db.insertTransactions indexed
  let db ← db.insertLogs indexed
  let db ← db.insertTokenTransfers indexed
  return (db.insertAddressTransactions indexed).updateCursor indexed now

/-! ### What the statements leave -/

/-- The database after a commit that no constraint stopped. -/
def committed (indexed : IndexedBlock) (now : ℕ) (db : Db) : Db :=
  { db with
    blocks := Table.insertIfAbsent BlockRow.number db.blocks
      (blockRow indexed.block (saturate i64Max indexed.block.timestamp))
    transactions := Table.insertAll TransactionRow.hash db.transactions
      (indexed.transactions.map transactionRow)
    logs := Table.insertAll LogRow.key db.logs (indexed.logs.map logRow)
    tokenTransfers := Table.insertAll TokenTransferRow.key db.tokenTransfers
      (indexed.tokenTransfers.map tokenTransferRow)
    addressTransactions := Table.insertAll AddressTransactionRow.key db.addressTransactions
      (indexed.transactions.flatMap addressTransactionRows)
    indexerState := { db.indexerState with
      lastIndexedNumber := some (saturate i64Max indexed.block.number)
      lastIndexedHash := some indexed.block.hash.bytes
      updatedAt := now } }

theorem insertBlock_eq {db db' : Db} {indexed : IndexedBlock}
    (h : db.insertBlock indexed = .ok db') :
    db' = { db with
      blocks := Table.insertIfAbsent BlockRow.number db.blocks
        (blockRow indexed.block (saturate i64Max indexed.block.timestamp)) } ∧
    ∀ row ∈ db'.blocks, row ∈ db.blocks ∨ row.hash ∉ db.blocks.map (·.hash) := by
  unfold insertBlock toTimestamp at h
  unfold Table.insertIfAbsent
  split at h
  · cases h
  next timestamp hts =>
    split at hts
    · obtain rfl := Except.ok.inj hts
      dsimp only at h
      split_ifs at h with hnumber hhash
      · obtain rfl := Except.ok.inj h
        exact ⟨by rw [if_pos hnumber], fun row hrow => Or.inl hrow⟩
      -- The one row that may be new had its hash compared with all stored ones.
      · obtain rfl := Except.ok.inj h
        refine ⟨by rw [if_neg hnumber], fun row hrow => ?_⟩
        rcases List.mem_append.mp hrow with hrow | hrow
        · exact Or.inl hrow
        · exact Or.inr (List.mem_singleton.mp hrow ▸ hhash)
    · cases hts

theorem insertTransactions_eq {db db' : Db} {indexed : IndexedBlock}
    (h : db.insertTransactions indexed = .ok db') :
    db' = { db with
      transactions := Table.insertAll TransactionRow.hash db.transactions
        (indexed.transactions.map transactionRow) } ∧
    ∀ row ∈ db'.transactions, row ∈ db.transactions ∨ db.hasBlock row.blockNumber := by
  unfold insertTransactions at h
  obtain ⟨rows, hrows, rfl⟩ := Except.map_eq_ok_iff.mp h
  exact ⟨by rw [insertChecked_foldlM hrows], insertChecked_foldlM_parent hrows⟩

theorem insertLogs_eq {db db' : Db} {indexed : IndexedBlock}
    (h : db.insertLogs indexed = .ok db') :
    db' = { db with logs := Table.insertAll LogRow.key db.logs (indexed.logs.map logRow) } ∧
    ∀ row ∈ db'.logs, row ∈ db.logs ∨ db.hasBlock row.blockNumber := by
  unfold insertLogs at h
  obtain ⟨rows, hrows, rfl⟩ := Except.map_eq_ok_iff.mp h
  exact ⟨by rw [insertChecked_foldlM hrows], insertChecked_foldlM_parent hrows⟩

theorem insertTokenTransfers_eq {db db' : Db} {indexed : IndexedBlock}
    (h : db.insertTokenTransfers indexed = .ok db') :
    db' = { db with
      tokenTransfers := Table.insertAll TokenTransferRow.key db.tokenTransfers
        (indexed.tokenTransfers.map tokenTransferRow) } ∧
    ∀ row ∈ db'.tokenTransfers, row ∈ db.tokenTransfers ∨ row.key ∈ db.logs.map LogRow.key := by
  unfold insertTokenTransfers at h
  obtain ⟨rows, hrows, rfl⟩ := Except.map_eq_ok_iff.mp h
  refine ⟨by rw [insertChecked_foldlM hrows], fun row hrow => ?_⟩
  simpa using insertChecked_foldlM_parent hrows row hrow

/-- The statements of a successful commit, one after the other. -/
theorem commitBlock_steps {db db' : Db} {indexed : IndexedBlock} {now : ℕ}
    (h : db.commitBlock indexed now = .ok db') :
    ∃ db₁ db₂ db₃ db₄, db.insertBlock indexed = .ok db₁ ∧ db₁.insertTransactions indexed = .ok db₂ ∧
      db₂.insertLogs indexed = .ok db₃ ∧ db₃.insertTokenTransfers indexed = .ok db₄ ∧
      db' = (db₄.insertAddressTransactions indexed).updateCursor indexed now := by
  unfold commitBlock at h
  obtain ⟨db₁, h₁, h⟩ := Except.bind_eq_ok_iff.mp h
  obtain ⟨db₂, h₂, h⟩ := Except.bind_eq_ok_iff.mp h
  obtain ⟨db₃, h₃, h⟩ := Except.bind_eq_ok_iff.mp h
  obtain ⟨db₄, h₄, h⟩ := Except.bind_eq_ok_iff.mp h
  exact ⟨db₁, db₂, db₃, db₄, h₁, h₂, h₃, h₄, (Except.ok.inj h).symm⟩

theorem commitBlock_of_steps {db db₁ db₂ db₃ db₄ : Db} {indexed : IndexedBlock}
    (h₁ : db.insertBlock indexed = .ok db₁) (h₂ : db₁.insertTransactions indexed = .ok db₂)
    (h₃ : db₂.insertLogs indexed = .ok db₃) (h₄ : db₃.insertTokenTransfers indexed = .ok db₄)
    (now : ℕ) : db.commitBlock indexed now =
      .ok ((db₄.insertAddressTransactions indexed).updateCursor indexed now) := by
  simp only [commitBlock, bind, Except.bind, pure, Except.pure, h₁, h₂, h₃, h₄]

/-- **What a successful commit leaves in every table.** -/
theorem commitBlock_eq {db db' : Db} {indexed : IndexedBlock} {now : ℕ}
    (h : db.commitBlock indexed now = .ok db') : db' = db.committed indexed now := by
  obtain ⟨db₁, db₂, db₃, db₄, h₁, h₂, h₃, h₄, rfl⟩ := commitBlock_steps h
  rw [(insertTokenTransfers_eq h₄).1, (insertLogs_eq h₃).1, (insertTransactions_eq h₂).1,
    (insertBlock_eq h₁).1]
  rfl

/-- A committed timestamp fits its column. -/
theorem timestamp_lt_of_commitBlock {db db' : Db} {indexed : IndexedBlock} {now : ℕ}
    (h : db.commitBlock indexed now = .ok db') : indexed.block.timestamp < 9224318016000 := by
  obtain ⟨db₁, -, -, -, hinsert, -⟩ := commitBlock_steps h
  by_contra htime
  -- A saturated timestamp is beyond the range as well.
  have hsat : ¬ saturate i64Max indexed.block.timestamp < 9224318016000 := by
    unfold saturate i64Max
    split <;> omega
  simp [insertBlock, toTimestamp, hsat] at hinsert

/-! ### When a commit succeeds -/

theorem insertBlock_isOk {db : Db} {indexed : IndexedBlock}
    (htime : indexed.block.timestamp < 9224318016000)
    (hhash : ∀ row ∈ db.blocks, row.hash = indexed.block.hash.bytes →
      row.number = saturate i64Max indexed.block.number) :
    ∃ db', db.insertBlock indexed = .ok db' := by
  have hsat : saturate i64Max indexed.block.timestamp = indexed.block.timestamp :=
    saturate_of_le (by unfold i64Max; omega)
  unfold insertBlock toTimestamp
  rw [hsat, if_pos htime]
  dsimp only
  split_ifs with hnumber hmem
  · exact ⟨db, rfl⟩
  -- A stored copy of the hash would be at this very height.
  · obtain ⟨row, hrow, heq⟩ := List.mem_map.mp hmem
    exact absurd (List.mem_map.mpr ⟨row, hrow, hhash row hrow heq⟩) hnumber
  · exact ⟨_, rfl⟩

theorem hasBlock_of_insertBlock {db db' : Db} {indexed : IndexedBlock}
    (h : db.insertBlock indexed = .ok db') :
    db'.hasBlock (saturate i64Max indexed.block.number) = true := by
  rw [(insertBlock_eq h).1]
  simpa [hasBlock, blockRow] using Table.key_mem_insertIfAbsent BlockRow.number db.blocks
    (blockRow indexed.block (saturate i64Max indexed.block.timestamp))

theorem insertTransactions_isOk {db : Db} {indexed : IndexedBlock}
    (h : ∀ t ∈ indexed.transactions, db.hasBlock (transactionRow t).blockNumber = true) :
    ∃ db', db.insertTransactions indexed = .ok db' := by
  rw [insertTransactions, insertChecked_foldlM_isOk (by simpa using h)]
  exact ⟨_, rfl⟩

theorem insertLogs_isOk {db : Db} {indexed : IndexedBlock}
    (h : ∀ l ∈ indexed.logs, db.hasBlock (logRow l).blockNumber = true) :
    ∃ db', db.insertLogs indexed = .ok db' := by
  rw [insertLogs, insertChecked_foldlM_isOk (by simpa using h)]
  exact ⟨_, rfl⟩

theorem insertTokenTransfers_isOk {db : Db} {indexed : IndexedBlock}
    (h : ∀ t ∈ indexed.tokenTransfers, (tokenTransferRow t).key ∈ db.logs.map LogRow.key) :
    ∃ db', db.insertTokenTransfers indexed = .ok db' := by
  rw [insertTokenTransfers, insertChecked_foldlM_isOk (by simpa using h)]
  exact ⟨_, rfl⟩

/-- **When a commit succeeds**: the block is coherent, its timestamp fits the column, and its
hash is not stored at another height. -/
theorem commitBlock_isOk {db : Db} {indexed : IndexedBlock} (hcoherent : indexed.Coherent)
    (htime : indexed.block.timestamp < 9224318016000)
    (hhash : ∀ row ∈ db.blocks, row.hash = indexed.block.hash.bytes →
      row.number = saturate i64Max indexed.block.number) (now : ℕ) :
    db.commitBlock indexed now = .ok (db.committed indexed now) := by
  obtain ⟨db₁, h₁⟩ := insertBlock_isOk htime hhash
  -- The block's own row is the parent of its transactions and logs.
  have hblock := hasBlock_of_insertBlock h₁
  obtain ⟨db₂, h₂⟩ := @insertTransactions_isOk db₁ indexed fun t ht => by
    simpa [transactionRow, hcoherent.transactions t ht] using hblock
  obtain ⟨db₃, h₃⟩ := @insertLogs_isOk db₂ indexed fun l hl => by
    rw [(insertTransactions_eq h₂).1]
    simpa [logRow, hcoherent.logs l hl, hasBlock] using hblock
  obtain ⟨db₄, h₄⟩ := @insertTokenTransfers_isOk db₃ indexed fun t ht => by
    -- Every transfer names a log that was just inserted.
    obtain ⟨l, hl, hnumber, hindex⟩ := hcoherent.tokenTransfers t ht
    have hkey : (tokenTransferRow t).key = (logRow l).key := by
      simp [TokenTransferRow.key, LogRow.key, tokenTransferRow, logRow, hnumber, hindex]
    rw [(insertLogs_eq h₃).1, hkey]
    exact Table.key_mem_insertAll (List.mem_map_of_mem hl)
  have hok := commitBlock_of_steps h₁ h₂ h₃ h₄ now
  rw [hok, commitBlock_eq hok]

/-! ### A commit keeps the constraints -/

theorem hasBlock_iff {db : Db} {number : ℕ} :
    db.hasBlock number = true ↔ number ∈ db.blocks.map (·.number) := by
  simp [hasBlock]

theorem Valid.commitBlock {db db' : Db} (hdb : db.Valid) {indexed : IndexedBlock} {now : ℕ}
    (h : db.commitBlock indexed now = .ok db') : db'.Valid := by
  obtain ⟨db₁, db₂, db₃, db₄, h₁, h₂, h₃, h₄, rfl⟩ := commitBlock_steps h
  obtain ⟨rfl, hhash⟩ := insertBlock_eq h₁
  obtain ⟨rfl, htx⟩ := insertTransactions_eq h₂
  obtain ⟨rfl, hlog⟩ := insertLogs_eq h₃
  obtain ⟨rfl, htransfer⟩ := insertTokenTransfers_eq h₄
  simp only [hasBlock_iff] at htx hlog
  -- No table loses a row, so a parent that was there still is.
  have hblocks : ∀ {number}, number ∈ db.blocks.map (·.number) →
      number ∈ (Table.insertIfAbsent BlockRow.number db.blocks
        (blockRow indexed.block (saturate i64Max indexed.block.timestamp))).map (·.number) := by
    intro number hnumber
    obtain ⟨row, hrow, rfl⟩ := List.mem_map.mp hnumber
    exact List.mem_map_of_mem (Table.mem_insertIfAbsent_of_mem hrow)
  have htxs : ∀ {hash}, hash ∈ db.transactions.map (·.hash) →
      hash ∈ (Table.insertAll TransactionRow.hash db.transactions
        (indexed.transactions.map transactionRow)).map (·.hash) := by
    intro hash hmem
    obtain ⟨row, hrow, rfl⟩ := List.mem_map.mp hmem
    exact List.mem_map_of_mem (Table.mem_insertAll_of_mem hrow _)
  refine
    { blocks_bigint := fun row hrow => ?_
      addressTransactions_bigint := fun row hrow => ?_
      blocks_number := Table.nodup_insertIfAbsent hdb.blocks_number _
      blocks_hash := ?_
      transactions_hash := Table.nodup_insertAll hdb.transactions_hash _
      transactions_block := fun row hrow => ?_
      logs_key := Table.nodup_insertAll hdb.logs_key _
      logs_block := fun row hrow => ?_
      tokenTransfers_log := fun row hrow => ?_
      transactionActions_tx := fun row hrow => htxs (hdb.transactionActions_tx row hrow)
      anomalies_block := fun row hrow number hnumber =>
        hblocks (hdb.anomalies_block row hrow number hnumber)
      anomalies_tx := fun row hrow hash hmem => htxs (hdb.anomalies_tx row hrow hash hmem)
      blockAnalytics_block := fun row hrow => hblocks (hdb.blockAnalytics_block row hrow)
      mevEvents_block := fun row hrow => hblocks (hdb.mevEvents_block row hrow) }
  · rcases Table.mem_of_mem_insertIfAbsent hrow with hrow | rfl
    · exact hdb.blocks_bigint row hrow
    · exact saturate_le _ _
  · rcases Table.mem_of_mem_insertAll hrow with hrow | hrow
    · exact hdb.addressTransactions_bigint row hrow
    · obtain ⟨t, -, hrow⟩ := List.mem_flatMap.mp hrow
      rw [(addressTransactionRows_refers hrow).1]
      exact saturate_le _ _
  -- The hash is not the conflict target, but a duplicate would have failed.
  · exact Table.nodup_map_insertIfAbsent hdb.blocks_hash hhash
  · rcases htx row hrow with hrow | hrow
    · exact hblocks (hdb.transactions_block row hrow)
    · exact hrow
  · rcases hlog row hrow with hrow | hrow
    · exact hblocks (hdb.logs_block row hrow)
    · exact hrow
  · rcases htransfer row hrow with hrow | hrow
    · obtain ⟨log, hlog', hkey⟩ := List.mem_map.mp (hdb.tokenTransfers_log row hrow)
      exact hkey ▸ List.mem_map_of_mem (Table.mem_insertAll_of_mem hlog' _)
    · exact hrow

end Db

/-! ## The store -/

/-- The cursor, if both its columns are set. -/
def Db.cursor (db : Db) : Option (ℕ × Bytes) :=
  match db.indexerState.lastIndexedNumber, db.indexerState.lastIndexedHash with
  | some number, some hash => some (number, hash)
  | _, _ => none

/-- The hash incoming blocks are compared with: `last_indexed_block().unwrap_or((0, vec![])).1`. -/
def Db.cursorHash (db : Db) : Bytes := (db.cursor.getD (0, [])).2

inductive StoreError where
  | database (e : SqlError)
deriving DecidableEq

/-- The store is its pool. -/
abbrev PostgresStore := PgPool

namespace PostgresStore

/-- Commit a block and its cursor in one transaction. -/
def commitBlock (store : PostgresStore) (indexed : IndexedBlock) :
    Except StoreError Unit × PostgresStore :=
  let (result, store) := store.transact (Db.commitBlock indexed store.now)
  (result.mapError .database, store)

/-- An acknowledged commit ran all its statements. -/
theorem commitBlock_ok {store store' : PostgresStore} {indexed : IndexedBlock}
    (h : store.commitBlock indexed = (.ok (), store')) :
    ∃ db, store.db.commitBlock indexed store.now = .ok db ∧ store'.db = db := by
  have hresult := congrArg Prod.fst h
  have hstore : (store.transact (Db.commitBlock indexed store.now)).2 = store' :=
    congrArg Prod.snd h
  rcases store.transact_cases (Db.commitBlock indexed store.now) with
    ⟨⟨e, he⟩, -⟩ | ⟨db, hdb, heffect, -⟩
  · simp [commitBlock, he, Except.mapError] at hresult
  · exact ⟨db, hdb, hstore ▸ heffect⟩

/-- Read the cursor row. -/
def lastIndexedBlock (store : PostgresStore) :
    Except StoreError (Option (ℕ × Bytes)) × PostgresStore :=
  let (fate, store) := store.draw
  match fate with
  | .served => (.ok store.db.cursor, store)
  | _ => (.error (.database .io), store)

/-- A read of the cursor is answered truthfully or fails; it never changes the database. -/
theorem lastIndexedBlock_cases (store : PostgresStore) :
    ∃ store', store'.db = store.db ∧
      (store.lastIndexedBlock = (.ok store.db.cursor, store') ∨
        store.lastIndexedBlock = (.error (.database .io), store')) := by
  refine ⟨store.draw.2, rfl, ?_⟩
  unfold lastIndexedBlock
  cases hfate : store.draw.1 <;> simp [hfate]

theorem lastIndexedBlock_served {store : PostgresStore} (h : store.fates = []) :
    store.lastIndexedBlock = (.ok store.db.cursor, store) := by
  obtain ⟨db, fates, now⟩ := store
  subst h
  rfl

end PostgresStore

end ChainLens
