import ChainLens.Library.Ledger
import ChainLens.Reorg.Rollback
import ChainLens.Store.Chain
import ChainLens.Store.Replay

/-!
# The ledger behind the tables

Blocks, transactions, logs and token transfers are filled by commits and cut back by rollbacks.
What they hold is decided by the blocks that are left: it is what a new database holds after
committing just these, whatever was committed and rolled back in between. A commit has to be for a
free height, or repeat a block that is stored; and a transaction that comes again has to come at
no lower height than the row that represents it.

## Main definitions

* `Db.SameChain`: the four tables are the same
* `Db.Shows db ledger`: the four tables hold the rows of the blocks of the ledger
* `Db.Admits`: what a commit has to meet

## Main results

* `Db.Shows.commitBlock`, `Db.Shows.rollback`: a commit extends the ledger, a rollback cuts it
* `Db.Shows.fresh`: a new store accepts the blocks of the ledger, and then shows it
-/

namespace ChainLens

/-! ## The rows of a block -/

namespace IndexedBlock

variable (indexed : IndexedBlock)

/-- The height a block is stored at. -/
def height : ℕ := saturate i64Max indexed.block.number

def blockRows : List BlockRow :=
  [blockRow indexed.block (saturate i64Max indexed.block.timestamp)]

def transactionRows : List TransactionRow := indexed.transactions.map transactionRow

def logRows : List LogRow := indexed.logs.map logRow

def tokenTransferRows : List TokenTransferRow := indexed.tokenTransfers.map tokenTransferRow

variable {indexed}

theorem blockRows_height : ∀ row ∈ indexed.blockRows, row.number = indexed.height := by
  intro row hrow
  rw [List.mem_singleton.mp hrow]
  rfl

theorem transactionRows_height (h : indexed.Coherent) :
    ∀ row ∈ indexed.transactionRows, row.blockNumber = indexed.height := by
  intro row hrow
  obtain ⟨t, ht, rfl⟩ := List.mem_map.mp hrow
  exact congrArg (saturate i64Max) (h.transactions t ht)

theorem logRows_height (h : indexed.Coherent) :
    ∀ row ∈ indexed.logRows, row.blockNumber = indexed.height := by
  intro row hrow
  obtain ⟨l, hl, rfl⟩ := List.mem_map.mp hrow
  exact congrArg (saturate i64Max) (h.logs l hl)

theorem tokenTransferRows_height (h : indexed.Coherent) :
    ∀ row ∈ indexed.tokenTransferRows, row.blockNumber = indexed.height := by
  intro row hrow
  obtain ⟨t, ht, rfl⟩ := List.mem_map.mp hrow
  -- A transfer is at the height of the log it names.
  obtain ⟨l, hl, hnumber, -⟩ := h.tokenTransfers t ht
  exact congrArg (saturate i64Max) (hnumber.trans (h.logs l hl))

end IndexedBlock

namespace Db

/-! ## Showing a ledger -/

/-- The tables that commits fill and rollbacks cut are the same. -/
structure SameChain (db db' : Db) : Prop where
  blocks : db'.blocks = db.blocks
  transactions : db'.transactions = db.transactions
  logs : db'.logs = db.logs
  tokenTransfers : db'.tokenTransfers = db.tokenTransfers

/-- The four tables hold the rows of the blocks of the ledger, each of which can be committed. -/
structure Shows (db : Db) (ledger : List IndexedBlock) : Prop where
  heights : (ledger.map IndexedBlock.height).Nodup
  coherent : ∀ indexed ∈ ledger, indexed.Coherent
  times : ∀ indexed ∈ ledger, indexed.block.timestamp < 9224318016000
  blocks : db.blocks = Ledger.table IndexedBlock.blockRows BlockRow.number ledger
  transactions : db.transactions =
    Ledger.table IndexedBlock.transactionRows TransactionRow.hash ledger
  logs : db.logs = Ledger.table IndexedBlock.logRows LogRow.key ledger
  tokenTransfers : db.tokenTransfers =
    Ledger.table IndexedBlock.tokenTransferRows TokenTransferRow.key ledger
  settled : Ledger.Settled IndexedBlock.transactionRows TransactionRow.hash
    TransactionRow.blockNumber ledger

/-- What a commit has to meet: at a taken height the block repeats what is stored, and at a free
one no transaction of it is stored above. -/
structure Admits (db : Db) (indexed : IndexedBlock) : Prop where
  repeated : indexed.height ∈ db.blocks.map (·.number) →
    (∀ row ∈ indexed.transactionRows, row.hash ∈ db.transactions.map (·.hash)) ∧
      (∀ row ∈ indexed.logRows, row.key ∈ db.logs.map LogRow.key) ∧
        ∀ row ∈ indexed.tokenTransferRows,
          row.key ∈ db.tokenTransfers.map TokenTransferRow.key
  ordered : indexed.height ∉ db.blocks.map (·.number) →
    ∀ row ∈ indexed.transactionRows, ∀ stored ∈ db.transactions, stored.hash = row.hash →
      stored.blockNumber ≤ row.blockNumber

theorem shows_migrated : migrated.Shows [] where
  heights := List.nodup_nil
  coherent := nofun
  times := nofun
  blocks := rfl
  transactions := rfl
  logs := rfl
  tokenTransfers := rfl
  settled := nofun

section Shows

variable {db db' : Db} {ledger : List IndexedBlock} {indexed : IndexedBlock}

theorem Shows.sameChain (h : db.Shows ledger) (h' : db'.Shows ledger) : db.SameChain db' where
  blocks := h'.blocks.trans h.blocks.symm
  transactions := h'.transactions.trans h.transactions.symm
  logs := h'.logs.trans h.logs.symm
  tokenTransfers := h'.tokenTransfers.trans h.tokenTransfers.symm

theorem Shows.of_sameIndexed (h : db.Shows ledger) (hsame : db.SameIndexed db') :
    db'.Shows ledger :=
  { h with
    blocks := hsame.blocks.trans h.blocks
    transactions := hsame.transactions.trans h.transactions
    logs := hsame.logs.trans h.logs
    tokenTransfers := hsame.tokenTransfers.trans h.tokenTransfers }

/-- At distinct heights every block has its row. -/
theorem blockTable_eq (h : (ledger.map IndexedBlock.height).Nodup) :
    Ledger.table IndexedBlock.blockRows BlockRow.number ledger =
      ledger.map fun indexed =>
        blockRow indexed.block (saturate i64Max indexed.block.timestamp) := by
  have hrows : ledger.flatMap IndexedBlock.blockRows = ledger.map fun indexed =>
      blockRow indexed.block (saturate i64Max indexed.block.timestamp) :=
    List.map_eq_flatMap.symm
  rw [Ledger.table, hrows, Table.insertAll_of_nodup, List.nil_append]
  · rwa [List.map_map]
  · exact fun _ _ => List.not_mem_nil

theorem Shows.blocks_eq (h : db.Shows ledger) : db.blocks = ledger.map fun indexed =>
    blockRow indexed.block (saturate i64Max indexed.block.timestamp) :=
  h.blocks.trans (blockTable_eq h.heights)

/-- The stored heights are those of the ledger. -/
theorem Shows.heights_eq (h : db.Shows ledger) :
    db.blocks.map (·.number) = ledger.map IndexedBlock.height := by
  rw [h.blocks_eq, List.map_map]
  rfl

/-- **A commit extends the ledger.** -/
theorem Shows.commitBlock (h : db.Shows ledger) (hcoherent : indexed.Coherent)
    (htime : indexed.block.timestamp < 9224318016000) (hadmits : db.Admits indexed) (now : ℕ) :
    (db.committed indexed now).Shows
      (Ledger.apply IndexedBlock.height ledger (.extend indexed)) := by
  have hrepeated := hadmits.repeated
  have hordered := hadmits.ordered
  rw [h.heights_eq] at hrepeated hordered
  rw [h.transactions, h.logs, h.tokenTransfers] at hrepeated
  rw [h.transactions] at hordered
  have hfrom : ∀ b ∈ Ledger.apply IndexedBlock.height ledger (.extend indexed),
      b ∈ ledger ∨ b = indexed := fun b hb => Table.mem_of_mem_insertIfAbsent hb
  refine
    { heights := Ledger.nodup_apply h.heights _
      coherent := fun b hb => ?_
      times := fun b hb => ?_
      blocks := ?_
      transactions := ?_
      logs := ?_
      tokenTransfers := ?_
      settled := h.settled.extend (fun htaken => (hrepeated htaken).1)
        (IndexedBlock.transactionRows_height hcoherent) hordered }
  · rcases hfrom b hb with hb | rfl
    · exact h.coherent b hb
    · exact hcoherent
  · rcases hfrom b hb with hb | rfl
    · exact h.times b hb
    · exact htime
  · -- The row of the block itself is present at a taken height.
    rw [Ledger.table_extend, ← h.blocks]
    · rfl
    · intro htaken row hrow
      rwa [IndexedBlock.blockRows_height row hrow, ← h.blocks, h.heights_eq]
  · rw [Ledger.table_extend fun htaken => (hrepeated htaken).1, ← h.transactions]
    rfl
  · rw [Ledger.table_extend fun htaken => (hrepeated htaken).2.1, ← h.logs]
    rfl
  · rw [Ledger.table_extend fun htaken => (hrepeated htaken).2.2, ← h.tokenTransfers]
    rfl

/-- **A rollback cuts the ledger.** -/
theorem Shows.rollback (h : db.Shows ledger) (hvalid : db.Valid) (event : ReorgEvent) (now : ℕ) :
    (db.rollback event now).Shows
      (Ledger.apply IndexedBlock.height ledger (.cut event.commonAncestor)) := by
  have htransactions : ∀ b ∈ ledger, ∀ row ∈ b.transactionRows, row.blockNumber = b.height :=
    fun b hb => IndexedBlock.transactionRows_height (h.coherent b hb)
  -- A key of a log or a transfer begins with its height.
  have hlogKey : ∀ row row' : LogRow, row'.key = row.key → row'.blockNumber = row.blockNumber :=
    fun _ _ hkey => congrArg Prod.fst hkey
  have htransferKey : ∀ row row' : TokenTransferRow, row'.key = row.key →
      row'.blockNumber = row.blockNumber := fun _ _ hkey => congrArg Prod.fst hkey
  refine
    { heights := Ledger.nodup_apply h.heights _
      coherent := fun b hb => h.coherent b (List.mem_of_mem_filter hb)
      times := fun b hb => h.times b (List.mem_of_mem_filter hb)
      blocks := ?_
      transactions := ?_
      logs := ?_
      tokenTransfers := ?_
      settled := h.settled.cut htransactions _ }
  · rw [rollback_blocks hvalid, h.blocks]
    exact (Ledger.table_cut (Ledger.settled_of_key (fun _ _ hkey => hkey) ledger)
      (fun b _ => IndexedBlock.blockRows_height) _).symm
  · rw [rollback_transactions hvalid, h.transactions]
    exact (Ledger.table_cut h.settled htransactions _).symm
  · rw [rollback_logs hvalid, h.logs]
    exact (Ledger.table_cut (Ledger.settled_of_key hlogKey ledger)
      (fun b hb => IndexedBlock.logRows_height (h.coherent b hb)) _).symm
  · rw [rollback_tokenTransfers hvalid, h.tokenTransfers]
    exact (Ledger.table_cut (Ledger.settled_of_key htransferKey ledger)
      (fun b hb => IndexedBlock.tokenTransferRows_height (h.coherent b hb)) _).symm

/-! ## A new database -/

/-- A block that comes after the blocks of a ledger can be committed to a database that shows
them. -/
theorem Shows.admits {indexed : IndexedBlock} {rest : List IndexedBlock} (h : db.Shows ledger)
    (hheights : ((ledger ++ indexed :: rest).map IndexedBlock.height).Nodup)
    (hsettled : Ledger.Settled IndexedBlock.transactionRows TransactionRow.hash
      TransactionRow.blockNumber (ledger ++ indexed :: rest)) : db.Admits indexed where
  repeated htaken := by
    rw [h.heights_eq] at htaken
    rw [List.map_append, List.map_cons] at hheights
    exact absurd List.mem_cons_self ((List.nodup_append.mp hheights).2.2 _ htaken _ · rfl)
  ordered _ row hrow stored hstored hhash := by
    rw [h.transactions] at hstored
    refine hsettled indexed (by simp) row hrow stored ?_ hhash
    rw [Ledger.table_append]
    exact Table.mem_insertAll_of_mem hstored _

/-- The blocks that come after those that a store shows are committed one after the other. -/
theorem Shows.commitAll {store : PostgresStore} {rest : List IndexedBlock}
    (h : store.db.Shows ledger) (hserved : store.fates = [])
    (hall : db.Shows (ledger ++ rest)) (hvalid : db.Valid) :
    ∃ store', store.commitAll (rest.map (·, 0)) = (.ok (), store') ∧
      store'.db.Shows (ledger ++ rest) := by
  induction rest generalizing ledger store with
  | nil => exact ⟨store, rfl, by rwa [List.append_nil]⟩
  | cons indexed rest ih =>
    have hmem : indexed ∈ ledger ++ indexed :: rest := by simp
    have hcoherent := hall.coherent indexed hmem
    have htime := hall.times indexed hmem
    have hadmits := h.admits hall.heights hall.settled
    -- A stored block of the same hash would be the block itself.
    have hhash : ∀ row ∈ store.db.blocks, row.hash = indexed.block.hash.bytes →
        row.number = saturate i64Max indexed.block.number := by
      intro row hrow hsame
      rw [h.blocks_eq] at hrow
      obtain ⟨b, hb, rfl⟩ := List.mem_map.mp hrow
      have hrows : ∀ b' ∈ ledger ++ indexed :: rest,
          blockRow b'.block (saturate i64Max b'.block.timestamp) ∈ db.blocks := fun b' hb' => by
        rw [hall.blocks_eq]
        exact List.mem_map_of_mem hb'
      have heq := hvalid.eq_of_hash (hrows b (by simp [hb])) (hrows indexed hmem) hsame
      exact congrArg BlockRow.number heq
    have hok := commitBlock_isOk hcoherent htime hhash 0
    have hcommit : PostgresStore.commitBlock { store with now := 0 } indexed =
        (.ok (), { store with db := store.db.committed indexed 0, now := 0 }) :=
      @PostgresStore.commitBlock_served { store with now := 0 } hserved indexed _ hok
    have hfree : indexed.height ∉ ledger.map IndexedBlock.height := by
      intro htaken
      have hheights := hall.heights
      rw [List.map_append, List.map_cons] at hheights
      exact (List.nodup_append.mp hheights).2.2 _ htaken _ List.mem_cons_self rfl
    -- At a free height the block comes last in the ledger.
    have hnext := h.commitBlock hcoherent htime hadmits 0
    rw [Ledger.apply_extend, Table.insertIfAbsent_of_notMem hfree] at hnext
    have hassoc : ledger ++ indexed :: rest = (ledger ++ [indexed]) ++ rest := by simp
    rw [hassoc] at hall ⊢
    obtain ⟨store', hrun, hshows⟩ :=
      @ih _ { store with db := store.db.committed indexed 0, now := 0 } hnext hserved hall
    refine ⟨store', ?_, hshows⟩
    rw [List.map_cons, PostgresStore.commitAll, hcommit]
    exact hrun

/-- **A new store** accepts the blocks of the ledger, and then holds the same chain. -/
theorem Shows.fresh (h : db.Shows ledger) (hvalid : db.Valid) :
    ∃ store, PostgresStore.commitAll ⟨migrated, [], 0⟩ (ledger.map (·, 0)) = (.ok (), store) ∧
      db.SameChain store.db := by
  obtain ⟨store, hrun, hshows⟩ :=
    @Shows.commitAll db [] ⟨migrated, [], 0⟩ ledger shows_migrated rfl h hvalid
  exact ⟨store, hrun, h.sameChain hshows⟩

end Shows

end Db

end ChainLens
