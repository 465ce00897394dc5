import ChainLens.Intelligence.Calldata
import ChainLens.Intelligence.Graph
import ChainLens.Library.Cut

/-!
# Exporting the transactions of an address

An export joins the transactions of an address with their actions, and cuts the joined rows at a
limit. A transaction takes a row for each of its actions, so that one whose actions were persisted
again is listed again, and the cut may leave out transactions for it.

## Main definitions

* `ExportAddressTransactionsJson`, `ExportAddressTransactionsCsv`: what the exports may return
* `ListsOnce`: the exports list each transaction once
* `Db.FitsLimit`: the rows of every height an export reaches are of transactions listed once
* `Export.Step`: commits, calls of the background processor, and requests for explanations

## Main results

* `listsOnce_iff`: when the exports of a database list each transaction once
* `Export.lists_once_iff`: the same on every database that is reached
-/

namespace ChainLens

open Transition

structure ExportRow where
  blockNumber : ℕ
  timestamp : String
  txHash : String
  fromAddr : String
  toAddr : Option String
  value : Numeric
  actionType : String
  description : String
deriving DecidableEq

/-- A joined row of the query: a transaction with its block, and an action of it. -/
abbrev ExportSource := (TransactionRow × BlockRow) × Option TransactionActionRow

namespace ExportSource

variable (source : ExportSource)

def tx : TransactionRow := source.1.1

/-- What the rows are ordered by. -/
def height : Int := source.1.1.blockNumber

end ExportSource

def exportRow (setup : Setup) (source : ExportSource) : ExportRow where
  blockNumber := source.tx.blockNumber
  timestamp := setup.timestampText source.1.2.timestamp
  txHash := hexText source.tx.hash
  fromAddr := hexText source.tx.fromAddr
  toAddr := source.tx.toAddr.map hexText
  value := source.tx.value
  actionType := (source.2.map (·.actionType)).getD "unknown"
  description := (source.2.map (·.description)).getD ""

namespace Db

variable (db : Db)

/-- The transactions of an address with their blocks. -/
def exportPairs (address : Bytes) : List (TransactionRow × BlockRow) :=
  db.transactionBlocks.filter fun p => p.1.fromAddr = address ∨ p.1.toAddr = some address

/-- `LEFT JOIN transaction_actions ta ON ta.tx_hash = t.hash`. -/
def exportSources (address : Bytes) : List ExportSource :=
  Table.leftJoin (fun p action => action.txHash = p.1.hash) (db.exportPairs address)
    db.transactionActions

end Db

/-- What the query of an export may return. Rows of one height come in any order, and the database
may fail at any time. -/
inductive ExportAddressTransactions (setup : Setup) (db : Db) (address : String) (limit : Int) :
    Except SqlError (List ExportRow) → Prop where
  | invalidAddress (h : hexDecodeTrimmed address = none) :
      ExportAddressTransactions setup db address limit (.error (.protocol "invalid address"))
  | rows {bytes : Bytes} {sources : List ExportSource} (h : hexDecodeTrimmed address = some bytes)
      (hlimit : 0 ≤ limit)
      (htop : Grouping.IsTop ExportSource.height limit.toNat (db.exportSources bytes) sources) :
      ExportAddressTransactions setup db address limit (.ok (sources.map (exportRow setup)))
  -- A negative limit is an error of the statement as well.
  | failed {bytes : Bytes} (h : hexDecodeTrimmed address = some bytes) :
      ExportAddressTransactions setup db address limit (.error .io)

/-- The rows of the JSON array. -/
def ExportAddressTransactionsJson := ExportAddressTransactions

/-- The records given to the CSV writer. -/
def ExportAddressTransactionsCsv := ExportAddressTransactions

/-- Each transaction of the address is in the JSON export at most once, and is in it if the limit
allows; the CSV export has rows for the same transactions. -/
structure ListsOnce (setup : Setup) (db : Db) (address : String) (bytes : Bytes) (limit : Int) :
    Prop where
  once : ∀ rows, ExportAddressTransactionsJson setup db address limit (.ok rows) →
    (rows.map (·.txHash)).Nodup
  complete : ∀ rows, ExportAddressTransactionsJson setup db address limit (.ok rows) →
    (db.transactionsOf bytes).length ≤ limit →
      ∀ tx ∈ db.transactionsOf bytes, hexText tx.hash ∈ rows.map (·.txHash)
  same : ∀ rows records, ExportAddressTransactionsJson setup db address limit (.ok rows) →
    ExportAddressTransactionsCsv setup db address limit (.ok records) →
      ∀ hash, hash ∈ rows.map (·.txHash) ↔ hash ∈ records.map (·.txHash)

/-! ## The condition -/

namespace Db

variable (db : Db)

/-- The rows a transaction takes: one for each action, or one without an action. -/
def exportLines (tx : TransactionRow) : ℕ :=
  max 1 (db.transactionActions.filter (·.txHash = tx.hash)).length

def transactionsAt (address : Bytes) (height : ℕ) : List TransactionRow :=
  (db.transactionsOf address).filter (·.blockNumber = height)

/-- The rows of the transactions of an address above a height. -/
def linesAbove (address : Bytes) (height : ℕ) : ℕ :=
  (((db.transactionsOf address).filter (height < ·.blockNumber)).map db.exportLines).sum

/-- At every height the export reaches, the transactions of the address take one row each and fit,
or there is one transaction, and it takes the last row. -/
def FitsLimit (address : Bytes) (limit : Int) : Prop :=
  ∀ height, db.linesAbove address height < limit →
    (∀ tx ∈ db.transactionsAt address height, db.exportLines tx = 1) ∧
        db.linesAbove address height + (db.transactionsAt address height).length ≤ limit ∨
      (db.transactionsAt address height).length = 1 ∧ limit = db.linesAbove address height + 1

end Db

/-! ## The joined rows -/

section Rows

variable {db : Db} {address : Bytes} {height : ℕ}

/-- Every transaction has one block. -/
theorem Db.Valid.map_fst_transactionBlocks (hdb : db.Valid) :
    db.transactionBlocks.map Prod.fst = db.transactions := by
  have hblock : ∀ tx ∈ db.transactions,
      ((db.blocks.filter (·.number = tx.blockNumber)).map fun block => (tx, block)).map Prod.fst =
        [tx] := by
    intro tx htx
    obtain ⟨block, hblock, hnumber⟩ := List.mem_map.mp (hdb.transactions_block tx htx)
    rw [← hnumber, Table.filter_key_eq hdb.blocks_number hblock]
    rfl
  rw [Db.transactionBlocks, List.map_flatMap, List.flatMap_congr hblock, List.flatMap_singleton']

theorem Db.Valid.map_fst_exportPairs (hdb : db.Valid) (p : TransactionRow → Bool) :
    ((db.exportPairs address).filter fun pair => p pair.1).map Prod.fst =
      (db.transactionsOf address).filter p := by
  rw [Db.exportPairs, Db.transactionsOf, ← hdb.map_fst_transactionBlocks, List.filter_map,
    List.filter_map]
  rfl

theorem Db.Valid.nodup_hashes (hdb : db.Valid) (p : TransactionRow → Bool) :
    (((db.transactionsOf address).filter p).map (·.hash)).Nodup :=
  hdb.transactions_hash.sublist ((List.filter_sublist.trans List.filter_sublist).map _)

theorem mem_transactionsOf_of_source {source : ExportSource}
    (h : source ∈ db.exportSources address) (hdb : db.Valid) :
    source.tx ∈ db.transactionsOf address := by
  have hpair := Table.mem_map_fst_leftJoin.mp (List.mem_map_of_mem h)
  have hall := @Db.Valid.map_fst_exportPairs db address hdb fun _ => true
  rw [List.filter_true, List.filter_true] at hall
  rw [← hall]
  exact List.mem_map_of_mem hpair

/-- The rows above a height, and those at one. -/
theorem Db.Valid.length_above (hdb : db.Valid) :
    (Grouping.above ExportSource.height (db.exportSources address) height).length =
      db.linesAbove address height := by
  have hfilter : Grouping.above ExportSource.height (db.exportSources address) height =
      Table.leftJoin (fun p action => action.txHash = p.1.hash)
        ((db.exportPairs address).filter fun pair => height < pair.1.blockNumber)
        db.transactionActions := by
    rw [← Table.filter_leftJoin]
    refine List.filter_congr fun source _ => ?_
    simp [ExportSource.height]
  rw [hfilter, Table.length_leftJoin, Db.linesAbove, ← hdb.map_fst_exportPairs, List.map_map]
  rfl

theorem level_eq_leftJoin : Grouping.level ExportSource.height (db.exportSources address) height =
    Table.leftJoin (fun p action => action.txHash = p.1.hash)
      ((db.exportPairs address).filter fun pair => pair.1.blockNumber = height)
      db.transactionActions := by
  rw [← Table.filter_leftJoin]
  refine List.filter_congr fun source _ => ?_
  simp [ExportSource.height]

theorem Db.Valid.length_level (hdb : db.Valid) :
    (Grouping.level ExportSource.height (db.exportSources address) height).length =
      ((db.transactionsAt address height).map db.exportLines).sum := by
  rw [level_eq_leftJoin, Table.length_leftJoin, Db.transactionsAt, ← hdb.map_fst_exportPairs,
    List.map_map]
  rfl

/-- The transactions at a height are listed once if each takes one row. -/
theorem Db.Valid.nodup_level_iff (hdb : db.Valid) :
    ((Grouping.level ExportSource.height (db.exportSources address) height).map
      (·.tx.hash)).Nodup ↔ ∀ tx ∈ db.transactionsAt address height, db.exportLines tx = 1 := by
  rw [level_eq_leftJoin]
  refine (Table.nodup_leftJoin_iff (f := fun p : TransactionRow × BlockRow => p.1.hash)).trans ?_
  have hnodup : (((db.exportPairs address).filter fun pair => pair.1.blockNumber = height).map
      fun p => p.1.hash).Nodup := by
    have := @Db.Valid.nodup_hashes db address hdb fun tx => tx.blockNumber = height
    rwa [← hdb.map_fst_exportPairs, List.map_map] at this
  rw [Db.transactionsAt, ← hdb.map_fst_exportPairs]
  simp only [hnodup, true_and, List.forall_mem_map]
  rfl

theorem Db.Valid.mem_level_iff (hdb : db.Valid) {tx : TransactionRow} :
    tx ∈ (Grouping.level ExportSource.height (db.exportSources address) height).map
      ExportSource.tx ↔ tx ∈ db.transactionsAt address height := by
  rw [level_eq_leftJoin, Db.transactionsAt, ← hdb.map_fst_exportPairs, List.mem_map, List.mem_map]
  constructor
  · rintro ⟨source, hsource, rfl⟩
    exact ⟨source.1, Table.mem_map_fst_leftJoin.mp (List.mem_map_of_mem hsource), rfl⟩
  · rintro ⟨pair, hpair, rfl⟩
    obtain ⟨source, hsource, hfst⟩ := List.mem_map.mp (Table.mem_map_fst_leftJoin.mpr hpair)
    exact ⟨source, hsource, congrArg Prod.fst hfst⟩

/-- The rows at a height are of one transaction if there is no other. -/
theorem Db.Valid.level_same_iff (hdb : db.Valid) :
    (∀ a ∈ Grouping.level ExportSource.height (db.exportSources address) height,
      ∀ b ∈ Grouping.level ExportSource.height (db.exportSources address) height,
        a.tx.hash = b.tx.hash) ↔ (db.transactionsAt address height).length ≤ 1 := by
  constructor
  · intro hsame
    by_contra hmany
    obtain ⟨tx, tx', rest, htxs⟩ : ∃ tx tx' rest,
        db.transactionsAt address height = tx :: tx' :: rest := by
      match hlist : db.transactionsAt address height with
      | [] => simp [hlist] at hmany
      | [_] => simp [hlist] at hmany
      | tx :: tx' :: rest => exact ⟨tx, tx', rest, rfl⟩
    have hfound (t : TransactionRow) (ht : t ∈ tx :: tx' :: rest) :=
      List.mem_map.mp (hdb.mem_level_iff.mpr (htxs ▸ ht))
    obtain ⟨a, ha, rfl⟩ := hfound tx (by simp)
    obtain ⟨b, hb, rfl⟩ := hfound tx' (by simp)
    have hnodup := @Db.Valid.nodup_hashes db address hdb fun tx => tx.blockNumber = height
    rw [← Db.transactionsAt, htxs] at hnodup
    simp [hsame a ha b hb] at hnodup
  · intro hone a ha b hb
    have ha := hdb.mem_level_iff.mp (List.mem_map_of_mem ha)
    have hb := hdb.mem_level_iff.mp (List.mem_map_of_mem hb)
    match hlist : db.transactionsAt address height with
    | [] => simp [hlist] at ha
    | [tx] =>
      rw [hlist, List.mem_singleton] at ha hb
      rw [ha, hb]
    | tx :: tx' :: rest => simp [hlist] at hone

end Rows

/-! ## When an export lists each transaction once -/

section Lists

variable {setup : Setup} {db : Db} {address : String} {bytes : Bytes} {limit : Int}

theorem sources_iff (haddress : hexDecodeTrimmed address = some bytes) {rows : List ExportRow} :
    ExportAddressTransactions setup db address limit (.ok rows) ↔ 0 ≤ limit ∧ ∃ sources,
      Grouping.IsTop ExportSource.height limit.toNat (db.exportSources bytes) sources ∧
        rows = sources.map (exportRow setup) := by
  constructor
  · rintro (_ | ⟨h, hlimit, htop⟩)
    obtain rfl := Option.some.inj (h.symm.trans haddress)
    exact ⟨hlimit, _, htop, rfl⟩
  · rintro ⟨hlimit, sources, htop, rfl⟩
    exact .rows haddress hlimit htop

/-- Rows of one transaction have one height. -/
theorem height_eq_of_hash (hdb : db.Valid) {a b : ExportSource}
    (ha : a ∈ db.exportSources bytes) (hb : b ∈ db.exportSources bytes)
    (hhash : a.tx.hash = b.tx.hash) : a.height = b.height := by
  have htx : a.tx = b.tx := List.inj_on_of_nodup_map hdb.transactions_hash
    (List.mem_filter.mp (mem_transactionsOf_of_source ha hdb)).1
    (List.mem_filter.mp (mem_transactionsOf_of_source hb hdb)).1 hhash
  show (a.tx.blockNumber : Int) = b.tx.blockNumber
  rw [htx]

/-- Transactions of one row each take as many rows as they are. -/
theorem sum_exportLines {height : ℕ}
    (hone : ∀ tx ∈ db.transactionsAt bytes height, db.exportLines tx = 1) :
    ((db.transactionsAt bytes height).map db.exportLines).sum =
      (db.transactionsAt bytes height).length := by
  rw [List.map_congr_left hone]
  simp

/-- No transaction has a negative height. -/
theorem level_negSucc (k : ℕ) :
    Grouping.level ExportSource.height (db.exportSources bytes) (.negSucc k) = [] := by
  refine List.filter_eq_nil_iff.mpr fun source _ => ?_
  simp [ExportSource.height]

/-- The condition on the keys of the joined rows is the one on the transactions. -/
theorem determined_iff_fitsLimit (hdb : db.Valid) (n : ℕ) :
    Grouping.Determined ExportSource.height (·.tx.hash) n (db.exportSources bytes) ↔
      db.FitsLimit bytes n := by
  rw [Grouping.determined_iff fun a ha b hb => height_eq_of_hash hdb ha hb]
  constructor
  · intro h height hreached
    have hcut := h height
    rw [hdb.length_above, hdb.length_level, hdb.nodup_level_iff, hdb.level_same_iff] at hcut
    rcases hcut (by omega) with ⟨hone, hfits⟩ | ⟨hlast, hfew⟩
    · rw [sum_exportLines hone] at hfits
      exact .inl ⟨hone, by omega⟩
    · -- The rows of a height without transactions fit.
      match hlist : db.transactionsAt bytes height with
      | [] => exact .inl ⟨by simp, by simp; omega⟩
      | [tx] => exact .inr ⟨rfl, by omega⟩
      | tx :: tx' :: rest => simp [hlist] at hfew
  · intro h v
    match v with
    | .ofNat height =>
      show (Grouping.above _ _ (height : Int)).length < n → _
      intro hreached
      show _ ∧ (Grouping.above _ _ (height : Int)).length +
        (Grouping.level _ _ (height : Int)).length ≤ n ∨
          n = (Grouping.above _ _ (height : Int)).length + 1 ∧ _
      rw [hdb.length_above] at hreached
      rw [hdb.length_above, hdb.length_level]
      rcases h height (by omega) with ⟨hone, hfits⟩ | ⟨hsingle, hlast⟩
      · rw [sum_exportLines hone]
        exact .inl ⟨hdb.nodup_level_iff.mpr hone, by omega⟩
      · exact .inr ⟨by omega, hdb.level_same_iff.mpr hsingle.le⟩
    -- No row is at a negative height.
    | .negSucc k =>
      intro hreached
      rw [level_negSucc]
      exact .inl ⟨List.nodup_nil, by simpa using hreached.le⟩

/-- A negative limit exports nothing. -/
theorem listsOnce_of_neg (haddress : hexDecodeTrimmed address = some bytes) (hneg : limit < 0) :
    ListsOnce setup db address bytes limit := by
  have hnone (rows : List ExportRow) :
      ¬ ExportAddressTransactions setup db address limit (.ok rows) := by
    rw [sources_iff haddress]
    omega
  constructor
  · exact fun rows h => absurd h (hnone rows)
  · exact fun rows h => absurd h (hnone rows)
  · exact fun rows records h => absurd h (hnone rows)

theorem hashes_exportRow (sources : List ExportSource) :
    (sources.map (exportRow setup)).map (·.txHash) = (sources.map (·.tx.hash)).map hexText := by
  simp only [List.map_map]
  rfl

/-- What is exported are the first joined rows, in some order of them. -/
theorem export_hashes_iff (haddress : hexDecodeTrimmed address = some bytes) {n : ℕ}
    {hashes : List String} :
    (∃ rows, ExportAddressTransactions setup db address n (.ok rows) ∧
        rows.map (·.txHash) = hashes) ↔
      ∃ sources, Grouping.IsTop ExportSource.height n (db.exportSources bytes) sources ∧
        hashes = (sources.map (·.tx.hash)).map hexText := by
  constructor
  · rintro ⟨rows, hrows, rfl⟩
    obtain ⟨-, sources, htop, rfl⟩ := (sources_iff haddress).mp hrows
    exact ⟨sources, by simpa using htop, hashes_exportRow sources⟩
  · rintro ⟨sources, htop, rfl⟩
    refine ⟨sources.map (exportRow setup), ?_, hashes_exportRow sources⟩
    exact (sources_iff haddress).mpr ⟨Int.natCast_nonneg n, sources, by simpa using htop, rfl⟩

/-- An export lists each transaction once exactly if the first rows have determined keys. -/
theorem listsOnce_iff_determined (hdb : db.Valid) (haddress : hexDecodeTrimmed address = some bytes)
    (n : ℕ) : ListsOnce setup db address bytes n ↔
      Grouping.Determined ExportSource.height (·.tx.hash) n (db.exportSources bytes) := by
  have hinj : Function.Injective hexText := fun _ _ => hexText_inj.mp
  constructor
  · intro h
    have hexport {sources : List ExportSource}
        (htop : Grouping.IsTop ExportSource.height n (db.exportSources bytes) sources) :=
      (@export_hashes_iff setup _ _ _ haddress n _).mpr ⟨sources, htop, rfl⟩
    constructor
    · intro sources htop
      obtain ⟨rows, hrows, heq⟩ := hexport htop
      have hnodup := h.once rows hrows
      rw [heq] at hnodup
      exact hnodup.of_map _
    · intro sources sources' htop htop' hash hmem
      obtain ⟨rows, hrows, heq⟩ := hexport htop
      obtain ⟨records, hrecords, heq'⟩ := hexport htop'
      have hsame := (h.same rows records hrows hrecords (hexText hash)).mp
      rw [heq, heq', List.mem_map_of_injective hinj, List.mem_map_of_injective hinj] at hsame
      exact hsame hmem
  · intro h
    have htops {rows : List ExportRow}
        (hrows : ExportAddressTransactions setup db address n (.ok rows)) :=
      (export_hashes_iff haddress).mp ⟨rows, hrows, rfl⟩
    constructor
    · intro rows hrows
      obtain ⟨sources, htop, heq⟩ := htops hrows
      rw [heq]
      exact (h.once sources htop).map hinj
    · intro rows hrows hle tx htx
      obtain ⟨sources, htop, heq⟩ := htops hrows
      rw [heq, List.mem_map_of_injective hinj]
      have hlisted (source : ExportSource) (hsource : source ∈ db.exportSources bytes) :
          source.tx.hash ∈ (db.transactionsOf bytes).map (·.hash) :=
        List.mem_map_of_mem (mem_transactionsOf_of_source hsource hdb)
      have hat : tx ∈ db.transactionsAt bytes tx.blockNumber :=
        List.mem_filter.mpr ⟨htx, decide_eq_true rfl⟩
      obtain ⟨source, hsource, rfl⟩ := List.mem_map.mp (hdb.mem_level_iff.mpr hat)
      -- The hashes that can be listed are no more than the limit.
      refine h.complete hlisted ?_ htop (Grouping.mem_level.mp hsource).1
      rw [List.length_map]
      omega
    · intro rows records hrows hrecords hash
      obtain ⟨sources, htop, heq⟩ := htops hrows
      obtain ⟨sources', htop', heq'⟩ := htops hrecords
      rw [heq, heq', List.mem_map, List.mem_map]
      constructor
      · rintro ⟨bytes, hbytes, rfl⟩
        exact ⟨bytes, h.same _ _ htop htop' bytes hbytes, rfl⟩
      · rintro ⟨bytes, hbytes, rfl⟩
        exact ⟨bytes, h.same _ _ htop' htop bytes hbytes, rfl⟩

/-- **When the exports of a database list each transaction once.** -/
theorem listsOnce_iff (hdb : db.Valid) (haddress : hexDecodeTrimmed address = some bytes)
    (limit : Int) : ListsOnce setup db address bytes limit ↔ db.FitsLimit bytes limit := by
  rcases Int.lt_or_le limit 0 with hneg | hlimit
  -- A negative limit reaches no height.
  · refine iff_of_true (listsOnce_of_neg haddress hneg) fun height hreached => ?_
    omega
  · obtain ⟨n, rfl⟩ := Int.eq_ofNat_of_zero_le hlimit
    rw [listsOnce_iff_determined hdb haddress, determined_iff_fitsLimit hdb]

end Lists

/-! ## The databases that are reached -/

namespace Export

/-- A statement keeps the constraints. -/
def KeepsValid (pool pool' : PgPool) : Prop := pool.db.Valid → pool'.db.Valid

section KeepsValid

variable {setup : Setup} {detectors : Detectors}

theorem persistTransactionActions_keepsValid (explanation : TransactionExplanation) :
    (Session.persistTransactionActions explanation).run.Every KeepsValid fun _ => True := by
  unfold Session.persistTransactionActions
  cases hexBytes explanation.txHash "invalid tx hash" with
  | error e => trivial
  | ok txHash =>
    show (Session.persistActions txHash explanation.actions).run.Every _ _
    induction explanation.actions with
    | nil => trivial
    | cons action actions ih =>
      unfold Session.persistActions
      cases actionRow txHash action with
      | error e => trivial
      | ok row =>
        refine ⟨fun pool h => pool.transact_preserves
          (fun _ hok => h.insertTransactionAction hok) h, fun r => ?_⟩
        cases r with
        | ok _ => exact ih
        | error e => trivial

theorem explainHandler_keepsValid (text : String) :
    (explainHandler setup text).run.Every KeepsValid fun _ => True := by
  refine Session.every_bind (((explainTransaction_reads text).every _).mono (fun _ _ h => h)
    fun r _ => ?_)
  cases r with
  | ok explanation =>
    exact (Session.every_ignore (persistTransactionActions_keepsValid _)).mono (fun _ _ h => h)
      fun _ _ => trivial
  | error e => trivial

/-- **Every statement of `process_block` keeps the constraints.** -/
theorem processBlock_keepsValid (blockNumber : ℕ) :
    (processBlock setup detectors blockNumber).run.Every KeepsValid fun _ => True := by
  unfold processBlock
  apply Session.every_then
  · exact Session.every_selection fun hash => Session.every_handle
      ((explainTransaction_reads _).every _) fun _ =>
        Session.every_ignore (persistTransactionActions_keepsValid _)
  -- The statements of the other parts are refused.
  have hsame : ∀ pool pool', PgPool.SameDb pool pool' → KeepsValid pool pool' :=
    fun pool pool' h hvalid => h ▸ hvalid
  apply Session.every_then (processAddresses_same.mono hsame fun _ h => h)
  apply Session.every_then (processContracts_same.mono hsame fun _ h => h)
  apply Session.every_then (processAnomalies_same.mono hsame fun _ _ => trivial)
  exact processMev_same.mono hsame fun _ _ => trivial

theorem program_keepsValid (n : ℕ) (call : Reprocess.Call) :
    (call.program setup detectors n).Every KeepsValid fun _ => True := by
  cases call with
  | process => exact processBlock_keepsValid n
  | explain text => exact explainHandler_keepsValid text

end KeepsValid

inductive Event where
  | commit (indexed : IndexedBlock) (now : ℕ)
  | arrive (n : ℕ) (call : Reprocess.Call)
  | advance (i : ℕ)
  | conditions (fates : List Fate) (now : ℕ)

/-- Blocks are committed, and calls of `process_block` and requests for explanations come and go on
in any order, one query or statement at a time. -/
inductive Step (setup : Setup) (detectors : Detectors) :
    Reprocess.State → Event → Reprocess.State → Prop
  | commit {s : Reprocess.State} {indexed : IndexedBlock} {now : ℕ} {db : Db} :
      indexed.Coherent → s.pool.db.commitBlock indexed now = .ok db →
      Step setup detectors s (.commit indexed now) { s with pool := { s.pool with db } }
  | arrive {s : Reprocess.State} {n : ℕ} {call : Reprocess.Call} :
      Step setup detectors s (.arrive n call)
        { s with running := s.running ++ [call.program setup detectors n] }
  | advance {s : Reprocess.State} {i : ℕ} {p p' : Program} {pool : PgPool} :
      s.running[i]? = some p → p.step PgPool.snapshot s.pool = some (p', pool) →
      Step setup detectors s (.advance i) ⟨pool, s.running.set i p'⟩
  | conditions {s : Reprocess.State} {fates : List Fate} {now : ℕ} :
      Step setup detectors s (.conditions fates now)
        { s with pool := { s.pool with fates, now } }

/-- The migrated database, with no call under way. -/
def initial : Reprocess.State := ⟨⟨.migrated, [], 0⟩, []⟩

/-- The database meets its constraints, and the calls under way keep them. -/
structure Sound (s : Reprocess.State) : Prop where
  valid : s.pool.db.Valid
  running : ∀ p ∈ s.running, p.Every KeepsValid fun _ => True

section Reached

variable {setup : Setup} {detectors : Detectors} {s t : Reprocess.State} {e : Event}

theorem sound_step (h : Step setup detectors s e t) (hs : Sound s) : Sound t := by
  cases h with
  | commit hcoherent hcommit => exact ⟨hs.valid.commitBlock hcommit, hs.running⟩
  | arrive =>
    refine ⟨hs.valid, fun p hp => ?_⟩
    rcases List.mem_append.mp hp with hp | hp
    · exact hs.running p hp
    · rw [List.mem_singleton.mp hp]
      exact program_keepsValid _ _
  | advance hp hstep =>
    obtain ⟨hkeep, hrest⟩ := (hs.running _ (List.mem_of_getElem? hp)).step
      (fun pool h => by rwa [PgPool.snapshot_db]) hstep
    refine ⟨hkeep hs.valid, fun p hp => ?_⟩
    rcases List.mem_or_eq_of_mem_set hp with hp | rfl
    · exact hs.running p hp
    · exact hrest
  | conditions => exact ⟨hs.valid, hs.running⟩

theorem sound_run {moves : List (Move Reprocess.State Event)}
    (h : Run (Step setup detectors) initial moves s) : Sound s :=
  @Run.invariant _ _ _ _ _ _ Sound (fun _ => True) (fun _ _ _ hstep _ hs => sound_step hstep hs) h
    (fun _ _ => trivial) ⟨Db.valid_migrated, nofun⟩

/-- **When the exports list each transaction once**, on every database that commits, calls of
`process_block` and requests for explanations lead to. -/
theorem lists_once_iff {moves : List (Move Reprocess.State Event)}
    (hrun : Run (Step setup detectors) initial moves s) {address : String} {bytes : Bytes}
    (haddress : hexDecodeTrimmed address = some bytes) (limit : Int) :
    ListsOnce setup s.pool.db address bytes limit ↔ s.pool.db.FitsLimit bytes limit :=
  listsOnce_iff (sound_run hrun).valid haddress limit

end Reached

/-! ## A transfer that is explained twice -/

section Twice

variable {setup : Setup} {detectors : Detectors}

/-- A call that arrived last goes on to its end. -/
theorem run_last (before : List Program) (p : Program) (pool : PgPool) :
    ∃ moves q, Run (Step setup detectors) ⟨pool, before ++ [p]⟩ moves
      ⟨(p.run PgPool.snapshot pool).2, before ++ [q]⟩ := by
  have hget (p : Program) : (before ++ [p])[before.length]? = some p := by simp
  have hset (p q : Program) : (before ++ [p]).set before.length q = before ++ [q] := by simp
  induction p generalizing pool with
  | done r => exact ⟨[], _, .nil _⟩
  | panic message => exact ⟨[], _, .nil _⟩
  | query next ih =>
    obtain ⟨moves, q, hrun⟩ := ih pool.snapshot.1 pool.snapshot.2
    have hstep := @Step.advance setup detectors ⟨pool, before ++ [.query next]⟩ before.length _ _ _
      (hget _) rfl
    rw [hset] at hstep
    exact ⟨_, q, .cons hstep hrun⟩
  | exec stmt next ih =>
    obtain ⟨moves, q, hrun⟩ := ih (stmt pool).1 (stmt pool).2
    have hstep := @Step.advance setup detectors ⟨pool, before ++ [.exec stmt next]⟩ before.length
      _ _ _ (hget _) rfl
    rw [hset] at hstep
    exact ⟨_, q, .cons hstep hrun⟩

theorem explainHandler_sameIndexed (text : String) (pool : PgPool) :
    pool.db.SameIndexed (((explainHandler setup text).run).run PgPool.snapshot pool).2.db := by
  have hevery : (explainHandler setup text).run.Every
      (fun pool pool' => pool.db.SameIndexed pool'.db) fun _ => True := by
    refine Session.every_bind (((explainTransaction_reads text).every _).mono (fun _ _ h => h)
      fun r _ => ?_)
    cases r with
    | error e => trivial
    | ok explanation =>
      refine (Session.every_ignore ((persistTransactionActions_writes _).mono ?_ fun _ h => h)).mono
        (fun _ _ h => h) fun _ _ => trivial
      rintro pool pool' ⟨rows, serials, h⟩
      rw [h]
      exact ⟨rfl, rfl, rfl, rfl, rfl, rfl, rfl⟩
  exact hevery.run (fun pool => by rw [PgPool.snapshot_db]) (fun _ => .refl _)
    (fun _ _ _ h h' => h.trans h') pool

end Twice

/-- A block with a transfer of half an ether. -/
def transfer : IndexedBlock := Reprocess.valueBlock 500000000000000000

def transferPool : PgPool := Reprocess.valuePool 500000000000000000

def transferRow : TransactionRow := transactionRow (transfer.transactions.head (by decide))

theorem transferPool_transactions : transferPool.db.transactions = [transferRow] := rfl

theorem run_commit : ∃ moves, Run (Step Reprocess.plainSetup Reprocess.plainDetectors) initial
    moves ⟨transferPool, []⟩ := by
  have hcoherent : transfer.Coherent := by
    refine ⟨?_, nofun, nofun⟩
    simp [transfer, Reprocess.valueBlock, BatchLog.indexed]
  have htime : transfer.block.timestamp < 9224318016000 := by
    show BatchLog.indexed.block.timestamp < 9224318016000
    decide
  have hcommit : Db.migrated.commitBlock transfer 0 = .ok (Db.migrated.committed transfer 0) :=
    Db.commitBlock_isOk hcoherent htime (fun row hrow _ => absurd hrow List.not_mem_nil) 0
  exact ⟨_, .cons (.commit hcoherent hcommit) (.nil _)⟩

/-- The transfer is an action, and its summary does not panic. -/
theorem transferRow_recorded : transferRow.Recorded Reprocess.plainSetup where
  acts := .inr (.inr ⟨by decide, by decide +kernel⟩)
  fee h := absurd h (by decide)
  summary := by
    have hactions : transactionActions transferRow.context =
        .ok [transferRow.context.ethTransfer] := by
      rw [transactionActions, if_neg (by decide), if_neg (by decide), if_pos (by decide +kernel)]
    have haddresses : transferRow.HasAddresses :=
      ⟨by decide, fun address haddress => by
        obtain rfl := Option.some.inj haddress
        decide⟩
    obtain ⟨summary, hsummary⟩ := haddresses.buildSummary_isOk hactions
    exact ⟨_, summary, hactions, hsummary⟩

/-- Explaining the transfer once more appends rows. -/
theorem run_explain {s : Reprocess.State} (hvalid : s.pool.db.Valid)
    (htransactions : s.pool.db.transactions = [transferRow]) : ∃ moves s',
      Run (Step Reprocess.plainSetup Reprocess.plainDetectors) s moves s' ∧
        s'.pool.db.transactions = [transferRow] ∧
        s.pool.db.transactionActions.length < s'.pool.db.transactionActions.length := by
  have hmem : transferRow ∈ s.pool.db.transactions := by simp [htransactions]
  obtain ⟨timestamp, hfound⟩ := @selectTransaction_of_mem Reprocess.plainSetup s.pool.db
    transferRow hvalid hmem
  have hgrow := explainHandler_appends hfound transferRow_recorded 0
  obtain ⟨moves, q, hrun⟩ := @run_last Reprocess.plainSetup Reprocess.plainDetectors s.running
    (explainHandler Reprocess.plainSetup (hexText transferRow.hash)).run ⟨s.pool.db, [], 0⟩
  have hsame := @explainHandler_sameIndexed Reprocess.plainSetup (hexText transferRow.hash)
    ⟨s.pool.db, [], 0⟩
  rw [Session.runOn_snd] at hgrow
  refine ⟨_, _, .cons (@Step.conditions _ _ _ [] 0) (.cons
    (@Step.arrive _ _ _ 7 (.explain (hexText transferRow.hash))) hrun), ?_, hgrow⟩
  rw [hsame.transactions, htransactions]

/-- What the address of the transfer's sender has, in a database with this transaction only. -/
theorem transactionsOf_sender {db : Db} (h : db.transactions = [transferRow]) :
    db.transactionsOf transferRow.fromAddr = [transferRow] := by
  rw [Db.transactionsOf, h]
  rfl

/-- A transfer that nobody explained is exported once. -/
theorem transfer_listed_once : ListsOnce Reprocess.plainSetup transferPool.db
    (hexText transferRow.fromAddr) transferRow.fromAddr 10 := by
  obtain ⟨moves, hrun⟩ := run_commit
  apply (lists_once_iff hrun (hexDecodeTrimmed_hexText _) 10).mpr
  have htransactions := transactionsOf_sender transferPool_transactions
  have hlines : transferPool.db.exportLines transferRow = 1 := rfl
  intro height _
  show (∀ tx ∈ transferPool.db.transactionsAt _ height, transferPool.db.exportLines tx = 1) ∧
    (transferPool.db.linesAbove _ height : Int) + (transferPool.db.transactionsAt _ height).length ≤
      10 ∨ _
  simp only [Db.transactionsAt, Db.linesAbove, htransactions]
  refine .inl ⟨?_, ?_⟩
  · intro tx htx
    rw [List.mem_singleton.mp (List.mem_of_mem_filter htx), hlines]
  · rcases lt_trichotomy height transferRow.blockNumber with hlt | rfl | hgt
    · simp [hlt, hlt.ne', hlines]
    · simp
    · simp [hgt.not_gt, hgt.ne]

/-- Explained twice, the transfer is exported twice. -/
theorem transfer_listed_twice : ∃ moves s,
    Run (Step Reprocess.plainSetup Reprocess.plainDetectors) initial moves s ∧
      ¬ ListsOnce Reprocess.plainSetup s.pool.db (hexText transferRow.fromAddr)
        transferRow.fromAddr 10 := by
  obtain ⟨moves₀, hrun₀⟩ := run_commit
  obtain ⟨moves₁, s₁, hrun₁, htransactions₁, hgrow₁⟩ :=
    run_explain (sound_run hrun₀).valid transferPool_transactions
  have hrun₁ := hrun₀.append hrun₁
  obtain ⟨moves₂, s₂, hrun₂, htransactions₂, hgrow₂⟩ :=
    run_explain (sound_run hrun₁).valid htransactions₁
  have hrun₂ := hrun₁.append hrun₂
  have hvalid := (sound_run hrun₂).valid
  refine ⟨_, s₂, hrun₂, ?_⟩
  rw [listsOnce_iff hvalid (hexDecodeTrimmed_hexText _)]
  intro hfits
  -- All rows are of the only transaction.
  have hall : s₂.pool.db.transactionActions.filter (·.txHash = transferRow.hash) =
      s₂.pool.db.transactionActions := by
    refine List.filter_eq_self.mpr fun row hrow => decide_eq_true ?_
    have hhash := hvalid.transactionActions_tx row hrow
    rw [htransactions₂] at hhash
    exact List.mem_singleton.mp hhash
  have hlines : 2 ≤ s₂.pool.db.exportLines transferRow := by
    rw [Db.exportLines, hall]
    omega
  have hof := transactionsOf_sender htransactions₂
  have habove : s₂.pool.db.linesAbove transferRow.fromAddr transferRow.blockNumber = 0 := by
    simp [Db.linesAbove, hof]
  have hat : transferRow ∈
      s₂.pool.db.transactionsAt transferRow.fromAddr transferRow.blockNumber := by
    simp [Db.transactionsAt, hof]
  rcases hfits transferRow.blockNumber (by omega) with ⟨hone, -⟩ | ⟨-, hlast⟩
  · have := hone transferRow hat
    omega
  · omega

end Export

end ChainLens
