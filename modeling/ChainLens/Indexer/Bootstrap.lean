import ChainLens.Indexer.Main

/-!
# Starting from an empty store

On an empty store the first block has nothing to be compared with, and should be stored whatever
its height. The committer compares it with the empty hash instead. Only heights 0 and 1 are not
checked, so indexing gets started from these, and from no other height.

## Main definitions

* `Indexable`: a block decodes with the receipts the node serves
* `commitAll`: commit one block after the other
* `Bootstraps`: the first block, and with it the first batch, is stored

## Main results

* `Db.Ready.commitBlock`, `Db.Ready.commitAll`: the blocks above a chain are stored
* `bootstraps_iff`: from which heights indexing starts
* `Bootstraps.run`: the loop stores the first batch
-/

namespace ChainLens

open Transition

/-- The block decodes with the receipts the node serves, and its timestamp fits the column. -/
def Indexable (client : EthClient) (n : ℕ) (block : BlockResponse) : Prop :=
  ∃ receipts indexed, fetchReceipts client n block = .ok receipts ∧
    decodeBlock block receipts = .ok indexed ∧ block.timestamp < 9224318016000

/-- Commit the numbers one after the other, without database failures, as long as every call
stores its block. -/
def commitAll (client : EthClient) (maxReorgDepth now : ℕ) : List ℕ → Db → Option Db
  | [], db => some db
  | n :: pending, db =>
    match commitBlock client ⟨db, [], now⟩ n maxReorgDepth with
    | (.ok false, store) => commitAll client maxReorgDepth now pending store.db
    | _ => none

/-- The first call stores the block it is for and sets the cursor to it, and the calls for the
first batch store all its blocks. -/
structure Bootstraps (cfg : Config) (client : EthClient) (chain : CanonicalChain) (now : ℕ) :
    Prop where
  first : ∃ store, commitBlock client ⟨.migrated, [], now⟩ cfg.backfillFrom cfg.maxReorgDepth =
      (.ok false, store) ∧ store.db.Agrees chain cfg.backfillFrom ∧
    store.db.cursor = some (cfg.backfillFrom, (chain.block cfg.backfillFrom).hash.bytes)
  batch : ∃ db, commitAll client cfg.maxReorgDepth now
      (cfg.blocksToFetch cfg.initialCursor chain.head) .migrated = some db ∧
    ∀ n ∈ cfg.blocksToFetch cfg.initialCursor chain.head, db.Agrees chain n

/-- Blocks of the chain below height `n` are stored, and the block at height `n` is linked. -/
structure Db.Ready (db : Db) (chain : CanonicalChain) (n : ℕ) : Prop where
  rows : ∀ row ∈ db.blocks, row.number < n ∧ row.hash = (chain.block row.number).hash.bytes
  linked : 2 ≤ n → db.cursorHash = (chain.block (n - 1)).hash.bytes

theorem Db.migrated_ready {chain : CanonicalChain} {n : ℕ} (h : n ≤ 1) :
    Db.migrated.Ready chain n where
  rows _ hrow := by cases hrow
  linked htwo := by omega

section Served

variable {client : EthClient} {chain : CanonicalChain} {db : Db} {n : ℕ}

theorem Db.Ready.not_unlinked (h : db.Ready chain n) (hn : n ≤ chain.head) :
    ¬ Unlinked db n (chain.block n).parentHash := by
  rintro ⟨htwo, hhash⟩
  obtain ⟨m, rfl⟩ : ∃ m, n = m + 1 := ⟨n - 1, by omega⟩
  apply hhash
  rw [h.linked htwo, chain.linked m hn, Nat.add_sub_cancel]

/-- **One call**: the block above the stored chain is stored. -/
theorem Db.Ready.commitBlock (maxDepth now : ℕ) (h : db.Ready chain n)
    (hserves : client.Serves chain) (hn : n ≤ chain.head) (hfits : n ≤ i64Max)
    (hindexable : Indexable client n (chain.block n)) :
    ∃ db', ChainLens.commitBlock client ⟨db, [], now⟩ n maxDepth = (.ok false, ⟨db', [], now⟩) ∧
      db'.Ready chain (n + 1) ∧ db'.Agrees chain n ∧
      db'.cursor = some (n, (chain.block n).hash.bytes) ∧
      ∀ row ∈ db.blocks, row ∈ db'.blocks := by
  obtain ⟨receipts, indexed, hreceipts, hdecode, htime⟩ := hindexable
  have hnumber : saturate i64Max (chain.block n).number = n := by
    rw [chain.number_eq n hn, saturate_of_le hfits]
  -- Stored blocks are canonical and lower, so none carries the block's hash.
  have hfresh : ∀ row ∈ db.blocks, row.hash = (chain.block n).hash.bytes →
      row.number = saturate i64Max (chain.block n).number := by
    intro row hrow hhash
    obtain ⟨hlt, hcanonical⟩ := h.rows row hrow
    rw [hnumber]
    exact chain.distinct _ (by omega) n hn (FixedBytes.ext (hcanonical.symm.trans hhash))
  have hcommit := @commitBlock_accepts client ⟨db, [], now⟩ n maxDepth (chain.block n) receipts
    indexed (hserves.get_of_le hn true) (h.not_unlinked hn) hreceipts hdecode htime hfresh rfl
  obtain ⟨hheader, hhash, -, -⟩ := decodeBlock_header hdecode
  let row := blockRow indexed.block (saturate i64Max indexed.block.timestamp)
  have hrowNumber : row.number = n := by
    show saturate i64Max indexed.block.number = n
    rw [hheader, hnumber]
  have hrowHash : row.hash = (chain.block n).hash.bytes := congrArg (·.bytes) hhash
  have hblocks : (db.committed indexed now).blocks = db.blocks ++ [row] := by
    refine Table.insertIfAbsent_of_notMem fun hmem => ?_
    obtain ⟨other, hother, heq⟩ := List.mem_map.mp hmem
    have hlt := (h.rows other hother).1
    have hsame : other.number = n := heq.trans hrowNumber
    omega
  have hcursor : (db.committed indexed now).cursor = some (n, (chain.block n).hash.bytes) := by
    show some (saturate i64Max indexed.block.number, indexed.block.hash.bytes) = _
    rw [hheader, hnumber, hhash]
  refine ⟨_, hcommit, ⟨fun r hr => ?_, fun _ => ?_⟩, ⟨row, ?_, hrowNumber, hrowHash⟩, hcursor,
    fun r hr => ?_⟩
  · rw [hblocks, List.mem_append, List.mem_singleton] at hr
    rcases hr with hr | rfl
    · obtain ⟨hlt, hcanonical⟩ := h.rows r hr
      exact ⟨by omega, hcanonical⟩
    · rw [hrowNumber]
      exact ⟨Nat.lt_succ_self n, hrowHash⟩
  · rw [Db.cursorHash, hcursor]
    rfl
  · rw [hblocks]
    exact List.mem_append_right _ (List.mem_singleton_self row)
  · rw [hblocks]
    exact List.mem_append_left _ hr

/-- **Every call**: consecutive blocks above the stored chain are all stored. -/
theorem Db.Ready.commitAll {k : ℕ} (maxDepth now : ℕ) (h : db.Ready chain n)
    (hserves : client.Serves chain) (hhead : n + k ≤ chain.head + 1) (hfits : n + k ≤ i64Max + 1)
    (hindexable : ∀ m, n ≤ m → m < n + k → Indexable client m (chain.block m)) :
    ∃ db', ChainLens.commitAll client maxDepth now (List.range' n k) db = some db' ∧
      (∀ row ∈ db.blocks, row ∈ db'.blocks) ∧
      ∀ m, n ≤ m → m < n + k → db'.Agrees chain m := by
  induction k generalizing n db with
  | zero => exact ⟨db, rfl, fun _ hrow => hrow, fun m hlow hhigh => absurd hlow (by omega)⟩
  | succ k ih =>
    obtain ⟨db₁, hcommit, hready, ⟨row, hrow, hrowNumber, hrowHash⟩, -, hkept⟩ :=
      h.commitBlock maxDepth now hserves (by omega) (by omega)
        (hindexable n (Nat.le_refl n) (by omega))
    obtain ⟨db', hrest, hkept', hagrees⟩ := ih hready (by omega) (by omega)
      fun m hlow hhigh => hindexable m (by omega) (by omega)
    refine ⟨db', ?_, fun r hr => hkept' r (hkept r hr), fun m hlow hhigh => ?_⟩
    · rw [List.range'_succ, ChainLens.commitAll, hcommit]
      exact hrest
    · rcases Nat.lt_or_eq_of_le hlow with hlt | rfl
      · exact hagrees m hlt (by omega)
      · exact ⟨row, hkept' row hrow, hrowNumber, hrowHash⟩

/-- Blocks that were all stored are indexable. -/
theorem indexable_of_commitAll {maxDepth now : ℕ} {ns : List ℕ} {db' : Db}
    (h : commitAll client maxDepth now ns db = some db') (hserves : client.Serves chain)
    (hhead : ∀ n ∈ ns, n ≤ chain.head) : ∀ n ∈ ns, Indexable client n (chain.block n) := by
  induction ns generalizing db with
  | nil => nofun
  | cons n ns ih =>
    rw [commitAll] at h
    split at h
    next store hcommit =>
      refine List.forall_mem_cons.mpr
        ⟨?_, ih h fun m hm => hhead m (List.mem_cons_of_mem _ hm)⟩
      obtain ⟨block, receipts, indexed, _, hblock, -, hreceipts, hdecode, hdb⟩ :=
        commitBlock_stored hcommit
      rw [hserves.get_of_le (hhead n List.mem_cons_self)] at hblock
      -- The node serves the chain, so the block stored is the canonical one.
      obtain rfl := Option.some.inj (Except.ok.inj hblock)
      have htime := Db.timestamp_lt_of_commitBlock hdb
      rw [(decodeBlock_header hdecode).2.2.2] at htime
      exact ⟨receipts, indexed, hreceipts, hdecode, htime⟩
    next => cases h

end Served

section Start

variable {cfg : Config} {client : EthClient} {chain : CanonicalChain} {now : ℕ}

/-- The first batch starts at the configured height. -/
theorem firstBatch_eq {cfg : Config} {head : ℕ} :
    cfg.blocksToFetch cfg.initialCursor head = List.range' cfg.backfillFrom
      (min (cfg.fetchQueueDepth * 2) (head + 1 - cfg.backfillFrom)) := by
  rw [Config.blocksToFetch, Config.take_range', Config.initialCursor,
    max_eq_right (Nat.sub_le _ _)]

/-- A block at height 2 or above is taken for a reorg on the empty store. -/
theorem migrated_unlinked {n : ℕ} {parentHash : B256} (h : 2 ≤ n) :
    Unlinked .migrated n parentHash := by
  exact ⟨h, fun hhash => parentHash.bytes_ne_nil hhash.symm⟩

/-- **From which heights indexing starts**: 0 and 1, with a first batch of indexable blocks. -/
theorem bootstraps_iff (hserves : client.Serves chain) (hhead : cfg.backfillFrom ≤ chain.head) :
    Bootstraps cfg client chain now ↔ cfg.backfillFrom ≤ 1 ∧
      ∀ n ∈ cfg.blocksToFetch cfg.initialCursor chain.head,
        Indexable client n (chain.block n) := by
  constructor
  · rintro ⟨⟨store, hcommit, -⟩, ⟨db, hall, -⟩⟩
    refine ⟨le_of_not_gt fun htwo => ?_, indexable_of_commitAll hall hserves fun n hn => ?_⟩
    · obtain ⟨_, _, _, _, -, hlinked, -⟩ := commitBlock_stored hcommit
      exact hlinked (migrated_unlinked htwo)
    · exact (cfg.mem_blocksToFetch hn).2
  · rintro ⟨hone, hindexable⟩
    -- The first batch is not empty, and its heights fit the column.
    have hpos := cfg.fetchQueueDepth_pos
    have hle : cfg.fetchQueueDepth ≤ 2305843009213693951 := cfg.fetchQueueDepth_le
    rw [firstBatch_eq] at hindexable
    simp only [List.mem_range'_1, and_imp] at hindexable
    have hready : Db.migrated.Ready chain cfg.backfillFrom := Db.migrated_ready hone
    obtain ⟨db₁, hcommit, -, hagrees, hcursor, -⟩ := hready.commitBlock cfg.maxReorgDepth now
      hserves hhead (by unfold i64Max; omega)
      (hindexable cfg.backfillFrom (Nat.le_refl _) (by omega))
    obtain ⟨db, hall, -, hstored⟩ := hready.commitAll cfg.maxReorgDepth now hserves
      (by omega) (by unfold i64Max; omega) hindexable
    refine ⟨⟨_, hcommit, hagrees, hcursor⟩, ⟨db, ?_, fun n hn => ?_⟩⟩
    · rw [firstBatch_eq]
      exact hall
    · rw [firstBatch_eq, List.mem_range'_1] at hn
      exact hstored n hn.1 hn.2

end Start

/-- Indexing starts at height 1 of a chain of empty blocks. -/
theorem bootstraps_fromOne :
    let chain := CanonicalChain.numbered (fun _ => 1) 3 (by decide)
    Bootstraps (Indexer.smallConfig 1 1) (.serving chain) chain 0 := by
  intro chain
  refine (bootstraps_iff (EthClient.serving_serves chain) (by decide)).mpr ⟨by decide, ?_⟩
  intro n _
  exact ⟨[], _, rfl, rfl, show 1600000000 < 9224318016000 by decide⟩

/-- Indexing from height 2: the first call rolls the empty store back to height 0. -/
theorem not_bootstraps_fromTwo :
    let chain := CanonicalChain.numbered (fun _ => 1) 3 (by decide)
    (EthClient.serving chain).Serves chain ∧
      (commitBlock (.serving chain) ⟨.migrated, [], 0⟩ 2 1).1 = .ok true ∧
      ¬ Bootstraps (Indexer.smallConfig 2 1) (.serving chain) chain 0 := by
  intro chain
  have hfirst : (commitBlock (.serving chain) ⟨.migrated, [], 0⟩ 2 1).1 = .ok true := by decide
  refine ⟨EthClient.serving_serves chain, hfirst, fun h => ?_⟩
  obtain ⟨store, hcommit, -⟩ := h.first
  have hresult := congrArg Prod.fst hcommit
  cases hfirst.symm.trans hresult

/-! ## In the loop -/

namespace Indexer

variable {cfg : Config} {client : EthClient} {chain : CanonicalChain} {now : ℕ}

/-- Committing one block after the other is a run of the receive loop. -/
theorem run_of_commitAll {pending : List ℕ} {db db' : Db} (cursor : ℕ)
    (h : commitAll client cfg.maxReorgDepth now pending db = some db') :
    ∃ moves cursor', Run (Step cfg) ⟨db, .receiving cursor pending⟩ moves
      ⟨db', .receiving cursor' []⟩ := by
  induction pending generalizing db cursor with
  | nil =>
    obtain rfl := Option.some.inj h
    exact ⟨[], cursor, .nil _⟩
  | cons n pending ih =>
    rw [commitAll] at h
    split at h
    next store hcommit =>
      obtain ⟨moves, cursor', hrest⟩ := ih n h
      have hstep : Step cfg ⟨db, .receiving cursor (n :: pending)⟩ (.commit client [] now)
          ⟨store.db, .receiving n pending⟩ := by
        simp only [Step, next, receive, hcommit]
      exact ⟨_, cursor', .cons hstep hrest⟩
    next => cases h

end Indexer

/-- **The loop stores the first batch** once indexing has started. -/
theorem Bootstraps.run {cfg : Config} {client : EthClient} {chain : CanonicalChain} {now : ℕ}
    (h : Bootstraps cfg client chain now) :
    ∃ moves s, Run (Indexer.Step cfg) ⟨.migrated, .stopped⟩ moves s ∧
      ∀ n ∈ cfg.blocksToFetch cfg.initialCursor chain.head, s.db.Agrees chain n := by
  obtain ⟨db, hall, hagrees⟩ := h.batch
  obtain ⟨moves, cursor, hrun⟩ := Indexer.run_of_commitAll cfg.initialCursor hall
  have hpoll : Indexer.Step cfg ⟨.migrated, .polling cfg.initialCursor⟩
      (.poll chain.head (cfg.blocksToFetch cfg.initialCursor chain.head).length)
      ⟨.migrated, .receiving cfg.initialCursor
        (cfg.blocksToFetch cfg.initialCursor chain.head)⟩ := by
    simp only [Indexer.Step, Indexer.next, List.take_length]
  exact ⟨_, _, .cons (show Indexer.Step cfg _ .start _ from rfl) (.cons hpoll hrun), hagrees⟩

end ChainLens
