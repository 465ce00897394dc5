import ChainLens.Domain.Text
import ChainLens.Reorg.Detect
import ChainLens.Reorg.Rollback

/-!
# Committing a block

The committer fetches a block again, checks that it extends the cursor, and either rolls the
store back to the common ancestor or stores the block. A call ends in one of three ways, and the
database changes in the last two only.

## Main definitions

* `commitBlock`
* `CommitStep`: the ways a call can end

## Main results

* `commitBlock_step`: every call ends in one of these ways
* `commitBlock_accepts`: when a call stores its block
* `commitBlock_resumes_iff`: when a rollback leaves a cursor to resume from
* `commitBlock_misreports`: what the audit row says is never what was deleted
-/

namespace ChainLens

inductive PipelineError where
  | rpc (e : RpcError)
  | store (e : StoreError)
  | decode (e : DecodeError)
  | reorg (e : ReorgError)
deriving DecidableEq

/-- The receipts of a block, in one request or one for each transaction. -/
def fetchReceipts (client : EthClient) (blockNumber : ℕ) (block : BlockResponse) :
    Except PipelineError (List ReceiptResponse) :=
  if client.supportsBlockReceipts then
    (client.getBlockReceipts blockNumber).mapError .rpc
  else
    -- One request for each transaction; the first that fails ends the loop.
    block.transactions.mapM fun tx =>
      match client.getTransactionReceipt tx.hash with
      | .error e => .error (.rpc e)
      | .ok none =>
        .error (.rpc (.deserialize
          ("receipt for tx 0x" ++ hexEncode tx.hash.bytes ++ " not found")))
      | .ok (some receipt) => .ok receipt

/-- One vector of zeros for every height from the ancestor to the incoming block. -/
def collectOrphanedHashes (fromHeight toHeight : ℕ) : List Bytes :=
  List.replicate (toHeight + 1 - fromHeight) (List.replicate 32 0)

/-- The event of a reorg with the given ancestor, found at the given block. -/
def reorgEvent (ancestor blockNumber : ℕ) : ReorgEvent where
  commonAncestor := ancestor
  depth := blockNumber - ancestor
  orphanedFrom := ancestor + 1
  orphanedTo := blockNumber
  orphanedHashes := collectOrphanedHashes ancestor blockNumber

/-- The second half of `commit_block`: fetch the receipts, decode and store. -/
def storeBlock (client : EthClient) (store : PostgresStore) (blockNumber : ℕ)
    (block : BlockResponse) : Except (Fault PipelineError) Bool × PostgresStore :=
  match fetchReceipts client blockNumber block with
  | .error e => (.error (.error e), store)
  | .ok receipts =>
    match decodeBlock block receipts with
    | .error fault => (.error (fault.map .decode), store)
    | .ok indexed =>
      match store.commitBlock indexed with
      | (.error e, store) => (.error (.error (.store e)), store)
      | (.ok (), store) => (.ok false, store)

/-- The result says whether a reorg was handled instead of storing the block. -/
def commitBlock (client : EthClient) (store : PostgresStore) (blockNumber maxReorgDepth : ℕ) :
    Except (Fault PipelineError) Bool × PostgresStore :=
  -- The block is fetched again; the worker's copy is not used.
  match client.getBlockByNumber blockNumber true with
  | .error e => (.error (.error (.rpc e)), store)
  | .ok none =>
    (.error (.error (.rpc (.deserialize s!"block {blockNumber} not found"))), store)
  | .ok (some block) =>
    if 0 < blockNumber then
      match detect client store blockNumber block.parentHash maxReorgDepth with
      | (.error e, store) => (.error (.error (.reorg e)), store)
      | (.ok none, store) => storeBlock client store blockNumber block
      | (.ok (some ancestor), store) =>
        match rollback store (reorgEvent ancestor blockNumber) with
        | (.error e, store) => (.error (.error (.store (.database e))), store)
        | (.ok (), store) => (.ok true, store)
    else
      storeBlock client store blockNumber block

/-! ## How a call can end -/

/-- The error of a call whose transaction became durable without an acknowledgement. -/
def unacknowledged : Fault PipelineError := .error (.store (.database .io))

/-- The ways a call can end, as the result and the database it leaves. -/
inductive CommitStep (client : EthClient) (maxReorgDepth : ℕ) (db : Db) (n : ℕ) :
    Except (Fault PipelineError) Bool → Db → Prop where
  | failed (fault : Fault PipelineError) : CommitStep client maxReorgDepth db n (.error fault) db
  | rolledBack {block : BlockResponse} {ancestor now : ℕ}
      {result : Except (Fault PipelineError) Bool}
      (hblock : client.getBlockByNumber n true = .ok (some block))
      (hunlinked : Unlinked db n block.parentHash)
      (hlow : n - 1 - maxReorgDepth ≤ ancestor) (hhigh : ancestor ≤ n - 1)
      (hstops : StopsAt client db ancestor)
      (hpasses : ∀ j, ancestor < j → j ≤ n - 1 → Passes client db j)
      (hresult : result = .ok true ∨ result = .error unacknowledged) :
      CommitStep client maxReorgDepth db n result (db.rollback (reorgEvent ancestor n) now)
  | committed {block : BlockResponse} {receipts : List ReceiptResponse} {indexed : IndexedBlock}
      {now : ℕ} {db' : Db} {result : Except (Fault PipelineError) Bool}
      (hblock : client.getBlockByNumber n true = .ok (some block))
      (hlinked : ¬ Unlinked db n block.parentHash)
      (hreceipts : fetchReceipts client n block = .ok receipts)
      (hdecode : decodeBlock block receipts = .ok indexed)
      (hdb : db.commitBlock indexed now = .ok db')
      (hresult : result = .ok false ∨ result = .error unacknowledged) :
      CommitStep client maxReorgDepth db n result db'

section Step

variable {client : EthClient} {store : PostgresStore} {n maxReorgDepth : ℕ} {block : BlockResponse}

theorem storeBlock_step (hblock : client.getBlockByNumber n true = .ok (some block))
    (hlinked : ¬ Unlinked store.db n block.parentHash) :
    CommitStep client maxReorgDepth store.db n (storeBlock client store n block).1
      (storeBlock client store n block).2.db := by
  unfold storeBlock
  split
  · exact .failed _
  next receipts hreceipts =>
    split
    · exact .failed _
    next indexed hdecode =>
      unfold PostgresStore.commitBlock
      rcases store.transact_cases (Db.commitBlock indexed store.now) with
        ⟨⟨e, he⟩, hdb⟩ | ⟨db, hok, hdb, hresult | hresult⟩
      · simp only [he, Except.mapError, hdb]
        exact .failed _
      · simp only [hresult, Except.mapError, hdb]
        exact .committed hblock hlinked hreceipts hdecode hok (Or.inl rfl)
      · simp only [hresult, Except.mapError, hdb]
        exact .committed hblock hlinked hreceipts hdecode hok (Or.inr rfl)

/-- **Every call ends in one of these ways.** -/
theorem commitBlock_step :
    CommitStep client maxReorgDepth store.db n (commitBlock client store n maxReorgDepth).1
      (commitBlock client store n maxReorgDepth).2.db := by
  unfold commitBlock
  split
  · exact .failed _
  · exact .failed _
  next block hblock =>
    split
    next hpos =>
      have hkeep : (detect client store n block.parentHash maxReorgDepth).2.db = store.db :=
        detect_db
      cases hdetect : detect client store n block.parentHash maxReorgDepth with
      | mk result store₁ =>
        rw [hdetect] at hkeep
        dsimp only at hkeep ⊢
        cases result with
        | error e =>
          dsimp only
          rw [hkeep]
          exact .failed _
        | ok ancestor =>
          -- Either the block is linked, or the walk found an ancestor for the rollback.
          rcases detect_ok hdetect with ⟨rfl, hlinked⟩ | ⟨k, store₂, rfl, hunlinked, hdb, hwalk⟩
          · rw [← hkeep] at hlinked ⊢
            exact storeBlock_step hblock hlinked
          · obtain ⟨hlow, hhigh, hstops, hpasses⟩ := findAncestor_ok hwalk
            rw [hdb] at hstops hpasses
            have hrolled {result : Except (Fault PipelineError) Bool} :=
              @CommitStep.rolledBack client maxReorgDepth store.db n block k store₁.now result
                hblock hunlinked hlow hhigh hstops hpasses
            have hroll := rollback_cases store₁ (reorgEvent k n)
            dsimp only
            cases hresult : rollback store₁ (reorgEvent k n) with
            | mk r store₃ =>
              rw [hresult, hkeep] at hroll
              dsimp only at hroll ⊢
              rcases hroll with ⟨⟨e, rfl⟩, hsame⟩ | ⟨heffect, rfl | rfl⟩
              · rw [hsame]
                exact .failed _
              · rw [heffect]
                exact hrolled (Or.inl rfl)
              · rw [heffect]
                exact hrolled (Or.inr rfl)
    -- Height 0 is stored without a comparison.
    next hzero =>
      exact storeBlock_step hblock fun hunlinked => by
        have := hunlinked.1
        omega

/-- A call that reports its block as stored found it linked and decoded it. -/
theorem commitBlock_stored {store' : PostgresStore}
    (hcommit : commitBlock client store n maxReorgDepth = (.ok false, store')) :
    ∃ block receipts indexed now, client.getBlockByNumber n true = .ok (some block) ∧
      ¬ Unlinked store.db n block.parentHash ∧ fetchReceipts client n block = .ok receipts ∧
      decodeBlock block receipts = .ok indexed ∧
      store.db.commitBlock indexed now = .ok store'.db := by
  have hstep := @commitBlock_step client store n maxReorgDepth
  rw [hcommit] at hstep
  generalize hresult : (Except.ok false, store').1 = result at hstep
  generalize (Except.ok false, store').2.db = db at hstep ⊢
  cases hstep with
  | failed => cases hresult
  | rolledBack _ _ _ _ _ _ h =>
    rw [← hresult] at h
    rcases h with h | h <;> cases h
  | committed hblock hlinked hreceipts hdecode hdb =>
    exact ⟨_, _, _, _, hblock, hlinked, hreceipts, hdecode, hdb⟩

/-- **When a call stores its block**: it is not a reorg, it decodes, and its row fits the table. -/
theorem commitBlock_accepts {receipts : List ReceiptResponse} {indexed : IndexedBlock}
    (hblock : client.getBlockByNumber n true = .ok (some block))
    (hlinked : ¬ Unlinked store.db n block.parentHash)
    (hreceipts : fetchReceipts client n block = .ok receipts)
    (hdecode : decodeBlock block receipts = .ok indexed)
    (htime : block.timestamp < 9224318016000)
    (hhash : ∀ row ∈ store.db.blocks, row.hash = block.hash.bytes →
      row.number = saturate i64Max block.number) (hfates : store.fates = []) :
    commitBlock client store n maxReorgDepth =
      (.ok false, { store with db := store.db.committed indexed store.now }) := by
  have hstore : storeBlock client store n block =
      (.ok false, { store with db := store.db.committed indexed store.now }) := by
    obtain ⟨hnumber, hheaderHash, -, htimestamp⟩ := decodeBlock_header hdecode
    have hok : store.db.commitBlock indexed store.now =
        .ok (store.db.committed indexed store.now) :=
      Db.commitBlock_isOk (decodeBlock_coherent hdecode) (htimestamp ▸ htime)
        (by rwa [hheaderHash, hnumber]) store.now
    simp only [storeBlock, hreceipts, hdecode, PostgresStore.commitBlock,
      PgPool.transact_served hfates hok, Except.mapError]
  unfold commitBlock
  simp only [hblock, detect_linked hlinked hfates, hstore, ite_self]

/-- A call that finds a reorg fails without effect, or rolls back to the ancestor detection found,
acknowledged or not. -/
theorem commitBlock_reorg_cases {store' : PostgresStore}
    {result : Except (Fault PipelineError) Bool} (hpos : 0 < n)
    (hblock : client.getBlockByNumber n true = .ok (some block)) {a : ℕ}
    (hdetect : (detect client store n block.parentHash maxReorgDepth).1 = .ok (some a))
    (hcommit : commitBlock client store n maxReorgDepth = (result, store')) :
    ((∃ fault, result = .error fault) ∧ store'.db = store.db) ∨
      ∃ now, store'.db = store.db.rollback (reorgEvent a n) now := by
  have hkeep : (detect client store n block.parentHash maxReorgDepth).2.db = store.db :=
    detect_db
  simp only [commitBlock, hblock, if_pos hpos] at hcommit
  cases hd : detect client store n block.parentHash maxReorgDepth with
  | mk found store₁ =>
    rw [hd] at hdetect hkeep hcommit
    subst hdetect
    dsimp only at hkeep hcommit
    have hroll := rollback_cases store₁ (reorgEvent a n)
    cases hrolled : rollback store₁ (reorgEvent a n) with
    | mk r store₂ =>
      rw [hrolled, hkeep] at hroll
      rw [hrolled] at hcommit
      rcases hroll with ⟨⟨e, rfl⟩, hsame⟩ | ⟨heffect, rfl | rfl⟩
      · cases hcommit
        exact Or.inl ⟨⟨_, rfl⟩, hsame⟩
      · cases hcommit
        exact Or.inr ⟨_, heffect⟩
      · cases hcommit
        exact Or.inr ⟨_, heffect⟩

/-- A call that reports a handled reorg rolled back to the ancestor detection found. -/
theorem commitBlock_reorg {store' : PostgresStore} (hpos : 0 < n)
    (hblock : client.getBlockByNumber n true = .ok (some block)) {a : ℕ}
    (hdetect : (detect client store n block.parentHash maxReorgDepth).1 = .ok (some a))
    (hcommit : commitBlock client store n maxReorgDepth = (.ok true, store')) :
    ∃ now, store'.db = store.db.rollback (reorgEvent a n) now := by
  rcases commitBlock_reorg_cases hpos hblock hdetect hcommit with ⟨⟨fault, hfault⟩, -⟩ | hrolled
  -- A rollback that failed would have been reported.
  · cases hfault
  · exact hrolled

end Step

/-! ## Resuming after a rollback -/

/-- After a rollback by the committer the cursor's hash is zero. -/
theorem rollback_cursor {a n : ℕ} (h : a ≤ n) (now : ℕ) (db : Db) :
    (db.rollback (reorgEvent a n) now).cursor =
      some (saturate i64Max a, List.replicate 32 0) := by
  -- The range from the ancestor to the block is not empty, so its first hash is zero.
  have hhead : (collectOrphanedHashes a n).headD [] = List.replicate 32 0 := by
    rw [collectOrphanedHashes, Nat.succ_sub h, List.replicate_succ, List.headD_cons]
  show some (_, if a = 0 then _ else (collectOrphanedHashes a n).headD []) = _
  rw [hhead, ite_self]
  rfl

/-- The cursor is the stored block at height `a`, and its child is an ordinary block: whatever
its node and depth bound, detection reports no reorg on it. -/
structure Db.ResumesAt (db : Db) (a : ℕ) : Prop where
  cursor : ∃ row ∈ db.blocks, row.number = a ∧ db.cursor = some (a, row.hash)
  child : ∀ row ∈ db.blocks, row.number = a → ∀ parentHash : B256, parentHash.bytes = row.hash →
    ∀ (client : EthClient) (store : PostgresStore) (maxDepth : ℕ), store.db = db →
      store.fates = [] → detect client store (a + 1) parentHash maxDepth = (.ok none, store)

/-- **When a rollback leaves a cursor to resume from**: the stored hash of the ancestor, a height
below the tip of the stored chain, is zero. -/
theorem commitBlock_resumes_iff {client : EthClient} {store store' : PostgresStore}
    {n maxReorgDepth lo tip a : ℕ} {block : BlockResponse} (hpos : 0 < n)
    (hblock : client.getBlockByNumber n true = .ok (some block))
    (hdetect : (detect client store n block.parentHash maxReorgDepth).1 = .ok (some a))
    (hcommit : commitBlock client store n maxReorgDepth = (.ok true, store'))
    (hchain : store.db.HoldsChain lo tip) (hlo : lo ≤ a) (htip : a < tip) :
    store'.db.ResumesAt a ↔
      ∃ row ∈ store.db.blocks, row.number = a ∧ row.hash = List.replicate 32 0 := by
  obtain ⟨now, hdb⟩ := commitBlock_reorg hpos hblock hdetect hcommit
  have han : a ≤ n := (detect_ancestor_le hdetect).trans (Nat.sub_le n 1)
  obtain ⟨row, hrow, hnumber⟩ := List.mem_map.mp ((hchain.heights a).mpr ⟨hlo, htip.le⟩)
  have hkept : row ∈ store'.db.blocks := by
    rw [hdb, Db.rollback_blocks hchain.valid]
    exact List.mem_filter.mpr ⟨hrow, decide_eq_true hnumber.le⟩
  -- What the rollback leaves is the same in both directions: row `a` and a zero hash.
  have hcursor : store'.db.cursor = some (a, List.replicate 32 0) := by
    rw [hdb, rollback_cursor han, saturate_of_le (hnumber ▸ hchain.valid.blocks_bigint row hrow)]
  have hvalid : store'.db.Valid := hdb ▸ hchain.valid.rollback _ now
  constructor
  · intro h
    obtain ⟨row', hrow', hnumber', hcursor'⟩ := h.cursor
    obtain rfl := hvalid.eq_of_number hrow' hkept (hnumber'.trans hnumber.symm)
    rw [hcursor, Option.some.injEq, Prod.mk.injEq] at hcursor'
    exact ⟨row', hrow, hnumber, hcursor'.2.symm⟩
  · rintro ⟨row', hrow', hnumber', hzero⟩
    obtain rfl := hchain.valid.eq_of_number hrow' hrow (hnumber'.trans hnumber.symm)
    refine ⟨⟨row', hkept, hnumber, by rw [hcursor, hzero]⟩, ?_⟩
    intro row'' hrow'' hnumber'' parentHash hparent client' store'' maxDepth hstore hfates
    obtain rfl := hvalid.eq_of_number hrow'' hkept (hnumber''.trans hnumber.symm)
    -- The child's parent hash is the stored hash of `a`, hence the cursor's.
    refine detect_linked (fun hunlinked => hunlinked.2 ?_) hfates
    rw [hstore, Db.cursorHash, hcursor, hparent, hzero]
    rfl

namespace Fork

/-- A stored chain up to height 2. -/
def store : PostgresStore := ⟨Db.numbered (fun _ => 1) 0 2, [], 0⟩

/-- A node whose chain left the stored one above height 0. -/
def client : EthClient :=
  .serving (.numbered (fun n => if n < 1 then 1 else 2) 3 (by decide))

end Fork

/-- Block 3 of the node orphans heights 1 and 2, and the cursor goes to height 0 without its
hash. -/
theorem commitBlock_loses_cursor :
    Fork.client.getBlockByNumber 3 true =
        .ok (some (branchBlock (fun n => if n < 1 then 1 else 2) 3)) ∧
      (detect Fork.client Fork.store 3
        (branchBlock (fun n => if n < 1 then 1 else 2) 3).parentHash 2).1 = .ok (some 0) ∧
      Fork.store.db.HoldsChain 0 2 ∧
      ∃ store', commitBlock Fork.client Fork.store 3 2 = (.ok true, store') ∧
        store'.db.cursor = some (0, List.replicate 32 0) ∧ ¬ store'.db.ResumesAt 0 := by
  have hcursor : (commitBlock Fork.client Fork.store 3 2).2.db.cursor =
      some (0, List.replicate 32 0) := by decide
  refine ⟨rfl, by decide, Db.numbered_holdsChain (by decide) (by decide),
    (commitBlock Fork.client Fork.store 3 2).2, ?_, hcursor, fun h => ?_⟩
  · exact Prod.ext (by decide) rfl
  · obtain ⟨row, hrow, hnumber, hrowCursor⟩ := h.cursor
    have hblocks : (commitBlock Fork.client Fork.store 3 2).2.db.blocks =
        [Db.branchRow (fun _ => 1) 0] := by decide
    rw [hblocks, List.mem_singleton] at hrow
    rw [hrow, hcursor] at hrowCursor
    exact absurd hrowCursor (by decide)

/-- The equivalence at that reorg, where both sides fail. -/
theorem commitBlock_fork_resumes_iff :
    (commitBlock Fork.client Fork.store 3 2).2.db.ResumesAt 0 ↔
      ∃ row ∈ Fork.store.db.blocks, row.number = 0 ∧ row.hash = List.replicate 32 0 :=
  have hchain : Fork.store.db.HoldsChain 0 2 :=
    Db.numbered_holdsChain (by decide) (by decide)
  have hcommit : commitBlock Fork.client Fork.store 3 2 =
      (.ok true, (commitBlock Fork.client Fork.store 3 2).2) := Prod.ext (by decide) rfl
  have hblock : Fork.client.getBlockByNumber 3 true =
      .ok (some (branchBlock (fun n => if n < 1 then 1 else 2) 3)) := rfl
  commitBlock_resumes_iff (by decide) hblock (by decide) hcommit hchain (by decide) (by decide)

/-! ## The audit row -/

/-- The row tells what was deleted: the heights above the ancestor up to the tip, how many there
were, and their hashes in ascending order. -/
structure Db.Audits (db : Db) (a tip : ℕ) (row : ReorgRow) : Prop where
  orphanedFrom : row.orphanedFrom = a + 1
  orphanedTo : row.orphanedTo = tip
  depth : row.depth = tip - a
  orphanedHashes : List.Forall₂
    (fun number hash => ∃ block ∈ db.blocks, block.number = number ∧ block.hash = hash)
    (List.range' (a + 1) (tip - a)) row.orphanedHashes

/-- Two heights that were not deleted are counted among the hashes: the ancestor's own and the
incoming block's. -/
theorem length_collectOrphanedHashes {a tip : ℕ} (h : a ≤ tip) :
    (collectOrphanedHashes a (tip + 1)).length = tip - a + 2 := by
  rw [collectOrphanedHashes, List.length_replicate]
  omega

/-- **The audit row is wrong after every rollback** for the block above the tip: it carries two
hashes more than there were blocks to delete. -/
theorem commitBlock_misreports {client : EthClient} {store store' : PostgresStore}
    {maxReorgDepth tip a : ℕ} {block : BlockResponse}
    {result : Except (Fault PipelineError) Bool}
    (hblock : client.getBlockByNumber (tip + 1) true = .ok (some block))
    (hdetect : (detect client store (tip + 1) block.parentHash maxReorgDepth).1 = .ok (some a))
    (hcommit : commitBlock client store (tip + 1) maxReorgDepth = (result, store'))
    (hrolled : store'.db ≠ store.db) :
    ∃ row, store'.db.reorgs = store.db.reorgs ++ [row] ∧ ¬ store.db.Audits a tip row := by
  rcases commitBlock_reorg_cases (Nat.succ_pos tip) hblock hdetect hcommit with
    ⟨-, hsame⟩ | ⟨now, hdb⟩
  · exact absurd hsame hrolled
  rw [hdb]
  refine ⟨_, rfl, fun haudits => ?_⟩
  have hdeleted : tip - a = (collectOrphanedHashes a (tip + 1)).length :=
    List.length_range'.symm.trans haudits.orphanedHashes.length_eq
  have ha : a ≤ tip := detect_ancestor_le hdetect
  rw [length_collectOrphanedHashes ha] at hdeleted
  omega

/-- The reorg that orphans heights 1 and 2 is recorded as three blocks deep, up to height 3. -/
theorem commitBlock_fork_audit :
    Fork.store.db.HoldsChain 0 2 ∧ (commitBlock Fork.client Fork.store 3 2).1 = .ok true ∧
      ∃ row, (commitBlock Fork.client Fork.store 3 2).2.db.reorgs = [row] ∧
        row.commonAncestorNumber = 0 ∧ row.depth = 3 ∧ row.orphanedTo = 3 ∧
        ¬ Fork.store.db.Audits 0 2 row := by
  refine ⟨Db.numbered_holdsChain (by decide) (by decide), by decide, ?_⟩
  have hreorgs : (commitBlock Fork.client Fork.store 3 2).2.db.reorgs =
      [⟨1, 0, 0, 3, 1, 3, List.replicate 4 (List.replicate 32 0)⟩] := by decide
  exact ⟨_, hreorgs, rfl, rfl, rfl, fun haudits => absurd haudits.depth (by decide)⟩

/-- The audit row of that reorg, by the general statement. -/
theorem commitBlock_fork_misreports :
    ∃ row, (commitBlock Fork.client Fork.store 3 2).2.db.reorgs =
        Fork.store.db.reorgs ++ [row] ∧ ¬ Fork.store.db.Audits 0 2 row := by
  have hdb : (commitBlock Fork.client Fork.store 3 2).2.db ≠ Fork.store.db := by decide
  have hblock : Fork.client.getBlockByNumber 3 true =
      .ok (some (branchBlock (fun n => if n < 1 then 1 else 2) 3)) := rfl
  have hdetect : (detect Fork.client Fork.store 3
      (branchBlock (fun n => if n < 1 then 1 else 2) 3).parentHash 2).1 = .ok (some 0) := by
    decide
  exact commitBlock_misreports hblock hdetect rfl hdb

end ChainLens
