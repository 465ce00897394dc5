import ChainLens.Indexer.Main

/-!
# Contiguity of the stored chain

While the cursor has a number, the stored heights should be an interval without gaps that ends
there, with neighbours linked by their hashes. Each call of `commit_block` keeps this as long as
the block it accepts extends the stored chain and the ancestor it rolls back to is stored; the
committer checks neither. On an empty store the walk for the ancestor already ends at a height
that is not stored.

## Main definitions

* `Db.Contiguous`: the guarantee
* `KeepsChain`: what the committer would have to check

## Main results

* `CommitStep.intact`: one call
* `Indexer.contiguous_of_meetsAssumptions`: every run
-/

namespace ChainLens

open Transition

/-- The stored heights are an interval that ends at the cursor, with neighbours linked. -/
def Db.Contiguous (db : Db) : Prop :=
  ∀ c, db.indexerState.lastIndexedNumber = some c → ∃ lo, db.HoldsInterval lo c

/-- What the runs keep: without a cursor nothing is stored. -/
structure Db.Intact (db : Db) : Prop where
  valid : db.Valid
  empty : db.indexerState.lastIndexedNumber = none → db.blocks = []
  contiguous : db.Contiguous

/-- A block fits on the stored chain: nothing is stored, or it falls on the cursor's height, or it
is the child of the block stored there. -/
def Db.Fits (db : Db) (n : ℕ) (parentHash : B256) : Prop :=
  db.blocks = [] ∨ ∃ row ∈ db.blocks, db.indexerState.lastIndexedNumber = some row.number ∧
    (saturate i64Max n = row.number ∨
      saturate i64Max n = row.number + 1 ∧ parentHash.bytes = row.hash)

/-- What a call for the block at height `n` relies on without checking it: an accepted block fits
on the stored chain, and the walk from an unlinked one stops at a stored height. -/
structure KeepsChain (client : EthClient) (maxDepth : ℕ) (db : Db) (n : ℕ) (parentHash : B256) :
    Prop where
  fits : ¬ Unlinked db n parentHash → db.Fits n parentHash
  ancestor : Unlinked db n parentHash → ∀ k, n - 1 - maxDepth ≤ k → k ≤ n - 1 →
    StopsAt client db k → (∀ j, k < j → j ≤ n - 1 → Passes client db j) →
    ∃ row ∈ db.blocks, row.number = k

/-! ## One call -/

theorem Db.intact_migrated : Db.migrated.Intact where
  valid := valid_migrated
  empty _ := rfl
  contiguous _ h := by cases h

section Step

variable {db db' : Db} {indexed : IndexedBlock} {now : ℕ}

/-- A committed block that fits keeps the interval. -/
theorem Db.Intact.commitBlock (h : db.Intact) (hdb : db.commitBlock indexed now = .ok db')
    (hfits : db.Fits indexed.block.number indexed.block.parentHash) : db'.Intact := by
  have hvalid := h.valid.commitBlock hdb
  obtain rfl := commitBlock_eq hdb
  refine ⟨hvalid, nofun, fun c hc => ?_⟩
  obtain rfl : saturate i64Max indexed.block.number = c := Option.some.inj hc
  rcases hfits with hempty | ⟨row, hrow, hcursor, hnumber | ⟨hnumber, hparent⟩⟩
  · have hblocks : (db.committed indexed now).blocks =
        [blockRow indexed.block (saturate i64Max indexed.block.timestamp)] := by
      rw [committed, hempty]
      rfl
    exact ⟨_, .singleton hblocks⟩
  · -- The height is taken, and its row is not replaced.
    obtain ⟨lo, hinterval⟩ := h.contiguous _ hcursor
    have hblocks : (db.committed indexed now).blocks = db.blocks :=
      Table.insertIfAbsent_of_mem (List.mem_map.mpr ⟨row, hrow, hnumber.symm⟩)
    rw [hnumber]
    refine ⟨lo, hinterval.le, ?_, ?_⟩
    · rw [hblocks]
      exact hinterval.heights
    · rw [Linked, hblocks]
      exact hinterval.linked
  · obtain ⟨lo, hinterval⟩ := h.contiguous _ hcursor
    have hblocks : (db.committed indexed now).blocks =
        db.blocks ++ [blockRow indexed.block (saturate i64Max indexed.block.timestamp)] := by
      refine Table.insertIfAbsent_of_notMem fun hmem => ?_
      have htip := ((hinterval.heights _).mp hmem).2
      have hheight : saturate i64Max indexed.block.number ≤ row.number := htip
      omega
    rw [hnumber]
    refine ⟨lo, hinterval.append hblocks hnumber fun last hlast hlastNumber => ?_⟩
    -- The height below is stored once, as the row the block fits on.
    rw [h.valid.eq_of_number hlast hrow hlastNumber]
    exact hparent

/-- A rollback to a stored height keeps the interval. -/
theorem Db.Intact.rollback (h : db.Intact) {a n : ℕ} (han : a ≤ n)
    (hstored : ∃ row ∈ db.blocks, row.number = a) : (db.rollback (reorgEvent a n) now).Intact := by
  obtain ⟨row, hrow, rfl⟩ := hstored
  have hcursor : (db.rollback (reorgEvent row.number n) now).indexerState.lastIndexedNumber =
      some row.number :=
    congrArg some (saturate_of_le (h.valid.blocks_bigint row hrow))
  refine ⟨h.valid.rollback _ now, fun hnone => ?_, fun c hc => ?_⟩
  · rw [hcursor] at hnone
    cases hnone
  · obtain rfl : row.number = c := Option.some.inj (hcursor.symm.trans hc)
    -- The ancestor is stored, so there is an interval to cut.
    cases htip : db.indexerState.lastIndexedNumber with
    | none =>
      rw [h.empty htip] at hrow
      cases hrow
    | some tip =>
      obtain ⟨lo, hinterval⟩ := h.contiguous tip htip
      have := hinterval.mem_heights hrow
      exact ⟨lo, hinterval.cut this.1 this.2 (rollback_blocks h.valid _ now)⟩

/-- **One call**: where the committer's assumptions hold, the interval is kept. -/
theorem CommitStep.intact {client : EthClient} {chain : CanonicalChain} {maxDepth n : ℕ}
    {result : Except (Fault PipelineError) Bool}
    (hstep : CommitStep client maxDepth db n result db') (hfollows : client.Follows chain)
    (hkeeps : ∀ block, client.getBlockByNumber n true = .ok (some block) →
      KeepsChain client maxDepth db n block.parentHash) (h : db.Intact) : db'.Intact := by
  cases hstep with
  | failed => exact h
  | rolledBack hblock hunlinked hlow hhigh hstops hpasses =>
    -- The walk stops at a stored height, by assumption.
    exact h.rollback (by omega)
      ((hkeeps _ hblock).ancestor hunlinked _ hlow hhigh hstops hpasses)
  | @committed block receipts indexed now _ _ hblock hlinked _ hdecode hdb =>
    obtain ⟨hle, heq⟩ := hfollows _ _ _ hblock
    obtain ⟨hnumber, -, hparent, -⟩ := decodeBlock_header hdecode
    have hfits := (hkeeps _ hblock).fits hlinked
    rw [← hparent] at hfits
    have hheight : indexed.block.number = n := by
      rw [hnumber, heq, chain.number_eq n hle]
    rw [← hheight] at hfits
    exact h.commitBlock hdb hfits

end Step

namespace Indexer

/-! ## Every run -/

/-- The calls of a move meet the committer's assumptions. -/
def MeetsAssumptions (cfg : Config) (move : Move State Event) : Prop :=
  ∀ client store n block, Calls move client store n →
    client.getBlockByNumber n true = .ok (some block) →
      KeepsChain client cfg.maxReorgDepth store.db n block.parentHash

theorem intact_step {cfg : Config} {s t : State} {e : Event} {chain : CanonicalChain}
    (hstep : Step cfg s e t) (hfollows : e.Follows chain)
    (hmeets : MeetsAssumptions cfg ⟨s, e, t⟩) (hs : s.db.Intact) : t.db.Intact := by
  refine next_related (R := fun db db' => db.Intact → db'.Intact) (fun _ => id) hstep ?_ hs
  intro client store n hcall _
  exact commitBlock_step.intact (hcall.follows hfollows)
    fun block hblock => hmeets client store n block hcall hblock

/-- **Contiguity of runs**: from the migrated database, over any replacement of the canonical
chain, every state reached by calls that meet the committer's assumptions has a contiguous
store. -/
theorem contiguous_of_meetsAssumptions {cfg : Config} {moves : List (Move State Event)} {s : State}
    (hrun : Run (Step cfg) ⟨.migrated, .stopped⟩ moves s)
    (hfollows : ∀ move ∈ moves, ∃ chain, move.event.Follows chain)
    (hmeets : ∀ move ∈ moves, MeetsAssumptions cfg move) : s.db.Contiguous := by
  let allowed (move : Move State Event) : Prop :=
    (∃ chain, move.event.Follows chain) ∧ MeetsAssumptions cfg move
  have hkeep : ∀ s e t, Step cfg s e t → allowed ⟨s, e, t⟩ → s.db.Intact → t.db.Intact :=
    fun s e t hstep ⟨⟨chain, hchain⟩, hmeets⟩ hs => intact_step hstep hchain hmeets hs
  have hallowed : ∀ move ∈ moves, allowed move :=
    fun move hmove => ⟨hfollows move hmove, hmeets move hmove⟩
  exact (hrun.invariant hkeep hallowed Db.intact_migrated).contiguous

/-- The first three blocks of a chain, indexed from the migrated database. -/
theorem contiguous_threeBlocks : (Db.numbered (fun _ => 1) 0 2).Contiguous := by
  let chain := CanonicalChain.numbered (fun _ => 1) 2 (by decide)
  have hrun : Run (Step (smallConfig 0 1)) ⟨.migrated, .stopped⟩
      [⟨⟨.migrated, .stopped⟩, .start, ⟨.migrated, .polling 0⟩⟩,
        ⟨⟨.migrated, .polling 0⟩, .poll 2 3, ⟨.migrated, .receiving 0 [0, 1, 2]⟩⟩,
        ⟨⟨.migrated, .receiving 0 [0, 1, 2]⟩, .commitFrom chain, storedTo 0 (.receiving 0 [1, 2])⟩,
        ⟨storedTo 0 (.receiving 0 [1, 2]), .commitFrom chain, storedTo 1 (.receiving 1 [2])⟩,
        ⟨storedTo 1 (.receiving 1 [2]), .commitFrom chain, storedTo 2 (.receiving 2 [])⟩]
      (storedTo 2 (.receiving 2 [])) :=
    .cons rfl (.cons rfl (.cons rfl (.cons rfl (.cons rfl (.nil _)))))
  refine contiguous_of_meetsAssumptions hrun (fun move hmove => ⟨chain, ?_⟩) ?_
  · revert move
    simp
  · simp only [List.forall_mem_cons, List.not_mem_nil, false_implies, implies_true, and_true]
    refine ⟨?_, ?_, ?_, ?_, ?_⟩ <;> intro client store n block hcalls hblock <;> cases hcalls <;>
      cases hblock
    · exact ⟨fun _ => Or.inl rfl, fun h => absurd h.1 (by decide)⟩
    · have hparent : Db.branchRow (fun _ => 1) 0 ∈ (Db.numbered (fun _ => 1) 0 0).blocks := by
        decide
      exact ⟨fun _ => Or.inr ⟨_, hparent, rfl, Or.inr ⟨rfl, rfl⟩⟩, fun h => absurd h.1 (by decide)⟩
    · have hparent : Db.branchRow (fun _ => 1) 1 ∈ (Db.numbered (fun _ => 1) 0 1).blocks := by
        decide
      exact ⟨fun _ => Or.inr ⟨_, hparent, rfl, Or.inr ⟨rfl, rfl⟩⟩, fun h => absurd rfl h.2⟩

/-- Indexing from height 2: the walk for the empty cursor ends at height 0, and the cursor is set
to a height that is not stored. -/
theorem bootstrap_not_contiguous :
    ∃ moves s, Run (Step (smallConfig 2 1)) ⟨.migrated, .stopped⟩ moves s ∧
      (∀ move ∈ moves, ∃ chain, move.event.Follows chain) ∧ ¬ s.db.Contiguous := by
  let chain := CanonicalChain.numbered (fun _ => 1) 2 (by decide)
  have hrun : Run (Step (smallConfig 2 1)) ⟨.migrated, .stopped⟩
      [⟨⟨.migrated, .stopped⟩, .start, ⟨.migrated, .polling 1⟩⟩,
        ⟨⟨.migrated, .polling 1⟩, .poll 2 1, ⟨.migrated, .receiving 1 [2]⟩⟩,
        ⟨⟨.migrated, .receiving 1 [2]⟩, .commitFrom chain,
          ⟨Db.migrated.rollback (reorgEvent 0 2) 0, .polling 0⟩⟩]
      ⟨Db.migrated.rollback (reorgEvent 0 2) 0, .polling 0⟩ :=
    .cons rfl (.cons rfl (.cons rfl (.nil _)))
  refine ⟨_, _, hrun, fun move hmove => ⟨chain, ?_⟩, fun h => ?_⟩
  · revert move
    simp
  · obtain ⟨lo, hinterval⟩ := h 0 rfl
    have hmem := (hinterval.heights 0).mpr ⟨hinterval.le, Nat.le_refl 0⟩
    cases hmem

end Indexer

end ChainLens
