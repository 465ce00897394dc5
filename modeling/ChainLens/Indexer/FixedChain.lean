import ChainLens.Indexer.Main

/-!
# Indexing a chain that never changes

While the canonical chain stays what it is and the cursor is one of its blocks, no block should be
taken for a reorg. Detection compares the incoming block's parent with the cursor, so this holds
of a call for the height above the cursor. A batch starts at the cursor itself, and after a failed
call the loop goes on with a height that is two above it: from height 2 on both are taken for
reorgs.

## Main definitions

* `Db.OnChain`: the cursor is a block of the chain
* `Indexer.NoReorg`: a move without a reorg
* `Indexer.ContinuesCursor`: the height above the cursor is committed

## Main results

* `CommitStep.onChain`: one call
* `Indexer.noReorg_of_continuesCursor`: every run
-/

namespace ChainLens

open Transition

/-- The cursor is a block of the chain, hash included. -/
def Db.OnChain (db : Db) (chain : CanonicalChain) : Prop :=
  ∃ c ≤ chain.head, db.cursor = some (c, (chain.block c).hash.bytes)

/-- The height above the cursor, or one that detection does not check. -/
def Db.Continues (db : Db) (n : ℕ) : Prop :=
  n ≤ 1 ∨ n ≤ i64Max ∧ db.cursor.map (fun cursor => cursor.1 + 1) = some n

section Step

variable {client : EthClient} {chain : CanonicalChain} {db db' : Db} {maxDepth n : ℕ}
  {block : BlockResponse}

/-- The canonical block above the cursor is linked to it. -/
theorem Db.OnChain.not_unlinked (h : db.OnChain chain) (hfollows : client.Follows chain)
    (hcontinues : db.Continues n) (hblock : client.getBlockByNumber n true = .ok (some block)) :
    ¬ Unlinked db n block.parentHash := by
  rintro ⟨htwo, hhash⟩
  obtain ⟨c, -, hcursor⟩ := h
  obtain ⟨hhead, rfl⟩ := hfollows _ _ _ hblock
  rcases hcontinues with hone | ⟨-, hnext⟩
  · omega
  · rw [hcursor, Option.map_some, Option.some.injEq] at hnext
    dsimp only at hnext
    subst hnext
    apply hhash
    rw [Db.cursorHash, hcursor, chain.linked c (by omega)]
    rfl

/-- **One call** for the height above the cursor deletes nothing, records no reorg, and leaves a
cursor on the chain. -/
theorem CommitStep.onChain {result : Except (Fault PipelineError) Bool}
    (hstep : CommitStep client maxDepth db n result db') (hfollows : client.Follows chain)
    (hcontinues : ∀ block, client.getBlockByNumber n true = .ok (some block) → db.Continues n)
    (h : db.OnChain chain) :
    db'.OnChain chain ∧ result ≠ .ok true ∧ db'.reorgs = db.reorgs ∧
      ∀ row ∈ db.blocks, row ∈ db'.blocks := by
  cases hstep with
  | failed => exact ⟨h, nofun, rfl, fun _ hrow => hrow⟩
  | rolledBack hblock hunlinked =>
    -- A rollback needs an unlinked block.
    exact absurd hunlinked (h.not_unlinked hfollows (hcontinues _ hblock) hblock)
  | @committed block receipts indexed now _ _ hblock _ _ hdecode hdb hresult =>
    have hfits : n ≤ i64Max := by
      rcases hcontinues _ hblock with hone | ⟨hfits, -⟩
      · exact Nat.le_trans hone (by decide)
      · exact hfits
    obtain ⟨hhead, rfl⟩ := hfollows _ _ _ hblock
    obtain ⟨hnumber, hhash, -, -⟩ := decodeBlock_header hdecode
    rw [chain.number_eq n hhead] at hnumber
    obtain rfl := Db.commitBlock_eq hdb
    -- The new cursor is the block just stored.
    refine ⟨⟨n, hhead, ?_⟩, ?_, rfl, fun row hrow => Table.mem_insertIfAbsent_of_mem hrow⟩
    · show some (saturate i64Max indexed.block.number, indexed.block.hash.bytes) = _
      rw [hnumber, hhash, saturate_of_le hfits]
    · rcases hresult with rfl | rfl <;> nofun

end Step

namespace Indexer

/-! ## Every run -/

/-- No reorg in a move: detection reports none on the block of its call, the call does not report
a handled one, and no stored block is deleted. -/
structure NoReorg (cfg : Config) (move : Move State Event) : Prop where
  detected : ∀ client store n block, Calls move client store n →
    client.getBlockByNumber n true = .ok (some block) →
      (∀ a, (detect client store n block.parentHash cfg.maxReorgDepth).1 ≠ .ok (some a)) ∧
        ∀ d m, (detect client store n block.parentHash cfg.maxReorgDepth).1 ≠
          .error (.depthExceeded d m)
  handled : ∀ client store n, Calls move client store n →
    (commitBlock client store n cfg.maxReorgDepth).1 ≠ .ok true
  recorded : move.after.db.reorgs = move.before.db.reorgs
  kept : ∀ row ∈ move.before.db.blocks, row ∈ move.after.db.blocks

/-- The call of a move, if the node has the block, is for the height above the cursor. -/
def ContinuesCursor (move : Move State Event) : Prop :=
  ∀ client store n block, Calls move client store n →
    client.getBlockByNumber n true = .ok (some block) → store.db.Continues n

section Run

variable {cfg : Config} {s t : State} {e : Event} {chain : CanonicalChain}

theorem onChain_step (hstep : Step cfg s e t) (hfollows : e.Follows chain)
    (hcontinues : ContinuesCursor ⟨s, e, t⟩) (hs : s.db.OnChain chain) : t.db.OnChain chain := by
  refine next_related (R := fun db db' => db.OnChain chain → db'.OnChain chain) (fun _ => id)
    hstep ?_ hs
  intro client store n hcall _ hs
  exact (commitBlock_step.onChain (hcall.follows hfollows)
    (fun block hblock => hcontinues _ _ _ block hcall hblock) hs).1

theorem noReorg_step (hstep : Step cfg s e t) (hfollows : e.Follows chain)
    (hcontinues : ContinuesCursor ⟨s, e, t⟩) (hs : s.db.OnChain chain) :
    NoReorg cfg ⟨s, e, t⟩ := by
  have hcalls : ∀ {client store n}, Calls ⟨s, e, t⟩ client store n →
      store.db = s.db ∧ client.Follows chain ∧
        (∀ block, client.getBlockByNumber n true = .ok (some block) → store.db.Continues n) ∧
        store.db.OnChain chain := by
    intro client store n hcall
    have hbefore := (hcall.db hstep).1
    exact ⟨hbefore, hcall.follows hfollows,
      fun block hblock => hcontinues _ _ _ block hcall hblock, hbefore ▸ hs⟩
  have hkept : t.db.reorgs = s.db.reorgs ∧ ∀ row ∈ s.db.blocks, row ∈ t.db.blocks := by
    refine next_related
      (R := fun db db' => db'.reorgs = db.reorgs ∧ ∀ row ∈ db.blocks, row ∈ db'.blocks)
      (fun _ => ⟨rfl, fun _ hrow => hrow⟩) hstep ?_
    intro client store n hcall _
    obtain ⟨-, hclient, hnext, honChain⟩ := hcalls hcall
    exact (commitBlock_step.onChain hclient hnext honChain).2.2
  refine ⟨fun client store n block hcall hblock => ?_, fun client store n hcall => ?_,
    hkept.1, hkept.2⟩
  · obtain ⟨-, hclient, hnext, honChain⟩ := hcalls hcall
    have hlinked := honChain.not_unlinked hclient (hnext block hblock) hblock
    refine ⟨fun a ha => ?_, fun d m hd => ?_⟩
    · rcases detect_ok (Prod.ext ha rfl) with ⟨hnone, -⟩ | ⟨k, store₁, -, hunlinked, -⟩
      · cases hnone
      · exact hlinked hunlinked
    · exact hlinked (detect_depthExceeded (Prod.ext hd rfl)).1
  · obtain ⟨-, hclient, hnext, honChain⟩ := hcalls hcall
    exact (commitBlock_step.onChain hclient hnext honChain).2.1

end Run

/-- **No false reorg**: on a chain that never changes, from a store whose cursor is a block of it,
no move of a run is a reorg as long as every call that gets its block is for the height above the
cursor. -/
theorem noReorg_of_continuesCursor {cfg : Config} {chain : CanonicalChain} {db : Db}
    {moves : List (Move State Event)} {s : State} (hcursor : db.OnChain chain)
    (hrun : Run (Step cfg) ⟨db, .stopped⟩ moves s)
    (hfollows : ∀ move ∈ moves, move.event.Follows chain)
    (hcontinues : ∀ move ∈ moves, ContinuesCursor move) :
    ∀ move ∈ moves, NoReorg cfg move := by
  intro move hmove
  let allowed (move : Move State Event) : Prop :=
    move.event.Follows chain ∧ ContinuesCursor move
  have hkeep : ∀ s e t, Step cfg s e t → allowed ⟨s, e, t⟩ → s.db.OnChain chain →
      t.db.OnChain chain :=
    fun s e t hstep hallowed hs => onChain_step hstep hallowed.1 hallowed.2 hs
  have hallowed : ∀ move ∈ moves, allowed move :=
    fun move hmove => ⟨hfollows move hmove, hcontinues move hmove⟩
  have hbefore : move.before.db.OnChain chain :=
    hrun.invariant_before hkeep hallowed hcursor hmove
  exact noReorg_step (hrun.step_of_mem hmove) (hfollows move hmove) (hcontinues move hmove) hbefore

/-- Heights 3 and 4, indexed by a configuration that starts above the cursor. -/
theorem noReorg_aboveCursor :
    let chain := CanonicalChain.numbered (fun _ => 1) 4 (by decide)
    NoReorg (smallConfig 3 1)
      ⟨storedTo 3 (.receiving 3 [4]), .commitFrom chain, storedTo 4 (.receiving 4 [])⟩ := by
  intro chain
  have hrun : Run (Step (smallConfig 3 1)) (storedTo 2 .stopped)
      [⟨storedTo 2 .stopped, .start, storedTo 2 (.polling 2)⟩,
        ⟨storedTo 2 (.polling 2), .poll 4 2, storedTo 2 (.receiving 2 [3, 4])⟩,
        ⟨storedTo 2 (.receiving 2 [3, 4]), .commitFrom chain, storedTo 3 (.receiving 3 [4])⟩,
        ⟨storedTo 3 (.receiving 3 [4]), .commitFrom chain, storedTo 4 (.receiving 4 [])⟩]
      (storedTo 4 (.receiving 4 [])) :=
    .cons rfl (.cons rfl (.cons rfl (.cons rfl (.nil _))))
  have hcursor : (Db.numbered (fun _ => 1) 0 2).OnChain chain := ⟨2, by decide, rfl⟩
  refine noReorg_of_continuesCursor hcursor hrun (by simp) ?_ _ (by simp)
  simp only [List.forall_mem_cons, List.not_mem_nil, false_implies, implies_true, and_true]
  refine ⟨?_, ?_, ?_, ?_⟩ <;> intro client store n block hcalls _ <;> cases hcalls
  · exact Or.inr ⟨by decide, rfl⟩
  · exact Or.inr ⟨by decide, rfl⟩

/-- A batch starts at the cursor: the block at the cursor's own height is taken for a reorg down
to height 0. -/
theorem restart_is_reorg :
    let chain := CanonicalChain.numbered (fun _ => 1) 2 (by decide)
    ∃ moves s, (Db.numbered (fun _ => 1) 0 2).HoldsChain 0 2 ∧
      (Db.numbered (fun _ => 1) 0 2).OnChain chain ∧
      Run (Step (smallConfig 0 1)) (storedTo 2 .stopped) moves s ∧
      (∀ move ∈ moves, move.event.Follows chain) ∧
      ¬ ∀ move ∈ moves, NoReorg (smallConfig 0 1) move := by
  intro chain
  let rolledBack : State := ⟨(Db.numbered (fun _ => 1) 0 2).rollback (reorgEvent 0 2) 0, .polling 0⟩
  have hrun : Run (Step (smallConfig 0 1)) (storedTo 2 .stopped)
      [⟨storedTo 2 .stopped, .start, storedTo 2 (.polling 2)⟩,
        ⟨storedTo 2 (.polling 2), .poll 2 1, storedTo 2 (.receiving 2 [2])⟩,
        ⟨storedTo 2 (.receiving 2 [2]), .commitFrom chain, rolledBack⟩] rolledBack :=
    .cons rfl (.cons rfl (.cons rfl (.nil _)))
  have hcursor : (Db.numbered (fun _ => 1) 0 2).OnChain chain := ⟨2, by decide, rfl⟩
  refine ⟨_, _, Db.numbered_holdsChain (by decide) (by decide), hcursor, hrun, by simp,
    fun h => ?_⟩
  simp only [List.forall_mem_cons] at h
  have hkept := h.2.2.1.kept (Db.branchRow (fun _ => 1) 2) (by decide)
  exact absurd hkept (by decide)

end Indexer

end ChainLens
