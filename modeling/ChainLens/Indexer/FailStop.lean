import ChainLens.Indexer.Main

/-!
# Stopping on ambiguity

When the walk for the ancestor runs out of depth, `commit_block` fails and the process should stop
writing. The loop treats this like any other error and goes on with the next block, so nothing is
written exactly as long as the blocks that follow are ambiguous as well: the first later block
that links to the cursor is committed, and the first walk that ends within the depth is followed
by a rollback.

## Main definitions

* `Ambiguous`: a block is unlinked, and no canonical block within the depth ends the walk
* `Indexer.ExceedsDepth`: the call of a move fails for its depth

## Main results

* `CommitStep.of_ambiguous`: one call
* `Indexer.writesNothing_of_ambiguous`: every run
-/

namespace ChainLens

open Transition

/-- The block at height `n` is not linked to the cursor, and no canonical block within the depth
below it ends the walk. -/
structure Ambiguous (client : EthClient) (maxDepth : ℕ) (db : Db) (n : ℕ) (parentHash : B256) :
    Prop where
  unlinked : Unlinked db n parentHash
  endless : ∀ k, n - 1 - maxDepth ≤ k → k ≤ n - 1 → ¬ StopsAt client db k

section Step

variable {client : EthClient} {db db' : Db} {maxDepth n : ℕ}
  {result : Except (Fault PipelineError) Bool}

/-- **One call** for an ambiguous block fails and leaves the database. -/
theorem CommitStep.of_ambiguous (hstep : CommitStep client maxDepth db n result db')
    (h : ∀ block, client.getBlockByNumber n true = .ok (some block) →
      Ambiguous client maxDepth db n block.parentHash) :
    db' = db ∧ ∃ fault, result = .error fault := by
  cases hstep with
  | failed fault => exact ⟨rfl, fault, rfl⟩
  | rolledBack hblock _ hlow hhigh hstops =>
    exact absurd hstops ((h _ hblock).endless _ hlow hhigh)
  | committed hblock hlinked => exact absurd (h _ hblock).unlinked hlinked

/-- A call that fails for its depth leaves the database. -/
theorem CommitStep.of_depthExceeded {d m : ℕ} (hstep : CommitStep client maxDepth db n result db')
    (h : result = .error (.error (.reorg (.depthExceeded d m)))) : db' = db := by
  subst h
  cases hstep with
  | failed => rfl
  | rolledBack _ _ _ _ _ _ hresult => rcases hresult with h | h <;> cases h
  | committed _ _ _ _ _ hresult => rcases hresult with h | h <;> cases h

end Step

namespace Indexer

/-! ## Every run -/

/-- The call of a move fails because the walk ran out of depth. -/
def ExceedsDepth (cfg : Config) (move : Move State Event) : Prop :=
  ∃ client store n d m, Calls move client store n ∧
    (commitBlock client store n cfg.maxReorgDepth).1 =
      .error (.error (.reorg (.depthExceeded d m)))

/-- The call of a move is for an ambiguous block. -/
def StaysAmbiguous (cfg : Config) (move : Move State Event) : Prop :=
  ∀ client store n block, Calls move client store n →
    client.getBlockByNumber n true = .ok (some block) →
      Ambiguous client cfg.maxReorgDepth store.db n block.parentHash

section Run

variable {cfg : Config} {s t : State} {e : Event}

/-- A move writes nothing: the database stays, and a call fails. -/
structure WritesNothing (cfg : Config) (db : Db) (move : Move State Event) : Prop where
  db_eq : move.after.db = db
  failed : ∀ client store n, Calls move client store n →
    ∃ fault, (commitBlock client store n cfg.maxReorgDepth).1 = .error fault

theorem StaysAmbiguous.writesNothing (hstep : Step cfg s e t) (h : StaysAmbiguous cfg ⟨s, e, t⟩) :
    WritesNothing cfg s.db ⟨s, e, t⟩ where
  db_eq := by
    refine next_related (R := fun db db' => db' = db) (fun _ => rfl) hstep ?_
    intro client store n hcall _
    exact (commitBlock_step.of_ambiguous fun block hblock => h _ _ _ block hcall hblock).1
  failed client store n hcall :=
    (commitBlock_step.of_ambiguous fun block hblock => h _ _ _ block hcall hblock).2

theorem ExceedsDepth.db_eq (hstep : Step cfg s e t) (h : ExceedsDepth cfg ⟨s, e, t⟩) :
    t.db = s.db := by
  obtain ⟨client, store, n, d, m, hcall, hresult⟩ := h
  obtain ⟨hbefore, hafter⟩ := hcall.db hstep
  rw [hafter, ← hbefore]
  exact commitBlock_step.of_depthExceeded hresult

end Run

/-- **Fail-stop**: from a call that fails for its depth on, a run writes nothing as long as every
later call is for an ambiguous block. -/
theorem writesNothing_of_ambiguous {cfg : Config} {s t : State}
    {earlier later : List (Move State Event)} {failing : Move State Event}
    (hrun : Run (Step cfg) s (earlier ++ failing :: later) t)
    (hfailing : ExceedsDepth cfg failing) (hlater : ∀ move ∈ later, StaysAmbiguous cfg move) :
    ∀ move ∈ later, WritesNothing cfg failing.before.db move := by
  obtain ⟨u, -, hrest⟩ := hrun.split
  cases hrest with
  | @cons _ v _ e _ hstep hrest =>
    -- From the failing call on, the database is the one it found.
    have hstart : v.db = u.db := hfailing.db_eq hstep
    have hkeep : ∀ s e t, Step cfg s e t → StaysAmbiguous cfg ⟨s, e, t⟩ →
        s.db = u.db → t.db = u.db :=
      fun s e t hstep h hs => (h.writesNothing hstep).db_eq.trans hs
    intro move hmove
    have hbefore : move.before.db = u.db := hrest.invariant_before hkeep hlater hstart hmove
    have hmoveStep := hrest.step_of_mem hmove
    rw [← hbefore]
    exact (hlater move hmove).writesNothing hmoveStep

/-- The chain is replaced above height 0 while height 3 is stored: both blocks of the batch are
ambiguous. -/
theorem writesNothing_deepFork :
    let chain := CanonicalChain.numbered (fun n => if n < 1 then 1 else 2) 4 (by decide)
    WritesNothing (smallConfig 0 1) (.numbered (fun _ => 1) 0 3)
      ⟨storedTo 3 (.receiving 3 [4]), .commitFrom chain, storedTo 3 (.receiving 3 [])⟩ := by
  intro chain
  have hrun : Run (Step (smallConfig 0 1)) (storedTo 3 .stopped)
      ([⟨storedTo 3 .stopped, .start, storedTo 3 (.polling 3)⟩,
        ⟨storedTo 3 (.polling 3), .poll 4 2, storedTo 3 (.receiving 3 [3, 4])⟩] ++
      ⟨storedTo 3 (.receiving 3 [3, 4]), .commitFrom chain, storedTo 3 (.receiving 3 [4])⟩ ::
        [⟨storedTo 3 (.receiving 3 [4]), .commitFrom chain, storedTo 3 (.receiving 3 [])⟩])
      (storedTo 3 (.receiving 3 [])) :=
    .cons rfl (.cons rfl (.cons rfl (.cons rfl (.nil _))))
  refine writesNothing_of_ambiguous hrun ⟨_, _, _, 2, 1, .intro, by decide⟩ ?_ _
    (List.mem_singleton_self _)
  intro move hmove client store n block hcalls hblock
  obtain rfl := List.mem_singleton.mp hmove
  cases hcalls
  cases hblock
  refine ⟨⟨by decide, by decide⟩, fun k hlow hhigh => ?_⟩
  have hk : k = 2 ∨ k = 3 := by
    have : (smallConfig 0 1).maxReorgDepth = 1 := rfl
    omega
  rintro ⟨block, hblock, hstops⟩
  rcases hk with rfl | rfl <;> cases hblock <;> revert hstops <;> decide

/-- A batch starts at the cursor, whose block is ambiguous at a small depth bound; the block above
links to the cursor and is committed after the failure. -/
theorem commits_after_depthExceeded :
    ∃ earlier failing later s,
      Run (Step (smallConfig 0 1)) ⟨.migrated, .stopped⟩ (earlier ++ failing :: later) s ∧
      (∀ move ∈ earlier ++ failing :: later, ∃ chain, move.event.Follows chain) ∧
      ExceedsDepth (smallConfig 0 1) failing ∧
      (∀ move ∈ later, move.after.process ≠ .stopped) ∧
      ¬ ∀ move ∈ later, WritesNothing (smallConfig 0 1) failing.before.db move := by
  let chain := CanonicalChain.numbered (fun _ => 1) 4 (by decide)
  have hrun : Run (Step (smallConfig 0 1)) ⟨.migrated, .stopped⟩
      ([⟨⟨.migrated, .stopped⟩, .start, ⟨.migrated, .polling 0⟩⟩,
        ⟨⟨.migrated, .polling 0⟩, .poll 3 4, ⟨.migrated, .receiving 0 [0, 1, 2, 3]⟩⟩,
        ⟨⟨.migrated, .receiving 0 [0, 1, 2, 3]⟩, .commitFrom chain,
          storedTo 0 (.receiving 0 [1, 2, 3])⟩,
        ⟨storedTo 0 (.receiving 0 [1, 2, 3]), .commitFrom chain, storedTo 1 (.receiving 1 [2, 3])⟩,
        ⟨storedTo 1 (.receiving 1 [2, 3]), .commitFrom chain, storedTo 2 (.receiving 2 [3])⟩,
        ⟨storedTo 2 (.receiving 2 [3]), .commitFrom chain, storedTo 3 (.receiving 3 [])⟩,
        ⟨storedTo 3 (.receiving 3 []), .finish, storedTo 3 (.polling 3)⟩,
        ⟨storedTo 3 (.polling 3), .poll 4 2, storedTo 3 (.receiving 3 [3, 4])⟩] ++
      ⟨storedTo 3 (.receiving 3 [3, 4]), .commitFrom chain, storedTo 3 (.receiving 3 [4])⟩ ::
        [⟨storedTo 3 (.receiving 3 [4]), .commitFrom chain, storedTo 4 (.receiving 4 [])⟩])
      (storedTo 4 (.receiving 4 [])) :=
    .cons rfl (.cons rfl (.cons rfl (.cons rfl (.cons rfl (.cons rfl (.cons rfl (.cons rfl
      (.cons rfl (.cons rfl (.nil _))))))))))
  refine ⟨_, _, _, _, hrun, fun move hmove => ⟨chain, ?_⟩, ⟨_, _, _, 2, 1, .intro, by decide⟩,
    ?_, fun h => ?_⟩
  · revert move
    simp
  · simp [storedTo]
  · have hdb := (h _ (List.mem_singleton_self _)).db_eq
    exact absurd hdb (by decide)

end Indexer

end ChainLens
