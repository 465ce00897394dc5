import ChainLens.Indexer.Surviving

/-!
# Nothing is deleted without a record

Over a run of the service a row of the chain's tables stays as it is, or is deleted by a rollback
to a height below it. Every rollback leaves a row in the record of reorgs, so that whatever is
missing is accounted for there.

## Main definitions

* `Db.Accounted`: the rows that are missing lie above ancestors that were recorded since

## Main results

* `Service.accounted_of_run`: over every run
-/

namespace ChainLens

open Transition

/-- The record of reorgs grew, and each missing row lies above an ancestor that was added to it. -/
structure Db.Accounted (db db' : Db) (recorded : List ReorgRow) : Prop where
  reorgs : db'.reorgs = db.reorgs ++ recorded
  blocks : ∀ row ∈ db.blocks, row ∈ db'.blocks ∨
    ∃ reorg ∈ recorded, reorg.commonAncestorNumber < row.number
  transactions : ∀ row ∈ db.transactions, row ∈ db'.transactions ∨
    ∃ reorg ∈ recorded, reorg.commonAncestorNumber < row.blockNumber
  logs : ∀ row ∈ db.logs, row ∈ db'.logs ∨
    ∃ reorg ∈ recorded, reorg.commonAncestorNumber < row.blockNumber
  tokenTransfers : ∀ row ∈ db.tokenTransfers, row ∈ db'.tokenTransfers ∨
    ∃ reorg ∈ recorded, reorg.commonAncestorNumber < row.blockNumber

namespace Db.Accounted

variable {db db' db'' : Db} {recorded recorded' : List ReorgRow}

theorem of_sameIndexed (h : db.SameIndexed db') : db.Accounted db' [] where
  reorgs := by rw [h.reorgs, List.append_nil]
  blocks row hrow := Or.inl (by rwa [h.blocks])
  transactions row hrow := Or.inl (by rwa [h.transactions])
  logs row hrow := Or.inl (by rwa [h.logs])
  tokenTransfers row hrow := Or.inl (by rwa [h.tokenTransfers])

/-- A row that is there in the end was never deleted, or else it is the first deletion that
counts. -/
theorem trans_table {ρ : Type} {height : ρ → ℕ} {rows rows' rows'' : List ρ}
    (h : ∀ row ∈ rows, row ∈ rows' ∨ ∃ reorg ∈ recorded, reorg.commonAncestorNumber < height row)
    (h' : ∀ row ∈ rows', row ∈ rows'' ∨
      ∃ reorg ∈ recorded', reorg.commonAncestorNumber < height row) :
    ∀ row ∈ rows, row ∈ rows'' ∨
      ∃ reorg ∈ recorded ++ recorded', reorg.commonAncestorNumber < height row := by
  intro row hrow
  rcases h row hrow with hkept | ⟨reorg, hreorg, hlt⟩
  · rcases h' row hkept with hkept | ⟨reorg, hreorg, hlt⟩
    · exact Or.inl hkept
    · exact Or.inr ⟨reorg, List.mem_append_right _ hreorg, hlt⟩
  · exact Or.inr ⟨reorg, List.mem_append_left _ hreorg, hlt⟩

theorem trans (h : db.Accounted db' recorded) (h' : db'.Accounted db'' recorded') :
    db.Accounted db'' (recorded ++ recorded') where
  reorgs := by rw [h'.reorgs, h.reorgs, List.append_assoc]
  blocks := trans_table h.blocks h'.blocks
  transactions := trans_table h.transactions h'.transactions
  logs := trans_table h.logs h'.logs
  tokenTransfers := trans_table h.tokenTransfers h'.tokenTransfers

/-- A commit deletes nothing. -/
theorem committed (db : Db) (indexed : IndexedBlock) (now : ℕ) :
    db.Accounted (db.committed indexed now) [] where
  reorgs := (List.append_nil _).symm
  blocks _ hrow := Or.inl (Table.mem_insertIfAbsent_of_mem hrow)
  transactions _ hrow := Or.inl (Table.mem_insertAll_of_mem hrow _)
  logs _ hrow := Or.inl (Table.mem_insertAll_of_mem hrow _)
  tokenTransfers _ hrow := Or.inl (Table.mem_insertAll_of_mem hrow _)

/-- A rollback deletes what lies above its ancestor, and records the ancestor. -/
theorem rollback (hvalid : db.Valid) (event : ReorgEvent) (now : ℕ) :
    ∃ reorg, db.Accounted (db.rollback event now) [reorg] := by
  obtain ⟨reorg, hreorgs, hancestor⟩ : ∃ reorg, (db.rollback event now).reorgs =
      db.reorgs ++ [reorg] ∧ reorg.commonAncestorNumber = saturate i64Max event.commonAncestor :=
    ⟨_, rfl, rfl⟩
  have hle : reorg.commonAncestorNumber ≤ event.commonAncestor := by
    rw [hancestor]
    unfold saturate
    split <;> omega
  have hcut {ρ : Type} {height : ρ → ℕ} {rows rows' : List ρ}
      (h : rows' = rows.filter (height · ≤ event.commonAncestor)) :
      ∀ row ∈ rows, row ∈ rows' ∨ ∃ r ∈ [reorg], r.commonAncestorNumber < height row := by
    intro row hrow
    by_cases hrowLe : height row ≤ event.commonAncestor
    · exact Or.inl (h ▸ List.mem_filter.mpr ⟨hrow, decide_eq_true hrowLe⟩)
    · exact Or.inr ⟨reorg, List.mem_cons_self, by omega⟩
  exact ⟨reorg, hreorgs, hcut (Db.rollback_blocks hvalid event now),
    hcut (Db.rollback_transactions hvalid event now), hcut (Db.rollback_logs hvalid event now),
    hcut (Db.rollback_tokenTransfers hvalid event now)⟩

end Db.Accounted

namespace Service

variable {cfg : Config} {setup : Setup} {analyses : Analyses}

theorem accounted_step {s t : State} {e : Event} (h : Step cfg setup analyses s e t)
    (hs : Sound s) : ∃ recorded, s.indexer.db.Accounted t.indexer.db recorded := by
  rcases step_cases h hs with ⟨e', rfl, -, hmain⟩ | ⟨-, -, hconfined, -⟩
  · rcases Indexer.step_changes hmain with hsame | ⟨indexed, hstores⟩ | ⟨event, now, hrollback⟩
    · exact ⟨[], hsame ▸ .of_sameIndexed (.refl _)⟩
    · obtain ⟨now, hdb⟩ := hstores.db hmain
      rw [Db.commitBlock_eq hdb]
      exact ⟨[], .committed _ indexed now⟩
    · obtain ⟨reorg, haccounted⟩ := Db.Accounted.rollback hs.valid event now
      exact ⟨[reorg], hrollback ▸ haccounted⟩
  · exact ⟨[], .of_sameIndexed (Db.sameIndexed_of_bare hconfined.bare)⟩

/-- **Nothing is deleted without a record**: over any run, from any sound state, a block, a
transaction, a log or a token transfer stays as it is, or the record of reorgs got a row for a
common ancestor below it. -/
theorem accounted_of_run {moves : List (Move State Event)} {s u : State}
    (hrun : Run (Step cfg setup analyses) s moves u) (hs : Sound s) :
    ∃ recorded, s.indexer.db.Accounted u.indexer.db recorded := by
  induction hrun with
  | nil s => exact ⟨[], .of_sameIndexed (.refl _)⟩
  | cons hstep _ ih =>
    obtain ⟨first, hfirst⟩ := accounted_step hstep hs
    obtain ⟨rest, hrest⟩ := ih (sound_step hstep hs)
    exact ⟨first ++ rest, hfirst.trans hrest⟩

/-- Three blocks are stored, the upper two are rolled back, and the rollback is recorded. -/
theorem accounted_fork : ∃ recorded, (Db.numbered (fun _ => 1) 0 2).Accounted Regrown.cut recorded ∧
    Db.branchRow (fun _ => 1) 2 ∉ Regrown.cut.blocks := by
  have hchain : (Db.numbered (fun _ => 1) 0 2).HoldsChain 0 2 :=
    Db.numbered_holdsChain (by decide) (by decide)
  have hrun : Run (Indexer.Step (Indexer.smallConfig 0 3)) (Indexer.storedTo 2 (.receiving 2 [3]))
      [⟨Indexer.storedTo 2 (.receiving 2 [3]), .commitFrom Regrown.forked,
        ⟨Regrown.cut, .polling 0⟩⟩] ⟨Regrown.cut, .polling 0⟩ := .cons rfl (.nil _)
  obtain ⟨recorded, haccounted⟩ :=
    accounted_of_run (@run_main _ Reprocess.plainSetup plainAnalyses _ _ _ hrun)
      ⟨hchain.valid, nofun⟩
  exact ⟨recorded, haccounted, by decide⟩

end Service

end ChainLens
