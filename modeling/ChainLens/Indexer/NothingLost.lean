import ChainLens.Indexer.Background

/-!
# What becomes of a block's intelligence

Every block up to the cursor should have been processed, have a task, or be enqueued again by the
process, which begins with the cursor's block. A block below the cursor depends on its task: it is
lost when the process or the processor's loop ends first, when `process_block` fails, and when the
next block is committed although this one was never sent.

## Main definitions

* `Background.NothingLost`: every block up to the cursor is processed, has a task, or is the one
  a restarted process begins with
* `Background.KeepsTasks`: a move drops no task that is still needed

## Main results

* `Background.handled_step`: one step of a task
* `Background.covered_call`: one call of `commit_block`
* `Background.nothingLost_of_keepsTasks`: every run
-/

namespace ChainLens

open Transition

namespace Background

/-! ## What becomes of a block -/

/-- The height of the block a process started now begins with, as the tables hold it. -/
def resumeHeight (cfg : Config) (db : Db) : ℕ :=
  saturate i64Max (max ((db.cursor.map Prod.fst).getD cfg.initialCursor) cfg.backfillFrom)

/-- The block is at or below the cursor. -/
def Covered (db : Db) (row : BlockRow) : Prop := ∃ c ∈ db.cursor.map Prod.fst, row.number ≤ c

namespace State

variable (s : State) (row : BlockRow)

/-- A task of the block is in the channel. -/
def Queued : Prop := ∃ n, .blockCommitted n ∈ s.queue ∧ saturate i64Max n = row.number

/-- The block is being processed. -/
def InProcess : Prop := ∃ n found, s.processor = .processing n found ∧ row ∈ found

/-- The block has been processed, or has a task. -/
def Handled : Prop := row ∈ s.processed ∨ s.Queued row ∨ s.InProcess row

end State

/-- **No block's intelligence is lost**: every stored block up to the cursor has been processed,
is in the channel or being processed, or is the one the (re)started process begins with. -/
def NothingLost (cfg : Config) (s : State) : Prop :=
  ∀ row ∈ s.indexer.db.blocks, Covered s.indexer.db row →
    s.Handled row ∨ row.number = resumeHeight cfg s.indexer.db

/-- The move drops the task of a block: the process ends, the processor ends, or `process_block`
fails. -/
def Drops (move : Move State Event) (row : BlockRow) : Prop :=
  match move.event with
  | .main _ => move.after.indexer.process = .stopped ∧
      (move.before.Queued row ∨ move.before.InProcess row)
  | .exit => move.before.Queued row ∨ move.before.InProcess row
  | .breakLoop => move.before.Queued row
  | .complete .panic => move.before.Queued row ∨ move.before.InProcess row
  | .complete .error => move.before.InProcess row ∧ ¬ move.before.Queued row
  | _ => False

/-- **When a move loses nothing**. A call that gets its block gets the one it asked for, and the
blocks from the cursor up to it are processed or have a task; and a task is only dropped of a
block that has been processed, or that the process resumes with. -/
structure KeepsTasks (cfg : Config) (move : Move State Event) : Prop where
  number : ∀ e client store n block, move.event = .main e →
    Indexer.Calls ⟨move.before.indexer, e, move.after.indexer⟩ client store n →
      client.getBlockByNumber n true = .ok (some block) → block.number = n
  passed : ∀ e client store n block, move.event = .main e →
    Indexer.Calls ⟨move.before.indexer, e, move.after.indexer⟩ client store n →
      client.getBlockByNumber n true = .ok (some block) →
        ∀ row ∈ move.before.indexer.db.blocks,
          (∀ c ∈ move.before.indexer.db.cursor.map Prod.fst, c ≤ row.number) → row.number < n →
            move.before.Handled row
  dropped : ∀ row ∈ move.before.indexer.db.blocks, Covered move.before.indexer.db row →
    Drops move row → row ∈ move.before.processed ∨
      row.number = resumeHeight cfg move.before.indexer.db

/-! ## Tasks from step to step -/

section Step

variable {cfg : Config} {s t : State} {e : Event} {row : BlockRow} {db : Db}

theorem State.queued_congr (h : t.queue = s.queue) : t.Queued row ↔ s.Queued row := by
  unfold State.Queued
  rw [h]

theorem State.inProcess_congr (h : t.processor = s.processor) :
    t.InProcess row ↔ s.InProcess row := by
  unfold State.InProcess
  rw [h]

theorem State.inProcess_forget (h : row ∈ db.blocks) :
    (s.forget db).InProcess row ↔ s.InProcess row := by
  unfold State.InProcess State.forget
  cases s.processor with
  | gone => simp
  | waiting => simp
  | processing n found => simp [h]

theorem State.mem_forget_processed (h : row ∈ db.blocks) :
    row ∈ (s.forget db).processed ↔ row ∈ s.processed := by
  simp [State.forget, h]

/-- A block keeps what it has while the channel and the processor do. -/
theorem State.Handled.mono (h : s.Handled row) (hprocessed : row ∈ s.processed → row ∈ t.processed)
    (hqueued : s.Queued row → t.Queued row) (hinProcess : s.InProcess row → t.InProcess row) :
    t.Handled row :=
  h.imp hprocessed (Or.imp hqueued hinProcess)

theorem State.Handled.send {task : IntelligenceTask} {phase : Phase} (hhandled : s.Handled row)
    (h : s.send task phase = some t) : t.Handled row := by
  rcases State.send_cases h with ⟨rfl, -⟩ | ⟨rfl, -⟩
  · exact hhandled
  · refine hhandled.mono id (fun ⟨n, hn, hheight⟩ => ?_) id
    exact ⟨n, List.mem_append_left _ hn, hheight⟩

/-- **One step of a task**: a block that stays stored keeps what it has, unless the step drops its
task. -/
theorem handled_step (hs : Tidy s) (h : Step cfg s e t) (hrow : row ∈ t.indexer.db.blocks)
    (hhandled : s.Handled row) :
    t.Handled row ∨ Drops ⟨s, e, t⟩ row ∧ (row ∈ s.processed → t.Handled row) := by
  cases e with
  | main e =>
    obtain ⟨-, hdown | ⟨hsame, -, -⟩ | ⟨hstopped, -, hprocessed, -, -, -, -⟩⟩ := step_main h
    · -- Memory is lost, what has been processed stays.
      have hprocessed : row ∈ s.processed → t.Handled row := by
        intro hmem
        rw [hdown]
        exact Or.inl (List.mem_filter.mpr ⟨hmem, decide_eq_true hrow⟩)
      have hend : t.indexer.process = .stopped := by
        rw [hdown]
        rfl
      rcases hhandled with hmem | htask
      · exact Or.inl (hprocessed hmem)
      · exact Or.inr ⟨⟨hend, htask⟩, hprocessed⟩
    · refine Or.inl (hhandled.mono (fun hmem => ?_) (State.queued_congr ?_).mpr fun hin => ?_)
      · rw [hsame]
        exact (State.mem_forget_processed hrow).mpr hmem
      · rw [hsame]
        rfl
      · rw [State.inProcess_congr (s := s.forget t.indexer.db) (by rw [hsame])]
        exact (State.inProcess_forget hrow).mpr hin
    · -- Before a start nothing was in memory.
      obtain ⟨-, hqueue, hprocessor⟩ := hs.stopped hstopped
      rcases hhandled with hmem | ⟨n, hn, -⟩ | ⟨n, found, hfound, -⟩
      · exact Or.inl (Or.inl (hprocessed ▸ hmem))
      · rw [hqueue] at hn
        cases hn
      · rw [hprocessor] at hfound
        cases hfound
  | notify =>
    simp only [Step, next] at h
    split at h
    · exact Or.inl (hhandled.send h)
    · cases h
  | cancel =>
    simp only [Step, next] at h
    split at h <;> cases h
    exact Or.inl hhandled
  | leaveLoop =>
    simp only [Step, next] at h
    split at h
    · cases h
    · split at h <;> cases h
      exact Or.inl hhandled
    · cases h
  | sendShutdown =>
    simp only [Step, next] at h
    split at h
    · exact Or.inl (hhandled.send h)
    · cases h
  | exit =>
    simp only [Step, next] at h
    split at h <;> cases h
    have hprocessed : row ∈ s.processed → (s.down s.indexer.db).Handled row := fun hmem =>
      Or.inl (List.mem_filter.mpr ⟨hmem, decide_eq_true hrow⟩)
    rcases hhandled with hmem | htask
    · exact Or.inl (hprocessed hmem)
    · exact Or.inr ⟨htask, hprocessed⟩
  | receive =>
    simp only [Step, next] at h
    split at h
    next n queue hprocessor hqueue =>
      cases h
      -- The block of the received task is among those the call finds.
      rcases hhandled with hmem | ⟨m, hm, hheight⟩ | ⟨m, found, hfound, -⟩
      · exact Or.inl (Or.inl hmem)
      · rw [hqueue] at hm
        rcases List.mem_cons.mp hm with heq | hm
        · cases heq
          refine Or.inl (Or.inr (Or.inr ⟨_, _, rfl, ?_⟩))
          exact List.mem_filter.mpr ⟨hrow, decide_eq_true hheight.symm⟩
        · exact Or.inl (Or.inr (Or.inl ⟨m, hm, hheight⟩))
      · rw [hprocessor] at hfound
        cases hfound
    next queue hprocessor hqueue =>
      cases h
      -- `Shutdown` is the last message, so nothing waits behind it.
      have hlast : queue = [] := by
        cases queue with
        | nil => rfl
        | cons task queue =>
          refine absurd ?_ hs.last
          rw [hqueue]
          exact List.mem_cons_self
      rcases hhandled with hmem | ⟨m, hm, -⟩ | ⟨m, found, hfound, -⟩
      · exact Or.inl (Or.inl hmem)
      · rw [hqueue, hlast, List.mem_singleton] at hm
        cases hm
      · rw [hprocessor] at hfound
        cases hfound
    next => cases h
  | breakLoop =>
    simp only [Step, next] at h
    split at h
    next hprocessor =>
      split at h <;> cases h
      rcases hhandled with hmem | hqueued | ⟨m, found, hfound, -⟩
      · exact Or.inl (Or.inl hmem)
      · exact Or.inr ⟨hqueued, Or.inl⟩
      · rw [hprocessor] at hfound
        cases hfound
    next => cases h
  | persist call fates now =>
    simp only [Step, next] at h
    split at h <;> cases h
    exact Or.inl hhandled
  | complete outcome =>
    simp only [Step, next] at h
    split at h
    next n found hprocessor =>
      -- The blocks in process are those the call found.
      have hfound : s.InProcess row → row ∈ found := by
        rintro ⟨m, found', heq, hmem⟩
        rw [hprocessor] at heq
        cases heq
        exact hmem
      split at h <;> cases h
      · refine Or.inl ?_
        rcases hhandled with hmem | hqueued | hin
        · exact Or.inl (List.mem_append_left _ hmem)
        · exact Or.inr (Or.inl hqueued)
        · exact Or.inl (List.mem_append_right _ (hfound hin))
      · by_cases hqueued : s.Queued row
        · exact Or.inl (Or.inr (Or.inl hqueued))
        · rcases hhandled with hmem | hqueued' | hin
          · exact Or.inl (Or.inl hmem)
          · exact absurd hqueued' hqueued
          · exact Or.inr ⟨⟨hin, hqueued⟩, Or.inl⟩
      · rcases hhandled with hmem | htask
        · exact Or.inl (Or.inl hmem)
        · exact Or.inr ⟨htask, Or.inl⟩
    next => cases h

end Step

/-! ## Every run -/

section Run

variable {cfg : Config} {s t : State} {e : Event}

theorem saturate_max_saturate {m n b : ℕ} (h : b ≤ n) :
    saturate m (max (saturate m n) b) = saturate m n := by
  unfold saturate
  split_ifs <;> omega

/-- **One call**: unless it leaves the database, it leaves a cursor up to which every block is the
one at the new cursor's height or was stored before, below the number of the call. -/
theorem covered_call {client : EthClient} {db db' : Db} {maxDepth n : ℕ}
    {result : Except (Fault PipelineError) Bool}
    (hstep : CommitStep client maxDepth db n result db')
    (hnumber : ∀ block, client.getBlockByNumber n true = .ok (some block) → block.number = n) :
    db' = db ∨ (∀ p, result ≠ .error (.panic p)) ∧
      (∃ block, client.getBlockByNumber n true = .ok (some block)) ∧
        ∃ c ≤ i64Max, db'.cursor.map Prod.fst = some c ∧ ∀ row ∈ db'.blocks, row.number ≤ c →
          row.number = saturate i64Max n ∧ c = saturate i64Max n ∨
            row ∈ db.blocks ∧ row.number < n := by
  cases hstep with
  | failed => exact Or.inl rfl
  | @rolledBack block ancestor now result hblock hunlinked hlow hhigh hstops hpasses hresult =>
    have htwo := hunlinked.1
    refine Or.inr ⟨?_, ⟨block, hblock⟩, saturate i64Max ancestor, saturate_le _ _, ?_, ?_⟩
    · rcases hresult with rfl | rfl <;> nofun
    · rw [rollback_cursor (by omega)]
      rfl
    · intro row hrow hle
      -- The blocks left are those up to the ancestor, which is below the call's number.
      refine Or.inr ⟨List.mem_of_mem_filter hrow, ?_⟩
      have hancestor : saturate i64Max ancestor ≤ ancestor := by
        unfold saturate
        split <;> omega
      omega
  | @committed block receipts indexed now _ result hblock _ _ hdecode hdb hresult =>
    have hheight : indexed.block.number = n :=
      (decodeBlock_header hdecode).1.trans (hnumber block hblock)
    obtain rfl := Db.commitBlock_eq hdb
    refine Or.inr ⟨?_, ⟨block, hblock⟩, saturate i64Max n, saturate_le _ _, ?_, ?_⟩
    · rcases hresult with rfl | rfl <;> nofun
    · rw [← hheight]
      rfl
    · intro row hrow hle
      rcases Nat.eq_or_lt_of_le hle with heq | hlt
      · exact Or.inl ⟨heq, rfl⟩
      · have hold : row ∈ db.blocks := by
          rcases Table.mem_of_mem_insertIfAbsent hrow with hold | hnew
          · exact hold
          · have hsame : row.number = saturate i64Max n := by
              rw [hnew, ← hheight]
              rfl
            omega
        have hle : saturate i64Max n ≤ n := by
          unfold saturate
          split <;> omega
        exact Or.inr ⟨hold, by omega⟩

/-- What every run of moves that keep their tasks preserves. -/
structure Invariant (cfg : Config) (s : State) : Prop where
  tidy : Tidy s
  fromBackfill : Indexer.FromBackfill cfg s.indexer
  cursor_le : ∀ c ∈ s.indexer.db.cursor.map Prod.fst, c ≤ i64Max
  nothingLost : NothingLost cfg s

theorem invariant_initial (cfg : Config) : Invariant cfg .initial :=
  ⟨tidy_initial, nofun, nofun, nofun⟩

/-- A block below the number of a call is processed or has a task, whether the cursor is above it
or not. -/
theorem Invariant.handled {row : BlockRow} {n : ℕ} (hs : Invariant cfg s)
    (hpassed : (∀ c ∈ s.indexer.db.cursor.map Prod.fst, c ≤ row.number) → row.number < n →
      s.Handled row)
    (hrow : row ∈ s.indexer.db.blocks) (hlt : row.number < n) : s.Handled row := by
  by_cases hbelow : ∃ c ∈ s.indexer.db.cursor.map Prod.fst, row.number < c
  · obtain ⟨c, hc, hlow⟩ := hbelow
    rcases hs.nothingLost row hrow ⟨c, hc, hlow.le⟩ with hhandled | hresume
    · exact hhandled
    · -- The process resumes at the cursor or above it.
      have hle := hs.cursor_le c hc
      rw [resumeHeight, Option.mem_def.mp hc, Option.getD_some] at hresume
      unfold saturate at hresume
      split at hresume <;> omega
  · exact hpassed (fun c hc => Nat.le_of_not_lt fun hlow => hbelow ⟨c, hc, hlow⟩) hlt

/-- A step that leaves the stored blocks and the cursor loses nothing unless it drops a task. -/
theorem nothingLost_of_same (hs : Invariant cfg s) (h : Step cfg s e t)
    (hkeeps : KeepsTasks cfg ⟨s, e, t⟩) (hblocks : t.indexer.db.blocks = s.indexer.db.blocks)
    (hcursor : t.indexer.db.cursor = s.indexer.db.cursor) : NothingLost cfg t := by
  intro row hrow hcovered
  have hresume : resumeHeight cfg t.indexer.db = resumeHeight cfg s.indexer.db := by
    unfold resumeHeight
    rw [hcursor]
  have hrow' : row ∈ s.indexer.db.blocks := hblocks ▸ hrow
  have hcovered' : Covered s.indexer.db row := by
    unfold Covered at hcovered ⊢
    rwa [hcursor] at hcovered
  rcases hs.nothingLost row hrow' hcovered' with hhandled | hat
  · rcases handled_step hs.tidy h hrow hhandled with hkept | ⟨hdrops, hprocessed⟩
    · exact Or.inl hkept
    · rcases hkeeps.dropped row hrow' hcovered' hdrops with hmem | hat
      · exact Or.inl (hprocessed hmem)
      · exact Or.inr (hresume ▸ hat)
  · exact Or.inr (hresume ▸ hat)

/-- **One step** of a move that keeps its tasks. -/
theorem invariant_step (h : Step cfg s e t) (hkeeps : KeepsTasks cfg ⟨s, e, t⟩)
    (hs : Invariant cfg s) : Invariant cfg t := by
  have htidy := tidy_step hs.tidy h
  rcases step_indexer h with ⟨e', rfl, hstep⟩ | ⟨hsame, hprocess⟩
  · have hfrom := Indexer.fromBackfill_step hstep hs.fromBackfill
    -- A move of the loop changes the tables only through a call of `commit_block`.
    rcases Indexer.next_db hstep with hdb | ⟨client, store, n, hcalls⟩
    · refine ⟨htidy, hfrom, ?_, nothingLost_of_same hs h hkeeps (by rw [hdb]) (by rw [hdb])⟩
      rw [hdb]
      exact hs.cursor_le
    · obtain ⟨hbefore, hafter⟩ := hcalls.db hstep
      have hcall := @commitBlock_step client store n cfg.maxReorgDepth
      rw [← hafter, hbefore] at hcall
      rcases covered_call hcall fun block hblock =>
          hkeeps.number e' client store n block rfl hcalls hblock with
        hdb | ⟨hresult, ⟨block, hblock⟩, c, hc, hcursor, hrows⟩
      · refine ⟨htidy, hfrom, ?_, nothingLost_of_same hs h hkeeps (by rw [hdb]) (by rw [hdb])⟩
        rw [hdb]
        exact hs.cursor_le
      · have hrunning := hcalls.running hstep hresult
        have hn := hcalls.backfillFrom_le hs.fromBackfill
        refine ⟨htidy, hfrom, ?_, fun row hrow hcovered => ?_⟩
        · -- The cursor is at the block that was stored.
          rw [hcursor]
          intro c' hc'
          cases hc'
          exact hc
        · obtain ⟨c', hc', hle⟩ := hcovered
          rw [hcursor] at hc'
          cases hc'
          rcases hrows row hrow hle with ⟨hat, heq⟩ | ⟨hold, hlt⟩
          · -- The block at the new cursor is the one a restart begins with.
            right
            rw [hat, resumeHeight, hcursor, Option.getD_some, heq, saturate_max_saturate hn]
          · have hhandled := hs.handled
              (hkeeps.passed e' client store n block rfl hcalls hblock row hold) hold hlt
            rcases handled_step hs.tidy h hrow hhandled with hkept | ⟨⟨hstopped, -⟩, -⟩
            · exact Or.inl hkept
            · exact absurd hstopped hrunning
  · -- Any other step leaves the blocks and the cursor as they are.
    refine ⟨htidy, ?_, ?_, nothingLost_of_same hs h hkeeps hsame.blocks hsame.cursor⟩
    · intro cursor pending hreceiving
      rcases hprocess with hprocess | hprocess
      · exact hs.fromBackfill cursor pending (hprocess ▸ hreceiving)
      · rw [hprocess] at hreceiving
        cases hreceiving
    · rw [hsame.cursor]
      exact hs.cursor_le

/-- **No block's intelligence is lost** in a run from the migrated database, with any crashes and
shutdowns, as long as its moves keep the tasks that are still needed. -/
theorem nothingLost_of_keepsTasks {cfg : Config} {moves : List (Move State Event)} {s : State}
    (hrun : Run (Step cfg) .initial moves s) (hkeeps : ∀ move ∈ moves, KeepsTasks cfg move) :
    NothingLost cfg s :=
  (hrun.invariant (fun _ _ _ hstep hallowed hs => invariant_step hstep hallowed hs) hkeeps
    (invariant_initial cfg)).nothingLost

end Run

/-! ## Two blocks -/

section TwoBlocks

/-- A canonical chain of three empty blocks. -/
def threeBlocks : CanonicalChain := .numbered (fun _ => 1) 2 (by decide)

/-- The stored block at a height of the chain. -/
abbrev storedBlock (n : ℕ) : BlockRow := Db.branchRow (fun _ => 1) n

/-- Two blocks committed and sent, and the first of them received. -/
def twoSent (queue : List IntelligenceTask) (processor : Processor) : State :=
  ⟨Indexer.storedTo 1 (.receiving 1 []), .indexing, false, queue, processor, []⟩

/-- Both blocks are committed and sent before the processor takes a task. -/
def commitTwo : List (Move State Event) :=
  let polled : Indexer.State := ⟨.migrated, .receiving 0 [0, 1]⟩
  let first := Indexer.storedTo 0 (.receiving 0 [1])
  let second := Indexer.storedTo 1 (.receiving 1 [])
  [⟨.initial, .main .start, ⟨⟨.migrated, .polling 0⟩, .indexing, false, [], .waiting, []⟩⟩,
    ⟨⟨⟨.migrated, .polling 0⟩, .indexing, false, [], .waiting, []⟩, .main (.poll 2 2),
      ⟨polled, .indexing, false, [], .waiting, []⟩⟩,
    ⟨⟨polled, .indexing, false, [], .waiting, []⟩, .main (.commitFrom threeBlocks),
      ⟨first, .notifying 0, false, [], .waiting, []⟩⟩,
    ⟨⟨first, .notifying 0, false, [], .waiting, []⟩, .notify,
      ⟨first, .indexing, false, [.blockCommitted 0], .waiting, []⟩⟩,
    ⟨⟨first, .indexing, false, [.blockCommitted 0], .waiting, []⟩, .main (.commitFrom threeBlocks),
      ⟨second, .notifying 1, false, [.blockCommitted 0], .waiting, []⟩⟩,
    ⟨⟨second, .notifying 1, false, [.blockCommitted 0], .waiting, []⟩, .notify,
      twoSent [.blockCommitted 0, .blockCommitted 1] .waiting⟩]

theorem commitTwo_run : Run (Step (Indexer.smallConfig 0 1)) .initial commitTwo
    (twoSent [.blockCommitted 0, .blockCommitted 1] .waiting) :=
  .cons rfl (.cons rfl (.cons rfl (.cons rfl (.cons rfl (.cons rfl (.nil _))))))

/-- A move that makes no call and drops nothing. -/
theorem KeepsTasks.of_quiet {cfg : Config} {move : Move State Event}
    (hcalls : ∀ e client store n, move.event = .main e →
      ¬ Indexer.Calls ⟨move.before.indexer, e, move.after.indexer⟩ client store n)
    (hdrops : ∀ row, ¬ Drops move row) : KeepsTasks cfg move where
  number e client store n _ hevent hcall := absurd hcall (hcalls e client store n hevent)
  passed e client store n _ hevent hcall := absurd hcall (hcalls e client store n hevent)
  dropped row _ _ hdrop := absurd hdrop (hdrops row)

theorem commitTwo_keepsTasks : ∀ move ∈ commitTwo, KeepsTasks (Indexer.smallConfig 0 1) move := by
  simp only [commitTwo, List.forall_mem_cons, List.not_mem_nil, false_implies, implies_true,
    and_true]
  refine ⟨.of_quiet ?_ ?_, .of_quiet ?_ ?_, ⟨?_, ?_, ?_⟩, .of_quiet ?_ ?_, ⟨?_, ?_, ?_⟩,
    .of_quiet ?_ ?_⟩
  · intro e client store n hevent hcall
    cases hevent
    cases hcall
  · rintro row ⟨hstopped, -⟩
    cases hstopped
  · intro e client store n hevent hcall
    cases hevent
    cases hcall
  · rintro row ⟨hstopped, -⟩
    cases hstopped
  · intro e client store n block hevent hcall hblock
    cases hevent
    cases hcall
    cases hblock
    rfl
  · intro e client store n block hevent hcall hblock row hrow
    cases hrow
  · rintro row hrow
    cases hrow
  · nofun
  · nofun
  · intro e client store n block hevent hcall hblock
    cases hevent
    cases hcall
    cases hblock
    rfl
  · -- Block 0 is in the channel when block 1 is committed.
    intro e client store n block hevent hcall hblock row hrow _ _
    cases hevent
    cases hcall
    obtain rfl := List.mem_singleton.mp hrow
    exact Or.inr (Or.inl ⟨0, List.mem_singleton_self _, rfl⟩)
  · rintro row hrow hcovered ⟨hstopped, -⟩
    cases hstopped
  · nofun
  · nofun

/-- A run that processes block 0 and crashes before block 1 is received. -/
theorem nothingLost_afterCrash :
    NothingLost (Indexer.smallConfig 0 1)
      ⟨Indexer.storedTo 1 (.polling 1), .indexing, false, [], .waiting, [storedBlock 0]⟩ := by
  let ready : State := ⟨Indexer.storedTo 1 (.receiving 1 []), .indexing, false,
    [.blockCommitted 1], .waiting, [storedBlock 0]⟩
  let crashed : State := ⟨Indexer.storedTo 1 .stopped, .indexing, false, [], .gone, [storedBlock 0]⟩
  let taken := twoSent [.blockCommitted 1] (.processing 0 [storedBlock 0])
  have hrest : Run (Step (Indexer.smallConfig 0 1))
      (twoSent [.blockCommitted 0, .blockCommitted 1] .waiting)
      [⟨twoSent [.blockCommitted 0, .blockCommitted 1] .waiting, .receive, taken⟩,
        ⟨taken, .complete .ok, ready⟩, ⟨ready, .main .stop, crashed⟩,
        ⟨crashed, .main .start,
          ⟨Indexer.storedTo 1 (.polling 1), .indexing, false, [], .waiting, [storedBlock 0]⟩⟩]
      ⟨Indexer.storedTo 1 (.polling 1), .indexing, false, [], .waiting, [storedBlock 0]⟩ :=
    .cons rfl (.cons rfl (.cons rfl (.cons rfl (.nil _))))
  refine nothingLost_of_keepsTasks (commitTwo_run.append hrest) ?_
  rw [List.forall_mem_append]
  refine ⟨commitTwo_keepsTasks, ?_⟩
  simp only [List.forall_mem_cons, List.not_mem_nil, false_implies, implies_true, and_true]
  refine ⟨.of_quiet nofun nofun, .of_quiet nofun nofun, ⟨?_, ?_, ?_⟩, .of_quiet ?_ ?_⟩
  · intro e client store n block hevent hcall hblock
    cases hevent
    cases hcall
  · intro e client store n block hevent hcall hblock
    cases hevent
    cases hcall
  · -- The crash drops the task of block 1, which is the cursor's.
    rintro row - - ⟨-, ⟨n, hn, hheight⟩ | ⟨n, found, hfound, -⟩⟩
    · cases List.mem_singleton.mp hn
      exact Or.inr hheight.symm
    · cases hfound
  · intro e client store n hevent hcall
    cases hevent
    cases hcall
  · rintro row ⟨hstopped, -⟩
    cases hstopped

/-- A shutdown after two commits: the cancelled processor leaves its loop with both tasks in the
channel, and the next process begins with block 1. -/
theorem shutdown_loses_block :
    ∃ moves s, Run (Step (Indexer.smallConfig 0 1)) .initial moves s ∧
      s.indexer.process = .polling 1 ∧ ¬ NothingLost (Indexer.smallConfig 0 1) s := by
  let cancelled : State := ⟨Indexer.storedTo 1 (.receiving 1 []), .indexing, true,
    [.blockCommitted 0, .blockCommitted 1], .waiting, []⟩
  let after (process : Indexer.Process) (phase : Phase) (cancelled : Bool)
      (processor : Processor) : State :=
    ⟨Indexer.storedTo 1 process, phase, cancelled, [], processor, []⟩
  have hrest : Run (Step (Indexer.smallConfig 0 1))
      (twoSent [.blockCommitted 0, .blockCommitted 1] .waiting)
      [⟨twoSent [.blockCommitted 0, .blockCommitted 1] .waiting, .cancel, cancelled⟩,
        ⟨cancelled, .breakLoop, after (.receiving 1 []) .indexing true .gone⟩,
        ⟨after (.receiving 1 []) .indexing true .gone, .leaveLoop,
          after (.receiving 1 []) .ending true .gone⟩,
        ⟨after (.receiving 1 []) .ending true .gone, .sendShutdown,
          after (.receiving 1 []) .closing true .gone⟩,
        ⟨after (.receiving 1 []) .closing true .gone, .exit, after .stopped .indexing false .gone⟩,
        ⟨after .stopped .indexing false .gone, .main .start,
          after (.polling 1) .indexing false .waiting⟩]
      (after (.polling 1) .indexing false .waiting) :=
    .cons rfl (.cons rfl (.cons rfl (.cons rfl (.cons rfl (.cons rfl (.nil _))))))
  refine ⟨_, _, commitTwo_run.append hrest, rfl, fun h => ?_⟩
  have hstored : storedBlock 0 ∈ (after (.polling 1) .indexing false .waiting).indexer.db.blocks :=
    List.mem_cons_self
  rcases h _ hstored ⟨1, rfl, Nat.zero_le 1⟩ with (hmem | ⟨n, hn, -⟩ | ⟨n, found, hfound, -⟩) | hat
  · cases hmem
  · cases hn
  · cases hfound
  · exact absurd hat (by decide)

end TwoBlocks

end Background

end ChainLens
