import ChainLens.Indexer.Main

/-!
# The background processor beside the loop

After each stored block main sends its number through a bounded channel to a task that calls
`process_block`. The channel lives in memory: a crash empties it, and so does the end of the
processor's loop, which the cancellation of the token brings about while tasks are waiting. A
restarted process begins with the cursor's block.

## Main definitions

* `Background.State`, `Background.next`: the loop, the channel and the processor
* `Background.Tidy`: what is in memory while nothing runs, and what may follow `Shutdown`

## Main results

* `Background.step_indexer`: beside the loop only the intelligence tables change
* `Background.tidy_step`
-/

namespace ChainLens

open Transition

namespace Background

inductive IntelligenceTask where
  | blockCommitted (blockNumber : ℕ)
  | shutdown
deriving DecidableEq

/-- The processor: ended, in its `select!`, or in a call of `process_block`, with the blocks that
were stored at its height when the call began. -/
inductive Processor where
  | gone
  | waiting
  | processing (blockNumber : ℕ) (found : List BlockRow)
deriving DecidableEq

/-- Where main is: in its loop, about to send a block, past its loop, or past its `Shutdown`
message. -/
inductive Phase where
  | indexing
  | notifying (blockNumber : ℕ)
  | ending
  | closing
deriving DecidableEq

/-- The processed blocks are those of a call of `process_block` that began after the block was
stored and returned `Ok`. -/
structure State where
  indexer : Indexer.State
  phase : Phase
  cancelled : Bool
  queue : List IntelligenceTask
  processor : Processor
  processed : List BlockRow
deriving DecidableEq

/-- Nothing runs over the migrated database. -/
def State.initial : State := ⟨⟨.migrated, .stopped⟩, .indexing, false, [], .gone, []⟩

/-- How a call of `process_block` ends. -/
inductive Outcome where
  | ok
  | error
  | panic

/-- What happens next: a move of main's loop, the other steps of main, or one of the processor. -/
inductive Event where
  | main (e : Indexer.Event)
  | notify
  | cancel
  | leaveLoop
  | sendShutdown
  | exit
  | receive
  | breakLoop
  | persist (call : PersistCall) (fates : List Fate) (now : ℕ)
  | complete (outcome : Outcome)

/-- `mpsc::channel(100)`. -/
def channelCapacity : ℕ := 100

namespace State

variable (s : State)

/-- Send a task and go on. The send waits for room, and fails without an effect once the receiver
is dropped. -/
def send (task : IntelligenceTask) (phase : Phase) : Option State :=
  match s.processor with
  | .gone => some { s with phase }
  | _ => if s.queue.length < channelCapacity then
      some { s with phase, queue := s.queue ++ [task] }
    else none

/-- The end of the process, over the database it leaves. -/
def down (db : Db) : State where
  indexer := ⟨db, .stopped⟩
  phase := .indexing
  cancelled := false
  queue := []
  processor := .gone
  processed := s.processed.filter (· ∈ db.blocks)

/-- A deleted block counts as found and as processed no longer, also when it is stored again. -/
def forget (db : Db) : State where
  indexer := s.indexer
  phase := s.phase
  cancelled := s.cancelled
  queue := s.queue
  processor :=
    match s.processor with
    | .processing n found => .processing n (found.filter (· ∈ db.blocks))
    | processor => processor
  processed := s.processed.filter (· ∈ db.blocks)

/-- Where a move of the loop leaves main: a stored block is to be sent. -/
def phaseAfter (cfg : Config) (s : State) : Indexer.Event → Phase
  | .commit client fates now =>
    match s.indexer.process with
    | .receiving _ (n :: _) =>
      match (commitBlock client ⟨s.indexer.db, fates, now⟩ n cfg.maxReorgDepth).1 with
      | .ok false => .notifying n
      | _ => .indexing
    | _ => .indexing
  | _ => .indexing

/-- The state after a move of the loop. -/
def advance (cfg : Config) (e : Indexer.Event) (t : Indexer.State) : State :=
  match t.process with
  -- A panic in main ends the process.
  | .stopped => s.down t.db
  | _ => { s.forget t.db with indexer := t, phase := s.phaseAfter cfg e }

/-- The blocks `process_block` reads at the height it binds. -/
def blocksAt (n : ℕ) : List BlockRow :=
  s.indexer.db.blocks.filter (·.number = saturate i64Max n)

end State

/-- The state after an event, if the event can happen. -/
def next (cfg : Config) (s : State) : Event → Option State
  -- A crash, wherever the process is.
  | .main .stop => some (s.down s.indexer.db)
  | .main .start =>
    (Indexer.next cfg s.indexer .start).map fun t =>
      { s with
        indexer := t, phase := .indexing, cancelled := false, queue := [], processor := .waiting }
  -- The token may be cancelled during a call, so it does not keep main from finishing one.
  | .main e =>
    match s.phase with
    | .indexing => (Indexer.next cfg s.indexer e).map (s.advance cfg e)
    | _ => none
  | .notify =>
    match s.phase with
    | .notifying n => s.send (.blockCommitted n) .indexing
    | _ => none
  | .cancel =>
    match s.indexer.process with
    | .stopped => none
    | _ => some { s with cancelled := true }
  | .leaveLoop =>
    match s.indexer.process, s.phase with
    | .stopped, _ => none
    | _, .indexing => if s.cancelled then some { s with phase := .ending } else none
    | _, _ => none
  | .sendShutdown =>
    match s.phase with
    | .ending => s.send .shutdown .closing
    | _ => none
  -- The pool is closed and main returns; the runtime drops the processor wherever it is.
  | .exit =>
    match s.phase with
    | .closing => some (s.down s.indexer.db)
    | _ => none
  | .receive =>
    match s.processor, s.queue with
    | .waiting, .blockCommitted n :: queue =>
      some { s with queue, processor := .processing n (s.blocksAt n) }
    | .waiting, .shutdown :: _ => some { s with queue := [], processor := .gone }
    | _, _ => none
  -- The select may take this branch while tasks are waiting; the receiver goes with them.
  | .breakLoop =>
    match s.processor with
    | .waiting => if s.cancelled then some { s with queue := [], processor := .gone } else none
    | _ => none
  | .persist call fates now =>
    match s.processor with
    | .processing _ _ =>
      some { s with indexer := { s.indexer with db := (call.run ⟨s.indexer.db, fates, now⟩).db } }
    | _ => none
  | .complete outcome =>
    match s.processor with
    | .processing _ found =>
      match outcome with
      | .ok => some { s with processor := .waiting, processed := s.processed ++ found }
      -- The error is logged, and the task is not queued again.
      | .error => some { s with processor := .waiting }
      | .panic => some { s with queue := [], processor := .gone }
    | _ => none

/-- The steps of the process. -/
def Step (cfg : Config) (s : State) (e : Event) (t : State) : Prop := next cfg s e = some t

/-! ## What a step changes -/

section Step

variable {cfg : Config} {s t : State} {e : Event}

/-- The ways a move of the loop ends: with the process, or beside the same channel, or as the
start of a process. -/
theorem step_main {e : Indexer.Event} (h : Step cfg s (.main e) t) :
    Indexer.Step cfg s.indexer e t.indexer ∧
      (t = s.down t.indexer.db ∨
        t = { s.forget t.indexer.db with indexer := t.indexer, phase := t.phase } ∧
          s.phase = .indexing ∧ t.indexer.process ≠ .stopped ∨
        s.indexer.process = .stopped ∧ t.indexer.db = s.indexer.db ∧
          t.processed = s.processed ∧ t.phase = .indexing ∧ t.queue = [] ∧
            t.processor = .waiting ∧ t.indexer.process ≠ .stopped) := by
  -- Moves other than a start and a crash go through `advance`.
  have hadvance : ∀ e', (match s.phase with
      | .indexing => (Indexer.next cfg s.indexer e').map (s.advance cfg e')
      | _ => none) = some t → Indexer.Step cfg s.indexer e' t.indexer ∧
        (t = s.down t.indexer.db ∨
          t = { s.forget t.indexer.db with indexer := t.indexer, phase := t.phase } ∧
            s.phase = .indexing ∧ t.indexer.process ≠ .stopped) := by
    intro e' h
    split at h
    next hphase =>
      obtain ⟨u, hu, rfl⟩ := Option.map_eq_some_iff.mp h
      obtain ⟨db, process⟩ := u
      cases process with
      | stopped => exact ⟨hu, Or.inl rfl⟩
      | polling cursor => exact ⟨hu, Or.inr ⟨rfl, hphase, nofun⟩⟩
      | receiving cursor pending => exact ⟨hu, Or.inr ⟨rfl, hphase, nofun⟩⟩
    next => cases h
  cases e with
  | start =>
    obtain ⟨u, hu, rfl⟩ := Option.map_eq_some_iff.mp h
    refine ⟨hu, Or.inr (Or.inr ?_)⟩
    obtain ⟨⟨db, process⟩, phase, cancelled, queue, processor, processed⟩ := s
    cases process <;> cases hu
    exact ⟨rfl, rfl, rfl, rfl, rfl, rfl, nofun⟩
  | stop =>
    obtain rfl := Option.some.inj h
    exact ⟨rfl, Or.inl rfl⟩
  | poll latest delivered =>
    obtain ⟨hu, hrest⟩ := hadvance _ h
    exact ⟨hu, hrest.imp_right Or.inl⟩
  | commit client fates now =>
    obtain ⟨hu, hrest⟩ := hadvance _ h
    exact ⟨hu, hrest.imp_right Or.inl⟩
  | finish =>
    obtain ⟨hu, hrest⟩ := hadvance _ h
    exact ⟨hu, hrest.imp_right Or.inl⟩

/-- What a send leaves. -/
theorem State.send_cases {task : IntelligenceTask} {phase : Phase}
    (h : s.send task phase = some t) :
    t = { s with phase } ∧ s.processor = .gone ∨
      t = { s with phase, queue := s.queue ++ [task] } ∧ s.queue.length < channelCapacity := by
  unfold State.send at h
  split at h
  next hgone => exact Or.inl ⟨(Option.some.inj h).symm, hgone⟩
  next =>
    split at h
    next hroom => exact Or.inr ⟨(Option.some.inj h).symm, hroom⟩
    next => cases h

/-- **Beside the loop only the intelligence tables change.** -/
theorem step_indexer (h : Step cfg s e t) :
    (∃ e', e = .main e' ∧ Indexer.Step cfg s.indexer e' t.indexer) ∨
      s.indexer.db.SameIndexed t.indexer.db ∧
        (t.indexer.process = s.indexer.process ∨ t.indexer.process = .stopped) := by
  cases e with
  | main e' => exact Or.inl ⟨e', rfl, (step_main h).1⟩
  | notify =>
    refine Or.inr ?_
    simp only [Step, next] at h
    split at h
    · rcases State.send_cases h with ⟨rfl, -⟩ | ⟨rfl, -⟩ <;> exact ⟨.refl _, Or.inl rfl⟩
    · cases h
  | cancel =>
    simp only [Step, next] at h
    split at h <;> cases h
    exact Or.inr ⟨.refl _, Or.inl rfl⟩
  | leaveLoop =>
    simp only [Step, next] at h
    split at h
    · cases h
    · split at h <;> cases h
      exact Or.inr ⟨.refl _, Or.inl rfl⟩
    · cases h
  | sendShutdown =>
    refine Or.inr ?_
    simp only [Step, next] at h
    split at h
    · rcases State.send_cases h with ⟨rfl, -⟩ | ⟨rfl, -⟩ <;> exact ⟨.refl _, Or.inl rfl⟩
    · cases h
  | exit =>
    simp only [Step, next] at h
    split at h <;> cases h
    exact Or.inr ⟨.refl _, Or.inr rfl⟩
  | receive =>
    simp only [Step, next] at h
    split at h <;> cases h <;> exact Or.inr ⟨.refl _, Or.inl rfl⟩
  | breakLoop =>
    simp only [Step, next] at h
    split at h
    · split at h <;> cases h
      exact Or.inr ⟨.refl _, Or.inl rfl⟩
    · cases h
  | persist call fates now =>
    simp only [Step, next] at h
    split at h <;> cases h
    -- The one step that writes: a persist call stays out of the indexed tables.
    exact Or.inr ⟨@PersistCall.run_sameIndexed ⟨_, fates, now⟩ call, Or.inl rfl⟩
  | complete outcome =>
    simp only [Step, next] at h
    split at h
    · split at h <;> cases h <;> exact Or.inr ⟨.refl _, Or.inl rfl⟩
    · cases h

/-! ## Tasks from step to step -/

/-- While nothing runs nothing is in memory, and a `Shutdown` message is the last one sent. -/
structure Tidy (s : State) : Prop where
  stopped : s.indexer.process = .stopped → s.phase = .indexing ∧ s.queue = [] ∧ s.processor = .gone
  early : s.phase ≠ .closing → .shutdown ∉ s.queue
  last : .shutdown ∉ s.queue.dropLast

theorem tidy_initial : Tidy .initial := ⟨fun _ => ⟨rfl, rfl, rfl⟩, nofun, nofun⟩

theorem tidy_down (s : State) (db : Db) : Tidy (s.down db) :=
  ⟨fun _ => ⟨rfl, rfl, rfl⟩, nofun, nofun⟩

/-- A processor that ended leaves an empty channel. -/
theorem Tidy.clear (hs : Tidy s) :
    Tidy { s with queue := [], processor := .gone } :=
  ⟨fun hstopped => ⟨(hs.stopped hstopped).1, rfl, rfl⟩, nofun, nofun⟩

theorem Tidy.send {task : IntelligenceTask} {phase : Phase} (hs : Tidy s)
    (hphase : s.phase ≠ .indexing) (hopen : s.phase ≠ .closing)
    (htask : task = .shutdown → phase = .closing) (h : s.send task phase = some t) : Tidy t := by
  have hrunning : s.indexer.process ≠ .stopped := fun hstopped => hphase (hs.stopped hstopped).1
  have hqueue := hs.early hopen
  rcases State.send_cases h with ⟨rfl, -⟩ | ⟨rfl, -⟩
  · exact ⟨fun hstopped => absurd hstopped hrunning, fun _ => hqueue, hs.last⟩
  · refine ⟨fun hstopped => absurd hstopped hrunning, fun hclosing hmem => ?_, ?_⟩
    · rcases List.mem_append.mp hmem with hmem | hmem
      · exact hqueue hmem
      · exact hclosing (htask (List.mem_singleton.mp hmem).symm)
    · rw [List.dropLast_concat]
      exact hqueue

theorem tidy_step (hs : Tidy s) (h : Step cfg s e t) : Tidy t := by
  cases e with
  | main e =>
    obtain ⟨-, hdown | ⟨hsame, hphase, hrunning⟩ | ⟨-, -, -, hphase, hqueue, -, hrunning⟩⟩ :=
      step_main h
    · rw [hdown]
      exact tidy_down s _
    · -- The channel is as before, and main was in its loop.
      have hqueue : t.queue = s.queue := by
        rw [hsame]
        rfl
      have hopen : .shutdown ∉ s.queue := by
        apply hs.early
        rw [hphase]
        nofun
      refine ⟨fun hstopped => absurd hstopped hrunning, fun _ => ?_, ?_⟩
      · rw [hqueue]
        exact hopen
      · rw [hqueue]
        exact hs.last
    · exact ⟨fun hstopped => absurd hstopped hrunning, by rw [hqueue]; nofun,
        by rw [hqueue]; nofun⟩
  | notify =>
    simp only [Step, next] at h
    split at h
    next n hphase =>
      -- Main is in its loop, where no `Shutdown` has been sent yet.
      refine hs.send ?_ ?_ (fun htask => ?_) h
      · rw [hphase]
        nofun
      · rw [hphase]
        nofun
      · cases htask
    next => cases h
  | cancel =>
    simp only [Step, next] at h
    split at h <;> cases h
    exact ⟨hs.stopped, hs.early, hs.last⟩
  | leaveLoop =>
    simp only [Step, next] at h
    split at h
    · cases h
    next hphase hrunning =>
      split at h <;> cases h
      refine ⟨fun hstopped => absurd hstopped hrunning, fun _ => hs.early ?_, hs.last⟩
      rw [hphase]
      nofun
    · cases h
  | sendShutdown =>
    simp only [Step, next] at h
    split at h
    next hphase =>
      -- The only step that sends a `Shutdown` goes on to the closing phase.
      refine hs.send ?_ ?_ (fun _ => rfl) h
      · rw [hphase]
        nofun
      · rw [hphase]
        nofun
    next => cases h
  | exit =>
    simp only [Step, next] at h
    split at h <;> cases h
    exact tidy_down s _
  | receive =>
    simp only [Step, next] at h
    split at h
    next n queue hprocessor hqueue =>
      cases h
      -- The rest of the channel has the last message of the whole.
      refine ⟨fun hstopped => ?_, fun hopen hmem => ?_, fun hmem => ?_⟩
      · rw [(hs.stopped hstopped).2.2] at hprocessor
        cases hprocessor
      · exact hs.early hopen (hqueue ▸ List.mem_cons_of_mem _ hmem)
      · refine hs.last (hqueue ▸ ?_)
        cases queue with
        | nil => cases hmem
        | cons task queue => exact List.mem_cons_of_mem _ hmem
    next =>
      cases h
      exact hs.clear
    next => cases h
  | breakLoop =>
    simp only [Step, next] at h
    split at h
    · split at h <;> cases h
      exact hs.clear
    · cases h
  | persist call fates now =>
    simp only [Step, next] at h
    split at h <;> cases h
    exact ⟨hs.stopped, hs.early, hs.last⟩
  | complete outcome =>
    simp only [Step, next] at h
    split at h
    next n found hprocessor =>
      have hrunning : s.indexer.process ≠ .stopped := by
        intro hstopped
        rw [(hs.stopped hstopped).2.2] at hprocessor
        cases hprocessor
      split at h <;> cases h
      · exact ⟨fun hstopped => absurd hstopped hrunning, hs.early, hs.last⟩
      · exact ⟨fun hstopped => absurd hstopped hrunning, hs.early, hs.last⟩
      · exact hs.clear
    next => cases h

end Step

end Background

end ChainLens
