import ChainLens.Pipeline.Committer
import ChainLens.Pipeline.Delivery

/-!
# The indexing loop

`main` reads the cursor and then repeats three things: it polls the head, dispatches a batch of
block numbers from the cursor on, and commits the blocks the pipeline delivers, one after the
other. After an error it goes on with the next block; after a handled reorg it reads the cursor
again and starts another batch. The process can stop and be started again at any moment, and only
the database outlives it.

## Main definitions

* `Config`: the settings the loop reads
* `Indexer.State`, `Indexer.Event`, `Indexer.next`: the durable database with the process, and
  what the loop does next
* `Indexer.Calls`: the call of `commit_block` in a move

## Main results

* `Batch.received_eq_take`: what a batch delivers is an initial segment of its numbers
* `Indexer.next_db`: the database changes in calls of `commit_block` only
-/

namespace ChainLens

open Transition

/-- The number of messages a channel can have room for. -/
def maxPermits : ℕ := usizeMax / 8

/-- The settings of the loop. A channel cannot be created without room for a message, or beyond
`maxPermits`. -/
structure Config where
  backfillFrom : ℕ
  maxReorgDepth : ℕ
  workerCount : ℕ
  fetchQueueDepth : ℕ
  fetchQueueDepth_pos : 0 < fetchQueueDepth
  fetchQueueDepth_le : fetchQueueDepth ≤ maxPermits

namespace Config

variable (cfg : Config)

/-- The number a process continues from when the cursor is not known. -/
def initialCursor : ℕ := cfg.backfillFrom - 1

/-- The numbers of the next batch. -/
def blocksToFetch (cursor latest : ℕ) : List ℕ :=
  let startBlock := max cursor cfg.backfillFrom
  (List.range' startBlock (latest + 1 - startBlock)).take (cfg.fetchQueueDepth * 2)

/-- The batch main dispatches. -/
def batch (cursor latest : ℕ) (outcome : ℕ → FetchOutcome) (hworkers : 0 < cfg.workerCount) :
    Batch where
  start := max cursor cfg.backfillFrom
  length := min (cfg.fetchQueueDepth * 2) (latest + 1 - max cursor cfg.backfillFrom)
  depth := cfg.fetchQueueDepth
  workerCount := cfg.workerCount
  outcome := outcome
  depth_pos := cfg.fetchQueueDepth_pos
  workerCount_pos := hworkers
  length_le := by omega

theorem take_range' (start length k : ℕ) :
    (List.range' start length).take k = List.range' start (min k length) := by
  rcases Nat.le_total length k with h | h
  · rw [List.take_range'_of_length_le h, min_eq_right h]
  · rw [List.take_range'_of_length_ge h, min_eq_left h]

theorem blocksToFetch_eq (cursor latest : ℕ) (outcome : ℕ → FetchOutcome)
    (hworkers : 0 < cfg.workerCount) :
    cfg.blocksToFetch cursor latest =
      List.range' (cfg.batch cursor latest outcome hworkers).start
        (cfg.batch cursor latest outcome hworkers).length :=
  take_range' _ _ _

theorem mem_blocksToFetch {cursor latest n : ℕ} (h : n ∈ cfg.blocksToFetch cursor latest) :
    max cursor cfg.backfillFrom ≤ n ∧ n ≤ latest := by
  have hmem := List.mem_range'_1.mp (List.mem_of_mem_take h)
  omega

end Config

/-- **What a batch delivers**: whatever main has received at some moment is an initial segment of
the numbers it dispatched. -/
theorem Batch.received_eq_take {cfg : Config} {cursor latest : ℕ} {outcome : ℕ → FetchOutcome}
    {hworkers : 0 < cfg.workerCount} {stop : Option ℕ} {s : Batch.State}
    (hstop : ∀ r ∈ stop, 0 < r)
    (h : (cfg.batch cursor latest outcome hworkers).Reachable stop s) :
    s.received = (cfg.blocksToFetch cursor latest).take s.received.length := by
  obtain ⟨-, k, hprogress⟩ := h.invariant hstop
  have hfailure := (cfg.batch cursor latest outcome hworkers).firstFailure_le
  rw [cfg.blocksToFetch_eq cursor latest outcome hworkers, ← List.prefix_iff_eq_take]
  refine hprogress.received_prefix.trans ?_
  rw [List.prefix_iff_eq_take, List.length_range', Config.take_range', min_eq_left (by omega)]

namespace Indexer

/-- The process: not running, about to poll the head, or receiving the blocks of a batch. -/
inductive Process where
  | stopped
  | polling (cursor : ℕ)
  | receiving (cursor : ℕ) (pending : List ℕ)
deriving DecidableEq

structure State where
  db : Db
  process : Process
deriving DecidableEq

/-- What happens next. A call of `commit_block` meets a node, the fates of its database calls and
the clock. -/
inductive Event where
  | start
  | poll (latest delivered : ℕ)
  | commit (client : EthClient) (fates : List Fate) (now : ℕ)
  | finish
  | stop

/-- Read the cursor after a handled reorg. -/
def rewindCursor (cfg : Config) (store : PostgresStore) : ℕ × PostgresStore :=
  match store.lastIndexedBlock with
  | (.ok (some (n, _)), store) => (n, store)
  | (_, store) => (cfg.initialCursor, store)

/-- One turn of the receive loop, on the block `n`. -/
def receive (cfg : Config) (client : EthClient) (store : PostgresStore) (cursor n : ℕ)
    (pending : List ℕ) : Process × PostgresStore :=
  match commitBlock client store n cfg.maxReorgDepth with
  | (.ok true, store) =>
    -- The rest of the batch is dropped.
    let (cursor, store) := rewindCursor cfg store
    (.polling cursor, store)
  | (.ok false, store) => (.receiving n pending, store)
  -- The error is logged, and the loop takes the next block.
  | (.error (.error _), store) => (.receiving cursor pending, store)
  | (.error (.panic _), store) => (.stopped, store)

/-- The state after an event, if the event can happen. -/
def next (cfg : Config) (s : State) : Event → Option State
  | .start =>
    match s.process with
    | .stopped =>
      some ⟨s.db, .polling ((s.db.cursor.map Prod.fst).getD cfg.initialCursor)⟩
    | _ => none
  -- Workers can fail, so that any initial segment of the batch is delivered.
  | .poll latest delivered =>
    match s.process with
    | .polling cursor =>
      some ⟨s.db, .receiving cursor ((cfg.blocksToFetch cursor latest).take delivered)⟩
    | _ => none
  | .commit client fates now =>
    match s.process with
    | .receiving cursor (n :: pending) =>
      let (process, store) := receive cfg client ⟨s.db, fates, now⟩ cursor n pending
      some ⟨store.db, process⟩
    | _ => none
  -- The channel is closed and both tasks are joined.
  | .finish =>
    match s.process with
    | .receiving cursor [] => some ⟨s.db, .polling cursor⟩
    | _ => none
  -- A shutdown or a crash, wherever the process is.
  | .stop => some ⟨s.db, .stopped⟩

/-- The steps of the loop. -/
def Step (cfg : Config) (s : State) (e : Event) (t : State) : Prop := next cfg s e = some t

/-- The block replies of the event come from the given chain. -/
def Event.Follows (chain : CanonicalChain) : Event → Prop
  | .commit client _ _ => client.Follows chain
  | _ => True

@[simp] theorem Event.follows_start (chain : CanonicalChain) : Event.start.Follows chain := trivial

@[simp] theorem Event.follows_poll (chain : CanonicalChain) (latest delivered : ℕ) :
    (Event.poll latest delivered).Follows chain := trivial

@[simp] theorem Event.follows_finish (chain : CanonicalChain) : Event.finish.Follows chain :=
  trivial

/-- The call of `commit_block` in a move: its node, its store and its block number. -/
inductive Calls : Move State Event → EthClient → PostgresStore → ℕ → Prop where
  | intro {db : Db} {cursor n : ℕ} {pending : List ℕ} {client : EthClient} {fates : List Fate}
      {now : ℕ} {t : State} :
      Calls ⟨⟨db, .receiving cursor (n :: pending)⟩, .commit client fates now, t⟩ client
        ⟨db, fates, now⟩ n

/-! ## What a step changes -/

section Step

variable {cfg : Config} {s t : State} {e : Event} {client : EthClient} {store : PostgresStore}
  {n : ℕ}

theorem rewindCursor_db : (rewindCursor cfg store).2.db = store.db := by
  obtain ⟨store', hdb, hread | hread⟩ := store.lastIndexedBlock_cases
  · unfold rewindCursor
    rw [hread, ← hdb]
    split <;> simp_all
  · unfold rewindCursor
    rw [hread, ← hdb]

theorem receive_db {cursor : ℕ} {pending : List ℕ} :
    (receive cfg client store cursor n pending).2.db =
      (commitBlock client store n cfg.maxReorgDepth).2.db := by
  unfold receive
  split
  next heq => simp only [rewindCursor_db, heq]
  all_goals
    next heq => rw [heq]

/-- The database a call leaves. -/
theorem Calls.db (hcalls : Calls ⟨s, e, t⟩ client store n) (h : Step cfg s e t) :
    store.db = s.db ∧ t.db = (commitBlock client store n cfg.maxReorgDepth).2.db := by
  cases hcalls
  obtain rfl := Option.some.inj h
  exact ⟨rfl, receive_db⟩

theorem Calls.follows {chain : CanonicalChain} (hcalls : Calls ⟨s, e, t⟩ client store n)
    (h : e.Follows chain) : client.Follows chain := by
  cases hcalls
  exact h

/-- **The database changes in calls of `commit_block` only.** -/
theorem next_db (h : Step cfg s e t) :
    t.db = s.db ∨ ∃ client store n, Calls ⟨s, e, t⟩ client store n := by
  obtain ⟨db, process⟩ := s
  unfold Step at h
  cases e with
  | commit client fates now =>
    cases process with
    | stopped => cases h
    | polling cursor => cases h
    | receiving cursor pending =>
      cases pending with
      | nil => cases h
      | cons n pending => exact Or.inr ⟨_, _, _, .intro⟩
  | finish =>
    cases process with
    | stopped => cases h
    | polling cursor => cases h
    | receiving cursor pending =>
      cases pending with
      | nil => exact Or.inl (Option.some.inj h ▸ rfl)
      | cons n pending => cases h
  | start =>
    cases process with
    | stopped => exact Or.inl (Option.some.inj h ▸ rfl)
    | polling cursor => cases h
    | receiving cursor pending => cases h
  | poll latest delivered =>
    cases process with
    | stopped => cases h
    | polling cursor => exact Or.inl (Option.some.inj h ▸ rfl)
    | receiving cursor pending => cases h
  | stop => exact Or.inl (Option.some.inj h ▸ rfl)

/-- What calls of `commit_block` keep, a step keeps. -/
theorem next_related {R : Db → Db → Prop} (hrefl : ∀ db, R db db) (h : Step cfg s e t)
    (hcommit : ∀ client store n, Calls ⟨s, e, t⟩ client store n → store.db = s.db →
      R store.db (commitBlock client store n cfg.maxReorgDepth).2.db) : R s.db t.db := by
  rcases next_db h with hsame | ⟨client, store, n, hcalls⟩
  · rw [hsame]
    exact hrefl s.db
  · obtain ⟨hbefore, hafter⟩ := hcalls.db h
    rw [hafter, ← hbefore]
    exact hcommit client store n hcalls hbefore

/-- Only a panic of the call ends the process. -/
theorem Calls.running (hcalls : Calls ⟨s, e, t⟩ client store n) (h : Step cfg s e t)
    (hresult : ∀ p, (commitBlock client store n cfg.maxReorgDepth).1 ≠ .error (.panic p)) :
    t.process ≠ .stopped := by
  cases hcalls with
  | @intro db cursor _ pending _ fates now =>
    obtain rfl := Option.some.inj h
    show (receive cfg client ⟨db, fates, now⟩ cursor n pending).1 ≠ .stopped
    unfold receive
    split
    · nofun
    · nofun
    · nofun
    next p store heq => exact absurd (congrArg Prod.fst heq) (hresult p)

/-- Every number main has still to commit lies from the configured height on. -/
def FromBackfill (cfg : Config) (s : State) : Prop :=
  ∀ cursor pending, s.process = .receiving cursor pending → ∀ n ∈ pending, cfg.backfillFrom ≤ n

theorem Calls.backfillFrom_le (hcalls : Calls ⟨s, e, t⟩ client store n) (hs : FromBackfill cfg s) :
    cfg.backfillFrom ≤ n := by
  cases hcalls
  exact hs _ _ rfl _ List.mem_cons_self

theorem fromBackfill_step (h : Step cfg s e t) (hs : FromBackfill cfg s) : FromBackfill cfg t := by
  obtain ⟨db, process⟩ := s
  unfold Step at h
  intro cursor' pending' hprocess
  cases e with
  | start =>
    cases process <;> cases h
    cases hprocess
  | poll latest delivered =>
    cases process <;> cases h
    cases hprocess
    intro n hn
    exact (le_max_right _ _).trans (cfg.mem_blocksToFetch (List.mem_of_mem_take hn)).1
  | commit client fates now =>
    cases process with
    | stopped => cases h
    | polling cursor => cases h
    | receiving cursor pending =>
      cases pending with
      | nil => cases h
      | cons n pending =>
        obtain rfl := Option.some.inj h
        have hrest := List.forall_mem_cons.mp (hs cursor (n :: pending) rfl)
        dsimp only [receive] at hprocess
        -- The loop goes on with the rest of the batch, or leaves it.
        split at hprocess <;> cases hprocess
        · exact hrest.2
        · exact hrest.2
  | finish =>
    cases process with
    | stopped => cases h
    | polling cursor => cases h
    | receiving cursor pending =>
      cases pending <;> cases h
      cases hprocess
  | stop =>
    cases h
    cases hprocess

end Step

/-! ## Runs over empty blocks -/

/-- A small configuration: batches of up to four blocks. -/
def smallConfig (backfillFrom maxReorgDepth : ℕ) : Config where
  backfillFrom := backfillFrom
  maxReorgDepth := maxReorgDepth
  workerCount := 1
  fetchQueueDepth := 2
  fetchQueueDepth_pos := Nat.two_pos
  fetchQueueDepth_le := by decide

/-- The process over a stored chain of empty blocks, from height 0 to `tip`. -/
def storedTo (tip : ℕ) (process : Process) : State := ⟨.numbered (fun _ => 1) 0 tip, process⟩

/-- A commit against a node that serves the chain, without failures. -/
def Event.commitFrom (chain : CanonicalChain) : Event := .commit (.serving chain) [] 0

@[simp] theorem Event.commitFrom_follows (chain : CanonicalChain) :
    (Event.commitFrom chain).Follows chain := (EthClient.serving_serves chain).follows

end Indexer

end ChainLens
