import ChainLens.Library.Transition
import Mathlib.Algebra.Ring.Nat
import Mathlib.Data.List.Range
import Mathlib.Data.List.Nodup
import Mathlib.Data.List.Perm.Basic
import Mathlib.Data.List.Count
import Mathlib.Tactic.Common

/-!
# One batch through the pipeline

Main creates three bounded channels, spawns the workers and the sequencer, sends the numbers of
the batch to the workers, and only then receives blocks from the sequencer. The workers share the
receiving end of the first channel under a lock; the sequencer restores the order. Main keeps the
receiving end of the last channel until it has joined the workers and the sequencer, so a send of
the sequencer never fails.

A step is one action of one party. Blocks are represented by their numbers, which is all that
main and the sequencer look at.

## Main definitions

* `Batch`: the numbers, the channel capacity, the workers and what fetching each number does
* `Batch.State`, `Batch.Step`: the parties and channels, and their actions
* `Batch.firstFailure`: the first number that is not fetched
* `Batch.Invariant`

## Main results

* `Batch.Invariant.step`, `Batch.Reachable.invariant`
* `Batch.Step.potential_lt`: every run ends
-/

namespace ChainLens

/-- What `fetch_and_decode` does on a number: a block, an error, or a panic of its worker. -/
inductive FetchOutcome where
  | ok
  | error
  | panic
deriving DecidableEq

/-- The batch of `length` numbers from `start` on; main takes at most twice the queue depth. -/
structure Batch where
  start : ℕ
  length : ℕ
  depth : ℕ
  workerCount : ℕ
  outcome : ℕ → FetchOutcome
  depth_pos : 0 < depth
  workerCount_pos : 0 < workerCount
  length_le : length ≤ 2 * depth

namespace Batch

/-- Main: sending the numbers, receiving blocks, awaiting the two tasks. -/
inductive Main where
  | dispatching (numbers : List ℕ)
  | receiving
  | joiningWorkers
  | joiningSequencer
  | done
deriving DecidableEq

/-- A worker: waiting for the lock, holding it, fetching, sending, or ended. -/
inductive Worker where
  | awaiting
  | holding
  | fetching (number : ℕ)
  | sending (number : ℕ)
  | finished
deriving DecidableEq

/-- The sequencer: receiving, in `drain_buffer`, sending from it, or ended. The flag marks the
drain after the channel closed. -/
inductive Sequencer where
  | receiving
  | draining (last : Bool)
  | sending (number : ℕ) (last : Bool)
  | finished
deriving DecidableEq

structure State where
  main : Main
  fetchQueue : List ℕ
  workers : List Worker
  workerQueue : List ℕ
  sequencer : Sequencer
  buffer : List ℕ
  expected : ℕ
  seqQueue : List ℕ
  received : List ℕ
deriving DecidableEq

namespace State

/-- Every worker has ended: the first channel has no receiver, and the second no sender. -/
def WorkersDone (s : State) : Prop := ∀ w ∈ s.workers, w = .finished

/-- Main has dropped the sending end of the first channel. -/
def DispatchOver (s : State) : Prop := ∀ numbers, s.main ≠ .dispatching numbers

end State

variable (b : Batch)

def initial : State where
  main := .dispatching (List.range' b.start b.length)
  fetchQueue := []
  workers := List.replicate b.workerCount .awaiting
  workerQueue := []
  sequencer := .receiving
  buffer := []
  expected := b.start
  seqQueue := []
  received := []

/-- The actions of the parties. Main leaves its loop with the `stop`-th block, if given. -/
inductive Step (stop : Option ℕ) : State → State → Prop where
  | dispatch {s : State} {n : ℕ} {rest : List ℕ} (hmain : s.main = .dispatching (n :: rest))
      (hroom : s.fetchQueue.length < b.depth) :
      Step stop s { s with main := .dispatching rest, fetchQueue := s.fetchQueue ++ [n] }
  -- No worker is left to receive: the rest of the numbers is dropped.
  | dispatchFailed {s : State} {n : ℕ} {rest : List ℕ}
      (hmain : s.main = .dispatching (n :: rest)) (hdone : s.WorkersDone) :
      Step stop s { s with main := .receiving }
  | dispatched {s : State} (hmain : s.main = .dispatching []) :
      Step stop s { s with main := .receiving }
  -- A block is received and committed; the loop may end with it.
  | receive {s : State} {n : ℕ} {rest : List ℕ} (hmain : s.main = .receiving)
      (hqueue : s.seqQueue = n :: rest) :
      Step stop s { s with
        main := if stop = some (s.received.length + 1) then .joiningWorkers else .receiving
        seqQueue := rest
        received := s.received ++ [n] }
  | receiveClosed {s : State} (hmain : s.main = .receiving) (hqueue : s.seqQueue = [])
      (hclosed : s.sequencer = .finished) : Step stop s { s with main := .joiningWorkers }
  | joinWorkers {s : State} (hmain : s.main = .joiningWorkers) (hdone : s.WorkersDone) :
      Step stop s { s with main := .joiningSequencer }
  | joinSequencer {s : State} (hmain : s.main = .joiningSequencer)
      (hdone : s.sequencer = .finished) : Step stop s { s with main := .done }
  -- The lock is held while its worker waits for a number.
  | lock {s : State} {pre post : List Worker} (hworker : s.workers = pre ++ .awaiting :: post)
      (hfree : .holding ∉ s.workers) :
      Step stop s { s with workers := pre ++ .holding :: post }
  | take {s : State} {pre post : List Worker} {n : ℕ} {rest : List ℕ}
      (hworker : s.workers = pre ++ .holding :: post) (hqueue : s.fetchQueue = n :: rest) :
      Step stop s { s with workers := pre ++ .fetching n :: post, fetchQueue := rest }
  | takeClosed {s : State} {pre post : List Worker}
      (hworker : s.workers = pre ++ .holding :: post) (hqueue : s.fetchQueue = [])
      (hclosed : s.DispatchOver) : Step stop s { s with workers := pre ++ .finished :: post }
  | fetch {s : State} {pre post : List Worker} {n : ℕ}
      (hworker : s.workers = pre ++ .fetching n :: post) (houtcome : b.outcome n = .ok) :
      Step stop s { s with workers := pre ++ .sending n :: post }
  -- The error is logged, and the worker takes the next number.
  | fetchFailed {s : State} {pre post : List Worker} {n : ℕ}
      (hworker : s.workers = pre ++ .fetching n :: post) (houtcome : b.outcome n = .error) :
      Step stop s { s with workers := pre ++ .awaiting :: post }
  | fetchPanicked {s : State} {pre post : List Worker} {n : ℕ}
      (hworker : s.workers = pre ++ .fetching n :: post) (houtcome : b.outcome n = .panic) :
      Step stop s { s with workers := pre ++ .finished :: post }
  | send {s : State} {pre post : List Worker} {n : ℕ}
      (hworker : s.workers = pre ++ .sending n :: post)
      (hroom : s.workerQueue.length < b.depth) (hopen : s.sequencer ≠ .finished) :
      Step stop s { s with
        workers := pre ++ .awaiting :: post
        workerQueue := s.workerQueue ++ [n] }
  -- The sequencer has dropped its receiver, and the worker returns.
  | sendFailed {s : State} {pre post : List Worker} {n : ℕ}
      (hworker : s.workers = pre ++ .sending n :: post) (hgone : s.sequencer = .finished) :
      Step stop s { s with workers := pre ++ .finished :: post }
  | collect {s : State} {n : ℕ} {rest : List ℕ} (hsequencer : s.sequencer = .receiving)
      (hqueue : s.workerQueue = n :: rest) :
      Step stop s { s with
        sequencer := .draining false
        workerQueue := rest
        buffer := s.buffer.insert n }
  | collectClosed {s : State} (hsequencer : s.sequencer = .receiving)
      (hqueue : s.workerQueue = []) (hdone : s.WorkersDone) :
      Step stop s { s with sequencer := .draining true }
  -- The turns of `drain_buffer`: it sends while the expected block is buffered.
  | pop {s : State} {last : Bool} (hsequencer : s.sequencer = .draining last)
      (hmem : s.expected ∈ s.buffer) :
      Step stop s { s with
        sequencer := .sending s.expected last
        buffer := s.buffer.erase s.expected }
  | drained {s : State} {last : Bool} (hsequencer : s.sequencer = .draining last)
      (hmem : s.expected ∉ s.buffer) :
      Step stop s { s with sequencer := if last then .finished else .receiving }
  -- A send cannot fail here, since main keeps the receiver.
  | emit {s : State} {n : ℕ} {last : Bool} (hsequencer : s.sequencer = .sending n last)
      (hroom : s.seqQueue.length < b.depth) :
      Step stop s { s with
        sequencer := .draining last
        expected := s.expected + 1
        seqQueue := s.seqQueue ++ [n] }

/-- The states a batch can reach. -/
def Reachable (stop : Option ℕ) (s : State) : Prop :=
  Relation.ReflTransGen (b.Step stop) b.initial s

/-- The first number of the batch that is not fetched, or the number after the batch. -/
def firstFailure : ℕ :=
  ((List.range' b.start b.length).find? (b.outcome · ≠ .ok)).getD (b.start + b.length)

/-! ## The first failure -/

theorem firstFailure_le : b.firstFailure ≤ b.start + b.length := by
  unfold firstFailure
  cases hfind : (List.range' b.start b.length).find? (b.outcome · ≠ .ok) with
  | none => exact Nat.le_refl _
  | some n =>
    have := List.mem_range'_1.mp (List.mem_of_find?_eq_some hfind)
    exact this.2.le

/-- Nothing fails before the first failure. -/
theorem outcome_of_lt_firstFailure {n : ℕ} (hstart : b.start ≤ n) (hn : n < b.firstFailure) :
    b.outcome n = .ok := by
  have hmem : n ∈ List.range' b.start b.length :=
    List.mem_range'_1.mpr ⟨hstart, lt_of_lt_of_le hn b.firstFailure_le⟩
  unfold firstFailure at hn
  cases hfind : (List.range' b.start b.length).find? (b.outcome · ≠ .ok) with
  | none =>
    have := List.find?_eq_none.mp hfind n hmem
    simpa using this
  | some m =>
    rw [hfind, Option.getD_some] at hn
    obtain ⟨-, before, after, hsplit, hbefore⟩ := List.find?_eq_some_iff_append.mp hfind
    have hsorted : (before ++ m :: after).Pairwise (· < ·) := hsplit ▸ List.pairwise_lt_range'
    rw [hsplit, List.mem_append, List.mem_cons] at hmem
    rcases hmem with hmem | rfl | hmem
    · simpa using hbefore n hmem
    · exact absurd hn (lt_irrefl _)
    -- A number after the first one found is larger.
    · have := (List.pairwise_append.mp hsorted).2.1
      rw [List.pairwise_cons] at this
      exact absurd (this.1 n hmem) (by omega)

/-- A number of the batch that is fetched is not the first failure. -/
theorem outcome_firstFailure (h : b.firstFailure < b.start + b.length) :
    b.outcome b.firstFailure ≠ .ok := by
  unfold firstFailure at h ⊢
  cases hfind : (List.range' b.start b.length).find? (b.outcome · ≠ .ok) with
  | none =>
    rw [hfind, Option.getD_none] at h
    exact absurd h (lt_irrefl _)
  | some n => simpa using List.find?_some hfind

theorem start_le_firstFailure : b.start ≤ b.firstFailure := by
  unfold firstFailure
  cases hfind : (List.range' b.start b.length).find? (b.outcome · ≠ .ok) with
  | none => exact Nat.le_add_right _ _
  | some n => exact (List.mem_range'_1.mp (List.mem_of_find?_eq_some hfind)).1

/-! ## Where the numbers are -/

/-- The number a worker is fetching or sending. -/
def Worker.held : Worker → List ℕ
  | .fetching n => [n]
  | .sending n => [n]
  | _ => []

/-- The number a worker has fetched. -/
def Worker.fetched : Worker → List ℕ
  | .sending n => [n]
  | _ => []

/-- The number the sequencer is sending. -/
def Sequencer.hand : Sequencer → List ℕ
  | .sending n _ => [n]
  | _ => []

/-- The numbers main has yet to send. -/
def Main.numbers : Main → List ℕ
  | .dispatching numbers => numbers
  | _ => []

@[simp] theorem Main.numbers_ite (c : Prop) [Decidable c] :
    Main.numbers (if c then .joiningWorkers else .receiving) = [] := by
  split <;> rfl

namespace State

/-- The numbers no worker has taken, in order. -/
def queued (s : State) : List ℕ := s.fetchQueue ++ s.main.numbers

/-- The numbers between the workers and main. -/
def downstream (s : State) : List ℕ :=
  s.workerQueue ++ s.buffer ++ s.sequencer.hand ++ s.seqQueue ++ s.received

/-- The numbers workers have taken and not lost. -/
def taken (s : State) : List ℕ := s.workers.flatMap Worker.held ++ s.downstream

/-- The numbers that have been fetched. -/
def fetched (s : State) : List ℕ := s.workers.flatMap Worker.fetched ++ s.downstream

end State

section Effects

variable {b} {stop : Option ℕ} {s t : State}

/-- **What a step does to the numbers**: they move downstream, a worker takes the next one, or a
worker loses one it failed to fetch. Main drops what is left only when all workers have ended. -/
theorem Step.numbers (h : b.Step stop s t) (hnd : s.taken.Nodup)
    (hlast : s.sequencer = .finished → s.WorkersDone) :
    (t.taken.Perm s.taken ∧ t.queued <+: s.queued ∧ (t.queued = s.queued ∨ s.WorkersDone)) ∨
      (∃ n, s.queued = n :: t.queued ∧ t.taken.Perm (n :: s.taken)) ∨
      ∃ n, b.outcome n ≠ .ok ∧ t.queued = s.queued ∧ s.taken.Perm (n :: t.taken) := by
  cases h with
  | dispatch hmain hroom =>
    refine Or.inl ⟨List.Perm.refl _, ?_⟩
    simp [State.queued, Main.numbers, hmain]
  | dispatchFailed hmain hdone =>
    refine Or.inl ⟨List.Perm.refl _, ?_, Or.inr hdone⟩
    simp [State.queued, Main.numbers, hmain]
  | dispatched hmain =>
    refine Or.inl ⟨List.Perm.refl _, ?_⟩
    simp [State.queued, Main.numbers, hmain]
  | receive hmain hqueue =>
    refine Or.inl ⟨List.perm_iff_count.mpr fun a => ?_, ?_⟩
    · simp [State.taken, State.downstream, hqueue, List.count_cons]
      omega
    · have hnumbers : s.main.numbers = [] := by rw [hmain]; rfl
      simp [State.queued, hnumbers]
  | receiveClosed hmain hqueue hclosed =>
    exact Or.inl ⟨List.Perm.refl _, by simp [State.queued, Main.numbers, hmain]⟩
  | joinWorkers hmain hdone =>
    exact Or.inl ⟨List.Perm.refl _, by simp [State.queued, Main.numbers, hmain]⟩
  | joinSequencer hmain hdone =>
    exact Or.inl ⟨List.Perm.refl _, by simp [State.queued, Main.numbers, hmain]⟩
  | lock hworker hfree =>
    refine Or.inl ⟨?_, by simp [State.queued]⟩
    simp [State.taken, State.downstream, hworker, Worker.held]
  | @take pre post n rest hworker hqueue =>
    refine Or.inr (Or.inl ⟨n, by simp [State.queued, hqueue], List.perm_iff_count.mpr fun a => ?_⟩)
    simp [State.taken, State.downstream, hworker, Worker.held, List.count_cons]
    omega
  | takeClosed hworker hqueue hclosed =>
    refine Or.inl ⟨?_, by simp [State.queued]⟩
    simp [State.taken, State.downstream, hworker, Worker.held]
  | fetch hworker houtcome =>
    refine Or.inl ⟨?_, by simp [State.queued]⟩
    simp [State.taken, State.downstream, hworker, Worker.held]
  | @fetchFailed pre post n hworker houtcome =>
    refine Or.inr (Or.inr ⟨n, by simp [houtcome], rfl, List.perm_iff_count.mpr fun a => ?_⟩)
    simp [State.taken, State.downstream, hworker, Worker.held, List.count_cons]
    omega
  | @fetchPanicked pre post n hworker houtcome =>
    refine Or.inr (Or.inr ⟨n, by simp [houtcome], rfl, List.perm_iff_count.mpr fun a => ?_⟩)
    simp [State.taken, State.downstream, hworker, Worker.held, List.count_cons]
    omega
  | send hworker hroom hopen =>
    refine Or.inl ⟨List.perm_iff_count.mpr fun a => ?_, by simp [State.queued]⟩
    simp [State.taken, State.downstream, hworker, Worker.held, List.count_cons]
    omega
  | @sendFailed pre post n hworker hgone =>
    -- a sequencer that has ended leaves no worker behind
    have := hlast hgone (.sending n) (by simp [hworker])
    cases this
  | @collect n rest hsequencer hqueue =>
    refine Or.inl ⟨List.perm_iff_count.mpr fun a => ?_, by simp [State.queued]⟩
    have hnew : n ∉ s.buffer := by
      intro hmem
      simp [State.taken, State.downstream, hqueue, List.nodup_append] at hnd
      grind
    simp [State.taken, State.downstream, hqueue, hsequencer, Sequencer.hand,
      List.insert_of_not_mem hnew, List.count_cons]
    omega
  | collectClosed hsequencer hqueue hdone =>
    refine Or.inl ⟨?_, by simp [State.queued]⟩
    simp [State.taken, State.downstream, hsequencer, Sequencer.hand]
  | pop hsequencer hmem =>
    refine Or.inl ⟨List.perm_iff_count.mpr fun a => ?_, by simp [State.queued]⟩
    have := (List.perm_cons_erase hmem).count_eq a
    simp [State.taken, State.downstream, hsequencer, Sequencer.hand, List.count_cons] at this ⊢
    omega
  | @drained last hsequencer hmem =>
    refine Or.inl ⟨?_, by simp [State.queued]⟩
    cases last <;> simp [State.taken, State.downstream, hsequencer, Sequencer.hand]
  | emit hsequencer hroom =>
    refine Or.inl ⟨List.perm_iff_count.mpr fun a => ?_, by simp [State.queued]⟩
    simp [State.taken, State.downstream, hsequencer, Sequencer.hand, List.count_cons]
    omega

/-- Membership in the fetched numbers, place by place. -/
theorem State.mem_fetched {n : ℕ} : n ∈ s.fetched ↔ n ∈ s.workers.flatMap Worker.fetched ∨
    n ∈ s.workerQueue ∨ n ∈ s.buffer ∨ n ∈ s.sequencer.hand ∨ n ∈ s.seqQueue ∨ n ∈ s.received := by
  simp only [State.fetched, State.downstream, List.mem_append, or_assoc]

/-- Only numbers that are fetched go downstream. -/
theorem Step.fetched_ok (h : b.Step stop s t) {n : ℕ} (hn : n ∈ t.fetched) :
    n ∈ s.fetched ∨ b.outcome n = .ok := by
  rw [State.mem_fetched] at hn ⊢
  cases h with
  | dispatch | dispatchFailed | dispatched | receiveClosed | joinWorkers | joinSequencer =>
    exact Or.inl hn
  | receive hmain hqueue =>
    simp only [hqueue, List.mem_append, List.mem_cons, List.not_mem_nil, or_false] at hn ⊢
    grind
  | lock hworker | take hworker | takeClosed hworker | fetchFailed hworker
  | fetchPanicked hworker | send hworker | sendFailed hworker =>
    simp only [hworker, Worker.fetched, List.flatMap_append, List.flatMap_cons, List.mem_append,
      List.mem_cons, List.not_mem_nil, or_false, false_or] at hn ⊢
    grind
  | @fetch pre post m hworker houtcome =>
    -- The one step that makes a number fetched.
    by_cases hnm : n = m
    · exact Or.inr (hnm ▸ houtcome)
    · simp only [hworker, Worker.fetched, List.flatMap_append, List.flatMap_cons, List.mem_append,
        List.mem_cons, List.not_mem_nil, or_false, false_or, hnm] at hn ⊢
      grind
  | collect hsequencer hqueue =>
    simp only [hsequencer, hqueue, Sequencer.hand, List.mem_insert_iff, List.mem_cons,
      List.not_mem_nil, false_or] at hn ⊢
    grind
  | collectClosed hsequencer hqueue hdone =>
    rw [hsequencer]
    exact Or.inl hn
  | pop hsequencer hmem =>
    have hbuffer : n ∈ s.buffer.erase s.expected → n ∈ s.buffer := List.mem_of_mem_erase
    have hexpected : n = s.expected → n ∈ s.buffer := fun heq => heq ▸ hmem
    simp only [Sequencer.hand, List.mem_cons, List.not_mem_nil, or_false] at hn
    grind
  | @drained last hsequencer hmem =>
    rw [hsequencer]
    cases last <;> exact Or.inl hn
  | emit hsequencer hroom =>
    simp only [hsequencer, Sequencer.hand, List.mem_append, List.mem_cons, List.not_mem_nil,
      or_false, false_or] at hn ⊢
    grind

/-- What has been emitted grows only by the number in the sequencer's hand. -/
theorem Step.emitted (h : b.Step stop s t) :
    (t.received ++ t.seqQueue = s.received ++ s.seqQueue ∧ t.expected = s.expected) ∨
      ∃ n, n ∈ s.sequencer.hand ∧ t.received ++ t.seqQueue = s.received ++ s.seqQueue ++ [n] ∧
        t.expected = s.expected + 1 := by
  cases h with
  | receive hmain hqueue => exact Or.inl ⟨by simp [hqueue], rfl⟩
  -- Only a send of the sequencer adds to what was emitted.
  | @emit n last hsequencer hroom =>
    exact Or.inr ⟨n, by simp [hsequencer, Sequencer.hand], by simp, rfl⟩
  | _ => exact Or.inl ⟨rfl, rfl⟩

/-- The sequencer takes the expected number in hand, and expects it until it is sent. -/
theorem Step.hand (h : b.Step stop s t) (hhand : ∀ n ∈ s.sequencer.hand, n = s.expected) :
    ∀ n ∈ t.sequencer.hand, n = t.expected := by
  cases h with
  | @drained last hsequencer hmem => cases last <;> simp [Sequencer.hand]
  | collect | collectClosed | pop | emit => simp [Sequencer.hand]
  | _ => exact hhand

/-- A worker ends on a panic, on a closed and empty queue, or on a closed channel. -/
theorem Step.workerFinished (h : b.Step stop s t) (hlast : s.sequencer = .finished → s.WorkersDone)
    (hfinished : .finished ∈ t.workers) :
    .finished ∈ s.workers ∨ s.queued = [] ∨
      ∃ n, b.outcome n ≠ .ok ∧ n ∈ s.taken := by
  cases h with
  | lock hworker | take hworker | fetch hworker | fetchFailed hworker | send hworker =>
    refine Or.inl ?_
    rw [hworker]
    simpa using hfinished
  | takeClosed hworker hqueue hclosed =>
    refine Or.inr (Or.inl ?_)
    cases hmain : s.main with
    | dispatching numbers => exact absurd hmain (hclosed numbers)
    | receiving | joiningWorkers | joiningSequencer | done =>
      rw [State.queued, hqueue, hmain]
      rfl
  | @fetchPanicked pre post n hworker houtcome =>
    exact Or.inr (Or.inr ⟨n, by simp [houtcome], by simp [State.taken, hworker, Worker.held]⟩)
  | @sendFailed pre post n hworker hgone =>
    have := hlast hgone (.sending n) (by simp [hworker])
    cases this
  | _ => exact Or.inl hfinished

end Effects

/-! ## The invariant -/

/-- What the parties have in common: the capacities, and who has ended when. -/
structure Control (stop : Option ℕ) (s : State) : Prop where
  workers : s.workers.length = b.workerCount
  fetchQueue : s.fetchQueue.length ≤ b.depth
  workerQueue : s.workerQueue.length ≤ b.depth
  seqQueue : s.seqQueue.length ≤ b.depth
  lastDrain : s.sequencer = .draining true ∨ (∃ n, s.sequencer = .sending n true) ∨
    s.sequencer = .finished → s.workerQueue = [] ∧ s.WorkersDone
  finished : s.sequencer = .finished → s.expected ∉ s.buffer
  dispatching : (∃ numbers, s.main = .dispatching numbers) → s.received = []
  receiving : s.main = .receiving → ∀ r ∈ stop, s.received.length < r
  bound : ∀ r ∈ stop, s.received.length ≤ r
  left : s.main = .joiningWorkers ∨ s.main = .joiningSequencer ∨ s.main = .done →
    s.sequencer = .finished ∧ s.seqQueue = [] ∨ s.received.length ∈ stop
  joined : s.main = .joiningSequencer ∨ s.main = .done → s.WorkersDone
  done : s.main = .done → s.sequencer = .finished

/-- How far the batch is: `k` numbers were taken, those of them that can be fetched are still
there, and what was emitted is the range up to the expected number. -/
structure Progress (k : ℕ) (s : State) : Prop where
  le : k ≤ b.length
  queued : s.queued <+: List.range' (b.start + k) (b.length - k)
  all_queued : s.queued = List.range' (b.start + k) (b.length - k) ∨
    b.firstFailure ≤ b.start + k
  finished : .finished ∈ s.workers → b.firstFailure ≤ b.start + k
  nodup : s.taken.Nodup
  taken : ∀ n ∈ s.taken, b.start ≤ n ∧ n < b.start + k
  complete : ∀ n, b.start ≤ n → n < b.start + k → b.outcome n = .ok → n ∈ s.taken
  fetched : ∀ n ∈ s.fetched, b.outcome n = .ok
  expected : b.start ≤ s.expected
  emitted : s.received ++ s.seqQueue = List.range' b.start (s.expected - b.start)
  hand : ∀ n ∈ s.sequencer.hand, n = s.expected

section Preservation

variable {b} {stop : Option ℕ} {s t : State}

theorem Control.initial : b.Control stop b.initial where
  workers := List.length_replicate
  fetchQueue := Nat.zero_le _
  workerQueue := Nat.zero_le _
  seqQueue := Nat.zero_le _
  lastDrain h := by simp [Batch.initial] at h
  finished h := by simp [Batch.initial] at h
  dispatching _ := rfl
  receiving h := by simp [Batch.initial] at h
  bound _ _ := Nat.zero_le _
  left h := by simp [Batch.initial] at h
  joined h := by simp [Batch.initial] at h
  done h := by simp [Batch.initial] at h

/-- A worker that acts has not ended. -/
theorem State.not_workersDone {pre post : List Worker} {w : Worker}
    (hworker : s.workers = pre ++ w :: post) (hw : w ≠ .finished) : ¬ s.WorkersDone :=
  fun hdone => hw (hdone w (by simp [hworker]))

theorem Control.step (hstop : ∀ r ∈ stop, 0 < r) (hs : b.Control stop s) (h : b.Step stop s t) :
    b.Control stop t := by
  cases h with
  | dispatch hmain hroom =>
    refine { hs with
      fetchQueue := by rw [List.length_append, List.length_singleton]; omega
      dispatching := fun _ => hs.dispatching ⟨_, hmain⟩
      receiving := nofun, left := by simp, joined := by simp, done := nofun }
  | dispatchFailed hmain hdone =>
    have hreceived := hs.dispatching ⟨_, hmain⟩
    refine { hs with
      dispatching := by simp
      receiving := fun _ r hr => by simpa [hreceived] using hstop r hr
      left := by simp, joined := by simp, done := nofun }
  | dispatched hmain =>
    have hreceived := hs.dispatching ⟨_, hmain⟩
    refine { hs with
      dispatching := by simp
      receiving := fun _ r hr => by simpa [hreceived] using hstop r hr
      left := by simp, joined := by simp, done := nofun }
  | receive hmain hqueue =>
    -- The one step that lengthens what main received, and may end its loop.
    have hbound := hs.receiving hmain
    refine { hs with
      seqQueue := by have := hs.seqQueue; rw [hqueue] at this; simp at this ⊢; omega
      dispatching := ?_, receiving := ?_, left := ?_, joined := ?_, done := ?_
      bound := fun r hr => by
        have := hbound r hr
        rw [List.length_append, List.length_singleton]
        omega }
    · rintro ⟨numbers, heq⟩
      dsimp only at heq
      split at heq <;> cases heq
    · intro heq r hr
      have := hbound r hr
      dsimp only at heq
      split at heq
      · cases heq
      next hne =>
        rw [Option.mem_def] at hr
        rw [hr, Option.some.injEq] at hne
        rw [List.length_append, List.length_singleton]
        omega
    · intro heq
      dsimp only at heq
      split at heq
      next hlast => exact Or.inr (by simpa using hlast)
      · simp at heq
    · intro heq
      dsimp only at heq
      split at heq <;> simp at heq
    · intro heq
      dsimp only at heq
      split at heq <;> cases heq
  | receiveClosed hmain hqueue hclosed =>
    exact { hs with
      dispatching := by simp
      receiving := nofun
      left := fun _ => Or.inl ⟨hclosed, hqueue⟩
      joined := by simp, done := nofun }
  | joinWorkers hmain hdone =>
    exact { hs with
      dispatching := by simp
      receiving := nofun
      left := fun _ => hs.left (Or.inl hmain)
      joined := fun _ => hdone
      done := nofun }
  | joinSequencer hmain hdone =>
    exact { hs with
      dispatching := by simp
      receiving := nofun
      left := fun _ => hs.left (Or.inr (Or.inl hmain))
      joined := fun _ => hs.joined (Or.inl hmain)
      done := fun _ => hdone }
  | lock hworker hfree =>
    -- While a worker acts, neither the last drain nor the join has begun.
    have hlive := State.not_workersDone hworker (by simp)
    exact { hs with
      workers := by simpa [hworker] using hs.workers
      lastDrain := fun hl => absurd (hs.lastDrain hl).2 hlive
      joined := fun hj => absurd (hs.joined hj) hlive }
  | take hworker hqueue =>
    have hlive := State.not_workersDone hworker (by simp)
    exact { hs with
      workers := by simpa [hworker] using hs.workers
      fetchQueue := by have := hs.fetchQueue; rw [hqueue] at this; simp at this ⊢; omega
      lastDrain := fun hl => absurd (hs.lastDrain hl).2 hlive
      joined := fun hj => absurd (hs.joined hj) hlive }
  | takeClosed hworker | fetch hworker | fetchFailed hworker | fetchPanicked hworker
  | sendFailed hworker =>
    have hlive := State.not_workersDone hworker (by simp)
    exact { hs with
      workers := by simpa [hworker] using hs.workers
      lastDrain := fun hl => absurd (hs.lastDrain hl).2 hlive
      joined := fun hj => absurd (hs.joined hj) hlive }
  | send hworker hroom hopen =>
    have hlive := State.not_workersDone hworker (by simp)
    exact { hs with
      workers := by simpa [hworker] using hs.workers
      workerQueue := by rw [List.length_append, List.length_singleton]; omega
      lastDrain := fun hl => absurd (hs.lastDrain hl).2 hlive
      joined := fun hj => absurd (hs.joined hj) hlive }
  -- As long as the sequencer acts, main can only have left by its own stop.
  | collect hsequencer hqueue =>
    have hopen : s.sequencer ≠ .finished := by simp [hsequencer]
    exact { hs with
      workerQueue := by have := hs.workerQueue; rw [hqueue] at this; simp at this ⊢; omega
      lastDrain := by simp
      finished := nofun
      left := fun hl => Or.inr ((hs.left hl).resolve_left fun h => hopen h.1)
      done := fun hd => absurd (hs.done hd) hopen }
  | collectClosed hsequencer hqueue hdone =>
    have hopen : s.sequencer ≠ .finished := by simp [hsequencer]
    exact { hs with
      lastDrain := fun _ => ⟨hqueue, hdone⟩
      finished := nofun
      left := fun hl => Or.inr ((hs.left hl).resolve_left fun h => hopen h.1)
      done := fun hd => absurd (hs.done hd) hopen }
  | @pop last hsequencer hmem =>
    have hopen : s.sequencer ≠ .finished := by simp [hsequencer]
    refine { hs with
      lastDrain := fun hl => hs.lastDrain (Or.inl ?_)
      finished := nofun
      left := fun hl => Or.inr ((hs.left hl).resolve_left fun h => hopen h.1)
      done := fun hd => absurd (hs.done hd) hopen }
    simp at hl
    rw [hsequencer, hl]
  | @drained last hsequencer hmem =>
    have hopen : s.sequencer ≠ .finished := by simp [hsequencer]
    refine { hs with
      lastDrain := fun hl => hs.lastDrain (Or.inl ?_)
      finished := fun _ => hmem
      left := fun hl => Or.inr ((hs.left hl).resolve_left fun h => hopen h.1)
      done := fun hd => absurd (hs.done hd) hopen }
    cases last
    · simp at hl
    · exact hsequencer
  | @emit n last hsequencer hroom =>
    have hopen : s.sequencer ≠ .finished := by simp [hsequencer]
    refine { hs with
      seqQueue := by rw [List.length_append, List.length_singleton]; omega
      lastDrain := fun hl => hs.lastDrain (Or.inr (Or.inl ⟨n, ?_⟩))
      finished := nofun
      left := fun hl => Or.inr ((hs.left hl).resolve_left fun h => hopen h.1)
      done := fun hd => absurd (hs.done hd) hopen }
    simp at hl
    rw [hsequencer, hl]

theorem initial_taken : b.initial.taken = [] := by
  simp [State.taken, State.downstream, Batch.initial, Sequencer.hand, Worker.held]

theorem initial_fetched : b.initial.fetched = [] := by
  simp [State.fetched, State.downstream, Batch.initial, Sequencer.hand, Worker.fetched]

theorem Progress.initial : b.Progress 0 b.initial where
  le := Nat.zero_le _
  queued := List.prefix_rfl
  all_queued := Or.inl rfl
  finished h := by simp [Batch.initial] at h
  nodup := initial_taken ▸ List.nodup_nil
  taken n hn := by
    rw [initial_taken] at hn
    cases hn
  complete n hstart hn := absurd hn (by omega)
  fetched n hn := by
    rw [initial_fetched] at hn
    cases hn
  expected := Nat.le_refl _
  emitted := by simp [Batch.initial]
  hand n hn := by cases hn

/-- The next number a worker takes is the one after those taken. -/
theorem Progress.next {k n : ℕ} {rest : List ℕ} (hs : b.Progress k s)
    (hqueued : s.queued = n :: rest) : n = b.start + k ∧ k < b.length ∧
      rest <+: List.range' (b.start + (k + 1)) (b.length - (k + 1)) ∧
      (rest = List.range' (b.start + (k + 1)) (b.length - (k + 1)) ∨
        b.firstFailure ≤ b.start + k) := by
  have hinitial := hs.queued
  have hall := hs.all_queued
  -- Something is queued, so not all numbers were taken.
  have hlt : k < b.length := by
    by_contra hge
    rw [show b.length - k = 0 by omega, hqueued] at hinitial
    simp at hinitial
  rw [hqueued, show b.length - k = b.length - (k + 1) + 1 by omega,
    List.range'_succ] at hinitial hall
  rw [List.cons_prefix_cons] at hinitial
  rw [List.cons.injEq] at hall
  refine ⟨hinitial.1, hlt, ?_, hall.imp_left fun h => ?_⟩
  · simpa [Nat.add_assoc] using hinitial.2
  · simpa [Nat.add_assoc] using h.2

/-- With nothing queued, every number before the first failure was taken. -/
theorem Progress.firstFailure_le {k : ℕ} (hs : b.Progress k s) (hempty : s.queued = []) :
    b.firstFailure ≤ b.start + k := by
  rcases hs.all_queued with hall | hle
  · rw [hempty] at hall
    have hlen := congrArg List.length hall
    rw [List.length_nil, List.length_range'] at hlen
    have := b.firstFailure_le
    omega
  · exact hle

/-- A number that is taken and not fetched is no earlier than the first failure. -/
theorem Progress.firstFailure_le_of_failed {k n : ℕ} (hs : b.Progress k s) (hn : n ∈ s.taken)
    (houtcome : b.outcome n ≠ .ok) : b.firstFailure ≤ b.start + k := by
  have hrange := hs.taken n hn
  by_contra hlt
  exact houtcome (b.outcome_of_lt_firstFailure hrange.1 (by omega))

theorem Progress.step {k : ℕ} (hc : b.Control stop s) (hs : b.Progress k s)
    (h : b.Step stop s t) : ∃ k', b.Progress k' t := by
  have hlast : s.sequencer = .finished → s.WorkersDone :=
    fun hfin => (hc.lastDrain (Or.inr (Or.inr hfin))).2
  -- What holds however the numbers move.
  have hworkers : .finished ∈ t.workers → b.firstFailure ≤ b.start + k := by
    intro hfin
    rcases h.workerFinished hlast hfin with hold | hempty | ⟨n, houtcome, hn⟩
    · exact hs.finished hold
    · exact hs.firstFailure_le hempty
    · exact hs.firstFailure_le_of_failed hn houtcome
  have hfetched : ∀ n ∈ t.fetched, b.outcome n = .ok := fun n hn =>
    (h.fetched_ok hn).elim (hs.fetched n) id
  have hemitted : b.start ≤ t.expected ∧
      t.received ++ t.seqQueue = List.range' b.start (t.expected - b.start) := by
    have hstart := hs.expected
    rcases h.emitted with ⟨hlist, hexpected⟩ | ⟨n, hn, hlist, hexpected⟩
    · rw [hlist, hexpected]
      exact ⟨hstart, hs.emitted⟩
    · rw [hlist, hexpected, hs.emitted, hs.hand n hn]
      refine ⟨by omega, ?_⟩
      rw [show s.expected + 1 - b.start = s.expected - b.start + 1 by omega, List.range'_1_concat,
        show b.start + (s.expected - b.start) = s.expected by omega]
  -- The numbers move downstream, one is taken, or one is lost.
  rcases h.numbers hs.nodup hlast with
    ⟨htaken, hinitial, hqueued⟩ | ⟨n, hqueued, htaken⟩ | ⟨n, houtcome, hqueued, htaken⟩
  · refine ⟨k, { hs with
      queued := hinitial.trans hs.queued
      all_queued := ?_
      finished := hworkers
      nodup := htaken.nodup_iff.mpr hs.nodup
      taken := fun n hn => hs.taken n (htaken.subset hn)
      complete := fun n hstart hn hok => htaken.symm.subset (hs.complete n hstart hn hok)
      fetched := hfetched
      expected := hemitted.1
      emitted := hemitted.2
      hand := h.hand hs.hand }⟩
    rcases hqueued with heq | hdone
    · rw [heq]
      exact hs.all_queued
    · -- all workers have ended, and there is at least one
      obtain ⟨w, hw⟩ := List.exists_mem_of_length_pos (hc.workers ▸ b.workerCount_pos)
      exact Or.inr (hs.finished (hdone w hw ▸ hw))
  · obtain ⟨rfl, hlt, hrest, hall⟩ := hs.next hqueued
    refine ⟨k + 1, {
      le := hlt
      queued := hrest
      all_queued := hall.imp_right fun hle => by omega
      finished := fun hfin => by have := hworkers hfin; omega
      nodup := ?_
      taken := fun n hn => ?_
      complete := fun n hstart hn hok => ?_
      fetched := hfetched
      expected := hemitted.1
      emitted := hemitted.2
      hand := h.hand hs.hand }⟩
    -- The number taken is the one after all that were.
    · rw [htaken.nodup_iff, List.nodup_cons]
      exact ⟨fun hmem => absurd (hs.taken _ hmem).2 (lt_irrefl _), hs.nodup⟩
    · rcases List.mem_cons.mp (htaken.subset hn) with rfl | hn
      · omega
      · have := hs.taken n hn
        omega
    · refine htaken.symm.subset (List.mem_cons.mpr ?_)
      rcases Nat.lt_or_eq_of_le (Nat.lt_succ_iff.mp hn) with hn | hn
      · exact Or.inr (hs.complete n hstart hn hok)
      · exact Or.inl hn
  · have hsub : t.taken ⊆ s.taken := fun m hm => htaken.symm.subset (List.mem_cons_of_mem _ hm)
    refine ⟨k, { hs with
      queued := hqueued ▸ hs.queued
      all_queued := hqueued ▸ hs.all_queued
      finished := hworkers
      nodup := (List.nodup_cons.mp (htaken.nodup_iff.mp hs.nodup)).2
      taken := fun m hm => hs.taken m (hsub hm)
      complete := fun m hstart hm hok => ?_
      fetched := hfetched
      expected := hemitted.1
      emitted := hemitted.2
      hand := h.hand hs.hand }⟩
    -- The lost number is one that cannot be fetched.
    rcases List.mem_cons.mp (htaken.subset (hs.complete m hstart hm hok)) with rfl | hmem
    · exact absurd hok houtcome
    · exact hmem

/-- **The invariant of a batch.** -/
def Invariant (b : Batch) (stop : Option ℕ) (s : State) : Prop :=
  b.Control stop s ∧ ∃ k, b.Progress k s

theorem Invariant.step (hstop : ∀ r ∈ stop, 0 < r) (hs : b.Invariant stop s)
    (h : b.Step stop s t) : b.Invariant stop t := by
  obtain ⟨hc, k, hp⟩ := hs
  exact ⟨hc.step hstop h, hp.step hc h⟩

theorem Reachable.invariant (hstop : ∀ r ∈ stop, 0 < r) (h : b.Reachable stop s) :
    b.Invariant stop s := by
  induction h with
  | refl => exact ⟨.initial, 0, .initial⟩
  | tail _ hstep ih => exact ih.step hstop hstep

end Preservation

/-! ## Every run ends -/

/-- What a worker can still do, its number included. -/
def Worker.potential : Worker → ℕ
  -- Every hand-over of a number lowers what it counts for by one or more.
  | .awaiting => 2
  | .holding => 1
  | .fetching _ => 9
  | .sending _ => 8
  | .finished => 0

def Sequencer.potential : Sequencer → ℕ
  | .receiving => 2
  | .draining last => if last then 1 else 3
  | .sending _ last => if last then 3 else 5
  | .finished => 0

def Main.potential : Main → ℕ
  | .dispatching numbers => 4 + 10 * numbers.length
  | .receiving => 3
  | .joiningWorkers => 2
  | .joiningSequencer => 1
  | .done => 0

/-- The potential of a state. A number counts less in every place on its way to main. -/
def State.potential (s : State) : ℕ :=
  s.main.potential + 9 * s.fetchQueue.length + (s.workers.map Worker.potential).sum +
    5 * s.workerQueue.length + 3 * s.buffer.length + s.sequencer.potential + s.seqQueue.length

/-- **Every step lowers the potential.** -/
theorem Step.potential_lt {b : Batch} {stop : Option ℕ} {s t : State} (h : b.Step stop s t) :
    t.potential < s.potential := by
  unfold State.potential
  cases h with
  | dispatch hmain | dispatchFailed hmain | dispatched hmain | receiveClosed hmain
  | joinWorkers hmain | joinSequencer hmain =>
    simp [hmain, Main.potential]
    try omega
  | receive hmain hqueue =>
    -- Main stays or leaves its loop, and a number leaves the last channel.
    have hmain' : (if stop = some (s.received.length + 1) then Main.joiningWorkers
        else .receiving).potential ≤ s.main.potential := by
      rw [hmain]
      split <;> simp [Main.potential]
    simp only [hqueue, List.length_cons]
    omega
  | lock hworker | take hworker hqueue | takeClosed hworker | fetch hworker | fetchFailed hworker
  | fetchPanicked hworker | send hworker | sendFailed hworker =>
    simp [*, Worker.potential]
    try omega
  | @collect n rest hsequencer hqueue =>
    have hinsert : (s.buffer.insert n).length ≤ s.buffer.length + 1 := by
      unfold List.insert
      split <;> simp
    simp [hsequencer, hqueue, Sequencer.potential]
    omega
  | collectClosed hsequencer => simp [hsequencer, Sequencer.potential]
  | @pop last hsequencer hmem =>
    have herase := List.length_erase_of_mem hmem
    have hpos := List.length_pos_of_mem hmem
    cases last <;> simp [hsequencer, Sequencer.potential] <;> omega
  | @drained last hsequencer hmem =>
    cases last <;> simp [hsequencer, Sequencer.potential]
  | @emit n last hsequencer hroom =>
    cases last <;> simp [hsequencer, Sequencer.potential] <;> omega

end Batch

end ChainLens
