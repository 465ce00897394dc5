import ChainLens.Pipeline.Batch
import Mathlib.Data.List.Perm.Subperm

/-!
# What a batch delivers

A batch ends where no party can act. If main keeps receiving, it has then received exactly the
numbers before the first failure, in order. If it leaves its loop with the `r`-th block, it waits
for the sequencer while holding the receiving end of the last channel; the sequencer ends exactly
when the blocks it still has to send fit that channel.

## Main results

* `Batch.dispatches`: main leaves its dispatch loop
* `Batch.delivers`: the numbers main receives
* `Batch.joins_iff`: when main joins the workers and the sequencer after leaving
-/

namespace ChainLens

namespace Batch

variable {b : Batch} {stop : Option ℕ} {s t : State} {k : ℕ}

/-! ## Counting -/

/-- The taken and the queued numbers are different numbers of the batch. -/
theorem Progress.count_le (hs : b.Progress k s) :
    s.taken.length + s.queued.length ≤ b.length := by
  -- The taken numbers lie below `start + k`, the queued ones from there on.
  have htaken : s.taken.length ≤ k := by
    have hsub : s.taken ⊆ List.range' b.start k := fun n hn =>
      List.mem_range'_1.mpr (hs.taken n hn)
    simpa using (List.subperm_of_subset hs.nodup hsub).length_le
  have hqueued : s.queued.length ≤ b.length - k := by simpa using hs.queued.length_le
  have := hs.le
  omega

/-- Not every place downstream can be full while a worker is sending. -/
theorem Progress.not_all_full (hs : b.Progress k s) {n m : ℕ} {last : Bool}
    (hworker : .sending n ∈ s.workers) (hworkerQueue : b.depth ≤ s.workerQueue.length)
    (hsequencer : s.sequencer = .sending m last) (hseqQueue : b.depth ≤ s.seqQueue.length) :
    False := by
  have hheld : 0 < (s.workers.flatMap Worker.held).length :=
    List.length_pos_of_mem (List.mem_flatMap.mpr ⟨_, hworker, List.mem_singleton_self n⟩)
  have hcount := hs.count_le
  have hlength := b.length_le
  simp only [State.taken, State.downstream, List.length_append, hsequencer, Sequencer.hand,
    List.length_singleton] at hcount
  omega

/-- Everything emitted was fetched and belongs to the batch. -/
theorem Progress.outcome_of_emitted (hs : b.Progress k s) {n : ℕ} (hstart : b.start ≤ n)
    (hn : n < s.expected) : b.outcome n = .ok ∧ n < b.start + b.length := by
  -- What was emitted is a range, so the number is among it.
  have hmem : n ∈ s.received ++ s.seqQueue := by
    rw [hs.emitted, List.mem_range'_1]
    omega
  have hdown : n ∈ s.seqQueue ∨ n ∈ s.received := (List.mem_append.mp hmem).symm
  have htaken : n ∈ s.taken := by
    simp only [State.taken, State.downstream, List.mem_append]
    tauto
  have hfetched : n ∈ s.fetched := State.mem_fetched.mpr (by tauto)
  have := (hs.taken n htaken).2
  have := hs.le
  exact ⟨hs.fetched n hfetched, by omega⟩

/-- The sequencer never gets past the first failure. -/
theorem Progress.expected_le (hs : b.Progress k s) : s.expected ≤ b.firstFailure := by
  by_contra hlt
  obtain ⟨hok, hrange⟩ := hs.outcome_of_emitted b.start_le_firstFailure (by omega)
  exact b.outcome_firstFailure hrange hok

/-- A number in the sequencer's hand comes before the first failure. -/
theorem Progress.expected_lt (hs : b.Progress k s) {n : ℕ} {last : Bool}
    (hsequencer : s.sequencer = .sending n last) : s.expected < b.firstFailure := by
  have hhand : n ∈ s.sequencer.hand := by simp [hsequencer, Sequencer.hand]
  have htaken : n ∈ s.taken := by
    simp only [State.taken, State.downstream, List.mem_append]
    tauto
  have hok := hs.fetched n (State.mem_fetched.mpr (by tauto))
  have hrange := (hs.taken n htaken).2
  have hle := hs.expected_le
  have := hs.le
  -- It is the expected number, and it was fetched: the failure comes later.
  rw [hs.hand n hhand] at hok hrange
  refine lt_of_le_of_ne hle fun heq => ?_
  rw [heq] at hok hrange
  exact b.outcome_firstFailure (by omega) hok

/-- **A sequencer that ended emitted everything before the first failure.** -/
theorem Progress.expected_eq (hc : b.Control stop s) (hs : b.Progress k s)
    (hfinished : s.sequencer = .finished) : s.expected = b.firstFailure := by
  obtain ⟨hworkerQueue, hdone⟩ := hc.lastDrain (Or.inr (Or.inr hfinished))
  -- All workers have ended, so everything before the failure was taken and passed on.
  obtain ⟨w, hw⟩ := List.exists_mem_of_length_pos (hc.workers ▸ b.workerCount_pos)
  have htaken : b.firstFailure ≤ b.start + k := hs.finished (hdone w hw ▸ hw)
  refine le_antisymm hs.expected_le (le_of_not_gt fun hlt => ?_)
  have hmem := hs.complete s.expected hs.expected (by omega)
    (b.outcome_of_lt_firstFailure hs.expected hlt)
  have hheld : s.workers.flatMap Worker.held = [] := by
    refine List.flatMap_eq_nil_iff.mpr fun w hw => ?_
    rw [hdone w hw]
    rfl
  have hemitted : s.expected ∉ s.received ++ s.seqQueue := by
    rw [hs.emitted, List.mem_range'_1]
    have := hs.expected
    omega
  have hbuffer := hc.finished hfinished
  simp only [State.taken, State.downstream, hheld, hworkerQueue, hfinished, Sequencer.hand,
    List.mem_append, List.not_mem_nil] at hmem hemitted
  tauto

/-! ## States without steps -/

section Stuck

variable (hstuck : ∀ t, ¬ b.Step stop s t)

include hstuck

/-- Where a number waits or main has sent them all, an idle worker can act: the workers that
cannot have ended or face a full channel. -/
theorem stuck_worker (hidle : s.fetchQueue ≠ [] ∨ s.DispatchOver) {w : Worker}
    (hw : w ∈ s.workers) :
    w = .finished ∨ ∃ n, w = .sending n ∧ b.depth ≤ s.workerQueue.length ∧
      s.sequencer ≠ .finished := by
  -- The worker that holds the lock can always act.
  have hholding : .holding ∉ s.workers := by
    intro hmem
    obtain ⟨pre, post, hworker⟩ := List.append_of_mem hmem
    cases hqueue : s.fetchQueue with
    | nil => exact hstuck _ (.takeClosed hworker hqueue (hidle.resolve_left (not_not.mpr hqueue)))
    | cons n rest => exact hstuck _ (.take hworker hqueue)
  obtain ⟨pre, post, hworker⟩ := List.append_of_mem hw
  cases w with
  | awaiting => exact absurd (.lock hworker hholding) (hstuck _)
  | holding => exact absurd hw hholding
  | fetching n =>
    cases houtcome : b.outcome n with
    | ok => exact absurd (.fetch hworker houtcome) (hstuck _)
    | error => exact absurd (.fetchFailed hworker houtcome) (hstuck _)
    | panic => exact absurd (.fetchPanicked hworker houtcome) (hstuck _)
  | sending n =>
    have hopen : s.sequencer ≠ .finished := fun hgone => hstuck _ (.sendFailed hworker hgone)
    refine Or.inr ⟨n, rfl, ?_, hopen⟩
    by_contra hroom
    exact hstuck _ (.send hworker (by omega) hopen)
  | finished => exact Or.inl rfl

/-- The sequencer has ended, waits for a worker, or faces a full channel. -/
theorem stuck_sequencer :
    s.sequencer = .finished ∨ (s.workerQueue = [] ∧ ¬ s.WorkersDone) ∨
      ∃ n last, s.sequencer = .sending n last ∧ b.depth ≤ s.seqQueue.length := by
  cases hsequencer : s.sequencer with
  | receiving =>
    refine Or.inr (Or.inl ?_)
    cases hqueue : s.workerQueue with
    | nil => exact ⟨rfl, fun hdone => hstuck _ (.collectClosed hsequencer hqueue hdone)⟩
    | cons n rest => exact absurd (.collect hsequencer hqueue) (hstuck _)
  | draining last =>
    by_cases hmem : s.expected ∈ s.buffer
    · exact absurd (.pop hsequencer hmem) (hstuck _)
    · exact absurd (.drained hsequencer hmem) (hstuck _)
  | sending n last =>
    refine Or.inr (Or.inr ⟨n, last, rfl, ?_⟩)
    by_contra hroom
    exact hstuck _ (.emit hsequencer (by omega))
  | finished => exact Or.inl rfl

/-- The workers end: a batch of at most twice the capacity cannot fill both channels behind
them. -/
theorem stuck_workersDone (hs : b.Progress k s)
    (hidle : s.fetchQueue ≠ [] ∨ s.DispatchOver) : s.WorkersDone := by
  intro w hw
  rcases stuck_worker hstuck hidle hw with hfinished | ⟨n, rfl, hfull, hopen⟩
  · exact hfinished
  -- A full channel needs a sequencer behind a full channel, and the batch is too small for that.
  · have hpos := b.depth_pos
    rcases stuck_sequencer hstuck with hfinished | ⟨hempty, -⟩ | ⟨m, last, hsequencer, hseqQueue⟩
    · exact absurd hfinished hopen
    · rw [hempty, List.length_nil] at hfull
      omega
    · exact (hs.not_all_full hw hfull hsequencer hseqQueue).elim

/-- Main never stays in its dispatch loop. -/
theorem stuck_dispatchOver (hs : b.Progress k s) : s.DispatchOver := by
  intro numbers hmain
  cases numbers with
  | nil => exact hstuck _ (.dispatched hmain)
  | cons n rest =>
    have hfull : b.depth ≤ s.fetchQueue.length := by
      by_contra hroom
      exact hstuck _ (.dispatch hmain (by omega))
    have hpos := b.depth_pos
    have hne : s.fetchQueue ≠ [] := List.ne_nil_of_length_pos (by omega)
    exact hstuck _ (.dispatchFailed hmain (stuck_workersDone hstuck hs (Or.inl hne)))

/-- **Where a batch can stop**: main has joined both tasks, or it awaits a sequencer that faces a
full channel. -/
theorem stuck_main (hs : b.Progress k s) :
    s.main = .done ∨ ∃ n last, s.main = .joiningSequencer ∧ s.sequencer = .sending n last ∧
      b.depth ≤ s.seqQueue.length := by
  have hover := stuck_dispatchOver hstuck hs
  have hdone := stuck_workersDone hstuck hs (Or.inr hover)
  have hsequencer : s.sequencer = .finished ∨
      ∃ n last, s.sequencer = .sending n last ∧ b.depth ≤ s.seqQueue.length := by
    rcases stuck_sequencer hstuck with hfinished | ⟨-, hlive⟩ | hfull
    · exact Or.inl hfinished
    · exact absurd hdone hlive
    · exact Or.inr hfull
  cases hmain : s.main with
  | dispatching numbers => exact absurd hmain (hover numbers)
  | receiving =>
    cases hqueue : s.seqQueue with
    | nil =>
      rcases hsequencer with hfinished | ⟨n, last, -, hfull⟩
      · exact absurd (.receiveClosed hmain hqueue hfinished) (hstuck _)
      · have := b.depth_pos
        rw [hqueue, List.length_nil] at hfull
        omega
    | cons n rest => exact absurd (.receive hmain hqueue) (hstuck _)
  | joiningWorkers => exact absurd (.joinWorkers hmain hdone) (hstuck _)
  | joiningSequencer =>
    rcases hsequencer with hfinished | ⟨n, last, hsending, hfull⟩
    · exact absurd (.joinSequencer hmain hfinished) (hstuck _)
    · exact Or.inr ⟨n, last, rfl, hsending, hfull⟩
  | done => exact Or.inl rfl

end Stuck

/-- Each step of an endless run would use up some of its potential. -/
theorem not_endless (run : ℕ → State) (hrun : ∀ i, b.Step stop (run i) (run (i + 1))) : False := by
  have hbound : ∀ i, (run i).potential + i ≤ (run 0).potential := by
    intro i
    induction i with
    | zero => exact Nat.le_refl _
    | succ i ih =>
      have := (hrun i).potential_lt
      omega
  have := hbound ((run 0).potential + 1)
  omega

/-! ## Dispatch -/

/-- **A batch can always be dispatched.** However the parties interleave and wherever main will
leave its receive loop, one of them can act as long as main is in its dispatch loop; and no run
goes on forever. -/
theorem dispatches (b : Batch) :
    (∀ stop : Option ℕ, (∀ r ∈ stop, 0 < r) → ∀ s, b.Reachable stop s → ¬ s.DispatchOver →
      ∃ t, b.Step stop s t) ∧
      ∀ stop, ¬ ∃ run : ℕ → State, run 0 = b.initial ∧ ∀ i, b.Step stop (run i) (run (i + 1)) := by
  refine ⟨fun stop hstop s hs hdispatching => ?_, fun stop => ?_⟩
  · obtain ⟨-, k, hp⟩ := hs.invariant hstop
    by_contra hstuck
    exact hdispatching (stuck_dispatchOver (not_exists.mp hstuck) hp)
  · rintro ⟨run, -, hrun⟩
    exact not_endless run hrun

/-! ## Delivery -/

/-- At every moment main has received an initial segment of the numbers before the first
failure. -/
theorem Progress.received_prefix (hs : b.Progress k s) :
    s.received <+: List.range' b.start (b.firstFailure - b.start) := by
  have hle := hs.expected_le
  have hexpected := hs.expected
  have hemitted : s.received <+: List.range' b.start (s.expected - b.start) :=
    ⟨s.seqQueue, hs.emitted⟩
  refine hemitted.trans ⟨List.range' s.expected (b.firstFailure - s.expected), ?_⟩
  rw [show b.firstFailure - b.start = (s.expected - b.start) + (b.firstFailure - s.expected) by
    omega, ← List.range'_append_1]
  congr
  omega

/-- **In-order exactly-once delivery.** While main keeps receiving, it has received an initial
segment of the numbers before the first failure; where no party can act any more it has received
all of them and the channel is closed; and every run gets there. -/
theorem delivers (b : Batch) :
    (∀ s, b.Reachable none s →
      s.received <+: List.range' b.start (b.firstFailure - b.start) ∧
      ((∀ t, ¬ b.Step none s t) →
        s.received = List.range' b.start (b.firstFailure - b.start) ∧
          s.sequencer = .finished ∧ s.seqQueue = [] ∧ s.main = .done)) ∧
      ¬ ∃ run : ℕ → State, run 0 = b.initial ∧ ∀ i, b.Step none (run i) (run (i + 1)) := by
  refine ⟨fun s hs => ?_, ?_⟩
  · obtain ⟨hc, k, hp⟩ := hs.invariant (by simp)
    refine ⟨hp.received_prefix, fun hstuck => ?_⟩
    -- Main never leaves its loop early, so it is not left with a full channel.
    have hdone : s.main = .done := by
      rcases stuck_main hstuck hp with hdone | ⟨n, last, hmain, hsequencer, -⟩
      · exact hdone
      · rcases hc.left (Or.inr (Or.inl hmain)) with ⟨hfinished, -⟩ | hstop
        · rw [hsequencer] at hfinished
          cases hfinished
        · cases hstop
    have hfinished := hc.done hdone
    have hempty : s.seqQueue = [] :=
      ((hc.left (Or.inr (Or.inr hdone))).resolve_right (by simp)).2
    refine ⟨?_, hfinished, hempty, hdone⟩
    have hemitted := hp.emitted
    rwa [hempty, List.append_nil, hp.expected_eq hc hfinished] at hemitted
  · rintro ⟨run, -, hrun⟩
    exact not_endless run hrun

/-! ## Leaving early -/

/-- Main cannot be left waiting while the blocks to deliver fit what it received and the last
channel. -/
theorem done_of_le {r : ℕ} (hr : 0 < r) (hle : b.firstFailure - b.start ≤ r + b.depth)
    (hs : b.Reachable (some r) s) (hstuck : ∀ t, ¬ b.Step (some r) s t) : s.main = .done := by
  obtain ⟨hc, k, hp⟩ := hs.invariant (by simpa using hr)
  rcases stuck_main hstuck hp with hdone | ⟨n, last, hmain, hsequencer, hfull⟩
  · exact hdone
  -- Main left by its stop, and the sequencer holds a block beyond a full channel.
  · have hreceived : s.received.length = r := by
      rcases hc.left (Or.inr (Or.inl hmain)) with ⟨hfinished, -⟩ | hstop
      · rw [hsequencer] at hfinished
        cases hfinished
      · exact (Option.some.inj hstop).symm
    have hemitted := congrArg List.length hp.emitted
    rw [List.length_append, List.length_range', hreceived] at hemitted
    have := hp.expected_lt hsequencer
    have := hp.expected
    omega

/-- Otherwise some run leaves main waiting forever. -/
theorem exists_stuck {r : ℕ} (hr : 0 < r) (hlt : r + b.depth < b.firstFailure - b.start) :
    ∃ s, b.Reachable (some r) s ∧ (∀ t, ¬ b.Step (some r) s t) ∧ s.main ≠ .done := by
  obtain ⟨s, hs, hstuck⟩ := Transition.exists_terminal State.potential
    (fun _ _ h => Step.potential_lt h) b.initial
  refine ⟨s, hs, hstuck, fun hdone => ?_⟩
  obtain ⟨hc, k, hp⟩ := Reachable.invariant (by simpa using hr) hs
  -- A sequencer that ended would have emitted more than main and the channel hold.
  have hemitted := congrArg List.length hp.emitted
  rw [hp.expected_eq hc (hc.done hdone), List.length_append, List.length_range'] at hemitted
  have := hc.bound r rfl
  have := hc.seqQueue
  omega

/-- **When main joins the workers and the sequencer**: leaving with the `r`-th block, exactly
when the blocks before the first failure are at most `r` and one channel more. -/
theorem joins_iff (b : Batch) {r : ℕ} (hr : 0 < r) :
    (∀ s, b.Reachable (some r) s → (∀ t, ¬ b.Step (some r) s t) → s.main = .done) ↔
      b.firstFailure - b.start ≤ r + b.depth := by
  constructor
  · intro h
    by_contra hlt
    obtain ⟨s, hs, hstuck, hmain⟩ := exists_stuck (b := b) hr (by omega)
    exact hmain (h s hs hstuck)
  · exact fun hle s hs hstuck => done_of_le hr hle hs hstuck

/-- Four blocks that can all be fetched, over channels of capacity two. -/
def fourBlocks : Batch where
  start := 1
  length := 4
  depth := 2
  workerCount := 1
  outcome _ := .ok
  depth_pos := by decide
  workerCount_pos := by decide
  length_le := by decide

/-- Main leaves with the first of four blocks: the last one never fits. -/
theorem fourBlocks_stuck :
    ¬ ∀ s, fourBlocks.Reachable (some 1) s → (∀ t, ¬ fourBlocks.Step (some 1) s t) →
      s.main = .done := by
  intro h
  obtain ⟨s, hs, hstuck, hmain⟩ := exists_stuck (b := fourBlocks) (r := 1) (by decide) (by decide)
  exact hmain (h s hs hstuck)

/-- The equivalence for the same batch when main leaves with the second block. -/
theorem fourBlocks_joins_iff :
    (∀ s, fourBlocks.Reachable (some 2) s → (∀ t, ¬ fourBlocks.Step (some 2) s t) →
      s.main = .done) ↔ fourBlocks.firstFailure - fourBlocks.start ≤ 2 + fourBlocks.depth :=
  joins_iff fourBlocks (by decide)

end Batch

end ChainLens
