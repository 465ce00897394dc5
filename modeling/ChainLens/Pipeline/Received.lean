import ChainLens.Pipeline.Delivery

/-!
# What the workers receive

Every number that ends the worker fetching it costs the pool a worker. The workers receive all
numbers of a batch as long as one of them is left for the last number.

## Main definitions

* `Batch.Receives`: the runs, with the numbers that the workers receive in them

## Main results

* `Receives.pool`: how many workers are left
* `receives_all_iff`: when every number is received
-/

namespace ChainLens

namespace Batch

/-- The runs from a state, with the numbers that workers receive in them. Only a worker takes a
number from the first channel. -/
inductive Receives (b : Batch) (stop : Option ℕ) (s : State) : List ℕ → State → Prop where
  | refl : Receives b stop s [] s
  | take {ns : List ℕ} {t u : State} {n : ℕ} (hrun : Receives b stop s ns t)
      (hstep : b.Step stop t u) (hqueue : t.fetchQueue = n :: u.fetchQueue) :
      Receives b stop s (ns ++ [n]) u
  | other {ns : List ℕ} {t u : State} (hrun : Receives b stop s ns t)
      (hstep : b.Step stop t u) (hqueue : ∀ n, t.fetchQueue ≠ n :: u.fetchQueue) :
      Receives b stop s ns u

section Receives

variable {b : Batch} {stop : Option ℕ} {s t u : State} {ns : List ℕ}

theorem Receives.reachable (h : b.Receives stop s ns t) :
    Relation.ReflTransGen (b.Step stop) s t := by
  induction h with
  | refl => exact .refl
  | take _ hstep _ ih => exact ih.tail hstep
  | other _ hstep _ ih => exact ih.tail hstep

theorem exists_receives (h : Relation.ReflTransGen (b.Step stop) s t) :
    ∃ ns, b.Receives stop s ns t := by
  induction h with
  | refl => exact ⟨[], .refl⟩
  | @tail t u _ hstep ih =>
    obtain ⟨ns, hrun⟩ := ih
    by_cases hqueue : ∃ n, t.fetchQueue = n :: u.fetchQueue
    · obtain ⟨n, hqueue⟩ := hqueue
      exact ⟨_, hrun.take hstep hqueue⟩
    · exact ⟨ns, hrun.other hstep (not_exists.mp hqueue)⟩

/-- The workers that take no further number: they have ended, or fetch a number that ends them. -/
def Worker.spent (outcome : ℕ → FetchOutcome) : Worker → Bool
  | .finished => true
  | .fetching n => outcome n = .panic
  | _ => false

/-- How many workers are spent. -/
def State.spent (b : Batch) (s : State) : ℕ := s.workers.countP (Worker.spent b.outcome)

/-- A channel that is sent to has not lost its first number. -/
theorem ne_cons_concat (queue : List ℕ) (m n : ℕ) : queue ≠ n :: (queue ++ [m]) := by
  intro h
  have hlength := congrArg List.length h
  simp at hlength
  omega

/-- **What a step does to the pool**: a worker that is not spent takes the next number, and is
spent if the number ends it. Otherwise the pool stays as it is while something is queued. -/
theorem Step.pool (h : b.Step stop s t) (hlast : s.sequencer = .finished → s.WorkersDone) :
    (∃ n, s.fetchQueue = n :: t.fetchQueue ∧ s.queued = n :: t.queued ∧
        State.spent b s < s.workers.length ∧
        State.spent b t = State.spent b s + if b.outcome n = .panic then 1 else 0) ∨
      (∀ n, s.fetchQueue ≠ n :: t.fetchQueue) ∧
        (t.queued = s.queued ∨ s.queued ≠ [] ∧ s.WorkersDone) ∧
        (State.spent b t = State.spent b s ∨ s.queued = []) := by
  cases h with
  | dispatch hmain hroom =>
    refine Or.inr ⟨fun n => ne_cons_concat _ _ _, Or.inl ?_, Or.inl rfl⟩
    simp [State.queued, Main.numbers, hmain]
  | dispatchFailed hmain hdone =>
    exact Or.inr ⟨by simp, Or.inr ⟨by simp [State.queued, Main.numbers, hmain], hdone⟩, Or.inl rfl⟩
  | dispatched hmain | receiveClosed hmain | joinWorkers hmain | joinSequencer hmain =>
    exact Or.inr ⟨by simp, by simp [State.queued, Main.numbers, hmain], Or.inl rfl⟩
  | receive hmain hqueue =>
    have hnumbers : s.main.numbers = [] := by rw [hmain]; rfl
    exact Or.inr ⟨by simp, by simp [State.queued, hnumbers], Or.inl rfl⟩
  | lock hworker | fetchFailed hworker houtcome | fetch hworker houtcome | send hworker =>
    refine Or.inr ⟨by simp, Or.inl rfl, Or.inl ?_⟩
    simp [State.spent, Worker.spent, *]
  | @take pre post n rest hworker hqueue =>
    -- The worker that takes the number was not spent, so that not all of them were.
    refine Or.inl ⟨n, hqueue, by simp [State.queued, hqueue], ?_, ?_⟩
    · have hpre := @List.countP_le_length _ (Worker.spent b.outcome) pre
      have hpost := @List.countP_le_length _ (Worker.spent b.outcome) post
      simp [State.spent, hworker, Worker.spent]
      omega
    · simp [State.spent, hworker, Worker.spent, List.countP_cons]
      omega
  | takeClosed hworker hqueue hclosed =>
    refine Or.inr ⟨by simp, Or.inl rfl, Or.inr ?_⟩
    -- The queue is closed only behind the last dispatch.
    have hnumbers : s.main.numbers = [] := by
      cases hmain : s.main with
      | dispatching numbers => exact absurd hmain (hclosed numbers)
      | _ => rfl
    simp [State.queued, hqueue, hnumbers]
  | fetchPanicked hworker houtcome =>
    refine Or.inr ⟨by simp, Or.inl rfl, Or.inl ?_⟩
    simp [State.spent, hworker, Worker.spent, houtcome, List.countP_cons]
  | sendFailed hworker hgone => exact absurd (hlast hgone) (State.not_workersDone hworker (by simp))
  | _ => exact Or.inr ⟨by simp, Or.inl rfl, Or.inl rfl⟩

/-- Without workers nothing is received. -/
theorem Step.of_workers_nil (h : b.Step stop s t) (hnil : s.workers = []) :
    t.workers = [] ∧ ∀ n, s.fetchQueue ≠ n :: t.fetchQueue := by
  cases h with
  | lock hworker | take hworker | takeClosed hworker | fetch hworker | fetchFailed hworker
  | fetchPanicked hworker | send hworker | sendFailed hworker => simp [hnil] at hworker
  | dispatch hmain hroom => exact ⟨hnil, fun n => ne_cons_concat _ _ _⟩
  | _ => exact ⟨hnil, by simp⟩

theorem Receives.of_workers_nil (hnil : s.workers = []) (h : b.Receives stop s ns t) :
    ns = [] ∧ t.workers = [] := by
  induction h with
  | refl => exact ⟨rfl, hnil⟩
  | take _ hstep hqueue ih => exact absurd hqueue ((hstep.of_workers_nil ih.2).2 _)
  | other _ hstep _ ih => exact ⟨ih.1, (hstep.of_workers_nil ih.2).1⟩

/-- Whether fetching the number ends its worker. -/
def panics (b : Batch) (n : ℕ) : Bool := b.outcome n = .panic

/-- The numbers of the batch. -/
def numbers (b : Batch) : List ℕ := List.range' b.start b.length

theorem Reachable.workersDone (hstop : ∀ r ∈ stop, 0 < r) (h : b.Reachable stop s) :
    s.sequencer = .finished → s.WorkersDone := fun hfinished =>
  ((h.invariant hstop).1.lastDrain (Or.inr (Or.inr hfinished))).2

theorem State.spent_initial : State.spent b b.initial = 0 := by
  simp [State.spent, Batch.initial, Worker.spent, List.countP_replicate]

/-- **How many workers are left**: each number that ends a worker has cost one, so before the last
number was received, fewer of them than workers. -/
theorem Receives.pool (hstop : ∀ r ∈ stop, 0 < r) (h : b.Receives stop b.initial ns s) :
    (s.queued ≠ [] → State.spent b s = ns.countP b.panics) ∧
      (ns = [] ∨ ns.dropLast.countP b.panics < b.workerCount) := by
  induction h with
  | refl => exact ⟨fun _ => State.spent_initial, Or.inl rfl⟩
  | take hrun hstep hqueue ih =>
    have hreachable : b.Reachable stop _ := hrun.reachable
    have hworkers := (hreachable.invariant hstop).1.workers
    rcases hstep.pool (hreachable.workersDone hstop) with
      ⟨m, hqueue', hqueued, hleft, hspent⟩ | ⟨hnone, -⟩
    · have heq : State.spent b _ = _ := ih.1 (by simp [hqueued])
      rw [hqueue] at hqueue'
      obtain ⟨rfl, -⟩ := List.cons.inj hqueue'
      refine ⟨fun _ => ?_, Or.inr ?_⟩
      · rw [hspent, heq, List.countP_append]
        simp [panics]
      · rw [List.dropLast_concat]
        omega
    · exact absurd hqueue (hnone _)
  | other hrun hstep hqueue ih =>
    have hreachable : b.Reachable stop _ := hrun.reachable
    rcases hstep.pool (hreachable.workersDone hstop) with
      ⟨m, hqueue', -⟩ | ⟨-, hqueued, hspent⟩
    · exact absurd hqueue' (hqueue m)
    · refine ⟨fun hne => ?_, ih.2⟩
      have hne' : State.queued _ ≠ [] := hqueued.elim (fun heq => heq ▸ hne) And.left
      rw [hspent.resolve_right hne', ih.1 hne']

/-- While numbers are queued behind those received, a pool whose workers have all ended was ended
by as many of the numbers. -/
theorem Receives.workerCount_le (hstop : ∀ r ∈ stop, 0 < r)
    (h : b.Receives stop b.initial ns s) (hsplit : ns ++ s.queued = b.numbers)
    (hne : s.queued ≠ []) (hdone : s.WorkersDone) :
    b.workerCount ≤ b.numbers.dropLast.countP b.panics := by
  have hreachable : b.Reachable stop s := h.reachable
  have hspent : State.spent b s = s.workers.length := by
    refine List.countP_eq_length.mpr fun w hw => ?_
    rw [hdone w hw]
    rfl
  have hreceived := (h.pool hstop).1 hne
  have hworkers := (hreachable.invariant hstop).1.workers
  rw [← hsplit, List.dropLast_append_of_ne_nil hne, List.countP_append]
  omega

/-- **The numbers received**, when they leave a worker to receive the last one. -/
theorem Receives.numbers (hstop : ∀ r ∈ stop, 0 < r) (h : b.Receives stop b.initial ns s)
    (hpanics : b.numbers.dropLast.countP b.panics < b.workerCount) :
    ns ++ s.queued = b.numbers := by
  induction h with
  | refl => rfl
  | take hrun hstep hqueue ih =>
    have hreachable : b.Reachable stop _ := hrun.reachable
    rcases hstep.pool (hreachable.workersDone hstop) with ⟨m, hqueue', hqueued, -⟩ | ⟨hnone, -⟩
    · rw [hqueue] at hqueue'
      obtain ⟨rfl, -⟩ := List.cons.inj hqueue'
      rw [← ih, hqueued, List.append_assoc, List.singleton_append]
    · exact absurd hqueue (hnone _)
  | other hrun hstep hqueue ih =>
    have hreachable : b.Reachable stop _ := hrun.reachable
    rcases hstep.pool (hreachable.workersDone hstop) with
      ⟨m, hqueue', -⟩ | ⟨-, heq | ⟨hne, hdone⟩, -⟩
    · exact absurd hqueue' (hqueue m)
    · rw [heq, ih]
    · have := hrun.workerCount_le hstop ih hne hdone
      omega

/-- **When every number is received**: exactly when fewer of them than workers, the last one left
out, end their worker. -/
theorem receives_all_iff (b : Batch) (hne : 0 < b.length) :
    (∀ stop : Option ℕ, (∀ r ∈ stop, 0 < r) → ∀ ns s, b.Receives stop b.initial ns s →
      (∀ t, ¬ b.Step stop s t) → ns = b.numbers) ↔
      b.numbers.dropLast.countP b.panics < b.workerCount := by
  constructor
  · intro hall
    obtain ⟨s, hs, hstuck⟩ := Transition.exists_terminal State.potential
      (fun _ _ h => Step.potential_lt h) b.initial
    obtain ⟨ns, hrun⟩ := @exists_receives b none _ _ hs
    have hstop : ∀ r ∈ (none : Option ℕ), 0 < r := by simp
    obtain rfl := hall none hstop ns s hrun hstuck
    have hnil : b.numbers ≠ [] := by
      simp [Batch.numbers]
      omega
    exact (hrun.pool hstop).2.resolve_left hnil
  · intro hpanics stop hstop ns s hrun hstuck
    have hreachable : b.Reachable stop s := hrun.reachable
    obtain ⟨-, k, hprogress⟩ := hreachable.invariant hstop
    have hsplit := hrun.numbers hstop hpanics
    have hdone := stuck_workersDone hstuck hprogress
      (Or.inr (stuck_dispatchOver hstuck hprogress))
    by_cases hqueued : s.queued = []
    · rwa [hqueued, List.append_nil] at hsplit
    · have := hrun.workerCount_le hstop hsplit hqueued hdone
      omega

end Receives

end Batch

end ChainLens
