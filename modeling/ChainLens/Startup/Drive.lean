import ChainLens.Indexer.Main
import ChainLens.Pipeline.Received
import ChainLens.Startup.Config

/-!
# Driving the pipeline

What main does with an accepted configuration: it takes the numbers of a batch, creates three
channels and a pool of workers, and dispatches. The settings that the pipeline runs on are not
checked, so any of these can fail.

## Main definitions

* `Config.prepare`: the numbers of a batch, or a panic
* `Config.spawnWorkers`: the workers at the start
* `Config.Drives`: nothing panics, and every number is received

## Main results

* `drives_iff`: which configurations drive the pipeline
-/

namespace ChainLens

namespace Startup

open Batch

def isizeMax : ℕ := i64Max

/-- A product of two `usize`, where its overflow is not let pass. -/
def checkedMul (m n : ℕ) : Except String ℕ :=
  if m * n ≤ usizeMax then .ok (m * n) else .error "attempt to multiply with overflow"

/-- `Vec::with_capacity`, for elements of the given number of bytes. -/
def withCapacity (size count : ℕ) : Except String Unit :=
  if size * count ≤ isizeMax then .ok () else .error "capacity overflow"

/-- `mpsc::channel`, of which only the capacity matters here. -/
def channel (buffer : ℕ) : Except String Unit :=
  if buffer = 0 then .error "mpsc bounded channel requires buffer > 0"
  else if buffer ≤ maxPermits then .ok ()
  else .error "a semaphore may not have more than MAX_PERMITS permits (2305843009213693951)"

namespace Config

/-- The numbers of a batch that takes up to `limit` of them. -/
def blocksToFetch (config : Config) (cursor latest limit : ℕ) : List ℕ :=
  let startBlock := max cursor config.backfillFrom
  (List.range' startBlock (latest + 1 - startBlock)).take limit

/-- What main does before it dispatches: the numbers of the batch, and its three channels. -/
def prepare (config : Config) (cursor latest : ℕ) : Except String (List ℕ) := do
  let limit ← checkedMul config.fetchQueueDepth 2
  let numbers := config.blocksToFetch cursor latest limit
  withCapacity 8 numbers.length
  if numbers = [] then return []
  channel config.fetchQueueDepth
  channel config.fetchQueueDepth
  channel config.fetchQueueDepth
  return numbers

/-- The workers `spawn_workers` starts. A panic over the vector of their handles, each of the given
size, ends its task, and there are none. -/
def spawnWorkers (config : Config) (handleSize : ℕ) : List Worker :=
  match withCapacity handleSize config.workerCount with
  | .ok () => List.replicate config.workerCount .awaiting
  | .error _ => []

/-- The parties as main begins to dispatch the numbers. -/
def started (config : Config) (handleSize : ℕ) (numbers : List ℕ) : State where
  main := .dispatching numbers
  fetchQueue := []
  workers := config.spawnWorkers handleSize
  workerQueue := []
  sequencer := .receiving
  buffer := []
  expected := numbers.headD 0
  seqQueue := []
  received := []

/-- The batch of the numbers. Its steps look at the depth and at what fetching does, so that one
worker may stand for none. -/
def batch (config : Config) (outcome : ℕ → FetchOutcome) (numbers : List ℕ)
    (hdepth : 0 < config.fetchQueueDepth) (hlength : numbers.length ≤ 2 * config.fetchQueueDepth) :
    Batch where
  start := numbers.headD 0
  length := numbers.length
  depth := config.fetchQueueDepth
  workerCount := max config.workerCount 1
  outcome := outcome
  depth_pos := hdepth
  workerCount_pos := by omega
  length_le := hlength

/-- **The configuration drives the pipeline** from a cursor: nothing panics before the dispatch,
there is a number to dispatch, and wherever main will leave its receive loop, in every run to its
end each number is received by some worker. -/
def Drives (config : Config) (handleSize cursor latest : ℕ) (outcome : ℕ → FetchOutcome) : Prop :=
  ∃ numbers, (config.prepare cursor latest = .ok numbers ∧ numbers ≠ []) ∧
    ∃ hdepth hlength, ∀ stop : Option ℕ, (∀ r ∈ stop, 0 < r) → ∀ ns s,
      (config.batch outcome numbers hdepth hlength).Receives stop
        (config.started handleSize numbers) ns s →
      (∀ t, ¬ (config.batch outcome numbers hdepth hlength).Step stop s t) → ns = numbers

section Prepare

variable {config : Config} {cursor latest : ℕ}

theorem checkedMul_ok_iff {m n k : ℕ} : checkedMul m n = .ok k ↔ m * n ≤ usizeMax ∧ m * n = k := by
  unfold checkedMul
  split <;> simp [*]

theorem withCapacity_ok_iff {size count : ℕ} {u : Unit} :
    withCapacity size count = .ok u ↔ size * count ≤ isizeMax := by
  simp [withCapacity]

theorem channel_ok_iff {buffer : ℕ} {u : Unit} :
    channel buffer = .ok u ↔ 0 < buffer ∧ buffer ≤ maxPermits := by
  unfold channel
  split
  next h => simp [h]
  next h => simp [Nat.pos_of_ne_zero h]

/-- When main comes to dispatch. -/
theorem prepare_ok_iff (hstart : max cursor config.backfillFrom ≤ latest) {numbers : List ℕ} :
    config.prepare cursor latest = .ok numbers ∧ numbers ≠ [] ↔
      (0 < config.fetchQueueDepth ∧ config.fetchQueueDepth ≤ maxPermits) ∧
        8 * numbers.length ≤ isizeMax ∧
        numbers = config.blocksToFetch cursor latest (config.fetchQueueDepth * 2) := by
  simp only [prepare, Except.bind_eq_ok_iff, checkedMul_ok_iff, withCapacity_ok_iff]
  constructor
  · rintro ⟨⟨limit, ⟨-, rfl⟩, _, hcapacity, hrest⟩, hne⟩
    split at hrest
    · obtain rfl := Except.ok.inj hrest
      exact absurd rfl hne
    · simp only [Except.bind_eq_ok_iff, channel_ok_iff] at hrest
      obtain ⟨_, hchannel, _, -, _, -, hnumbers⟩ := hrest
      obtain rfl := Except.ok.inj hnumbers
      exact ⟨hchannel, hcapacity, rfl⟩
  · rintro ⟨hchannel, hcapacity, rfl⟩
    have hne : config.blocksToFetch cursor latest (config.fetchQueueDepth * 2) ≠ [] := by
      simp [blocksToFetch]
      omega
    refine ⟨⟨_, ⟨?_, rfl⟩, (), hcapacity, ?_⟩, hne⟩
    · have := hchannel.2
      unfold maxPermits at this
      omega
    · rw [if_neg hne]
      simp only [Except.bind_eq_ok_iff, channel_ok_iff]
      exact ⟨(), hchannel, (), hchannel, (), hchannel, rfl⟩

end Prepare

/-! ## Which configurations drive the pipeline -/

section Drives

variable {config : Config} {handleSize cursor latest : ℕ} {outcome : ℕ → FetchOutcome}

theorem spawnWorkers_of_le (h : handleSize * config.workerCount ≤ isizeMax) :
    config.spawnWorkers handleSize = List.replicate config.workerCount .awaiting := by
  simp [spawnWorkers, withCapacity, h]

theorem spawnWorkers_eq_nil
    (h : handleSize * config.workerCount ≤ isizeMax → config.workerCount = 0) :
    config.spawnWorkers handleSize = [] := by
  unfold spawnWorkers withCapacity
  split_ifs with hcapacity
  · rw [h hcapacity]
    rfl
  · rfl

/-- Without workers nothing is received, so that no batch is driven. -/
theorem not_drives_of_nil (hnil : config.spawnWorkers handleSize = []) :
    ¬ config.Drives handleSize cursor latest outcome := by
  rintro ⟨numbers, ⟨-, hne⟩, hdepth, hlength, hreceives⟩
  obtain ⟨s, hs, hstuck⟩ := Transition.exists_terminal State.potential
    (fun _ _ h => Step.potential_lt h) (config.started handleSize numbers)
  obtain ⟨ns, hrun⟩ := exists_receives hs
  have hall := hreceives none (by simp) ns s hrun hstuck
  exact hne (hall ▸ (hrun.of_workers_nil hnil).1)

/-- The numbers of the batch are those main takes. -/
theorem batch_numbers {numbers : List ℕ}
    (hnumbers : numbers = config.blocksToFetch cursor latest (config.fetchQueueDepth * 2))
    (hdepth : 0 < config.fetchQueueDepth) (hlength : numbers.length ≤ 2 * config.fetchQueueDepth) :
    (config.batch outcome numbers hdepth hlength).numbers = numbers := by
  show List.range' (numbers.headD 0) numbers.length = numbers
  unfold blocksToFetch at hnumbers
  rw [ChainLens.Config.take_range'] at hnumbers
  rw [hnumbers, List.length_range']
  -- An empty range has no first number, but does not need one.
  cases min (config.fetchQueueDepth * 2) (latest + 1 - max cursor config.backfillFrom) with
  | zero => rfl
  | succ k => rfl

/-- With workers, the parties start as those of the batch do. -/
theorem started_eq (hworkers : 0 < config.workerCount)
    (hcapacity : handleSize * config.workerCount ≤ isizeMax) {numbers : List ℕ}
    (hdepth : 0 < config.fetchQueueDepth) (hlength : numbers.length ≤ 2 * config.fetchQueueDepth)
    (hnumbers : (config.batch outcome numbers hdepth hlength).numbers = numbers) :
    config.started handleSize numbers =
      (config.batch outcome numbers hdepth hlength).initial := by
  have hmax : max config.workerCount 1 = config.workerCount := max_eq_left hworkers
  unfold Batch.numbers at hnumbers
  simp only [started, initial, spawnWorkers_of_le hcapacity, hnumbers]
  simp only [batch, hmax]

/-- With workers, when they receive every number of a batch that is not empty. -/
theorem receives_iff (hworkers : 0 < config.workerCount)
    (hcapacity : handleSize * config.workerCount ≤ isizeMax) {numbers : List ℕ}
    (hnumbers : numbers = config.blocksToFetch cursor latest (config.fetchQueueDepth * 2))
    (hne : numbers ≠ []) (hdepth : 0 < config.fetchQueueDepth)
    (hlength : numbers.length ≤ 2 * config.fetchQueueDepth) :
    (∀ stop : Option ℕ, (∀ r ∈ stop, 0 < r) → ∀ ns s,
      (config.batch outcome numbers hdepth hlength).Receives stop
        (config.started handleSize numbers) ns s →
      (∀ t, ¬ (config.batch outcome numbers hdepth hlength).Step stop s t) → ns = numbers) ↔
      numbers.dropLast.countP (outcome · = .panic) < config.workerCount := by
  have hbatch := @batch_numbers _ _ _ outcome _ hnumbers hdepth hlength
  have hiff := receives_all_iff (config.batch outcome numbers hdepth hlength)
    (List.length_pos_iff.mpr hne)
  rw [hbatch, ← started_eq hworkers hcapacity hdepth hlength hbatch] at hiff
  have hmax : (config.batch outcome numbers hdepth hlength).workerCount = config.workerCount :=
    max_eq_left hworkers
  rwa [hmax] at hiff

end Drives

end Config

/-- **Which configurations drive the pipeline**: the channels can be created, the vectors of the
numbers and of the handles can be, and fewer numbers than workers, the last one left out, end the
worker that fetches them. -/
theorem drives_iff (config : Config) (handleSize : ℕ) {cursor latest : ℕ}
    (outcome : ℕ → FetchOutcome) (hstart : max cursor config.backfillFrom ≤ latest) :
    let numbers := config.blocksToFetch cursor latest (config.fetchQueueDepth * 2)
    config.Drives handleSize cursor latest outcome ↔
      (0 < config.fetchQueueDepth ∧ config.fetchQueueDepth ≤ maxPermits) ∧
        8 * numbers.length ≤ isizeMax ∧ handleSize * config.workerCount ≤ isizeMax ∧
        numbers.dropLast.countP (outcome · = .panic) < config.workerCount := by
  intro numbers
  constructor
  · intro hdrives
    have hpool : handleSize * config.workerCount ≤ isizeMax ∧ 0 < config.workerCount := by
      by_contra hnone
      exact Config.not_drives_of_nil (Config.spawnWorkers_eq_nil (by omega)) hdrives
    obtain ⟨numbers', hprepare, hdepth, hlength, hreceives⟩ := hdrives
    obtain ⟨hchannel, hcapacity, hnumbers⟩ := (Config.prepare_ok_iff hstart).mp hprepare
    have hpanics :=
      (Config.receives_iff hpool.2 hpool.1 hnumbers hprepare.2 hdepth hlength).mp hreceives
    obtain rfl : numbers' = numbers := hnumbers
    exact ⟨hchannel, hcapacity, hpool.1, hpanics⟩
  · rintro ⟨hchannel, hcapacity, hpool, hpanics⟩
    have hprepare : config.prepare cursor latest = .ok numbers ∧ numbers ≠ [] :=
      (Config.prepare_ok_iff hstart).mpr ⟨hchannel, hcapacity, rfl⟩
    have hlength : numbers.length ≤ 2 * config.fetchQueueDepth := by
      have hle : numbers.length ≤ config.fetchQueueDepth * 2 := List.length_take_le _ _
      omega
    exact ⟨numbers, hprepare, hchannel.1, hlength,
      (Config.receives_iff (by omega) hpool rfl hprepare.2 hchannel.1 hlength).mpr hpanics⟩

/-- A node and a database on this machine. -/
def localUrl (scheme : String) (port : ℕ) (path : String) : RedactedUrl :=
  ⟨{ scheme, port := some port, path, host := some "localhost", username := "", password := none,
     query := none, fragment := none }⟩

/-- The defaults, but for the pool and the queue. -/
def localConfig (workerCount fetchQueueDepth : ℕ) : Config where
  rpcUrl := localUrl "http" 8545 "/"
  databaseUrl := localUrl "postgres" 5432 "/chainlens"
  workerCount := workerCount
  fetchQueueDepth := fetchQueueDepth

theorem localConfig_accepted (workerCount fetchQueueDepth : ℕ) :
    (localConfig workerCount fetchQueueDepth).validate = .ok () := by
  rw [Config.validate_ok_iff]
  simp [localConfig, localUrl, RedactedUrl.hasHost, RedactedUrl.scheme]

/-- Four workers, and numbers of which one ends its worker. -/
theorem localConfig_drives_iff :
    (localConfig 4 32).Drives 8 0 100 (fun n => if n = 7 then .panic else .ok) ↔
      (0 < 32 ∧ 32 ≤ maxPermits) ∧
        8 * ((localConfig 4 32).blocksToFetch 0 100 (32 * 2)).length ≤ isizeMax ∧
        8 * 4 ≤ isizeMax ∧
        ((localConfig 4 32).blocksToFetch 0 100 (32 * 2)).dropLast.countP
          (fun n => (if n = 7 then FetchOutcome.panic else .ok) = .panic) < 4 :=
  drives_iff (localConfig 4 32) 8 _ (Nat.zero_le 100)

/-- A configuration without workers is accepted, and drives no batch. -/
theorem noWorkers_accepted :
    ¬ ∀ (config : Config) (cursor latest : ℕ), config.validate = .ok () →
      max cursor config.backfillFrom ≤ latest →
      ∀ outcome, config.Drives 8 cursor latest outcome := by
  intro hdrives
  exact Config.not_drives_of_nil (Config.spawnWorkers_eq_nil fun _ => rfl)
    (hdrives (localConfig 0 32) 0 100 (localConfig_accepted 0 32) (by decide) fun _ => .ok)

end Startup

end ChainLens
