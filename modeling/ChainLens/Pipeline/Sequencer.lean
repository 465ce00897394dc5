import ChainLens.Domain.Types
import ChainLens.Rpc.Deserialize
import ChainLens.Library.Reorder
import ChainLens.Pipeline.Batch
import Mathlib.Data.List.AList
import Mathlib.Tactic.IntervalCases

/-!
# The sequencer

Fetched blocks arrive in any order. The sequencer buffers them by number and sends on the expected
one while it is there. Blocks below the expected number stay in the buffer for good.

## Main definitions

* `Sequencer.drainBuffer`, `Sequencer.run`: the loops, with the blocks received and sent in order
* `Sequencer.Sound`: the invariant of both

## Main results

* `Sequencer.run_restores_order`: what is sent into an open channel
* `Sequencer.run_until_closed`: what is sent into a channel that closes
* `Sequencer.run_inBatch`: the sequencer of a batch takes the steps of a run
-/

namespace ChainLens

open Reorder

structure FetchedBlock where
  number : ℕ
  block : IndexedBlock
deriving DecidableEq

namespace Sequencer

/-! ## The loops -/

/-- The buffer, the expected number, and the blocks received and sent. -/
structure State where
  buffer : AList fun _ : ℕ => FetchedBlock
  expected : ℕ
  trace : List (Event FetchedBlock)

namespace State

/-- The blocks sent on. -/
def sent (s : State) : List FetchedBlock := releases s.trace

/-- The blocks received. -/
def received (s : State) : List FetchedBlock := arrivals s.trace

/-- `buffer.insert(block.number, block)`. -/
def receive (s : State) (block : FetchedBlock) : State :=
  { s with
    buffer := s.buffer.insert block.number block
    trace := s.trace ++ [.arrived block] }

end State

/-- `*expected += 1` on a `u64`: an overflow panics where it is checked, and wraps else. -/
def increment (overflowChecks : Bool) (expected : ℕ) : Except (Fault Empty) ℕ :=
  if u64Max < expected + 1 ∧ overflowChecks then .error (.panic "attempt to add with overflow")
  else .ok ((expected + 1) % (u64Max + 1))

theorem length_erase_lt {buffer : AList fun _ : ℕ => FetchedBlock} {n : ℕ} {block : FetchedBlock}
    (h : buffer.lookup n = some block) : (buffer.erase n).keys.length < buffer.keys.length := by
  have hmem : n ∈ buffer.keys := AList.mem_keys.mp (AList.lookup_isSome.mp (by rw [h]; rfl))
  rw [AList.keys_erase, List.length_erase_of_mem hmem]
  have := List.length_pos_of_mem hmem
  omega

section Loops

variable (overflowChecks : Bool) (accepted : Option ℕ)

/-- The receiver of the channel is there: it is dropped after it accepted so many blocks, if at
all. -/
def Open (s : State) : Prop := ∀ n ∈ accepted, s.sent.length < n

instance (s : State) : Decidable (Open accepted s) :=
  inferInstanceAs (Decidable (∀ n ∈ accepted, _))

/-- Blocks are sent while the expected one is buffered. One that cannot be sent is lost. -/
def drainBuffer (s : State) : Except (Fault Empty) State :=
  match _ : s.buffer.lookup s.expected with
  | none => .ok s
  | some block =>
    if Open accepted s then
      match increment overflowChecks s.expected with
      | .ok expected =>
        drainBuffer ⟨s.buffer.erase s.expected, expected, s.trace ++ [.released block]⟩
      | .error fault => .error fault
    else .ok { s with buffer := s.buffer.erase s.expected }
termination_by s.buffer.keys.length
decreasing_by exact length_erase_lt ‹_›

/-- The blocks are received until the channel closes. -/
def run (incoming : List FetchedBlock) (expected : ℕ) : Except (Fault Empty) State := do
  let s ← incoming.foldlM (fun s block => drainBuffer overflowChecks accepted (s.receive block))
    ⟨∅, expected, []⟩
  drainBuffer overflowChecks accepted s

end Loops

theorem increment_eq_ok {n m : ℕ} (h : increment true n = .ok m) : m = n + 1 := by
  unfold increment at h
  split at h
  next => cases h
  next hlt =>
    rw [Nat.mod_eq_of_lt (by simp at hlt; omega)] at h
    exact (Except.ok.inj h).symm

/-- What was sent stays sent. -/
theorem sent_prefix_drainBuffer {overflowChecks : Bool} {accepted : Option ℕ} {s u : State}
    (h : drainBuffer overflowChecks accepted s = .ok u) : s.sent <+: u.sent := by
  fun_induction drainBuffer overflowChecks accepted s with
  | case1 s hnone =>
    cases h
    exact List.prefix_refl _
  | case2 s block hfound hopen expected hincrement ih =>
    refine List.IsPrefix.trans ?_ (ih h)
    rw [State.sent, State.sent, releases_append]
    exact List.prefix_append _ _
  | case3 => cases h
  | case4 =>
    cases h
    exact List.prefix_refl _

/-! ## One event -/

/-- The blocks are sent in order and, while the channel is open, those to come wait in the
buffer. -/
structure Sound (accepted : Option ℕ) (start : ℕ) (s : State) : Prop where
  ordered : Ordered FetchedBlock.number start s.trace
  expected_eq : s.expected = next start s.trace
  within : ∀ n ∈ accepted, s.sent.length ≤ n
  holds : Open accepted s → Holds FetchedBlock.number start s.trace fun n => s.buffer.lookup n

section Steps

variable {overflowChecks : Bool} {accepted : Option ℕ} {start : ℕ} {s : State}
  {block : FetchedBlock}

theorem lookup_insert_eq (buffer : AList fun _ : ℕ => FetchedBlock) (n : ℕ) (block : FetchedBlock) :
    (fun m => (buffer.insert n block).lookup m) =
      Function.update (fun m => buffer.lookup m) n (some block) := by
  funext m
  by_cases h : m = n
  · rw [h, AList.lookup_insert, Function.update_self]
  · rw [AList.lookup_insert_ne h, Function.update_of_ne h]

theorem lookup_erase_eq (buffer : AList fun _ : ℕ => FetchedBlock) (n : ℕ) :
    (fun m => (buffer.erase n).lookup m) = Function.update (fun m => buffer.lookup m) n none := by
  funext m
  by_cases h : m = n
  · rw [h, AList.lookup_erase, Function.update_self]
  · rw [AList.lookup_erase_ne h, Function.update_of_ne h]

theorem Sound.initial (accepted : Option ℕ) (start : ℕ) :
    Sound accepted start ⟨∅, start, []⟩ where
  ordered := .nil
  expected_eq := rfl
  within _ _ := Nat.zero_le _
  holds _ := Holds.nil

theorem Sound.receive (h : Sound accepted start s) (block : FetchedBlock) :
    Sound accepted start (s.receive block) where
  ordered := h.ordered.arrived block
  expected_eq := by rw [State.receive, next_arrived, h.expected_eq]
  within := by simpa [State.receive, State.sent] using h.within
  holds hopen := by
    have hopen : Open accepted s := by simpa [Open, State.receive, State.sent] using hopen
    show Holds _ _ _ fun n => (s.buffer.insert block.number block).lookup n
    rw [lookup_insert_eq]
    exact (h.holds hopen).arrived block

/-- The expected block is sent. -/
theorem Sound.send (h : Sound accepted start s) (hopen : Open accepted s)
    (hfound : s.buffer.lookup s.expected = some block) :
    Sound accepted start ⟨s.buffer.erase s.expected, s.expected + 1,
      s.trace ++ [.released block]⟩ where
  ordered := h.ordered.released (h.holds hopen) (by rw [← h.expected_eq, hfound])
  expected_eq := by rw [next_released, h.expected_eq]
  within n hn := by
    have hlt := hopen n hn
    rw [State.sent] at hlt ⊢
    rw [releases_append, releases_released, List.length_append]
    exact hlt
  holds _ := by
    show Holds _ _ _ fun n => (s.buffer.erase s.expected).lookup n
    rw [lookup_erase_eq, h.expected_eq]
    exact (h.holds hopen).released block none

/-- The expected block is lost. -/
theorem Sound.lose (h : Sound accepted start s) (hclosed : ¬ Open accepted s) :
    Sound accepted start { s with buffer := s.buffer.erase s.expected } where
  ordered := h.ordered
  expected_eq := h.expected_eq
  within := h.within
  holds hopen := absurd hopen hclosed

theorem increment_of_lt {n : ℕ} (h : n < u64Max) : increment overflowChecks n = .ok (n + 1) := by
  rw [increment, if_neg (fun hover => absurd hover.1 (by omega)), Nat.mod_eq_of_lt (by omega)]

/-- The number of the block that is sent has not reached the end of its type. -/
theorem Sound.increment_eq (h : Sound accepted start s) (hopen : Open accepted s)
    (hfound : s.buffer.lookup s.expected = some block)
    (hbound : ∀ b ∈ s.received, b.number < u64Max) :
    increment overflowChecks s.expected = .ok (s.expected + 1) := by
  -- It was received, and received numbers are below the end.
  have hlatest : s.buffer.lookup s.expected =
      latest FetchedBlock.number s.received s.expected := h.holds hopen _ (by rw [h.expected_eq])
  rw [hfound] at hlatest
  have hnumber := number_eq_of_latest hlatest.symm
  have hlt := hbound block (mem_of_latest hlatest.symm)
  exact increment_of_lt (by omega)

/-! ## The loops -/

/-- **A drain** ends, and leaves no expected block behind in an open channel. -/
theorem Sound.drainBuffer (h : Sound accepted start s) (overflowChecks : Bool)
    (hbound : ∀ b ∈ s.received, b.number < u64Max) :
    ∃ t, drainBuffer overflowChecks accepted s = .ok t ∧ Sound accepted start t ∧
      t.received = s.received ∧ (Open accepted t → t.buffer.lookup t.expected = none) := by
  fun_induction Sequencer.drainBuffer overflowChecks accepted s with
  | case1 s hnone => exact ⟨s, rfl, h, rfl, fun _ => hnone⟩
  | case2 s block hfound hopen expected hincrement ih =>
    rw [h.increment_eq hopen hfound hbound] at hincrement
    cases hincrement
    have hkept : State.received ⟨s.buffer.erase s.expected, s.expected + 1,
        s.trace ++ [.released block]⟩ = s.received := by
      simp [State.received]
    rw [← hkept] at hbound
    obtain ⟨t, ht, hsound, hreceived, hsettled⟩ := ih (h.send hopen hfound) hbound
    exact ⟨t, ht, hsound, hreceived.trans hkept, hsettled⟩
  | case3 s block hfound hopen fault hincrement =>
    rw [h.increment_eq hopen hfound hbound] at hincrement
    cases hincrement
  | case4 s block hfound hclosed =>
    exact ⟨_, rfl, h.lose hclosed, rfl, fun hopen => absurd hopen hclosed⟩

/-- **The receiving loop**: what was received is what came in, and no expected block is left. -/
theorem Sound.foldlM (h : Sound accepted start s) (overflowChecks : Bool)
    {incoming : List FetchedBlock} (hbound : ∀ b ∈ s.received ++ incoming, b.number < u64Max)
    (hsettled : Open accepted s → s.buffer.lookup s.expected = none) :
    ∃ t, incoming.foldlM (fun s block =>
        Sequencer.drainBuffer overflowChecks accepted (s.receive block)) s = .ok t ∧
      Sound accepted start t ∧ t.received = s.received ++ incoming ∧
      (Open accepted t → t.buffer.lookup t.expected = none) := by
  induction incoming generalizing s with
  | nil => exact ⟨s, rfl, h, (List.append_nil _).symm, hsettled⟩
  | cons block incoming ih =>
    have hreceive : (s.receive block).received = s.received ++ [block] := by
      simp [State.receive, State.received]
    rw [List.append_cons, ← hreceive] at hbound
    obtain ⟨u, hu, hsound, hreceived, hsettled⟩ := (h.receive block).drainBuffer overflowChecks
      fun b hb => hbound b (List.mem_append_left _ hb)
    rw [← hreceived] at hbound
    obtain ⟨t, ht, hsound, ht', hsettled⟩ := ih hsound hbound hsettled
    refine ⟨t, ?_, hsound, ?_, hsettled⟩
    · rw [List.foldlM_cons, hu]
      exact ht
    · rw [ht', hreceived, hreceive, List.append_assoc]
      rfl

end Steps

/-! ## Whole runs -/

section Runs

variable {overflowChecks : Bool} {accepted : Option ℕ} {incoming : List FetchedBlock} {start m : ℕ}

/-- The first number from a number on that never comes in. -/
def FirstMissing (incoming : List FetchedBlock) (start m : ℕ) : Prop :=
  IsLeast {m | start ≤ m ∧ ∀ block ∈ incoming, block.number ≠ m} m

/-- A run ends, and stops before the first missing number unless the channel closes earlier. -/
theorem run_sound (overflowChecks : Bool) (accepted : Option ℕ) (start : ℕ)
    (hbound : ∀ block ∈ incoming, block.number < u64Max) :
    ∃ s, run overflowChecks accepted incoming start = .ok s ∧ Sound accepted start s ∧
      s.received = incoming ∧
      (Open accepted s → FirstMissing incoming start (next start s.trace)) := by
  obtain ⟨s, hs, hsound, hreceived, -⟩ :=
    (Sound.initial accepted start).foldlM overflowChecks hbound fun _ => rfl
  obtain ⟨t, ht, hsound, hreceived', hsettled⟩ :=
    hsound.drainBuffer overflowChecks (by rwa [hreceived])
  have hincoming : t.received = incoming := hreceived'.trans hreceived
  refine ⟨t, ?_, hsound, hincoming, fun hopen => ?_⟩
  · rw [run, hs]
    exact ht
  · have hnone := hsettled hopen
    rw [hsound.expected_eq] at hnone
    have hleast := hsound.ordered.isLeast_next (hsound.holds hopen) hnone
    rwa [← State.received, hincoming] at hleast

/-- **What is sent into an open channel**: the blocks up to the first missing number, in order, and
of each number the last one that came in before it was sent. -/
theorem run_restores_order (overflowChecks : Bool) (start : ℕ)
    (hbound : ∀ block ∈ incoming, block.number < u64Max) :
    ∃ s m, run overflowChecks none incoming start = .ok s ∧ FirstMissing incoming start m ∧
      s.received = incoming ∧ s.sent.map (·.number) = List.range' start (m - start) ∧
      ∀ before block after, s.trace = before ++ .released block :: after →
        latest FetchedBlock.number (arrivals before) block.number = some block := by
  obtain ⟨s, hrun, hsound, hreceived, hmissing⟩ :=
    run_sound overflowChecks none start hbound
  refine ⟨s, next start s.trace, hrun, hmissing nofun, hreceived, ?_, hsound.ordered.latest⟩
  have hlength : next start s.trace - start = s.sent.length := Nat.add_sub_cancel_left _ _
  rw [hlength]
  exact hsound.ordered.numbers

/-- **What is sent into a channel that closes**: the first of these blocks. -/
theorem run_until_closed (overflowChecks : Bool) (start n : ℕ)
    (hbound : ∀ block ∈ incoming, block.number < u64Max) :
    ∃ s m, run overflowChecks (some n) incoming start = .ok s ∧ FirstMissing incoming start m ∧
      s.sent.map (·.number) = (List.range' start (m - start)).take n := by
  obtain ⟨-, m, -, hm, -⟩ := run_restores_order overflowChecks start hbound
  obtain ⟨s, hrun, hsound, hreceived, hmissing⟩ :=
    run_sound overflowChecks (some n) start hbound
  refine ⟨s, m, hrun, hm, hsound.ordered.numbers.trans ?_⟩
  show List.range' start s.sent.length = _
  have hwithin := hsound.within n rfl
  have hnext : next start s.trace = start + s.sent.length := rfl
  by_cases hopen : Open (some n) s
  · have hm : next start s.trace = m := (hmissing hopen).unique hm
    rw [List.take_range'_of_length_le (by omega), show m - start = s.sent.length by omega]
  · have hle : next start s.trace ≤ m := by
      refine hsound.ordered.next_le hm.1.1 ?_
      rw [← State.received, hreceived]
      exact hm.1.2
    simp only [Open, Option.mem_def, Option.some.injEq, forall_eq', Nat.not_lt] at hopen
    rw [List.take_range'_of_length_ge (by omega), show n = s.sent.length by omega]

end Runs

/-! ## The sequencer of a batch -/

section Batches

variable {s u : State} {buffer queue : List ℕ} {block : FetchedBlock}
  {blocks incoming : List FetchedBlock} (b : Batch) (stop : Option ℕ)

/-- The numbers in the buffer of a batch are those of these blocks. -/
structure Represents (s : State) (buffer : List ℕ) : Prop where
  number_eq : ∀ n block, s.buffer.lookup n = some block → block.number = n
  mem_buffer : ∀ n, n ∈ buffer ↔ n ∈ s.buffer
  nodup_buffer : buffer.Nodup

/-- A batch whose sequencer expects the same number, with these numbers in its buffer and in its
channel. -/
def inBatch (t : Batch.State) (sequencer : Batch.Sequencer) (s : State) (buffer queue : List ℕ) :
    Batch.State :=
  { t with sequencer, buffer, expected := s.expected, seqQueue := queue }

theorem Represents.receive (h : Represents s buffer) (block : FetchedBlock) :
    Represents (s.receive block) (buffer.insert block.number) where
  number_eq n block' hn := by
    rw [State.receive] at hn
    by_cases heq : n = block.number
    · rw [heq, AList.lookup_insert] at hn
      rw [heq, Option.some.inj hn]
    · rw [AList.lookup_insert_ne heq] at hn
      exact h.number_eq n block' hn
  mem_buffer n := by
    show n ∈ buffer.insert block.number ↔ n ∈ s.buffer.insert block.number block
    rw [List.mem_insert_iff, AList.mem_insert, h.mem_buffer]
  nodup_buffer := h.nodup_buffer.insert

theorem Represents.send (h : Represents s buffer) (expected : ℕ) (block : FetchedBlock) :
    Represents ⟨s.buffer.erase s.expected, expected, s.trace ++ [.released block]⟩
      (buffer.erase s.expected) where
  number_eq n block' hn := by
    by_cases heq : n = s.expected
    · rw [heq, AList.lookup_erase] at hn
      cases hn
    · rw [AList.lookup_erase_ne heq] at hn
      exact h.number_eq n block' hn
  mem_buffer n := by
    show n ∈ buffer.erase s.expected ↔ n ∈ s.buffer.erase s.expected
    rw [h.nodup_buffer.mem_erase_iff, AList.mem_erase, h.mem_buffer]
  nodup_buffer := h.nodup_buffer.erase _

/-- **A drain in a batch**: where the channel has room for the blocks that are sent, the sequencer
sends their numbers. -/
theorem Represents.drain (h : Represents s buffer) (hdrain : drainBuffer true none s = .ok u)
    (hsent : u.sent = s.sent ++ blocks) (hroom : queue.length + blocks.length ≤ b.depth)
    (t : Batch.State) (last : Bool) : ∃ buffer', Represents u buffer' ∧
      Relation.ReflTransGen (b.Step stop) (inBatch t (.draining last) s buffer queue)
        (inBatch t (if last then .finished else .receiving) u buffer'
          (queue ++ blocks.map (·.number))) := by
  fun_induction drainBuffer true none s generalizing buffer queue blocks with
  | case1 s hnone =>
    obtain rfl : s = u := Except.ok.inj hdrain
    obtain rfl : blocks = [] := by simpa using hsent
    have hmem : s.expected ∉ buffer := by
      rw [h.mem_buffer]
      exact AList.lookup_eq_none.mp hnone
    refine ⟨buffer, h, .single ?_⟩
    rw [List.map_nil, List.append_nil]
    exact .drained rfl hmem
  | case2 s block hfound hopen expected hincrement ih =>
    obtain rfl := increment_eq_ok hincrement
    -- The block comes first among those that are sent.
    obtain ⟨rest, hrest⟩ := sent_prefix_drainBuffer hdrain
    have hblocks : blocks = block :: rest := by
      rw [hsent, State.sent, State.sent, releases_append, List.append_assoc] at hrest
      exact (List.append_cancel_left hrest).symm
    subst hblocks
    rw [List.length_cons] at hroom
    have hmem : s.expected ∈ buffer := by
      rw [h.mem_buffer, ← AList.lookup_isSome, hfound]
      rfl
    have hpop : b.Step stop (inBatch t (.draining last) s buffer queue) _ :=
      .pop rfl hmem
    have hemit : b.Step stop
        (inBatch t (.sending s.expected last) s (buffer.erase s.expected) queue) _ :=
      .emit rfl (show queue.length < b.depth by omega)
    obtain ⟨buffer', hrepresents, hsteps⟩ := @ih _ (queue ++ [block.number]) rest
      (h.send (s.expected + 1) block) hdrain hrest.symm (by
        rw [List.length_append, List.length_singleton]
        omega)
    rw [List.map_cons, List.append_cons queue]
    refine ⟨buffer', hrepresents, .head hpop (.head hemit ?_)⟩
    rw [h.number_eq _ _ hfound] at hsteps ⊢
    exact hsteps
  | case3 s block hfound hopen fault hincrement => cases hdrain
  | case4 s block hfound hclosed => exact absurd nofun hclosed

/-- What is left of a run after a drain. -/
def Rest (incoming : List FetchedBlock) (s u : State) : Prop :=
  incoming.foldlM (fun s block => drainBuffer true none (s.receive block)) s >>=
    drainBuffer true none = .ok u

theorem rest_cons (hrest : Rest (block :: incoming) s u) :
    ∃ v, drainBuffer true none (s.receive block) = .ok v ∧ Rest incoming v u := by
  rw [Rest, List.foldlM_cons] at hrest
  cases hdrain : drainBuffer true none (s.receive block) with
  | error fault =>
    rw [hdrain] at hrest
    cases hrest
  | ok v =>
    rw [hdrain] at hrest
    exact ⟨v, rfl, hrest⟩

theorem sent_prefix_of_rest (hrest : Rest incoming s u) : s.sent <+: u.sent := by
  induction incoming generalizing s with
  | nil => exact sent_prefix_drainBuffer hrest
  | cons block incoming ih =>
    obtain ⟨v, hdrain, hrest⟩ := rest_cons hrest
    have hbegin := sent_prefix_drainBuffer hdrain
    rw [State.receive, State.sent, releases_append, releases_arrived, List.append_nil] at hbegin
    exact hbegin.trans (ih hrest)

/-- **The sequencer of a batch** sends what is left of a run, where the channel has room for it and
the workers have ended. -/
theorem Represents.rest (h : Represents s buffer) (hrest : Rest incoming s u)
    (hsent : u.sent = s.sent ++ blocks) (hroom : queue.length + blocks.length ≤ b.depth)
    {t : Batch.State} (hdone : t.WorkersDone) : ∃ buffer', Represents u buffer' ∧
      Relation.ReflTransGen (b.Step stop)
        (inBatch { t with workerQueue := incoming.map (·.number) } .receiving s buffer queue)
        (inBatch { t with workerQueue := [] } .finished u buffer'
          (queue ++ blocks.map (·.number))) := by
  induction incoming generalizing s buffer queue blocks with
  | nil =>
    have hclosed : b.Step stop (inBatch { t with workerQueue := [] } .receiving s buffer queue) _ :=
      .collectClosed rfl rfl hdone
    obtain ⟨buffer', hrepresents, hsteps⟩ :=
      h.drain b stop hrest hsent hroom { t with workerQueue := [] } true
    exact ⟨buffer', hrepresents, .head hclosed hsteps⟩
  | cons block incoming ih =>
    obtain ⟨v, hdrain, hrest⟩ := rest_cons hrest
    obtain ⟨first, hfirst⟩ := sent_prefix_drainBuffer hdrain
    obtain ⟨later, hlater⟩ := sent_prefix_of_rest hrest
    have hreceive : (s.receive block).sent = s.sent := by
      simp [State.receive, State.sent]
    -- What is sent now comes first, and the channel has room for it and for the rest.
    obtain rfl : blocks = first ++ later := by
      rw [hsent, ← hfirst, hreceive, List.append_assoc] at hlater
      exact (List.append_cancel_left hlater).symm
    rw [List.length_append] at hroom
    have hcollect : b.Step stop (inBatch
        { t with workerQueue := (block :: incoming).map (·.number) } .receiving s buffer queue) _ :=
      .collect rfl rfl
    have hroom₁ : queue.length + first.length ≤ b.depth := by omega
    obtain ⟨buffer₁, h₁, hsteps⟩ := (h.receive block).drain b stop hdrain hfirst.symm hroom₁
      { t with workerQueue := incoming.map (·.number) } false
    have hroom₂ : (queue ++ first.map (·.number)).length + later.length ≤ b.depth := by
      rw [List.length_append, List.length_map]
      omega
    obtain ⟨buffer₂, h₂, hsteps'⟩ := ih h₁ hrest hlater.symm hroom₂
    refine ⟨buffer₂, h₂, .head hcollect (hsteps.trans ?_)⟩
    rw [List.map_append, ← List.append_assoc]
    exact hsteps'

/-- **A run in a batch**: where the channel has room for the blocks that are sent and the workers
have ended, the sequencer of a batch sends their numbers. -/
theorem run_inBatch {start : ℕ} (hrun : run true none incoming start = .ok u)
    (hroom : queue.length + u.sent.length ≤ b.depth) {t : Batch.State} (hdone : t.WorkersDone) :
    ∃ buffer, Relation.ReflTransGen (b.Step stop)
      (inBatch { t with workerQueue := incoming.map (·.number) } .receiving
        ⟨∅, start, []⟩ [] queue)
      (inBatch { t with workerQueue := [] } .finished
        u buffer (queue ++ u.sent.map (·.number))) := by
  have hinitial : Represents ⟨∅, start, []⟩ [] :=
    ⟨fun n block hn => by simp at hn, fun n => by simp, List.nodup_nil⟩
  obtain ⟨buffer, -, hsteps⟩ := hinitial.rest b stop hrun rfl hroom hdone
  exact ⟨buffer, hsteps⟩

end Batches

/-! ## Blocks out of order -/

namespace Shuffled

/-- An empty block with a timestamp, by which two blocks of one number differ. -/
def fetched (number timestamp : ℕ) : FetchedBlock where
  number := number
  block := ⟨⟨number, .zero 32, .zero 32, timestamp, .zero 20, 0, 0, none, 0⟩, [], [], []⟩

/-- Block 6 comes twice before block 5, which comes again when it was sent. -/
def incoming : List FetchedBlock :=
  [fetched 7 0, fetched 6 1, fetched 6 2, fetched 5 3, fetched 9 4, fetched 5 5]

/-- Blocks 5 to 7 are sent. -/
theorem sends_three :
    ∃ s, run true none incoming 5 = .ok s ∧ s.sent.map (·.number) = [5, 6, 7] := by
  have hbound : ∀ block ∈ incoming, block.number < u64Max := by decide
  obtain ⟨s, m, hrun, hmissing, -, hnumbers, -⟩ := run_restores_order true 5 hbound
  have hm : m = 8 := by
    have hle : m ≤ 8 := hmissing.2 ⟨by decide, by decide⟩
    obtain ⟨hstart, habsent⟩ := hmissing.1
    by_contra hne
    interval_cases m
    · exact habsent (fetched 5 3) (by decide) rfl
    · exact habsent (fetched 6 1) (by decide) rfl
    · exact habsent (fetched 7 0) (by decide) rfl
    · exact hne rfl
  subst hm
  exact ⟨s, hrun, hnumbers⟩

/-- Of the two blocks 6 that came in before, the second one is sent. -/
example : (run true none incoming 5).toOption.map (·.sent) =
    some [fetched 5 3, fetched 6 2, fetched 7 0] := by decide +kernel

end Shuffled

end Sequencer

end ChainLens
