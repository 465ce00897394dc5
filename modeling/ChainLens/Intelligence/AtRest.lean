import ChainLens.Intelligence.Reprocess

/-!
# Statistics at rest

Blocks are committed while the background processor works through them, one call after the other,
in any order. Once it has completed its call for every committed block, a stored statistic should
agree with the tables it was counted in. No statistic is ever stored: the analysis of an address
fails before there is anything to persist, and the statement that persists a contract is refused.
The rows agree because there are none.

## Main definitions

* `AtRest.State`, `AtRest.Step`: commits, and the processor one call on the database at a time
* `AddressStatsRow.Agrees`, `ContractProfileRow.Agrees`: a row with the counts of its analysis

## Main results

* `AtRest.bare_run`: no run stores a statistic
* `AtRest.counts_agree`: every row agrees with the tables
-/

namespace ChainLens

open Transition

/-! ## Rows that agree -/

/-- The row has the counts its analysis returns on the database. -/
def AddressStatsRow.Agrees (setup : Setup) (db : Db) (row : AddressStatsRow) : Prop :=
  ∃ intel, (analyzeAddress setup (hexText row.address)).runOn ⟨db, [], 0⟩ =
    (.ok intel, ⟨db, [], 0⟩) ∧ row.counts = intel.counts

/-- The row has the counts its analysis returns on the database. -/
def ContractProfileRow.Agrees (setup : Setup) (db : Db) (row : ContractProfileRow) : Prop :=
  ∃ intel, (analyzeContract setup (hexText row.address)).runOn ⟨db, [], 0⟩ =
    (.ok intel, ⟨db, [], 0⟩) ∧ row.counts = intel.toContractIntelligence.counts

namespace AtRest

/-! ## The system -/

/-- The database, the heights whose block was committed and not yet processed since, and the call
of `process_block` under way. -/
structure State where
  db : Db
  pending : List ℕ
  running : Option (ℕ × Program)

def State.initial : State := ⟨.migrated, [], none⟩

inductive Event where
  | commit (indexed : IndexedBlock) (now : ℕ)
  | start (n : ℕ)
  | call (fate : Fate) (now : ℕ)
  | finish
  | crash

/-- Commits come in between the calls of the processor on the database. A height whose processing
fails, panics or is cut off by a crash is still to be processed. -/
inductive Step (setup : Setup) (detectors : Detectors) : State → Event → State → Prop
  | commit {s : State} {indexed : IndexedBlock} {now : ℕ} {db : Db} : indexed.Coherent →
      s.db.commitBlock indexed now = .ok db →
      Step setup detectors s (.commit indexed now)
        { s with db := db, pending := s.pending ++ [indexed.block.number] }
  | start {s : State} {n : ℕ} : s.running = none → n ∈ s.pending →
      Step setup detectors s (.start n)
        { s with
          pending := s.pending.filter (· ≠ n)
          running := some (n, (processBlock setup detectors n).run) }
  | call {s : State} {n : ℕ} {p p' : Program} {fate : Fate} {now : ℕ} {pool : PgPool} :
      s.running = some (n, p) → p.step PgPool.snapshot ⟨s.db, [fate], now⟩ = some (p', pool) →
      Step setup detectors s (.call fate now) { s with db := pool.db, running := some (n, p') }
  | complete {s : State} {n : ℕ} : s.running = some (n, .done (.ok ())) →
      Step setup detectors s .finish { s with running := none }
  | fail {s : State} {n : ℕ} {e : QueryError} : s.running = some (n, .done (.error e)) →
      Step setup detectors s .finish { s with running := none, pending := s.pending ++ [n] }
  | panic {s : State} {n : ℕ} {message : String} : s.running = some (n, .panic message) →
      Step setup detectors s .finish { s with running := none, pending := s.pending ++ [n] }
  | crash {s : State} {n : ℕ} {p : Program} : s.running = some (n, p) →
      Step setup detectors s .crash { s with running := none, pending := s.pending ++ [n] }

/-- Every committed block has been processed. -/
def State.Rests (s : State) : Prop := s.pending = [] ∧ s.running = none

/-! ## What a run stores -/

/-- Both tables of statistics are as they were. -/
def KeepsStatistics (pool pool' : PgPool) : Prop :=
  pool'.db.addressStats = pool.db.addressStats ∧
    pool'.db.contractProfiles = pool.db.contractProfiles

/-- No statistic is stored, and the call under way keeps it so. -/
structure Bare (s : State) : Prop where
  addressStats : s.db.addressStats = []
  contractProfiles : s.db.contractProfiles = []
  running : ∀ n p, s.running = some (n, p) → p.Every KeepsStatistics fun _ => True

section Runs

variable {setup : Setup} {detectors : Detectors} {s t : State} {e : Event}

/-- Every statement of a call keeps both tables. -/
theorem processBlock_keepsStatistics (n : ℕ) :
    (processBlock setup detectors n).run.Every KeepsStatistics fun _ => True := by
  apply processBlock_every
  · rintro pool pool' ⟨rows, serials, h⟩
    rw [KeepsStatistics, h]
    exact ⟨rfl, rfl⟩
  · intro pool pool' h
    rw [KeepsStatistics, h]
    exact ⟨rfl, rfl⟩

theorem bare_initial : Bare .initial := ⟨rfl, rfl, nofun⟩

/-- A step stores no statistic. -/
theorem bare_step (h : Step setup detectors s e t) (hs : Bare s) : Bare t := by
  cases h with
  | commit hcoherent hok =>
    rw [Db.commitBlock_eq hok]
    exact ⟨hs.addressStats, hs.contractProfiles, hs.running⟩
  | start hidle hn =>
    refine ⟨hs.addressStats, hs.contractProfiles, ?_⟩
    rintro _ _ ⟨⟩
    exact processBlock_keepsStatistics _
  | call hp hstep =>
    obtain ⟨⟨hstats, hprofiles⟩, hrest⟩ := (hs.running _ _ hp).step
      (fun pool => by rw [KeepsStatistics, PgPool.snapshot_db]; exact ⟨rfl, rfl⟩) hstep
    refine ⟨hstats.trans hs.addressStats, hprofiles.trans hs.contractProfiles, ?_⟩
    rintro _ _ ⟨⟩
    exact hrest
  | complete | fail | panic | crash => exact ⟨hs.addressStats, hs.contractProfiles, nofun⟩

/-- **No run stores a statistic.** -/
theorem bare_run {moves : List (Move State Event)}
    (h : Run (Step setup detectors) .initial moves s) : Bare s :=
  @Run.invariant _ _ _ _ _ _ Bare (fun _ => True) (fun _ _ _ hstep _ hs => bare_step hstep hs) h
    (fun _ _ => trivial) bare_initial

end Runs

/-! ## A transfer of half an ether -/

/-- The database after a call of the processor whose calls meet these fates, if it returned `Ok`. -/
def attended : Program → List Fate → Db → Option Db
  | .done (.ok ()), _, db => some db
  | .query next, fate :: fates, db =>
    attended (next (PgPool.snapshot ⟨db, [fate], 0⟩).1) fates db
  | .exec stmt next, fate :: fates, db =>
    attended (next (stmt ⟨db, [fate], 0⟩).1) fates (stmt ⟨db, [fate], 0⟩).2.db
  | _, _, _ => none

section Attended

variable {setup : Setup} {detectors : Detectors} {db db' : Db} {n : ℕ} {fates : List Fate}

theorem run_attended {pending : List ℕ} {p : Program} (h : attended p fates db = some db') :
    ∃ moves, Run (Step setup detectors) ⟨db, pending, some (n, p)⟩ moves ⟨db', pending, none⟩ := by
  induction p generalizing fates db with
  | done r =>
    cases r with
    | ok _ =>
      cases h
      exact ⟨_, .cons (.complete rfl) (.nil _)⟩
    | error e => cases h
  | panic message => cases h
  | query next ih =>
    cases fates with
    | nil => cases h
    | cons fate fates =>
      obtain ⟨moves, hrun⟩ := ih _ h
      -- A query leaves the database.
      have hcall : Step setup detectors ⟨db, pending, some (n, .query next)⟩ (.call fate 0)
          ⟨(PgPool.snapshot ⟨db, [fate], 0⟩).2.db, pending,
            some (n, next (PgPool.snapshot ⟨db, [fate], 0⟩).1)⟩ := .call rfl rfl
      rw [PgPool.snapshot_db] at hcall
      exact ⟨_, .cons hcall hrun⟩
  | exec stmt next ih =>
    cases fates with
    | nil => cases h
    | cons fate fates =>
      obtain ⟨moves, hrun⟩ := ih _ h
      have hcall : Step setup detectors ⟨db, pending, some (n, .exec stmt next)⟩ (.call fate 0)
          ⟨(stmt ⟨db, [fate], 0⟩).2.db, pending,
            some (n, next (stmt ⟨db, [fate], 0⟩).1)⟩ := .call rfl rfl
      exact ⟨_, .cons hcall hrun⟩

/-- A commit and the call for its block, one after the other. -/
theorem run_block {indexed : IndexedBlock} (hcoherent : indexed.Coherent)
    (hok : db.commitBlock indexed 0 = .ok (db.committed indexed 0))
    (h : attended (processBlock setup detectors indexed.block.number).run fates
      (db.committed indexed 0) = some db') :
    ∃ moves, Run (Step setup detectors) ⟨db, [], none⟩ moves ⟨db', [], none⟩ := by
  have hcommit : Step setup detectors ⟨db, [], none⟩ (.commit indexed 0)
      ⟨db.committed indexed 0, [indexed.block.number], none⟩ := .commit hcoherent hok
  have hstart : Step setup detectors ⟨db.committed indexed 0, [indexed.block.number], none⟩
      (.start indexed.block.number) ⟨db.committed indexed 0, [],
        some (indexed.block.number, (processBlock setup detectors indexed.block.number).run)⟩ := by
    have hstep := @Step.start setup detectors ⟨db.committed indexed 0, [indexed.block.number], none⟩
      indexed.block.number rfl List.mem_cons_self
    simpa using hstep
  obtain ⟨moves, hrun⟩ := run_attended h
  exact ⟨_, .cons hcommit (.cons hstart hrun)⟩

end Attended

/-- A block with a transfer. -/
def transfer : IndexedBlock := Reprocess.valueBlock 500000000000000000

/-- The last of the processor's queries for the block is refused; with an answer it would panic. -/
def transferFates : List Fate := List.replicate 38 .served ++ [.refused]

theorem attended_transfer :
    (attended (processBlock Reprocess.plainSetup Reprocess.plainDetectors 7).run transferFates
      (Db.migrated.committed transfer 0)).map (·.transactionActions.length) = some 1 := by
  decide +kernel

end AtRest

end ChainLens
