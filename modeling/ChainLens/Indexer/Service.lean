import ChainLens.Indexer.Bare
import ChainLens.Intelligence.Calldata
import ChainLens.Intelligence.Relationships
import ChainLens.Intelligence.Reprocess

/-!
# The service

Beside the loop of main the background processor and the handlers of the API use the same pool.
Each of them is a sequence of queries and statements, and these come one at a time, in any order,
between the calls of the loop. What they persist stays out of the tables the indexer fills, and
none of it stops a rollback, so that the loop does what it would do alone.

## Main definitions

* `Persisted`, `Confined`: the statements of the intelligence layer, and what each of them leaves
* `PoolRequest`: the calls that persist something
* `Service.Step`: the loop with any number of requests under way

## Main results

* `Persisted.confined`: what a statement leaves
* `PoolRequest.program_persists`: a request issues only these statements
* `Service.indexer_of_run`: a run of the service is one of the loop alone
-/

namespace ChainLens

open Transition

/-! ## The statements of the intelligence layer -/

/-- One statement of the persist functions, where only certain actions are inserted. -/
inductive Persisted (acts : (ℕ → TransactionActionRow) → Prop) : PgPool → PgPool → Prop where
  | transactionAction (pool : PgPool) {row : ℕ → TransactionActionRow} (h : acts row) :
      Persisted acts pool (pool.transact (Db.insertTransactionAction row)).2
  | addressStats (pool : PgPool) (intel : AddressIntelligence) :
      Persisted acts pool (persistAddressStats pool intel).2
  | contractProfile (pool : PgPool) (intel : ContractIntelligence) :
      Persisted acts pool (persistContractProfile pool intel).2
  | addressRelationship (pool : PgPool) (edge : GraphEdge) :
      Persisted acts pool (persistAddressRelationship pool edge.fromAddr edge.toAddr
        edge.relationship.lowercase edge.count edge.totalValue).2
  | anomaly (pool : PgPool) (found : Anomaly) : Persisted acts pool (persistAnomaly pool found).2
  | blockAnalytics (pool : PgPool) (analytics : BlockAnalytics) :
      Persisted acts pool (persistBlockAnalytics pool analytics).2
  | mevEvent (pool : PgPool) (event : MevEvent) : Persisted acts pool (persistMevEvent pool event).2

/-- The constraints hold as before, and what the indexer reads and writes is the same. -/
structure Confined (db db' : Db) : Prop where
  valid : db.Valid → db'.Valid
  bare : db'.bare = db.bare

namespace Confined

variable {db : Db} {pool : PgPool}

@[refl] theorem refl (db : Db) : Confined db db := ⟨id, rfl⟩

/-- A transaction whose body stays out of the indexed tables. -/
theorem transact {body : Db → Except SqlError Db}
    (hvalid : ∀ db, body pool.db = .ok db → pool.db.Valid → db.Valid)
    (hbare : ∀ db, body pool.db = .ok db → db.bare = pool.db.bare) :
    Confined pool.db (pool.transact body).2.db :=
  pool.transact_preserves (fun db h => ⟨hvalid db h, hbare db h⟩) (refl pool.db)

end Confined

/-- Actions are inserted, and every other statement is refused. -/
theorem Persisted.cases_db {acts : (ℕ → TransactionActionRow) → Prop} {pool pool' : PgPool}
    (h : Persisted acts pool pool') :
    (∃ row, acts row ∧ pool' = (pool.transact (Db.insertTransactionAction row)).2) ∨
      pool'.db = pool.db := by
  cases h with
  | transactionAction hacts => exact .inl ⟨_, hacts, rfl⟩
  | addressStats intel => exact .inr (persistAddressStats_refused intel pool).2
  | contractProfile intel => exact .inr (persistContractProfile_refused intel pool).2
  | addressRelationship edge => exact .inr (persistAddressRelationship_refused _ _ _ _ _ pool).2
  | anomaly found => exact .inr (persistAnomaly_refused found pool).2
  | blockAnalytics analytics => exact .inr (persistBlockAnalytics_refused analytics pool).2
  | mevEvent event => exact .inr (persistMevEvent_refused event pool).2

/-- **Each statement stays out of the indexed tables** and keeps the constraints. -/
theorem Persisted.confined {acts : (ℕ → TransactionActionRow) → Prop} {pool pool' : PgPool}
    (h : Persisted acts pool pool') : Confined pool.db pool'.db := by
  rcases h.cases_db with ⟨row, -, rfl⟩ | hsame
  · refine .transact (fun _ hok hvalid => hvalid.insertTransactionAction hok) fun db hok => ?_
    rw [Db.insertTransactionAction_eq] at hok
    split at hok <;> cases hok
    rfl
  · rw [hsame]

/-! ## Requests -/

/-- The source's detectors, or others. The traversal for the graph of an address consists of
`SELECT`s as well. -/
structure Analyses extends Detectors where
  buildGraph : String → (depth limit : ℕ) → Session AddressGraph
  buildGraph_readOnly : ∀ address depth limit, (buildGraph address depth limit).ReadOnly

/-- What uses the pool beside the loop: a call of the background processor, a handler that
persists what it found, or a handler that only reads. -/
inductive PoolRequest where
  | processBlock (blockNumber : ℕ)
  | explainTransaction (hash : String)
  | addressIntelligence (address : String)
  | addressGraph (address : String) (query : Api.GraphQuery)
  | contractIntelligence (address : String)
  | anomalies
  | blockAnalytics (number : Int)
  | read (queries : Session Unit) (hreads : queries.ReadOnly)

section Handlers

variable (setup : Setup) (analyses : Analyses)

def getAddressIntelligence (address : String) : Session Unit := do
  let intel ← analyzeAddress setup address
  (Session.exec (persistAddressStats · intel)).ignore

def getAddressGraph (address : String) (query : Api.GraphQuery) : Session Unit := do
  let depth := min (query.depth.getD 2) 5
  let limit := min (query.limit.getD 50) 200
  let graph ← analyses.buildGraph address depth limit
  Session.forEach graph.edges fun edge =>
    (Session.exec (persistAddressRelationship · edge.fromAddr edge.toAddr
      edge.relationship.lowercase edge.count edge.totalValue)).ignore

def getContractIntelligence (address : String) : Session Unit := do
  let intel ← analyzeContract setup address
  (Session.exec (persistContractProfile · intel.toContractIntelligence)).ignore

def getAnomalies : Session Unit := do
  let anomalies ← analyses.detectAnomalies
  Session.forEach anomalies fun anomaly =>
    (Session.exec (dropResult (persistAnomaly · anomaly))).ignore

def getBlockAnalytics (number : Int) : Session Unit := do
  let analytics ← analyses.analyzeBlock number
  (Session.exec (persistBlockAnalytics · analytics)).ignore
  Session.forEach analytics.mevEvents fun event =>
    (Session.exec (dropResult (persistMevEvent · event))).ignore

/-- The calls of a request. -/
def PoolRequest.program : PoolRequest → Program
  | .processBlock blockNumber =>
    (ChainLens.processBlock setup analyses.toDetectors blockNumber).run
  | .explainTransaction hash => (explainHandler setup hash).run
  | .addressIntelligence address => (getAddressIntelligence setup address).run
  | .addressGraph address query => (getAddressGraph analyses address query).run
  | .contractIntelligence address => (getContractIntelligence setup address).run
  | .anomalies => (getAnomalies analyses).run
  | .blockAnalytics number => (getBlockAnalytics analyses number).run
  | .read queries _ => queries.run

end Handlers

/-- A program issues statements of the intelligence layer only. -/
abbrev Persists (p : Program) : Prop := p.Every (Persisted fun _ => True) fun _ => True

section Persists

variable {setup : Setup} {analyses : Analyses} {acts : (ℕ → TransactionActionRow) → Prop}

/-- What an analysis found is persisted. -/
theorem persists_found {α : Type} {R : PgPool → PgPool → Prop} {p : Session α}
    {f : α → Session Unit} (hp : p.run.Every R fun _ => True)
    (hf : ∀ a, (f a).run.Every R (· = .ok ())) : (p >>= f).run.Every R fun _ => True := by
  refine Session.every_bind (hp.mono (fun _ _ h => h) fun r _ => ?_)
  cases r with
  | ok a => exact (hf a).mono (fun _ _ h => h) fun _ _ => trivial
  | error e => trivial

/-- One row is persisted, and the result is dropped. -/
theorem persists_row {stmt : Statement} (h : ∀ pool, Persisted acts pool (stmt pool).2) :
    (Session.exec stmt).ignore.run.Every (Persisted acts) (· = .ok ()) :=
  Session.every_ignore (Session.every_exec h)

theorem readOnly_persists {α : Type} {p : Session α} (h : p.ReadOnly) :
    p.run.Every (Persisted acts) fun _ => True :=
  h.mono (fun _ _ => False.elim) fun _ h => h

/-- The actions of an explanation are persisted under its hash. -/
theorem persistTransactionActions_persists {explanation : TransactionExplanation}
    (h : ∀ hash, hexDecodeTrimmed explanation.txHash = some hash →
      ∀ action ∈ explanation.actions, ∀ row, actionRow hash action = .ok row → acts row) :
    (Session.persistTransactionActions explanation).run.Every (Persisted acts) fun _ => True := by
  unfold Session.persistTransactionActions
  cases hhash : hexBytes explanation.txHash "invalid tx hash" with
  | error e => trivial
  | ok txHash =>
    have hdecoded : hexDecodeTrimmed explanation.txHash = some txHash := by
      unfold hexBytes at hhash
      split at hhash
      next bytes hbytes => exact hbytes.trans (congrArg some (Except.ok.inj hhash))
      next => cases hhash
    have hactions := h txHash hdecoded
    show (Session.persistActions txHash explanation.actions).run.Every _ _
    generalize explanation.actions = actions at hactions
    induction actions with
    | nil => trivial
    | cons action actions ih =>
      have hrest := ih fun action' haction' => hactions action' (List.mem_cons_of_mem _ haction')
      unfold Session.persistActions
      cases hrow : actionRow txHash action with
      | error e => trivial
      | ok row =>
        refine ⟨fun pool => .transactionAction pool (hactions action List.mem_cons_self row hrow),
          fun r => ?_⟩
        cases r with
        | ok _ => exact hrest
        | error e => trivial

theorem findings_persist (events : List MevEvent) :
    (Session.forEach events fun event =>
      (Session.exec (dropResult (persistMevEvent · event))).ignore).run.Every (Persisted acts)
        (· = .ok ()) :=
  Session.every_forEach fun event => persists_row fun pool => .mevEvent pool event

theorem analytics_persist (analytics : BlockAnalytics) :
    ((Session.exec (persistBlockAnalytics · analytics)).ignore >>= fun _ =>
      Session.forEach analytics.mevEvents fun event =>
        (Session.exec (dropResult (persistMevEvent · event))).ignore).run.Every (Persisted acts)
          (· = .ok ()) := by
  have hrow := persists_row fun pool => @Persisted.blockAnalytics acts pool analytics
  refine Session.every_bind (hrow.mono (fun _ _ h => h) fun r hr => ?_)
  subst hr
  exact findings_persist analytics.mevEvents

theorem anomalies_persist (anomalies : List Anomaly) :
    (Session.forEach anomalies fun anomaly =>
      (Session.exec (dropResult (persistAnomaly · anomaly))).ignore).run.Every (Persisted acts)
        (· = .ok ()) :=
  Session.every_forEach fun anomaly => persists_row fun pool => .anomaly pool anomaly

/-- After the transactions a call of the processor persists other rows. -/
theorem processRest_persists {number blockNumber : ℕ} :
    (do
      processAddresses setup number
      processContracts setup number
      processAnomalies analyses.toDetectors
      processMev analyses.toDetectors blockNumber : Session Unit).run.Every (Persisted acts)
        fun _ => True := by
  apply Session.every_then
  · exact Session.every_selection fun address =>
      Session.every_handle_fails (analyzeAddress_fails setup _)
  apply Session.every_then
  · exact Session.every_selection fun address => Session.every_handle
      ((analyzeContract_reads _).every _) fun intel =>
        persists_row fun pool => .contractProfile pool intel.toContractIntelligence
  apply Session.every_then
  · exact (Session.every_handle (readOnly_persists analyses.detectAnomalies_readOnly)
      anomalies_persist).mono (fun _ _ h => h) fun _ _ => trivial
  · exact (Session.every_handle (readOnly_persists (analyses.analyzeBlock_readOnly _))
      analytics_persist).mono (fun _ _ h => h) fun _ _ => trivial

/-- The request persists actions of transactions. -/
def PoolRequest.Explains : PoolRequest → Prop
  | .processBlock _ | .explainTransaction _ => True
  | _ => False

/-- The other requests persist no action. -/
theorem PoolRequest.program_persists_other {request : PoolRequest} (h : ¬ request.Explains) :
    (request.program setup analyses).Every (Persisted acts) fun _ => True := by
  cases request with
  | processBlock blockNumber => exact absurd trivial h
  | explainTransaction hash => exact absurd trivial h
  | addressIntelligence address =>
    exact persists_found ((analyzeAddress_fails setup address).mono (fun _ _ => False.elim)
      fun _ _ => trivial) fun intel => persists_row fun pool => .addressStats pool intel
  | addressGraph address query =>
    refine persists_found (readOnly_persists (analyses.buildGraph_readOnly _ _ _)) fun graph => ?_
    exact Session.every_forEach fun edge => persists_row fun pool => .addressRelationship pool edge
  | contractIntelligence address =>
    exact persists_found ((analyzeContract_reads _).every _) fun intel =>
      persists_row fun pool => .contractProfile pool intel.toContractIntelligence
  | anomalies =>
    exact persists_found (readOnly_persists analyses.detectAnomalies_readOnly) anomalies_persist
  | blockAnalytics number =>
    exact persists_found (readOnly_persists (analyses.analyzeBlock_readOnly _)) analytics_persist
  | read queries hreads => exact readOnly_persists hreads

/-- **A request issues statements of the intelligence layer only.** -/
theorem PoolRequest.program_persists (request : PoolRequest) :
    Persists (request.program setup analyses) := by
  have hactions : ∀ explanation : TransactionExplanation,
      (Session.persistTransactionActions explanation).run.Every (Persisted fun _ => True)
        fun _ => True := fun _ =>
    persistTransactionActions_persists fun _ _ _ _ _ _ => trivial
  cases request with
  | processBlock blockNumber =>
    refine Session.every_then (Session.every_selection fun hash => ?_) processRest_persists
    exact Session.every_handle ((explainTransaction_reads _).every _) fun _ =>
      Session.every_ignore (hactions _)
  | explainTransaction hash =>
    exact persists_found ((explainTransaction_reads _).every _) fun _ =>
      Session.every_ignore (hactions _)
  | _ => exact program_persists_other id

end Persists

/-! ## The loop among requests -/

/-- A move of the loop keeps the constraints. -/
theorem Indexer.valid_step {cfg : Config} {s t : State} {e : Event} (h : Step cfg s e t)
    (hs : s.db.Valid) : t.db.Valid := by
  refine next_related (R := fun db db' => db.Valid → db'.Valid) (fun _ => id) h ?_ hs
  intro client store n _ _ hvalid
  have hstep := @commitBlock_step client store n cfg.maxReorgDepth
  generalize (commitBlock client store n cfg.maxReorgDepth).1 = result at hstep
  generalize (commitBlock client store n cfg.maxReorgDepth).2.db = db at hstep ⊢
  cases hstep with
  | failed => exact hvalid
  | rolledBack => exact hvalid.rollback _ _
  | committed _ _ _ _ hdb => exact hvalid.commitBlock hdb

section Call

open Indexer

variable {cfg : Config} {client : EthClient} {db : Db} {fates : List Fate} {store : PostgresStore}
  {cursor n now : ℕ} {pending : List ℕ}

/-- The step of a call that stores its block. -/
theorem Indexer.step_stored
    (h : commitBlock client ⟨db, fates, now⟩ n cfg.maxReorgDepth = (.ok false, store)) :
    Indexer.Step cfg ⟨db, .receiving cursor (n :: pending)⟩ (.commit client fates now)
      ⟨store.db, .receiving n pending⟩ := by
  simp only [Indexer.Step, next, receive, h]

/-- The step of a call that handles a reorg. -/
theorem Indexer.step_reorg
    (h : commitBlock client ⟨db, fates, now⟩ n cfg.maxReorgDepth = (.ok true, store)) :
    Indexer.Step cfg ⟨db, .receiving cursor (n :: pending)⟩ (.commit client fates now)
      ⟨(rewindCursor cfg store).2.db, .polling (rewindCursor cfg store).1⟩ := by
  simp only [Indexer.Step, next, receive, h]

end Call

namespace Service

/-- The loop with the requests that are under way. -/
structure State where
  indexer : Indexer.State
  running : List Program

/-- What happens next: a move of the loop, or a request arrives, makes its next call, or is given
up. A call meets the fate of its pool and the clock. -/
inductive Event where
  | main (e : Indexer.Event)
  | arrive (request : PoolRequest)
  | advance (i : ℕ) (fates : List Fate) (now : ℕ)
  | abandon (i : ℕ)

/-- The steps of the service. Requests do not wait for the loop, nor the loop for requests. -/
inductive Step (cfg : Config) (setup : Setup) (analyses : Analyses) :
    State → Event → State → Prop
  | main {s : State} {e : Indexer.Event} {t : Indexer.State} (h : Indexer.Step cfg s.indexer e t) :
      Step cfg setup analyses s (.main e) { s with indexer := t }
  | arrive {s : State} {request : PoolRequest} :
      Step cfg setup analyses s (.arrive request)
        { s with running := s.running ++ [request.program setup analyses] }
  | advance {s : State} {i : ℕ} {fates : List Fate} {now : ℕ} {p p' : Program} {pool : PgPool}
      (hp : s.running[i]? = some p)
      (hstep : p.step PgPool.snapshot ⟨s.indexer.db, fates, now⟩ = some (p', pool)) :
      Step cfg setup analyses s (.advance i fates now)
        ⟨{ s.indexer with db := pool.db }, s.running.set i p'⟩
  -- A handler is dropped with its connection, and everything with the process.
  | abandon {s : State} {i : ℕ} :
      Step cfg setup analyses s (.abandon i) { s with running := s.running.eraseIdx i }

/-- The migrated database, with nothing running. -/
def initial : State := ⟨⟨.migrated, .stopped⟩, []⟩

/-- The requests under way persist, and the database meets its constraints. -/
structure Sound (s : State) : Prop where
  valid : s.indexer.db.Valid
  running : ∀ p ∈ s.running, Persists p

section Step

variable {cfg : Config} {setup : Setup} {analyses : Analyses} {s t : State} {e : Event}

/-- The move of the loop in an event. -/
def Event.seen : Event → Option Indexer.Event
  | .main e => some e
  | _ => none

/-- A call of a request. -/
theorem advance_confined {p p' : Program} {pool pool' : PgPool} (hp : Persists p)
    (hstep : p.step PgPool.snapshot pool = some (p', pool')) :
    Confined pool.db pool'.db ∧ Persists p' := by
  cases p with
  | done a => cases hstep
  | panic message => cases hstep
  | query next =>
    cases hstep
    rw [PgPool.snapshot_db]
    exact ⟨.refl _, hp _⟩
  | exec stmt next =>
    cases hstep
    exact ⟨(hp.1 pool).confined, hp.2 _⟩

/-- **One step**: a move of the loop, or nothing that the loop sees. -/
theorem step_cases (h : Step cfg setup analyses s e t) (hs : Sound s) :
    (∃ e', e = .main e' ∧ t.running = s.running ∧
      Indexer.Step cfg s.indexer e' t.indexer) ∨
      e.seen = none ∧ t.indexer.process = s.indexer.process ∧
        Confined s.indexer.db t.indexer.db ∧ ∀ p ∈ t.running, Persists p := by
  cases h with
  | main h => exact Or.inl ⟨_, rfl, rfl, h⟩
  | @arrive request =>
    refine Or.inr ⟨rfl, rfl, .refl _, fun p hp => ?_⟩
    rcases List.mem_append.mp hp with hp | hp
    · exact hs.running p hp
    · rw [List.mem_singleton.mp hp]
      exact request.program_persists
  | advance hp hstep =>
    obtain ⟨hconfined, hrest⟩ := advance_confined (hs.running _ (List.mem_of_getElem? hp)) hstep
    refine Or.inr ⟨rfl, rfl, hconfined, fun p hp => ?_⟩
    rcases List.mem_or_eq_of_mem_set hp with hp | rfl
    · exact hs.running p hp
    · exact hrest
  | abandon =>
    exact Or.inr ⟨rfl, rfl, .refl _, fun p hp => hs.running p (List.mem_of_mem_eraseIdx hp)⟩

theorem sound_step (h : Step cfg setup analyses s e t) (hs : Sound s) : Sound t := by
  rcases step_cases h hs with ⟨e', -, hrunning, hstep⟩ | ⟨-, -, hconfined, hrunning⟩
  · exact ⟨Indexer.valid_step hstep hs.valid, hrunning ▸ hs.running⟩
  · exact ⟨hconfined.valid hs.valid, hrunning⟩

theorem sound_initial : Sound initial := ⟨Db.valid_migrated, nofun⟩

theorem sound_run {moves : List (Move State Event)} (hrun : Run (Step cfg setup analyses) s moves t)
    (hs : Sound s) : Sound t :=
  @Run.invariant _ _ _ _ _ _ Sound (fun _ => True) (fun _ _ _ hstep _ => sound_step hstep) hrun
    (fun _ _ => trivial) hs

end Step

/-- A run of the loop while nothing is requested. -/
theorem run_main {cfg : Config} {setup : Setup} {analyses : Analyses}
    {moves : List (Move Indexer.State Indexer.Event)} {s t : Indexer.State}
    (hrun : Run (Indexer.Step cfg) s moves t) :
    Run (Step cfg setup analyses) ⟨s, []⟩
      (moves.map fun move => ⟨⟨move.before, []⟩, .main move.event, ⟨move.after, []⟩⟩) ⟨t, []⟩ :=
  hrun.map (State.mk · []) Event.main fun _ _ _ h => .main h

/-! ## What the loop sees of a run -/

section Runs

variable {cfg : Config} {setup setup' : Setup} {analyses analyses' : Analyses}
  {moves moves' : List (Move State Event)} {s s' t : State}

/-- **The loop among requests** makes a run of its own over the bare database. -/
theorem indexer_of_run (hrun : Run (Step cfg setup analyses) s moves t) (hs : Sound s) :
    Run (Indexer.Step cfg) s.indexer.bare
      (moves.filterMap fun move => move.event.seen.map fun e =>
        ⟨move.before.indexer.bare, e, move.after.indexer.bare⟩)
      t.indexer.bare := by
  refine hrun.project (fun s => s.indexer.bare) Event.seen
    (fun _ _ _ hstep hs => sound_step hstep hs) ?_ ?_ hs
  · intro s e t hstep hs e' he'
    rcases step_cases hstep hs with ⟨e'', rfl, -, hmain⟩ | ⟨hnone, -⟩
    · cases he'
      exact Indexer.step_bare hmain
    · rw [hnone] at he'
      cases he'
  · intro s e t hstep hs hnone
    rcases step_cases hstep hs with ⟨e', rfl, -⟩ | ⟨-, hprocess, hconfined, -⟩
    · cases hnone
    · show Indexer.State.mk t.indexer.db.bare t.indexer.process = ⟨s.indexer.db.bare, _⟩
      rw [hconfined.bare, hprocess]

/-- **Requests do not interfere**: two runs whose loops meet the same events end with the same
process and the same indexed tables, whatever is requested, computed, persisted and given up in
between in the one and in the other. -/
theorem sameIndexed_of_seen (hrun : Run (Step cfg setup analyses) initial moves s)
    (hrun' : Run (Step cfg setup' analyses') initial moves' s')
    (hseen : moves.filterMap (·.event.seen) = moves'.filterMap (·.event.seen)) :
    s'.indexer.process = s.indexer.process ∧ s.indexer.db.SameIndexed s'.indexer.db := by
  have hevents (moves : List (Move State Event)) :
      (moves.filterMap fun move => move.event.seen.map fun e =>
        Move.mk move.before.indexer.bare e move.after.indexer.bare).map (·.event) =
      moves.filterMap (·.event.seen) := by
    rw [List.map_filterMap]
    refine List.filterMap_congr fun move _ => ?_
    rw [Option.map_map]
    exact Option.map_id'
  have hdet : ∀ s e t t', Indexer.Step cfg s e t → Indexer.Step cfg s e t' → t = t' :=
    fun s e t t' h h' => Option.some.inj (h.symm.trans h')
  have hsame := ((indexer_of_run hrun sound_initial).determined hdet
    (indexer_of_run hrun' sound_initial) (by rw [hevents, hevents, hseen])).2
  exact ⟨(congrArg Indexer.State.process hsame).symm,
    Db.sameIndexed_of_bare (congrArg Indexer.State.db hsame).symm⟩

end Runs

/-! ## A block with a request in between -/

/-- The source's detectors, and graphs without nodes. -/
def plainAnalyses : Analyses where
  toDetectors := Reprocess.plainDetectors
  buildGraph address _ _ := pure ⟨address, [], [], 0, 0, 0⟩
  buildGraph_readOnly _ _ _ := trivial

section Request

variable {cfg : Config} {setup : Setup} {analyses : Analyses}

/-- A request that runs alone goes on to its end. -/
theorem run_request (p : Program) (process : Indexer.Process) (pool : PgPool) :
    ∃ moves p', Run (Step cfg setup analyses) ⟨⟨pool.db, process⟩, [p]⟩ moves
        ⟨⟨(p.run PgPool.snapshot pool).2.db, process⟩, [p']⟩ ∧
      moves.filterMap (·.event.seen) = [] := by
  induction p generalizing pool with
  | done r => exact ⟨[], _, .nil _, rfl⟩
  | panic message => exact ⟨[], _, .nil _, rfl⟩
  | query next ih =>
    obtain ⟨moves, p', hrun, hunseen⟩ := ih pool.snapshot.1 pool.snapshot.2
    exact ⟨_, p', .cons (@Step.advance _ _ _ _ 0 pool.fates pool.now _ _ _ rfl rfl) hrun, hunseen⟩
  | exec stmt next ih =>
    obtain ⟨moves, p', hrun, hunseen⟩ := ih (stmt pool).1 (stmt pool).2
    exact ⟨_, p', .cons (@Step.advance _ _ _ _ 0 pool.fates pool.now _ _ _ rfl rfl) hrun, hunseen⟩

/-- A request to explain a transaction leaves an action. -/
theorem run_explained {db : Db} {tx : TransactionRow} {timestamp : String}
    (hfound : selectTransaction setup tx.hash db = some (tx, timestamp))
    (hrecorded : tx.Recorded setup) (process : Indexer.Process) :
    ∃ moves db' running, Run (Step cfg setup analyses) ⟨⟨db, process⟩, []⟩ moves
        ⟨⟨db', process⟩, running⟩ ∧
      moves.filterMap (·.event.seen) = [] ∧ ∃ row, row ∈ db'.transactionActions := by
  have hgrow := explainHandler_appends hfound hrecorded 0
  rw [Session.runOn_snd] at hgrow
  obtain ⟨row, hrow⟩ := List.exists_mem_of_length_pos (Nat.zero_lt_of_lt hgrow)
  have harrive : Step cfg setup analyses ⟨⟨db, process⟩, []⟩
      (.arrive (.explainTransaction (hexText tx.hash)))
      ⟨⟨db, process⟩, [(explainHandler setup (hexText tx.hash)).run]⟩ := .arrive
  obtain ⟨moves, p, hrequest, hunseen⟩ := @run_request cfg setup analyses
    (explainHandler setup (hexText tx.hash)).run process ⟨db, [], 0⟩
  exact ⟨_, _, _, .cons harrive hrequest, hunseen, row, hrow⟩

end Request

end Service

namespace Logged

/-- A transfer of one wei that leaves one log. -/
def transaction : TransactionResponse := { BatchLog.transaction with value := 1 }

def receipt : ReceiptResponse :=
  { BatchLog.receipt with
    blockNumber := 1
    logs := [{ BatchLog.rawLog with blockNumber := 1, topics := [], data := [] }] }

def block : BlockResponse := { BatchLog.block with number := 1, transactions := [transaction] }

/-- What the block decodes to. -/
def indexed : IndexedBlock where
  block := { BatchLog.indexed.block with number := 1 }
  transactions := BatchLog.indexed.transactions.map fun t => { t with blockNumber := 1, value := 1 }
  logs := [{
    blockNumber := 1
    logIndex := 0
    txHash := .withLastByte 31 9
    address := .zero 20
    topic0 := none
    topic1 := none
    topic2 := none
    topic3 := none
    data := [] }]
  tokenTransfers := []

/-- A node with this block, and nothing else. -/
def client : EthClient where
  getBlockByNumber n _ := .ok (if n = 1 then some block else none)
  getBlockReceipts _ := .ok [receipt]
  getTransactionReceipt _ := .ok none
  supportsBlockReceipts := true

/-- The store with the block. -/
def db : Db := Db.migrated.committed indexed 0

end Logged

namespace Service

/-- The transaction of the stored block. -/
def loggedRow : TransactionRow := transactionRow (Logged.indexed.transactions.head (by decide))

theorem loggedRow_recorded : loggedRow.Recorded Reprocess.plainSetup where
  acts := .inr (.inr ⟨by decide, by decide +kernel⟩)
  fee h := absurd h (by decide)
  summary := by
    have hactions : transactionActions loggedRow.context = .ok [loggedRow.context.ethTransfer] := by
      rw [transactionActions, if_neg (by decide), if_neg (by decide), if_pos (by decide +kernel)]
    have haddresses : loggedRow.HasAddresses :=
      ⟨by decide, fun address haddress => by
        obtain rfl := Option.some.inj haddress
        decide⟩
    obtain ⟨summary, hsummary⟩ := haddresses.buildSummary_isOk hactions
    exact ⟨_, summary, hactions, hsummary⟩

/-- The block is indexed. -/
theorem run_stored : ∃ moves,
    Run (Step (Indexer.smallConfig 1 1) Reprocess.plainSetup plainAnalyses) initial moves
        ⟨⟨Logged.db, .receiving 1 []⟩, []⟩ ∧
      moves.map (·.event) =
        [.main .start, .main (.poll 1 1), .main (.commit Logged.client [] 0)] := by
  have hrun : Run (Indexer.Step (Indexer.smallConfig 1 1)) ⟨.migrated, .stopped⟩
      [⟨⟨.migrated, .stopped⟩, .start, ⟨.migrated, .polling 0⟩⟩,
        ⟨⟨.migrated, .polling 0⟩, .poll 1 1, ⟨.migrated, .receiving 0 [1]⟩⟩,
        ⟨⟨.migrated, .receiving 0 [1]⟩, .commit Logged.client [] 0,
          ⟨Logged.db, .receiving 1 []⟩⟩]
      ⟨Logged.db, .receiving 1 []⟩ := .cons rfl (.cons rfl (.cons rfl (.nil _)))
  exact ⟨_, run_main hrun, rfl⟩

/-- The batch ends, whatever is under way. -/
theorem run_finish (db : Db) (running : List Program) : ∃ moves,
    Run (Step (Indexer.smallConfig 1 1) Reprocess.plainSetup plainAnalyses)
        ⟨⟨db, .receiving 1 []⟩, running⟩ moves ⟨⟨db, .polling 1⟩, running⟩ ∧
      moves.filterMap (·.event.seen) = [.finish] :=
  ⟨[⟨_, .main .finish, _⟩], .cons (.main rfl) (.nil _), rfl⟩

/-- The transaction is explained before the batch ends, and an action is left. The loop does the
same as without the request. -/
theorem sameIndexed_explained : ∃ moves s,
    Run (Step (Indexer.smallConfig 1 1) Reprocess.plainSetup plainAnalyses) initial moves s ∧
      s.indexer.db.transactionActions ≠ [] ∧ s.indexer.process = .polling 1 ∧
      Logged.db.SameIndexed s.indexer.db := by
  obtain ⟨before, hbefore, -⟩ := run_stored
  have hvalid : Logged.db.Valid := (sound_run hbefore sound_initial).valid
  have hmem : loggedRow ∈ Logged.db.transactions := List.mem_singleton_self loggedRow
  obtain ⟨timestamp, hfound⟩ := @selectTransaction_of_mem Reprocess.plainSetup _ _ hvalid hmem
  obtain ⟨request, db, running, hrequest, hunseen, row, hrow⟩ := @run_explained
    (Indexer.smallConfig 1 1) _ plainAnalyses _ _ _ hfound loggedRow_recorded (.receiving 1 [])
  obtain ⟨after, hafter, hfinish⟩ := run_finish db running
  obtain ⟨after', halone, hfinish'⟩ := run_finish Logged.db []
  have hrun := hbefore.append (hrequest.append hafter)
  obtain ⟨hprocess, hsame⟩ := sameIndexed_of_seen (hbefore.append halone) hrun (by
    simp only [List.filterMap_append, hunseen, hfinish, hfinish', List.nil_append])
  exact ⟨_, _, hrun, List.ne_nil_of_mem hrow, hprocess, hsame⟩

end Service

end ChainLens
