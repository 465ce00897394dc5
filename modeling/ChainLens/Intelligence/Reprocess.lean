import ChainLens.Decode.Block
import ChainLens.Intelligence.ProcessBlock
import ChainLens.Library.Transition

/-!
# Processing a block again

Actions have a serial key, and no two rows of `transaction_actions` ever conflict, so that what
persists a transaction's actions once more appends them once more. Both the background processor
and the handler that explains a transaction do so. After a block was processed, further calls for
it, in any interleaving, leave the actions as they are exactly when none of its transactions
leaves any.

## Main definitions

* `explainHandler`: the handler of the API that explains a transaction
* `Reprocess.Step`: calls for one block, one beside the other
* `TransactionRow.Recorded`: a transaction whose explanation lists an action

## Main results

* `Reprocess.unchanged_iff`: when processing a block again leaves the actions as they are
-/

namespace ChainLens

open Transition

/-- The handler that explains a transaction and drops the result of persisting it. Its answer is
the explanation, or that there is no such transaction. -/
def explainHandler (setup : Setup) (hash : String) : Session Unit := do
  let explanation ← explainTransaction setup hash
  (Session.persistTransactionActions explanation.toTransactionExplanation).ignore

/-- The transaction has an action, and neither its fee nor its summary panics. -/
structure TransactionRow.Recorded (setup : Setup) (tx : TransactionRow) : Prop where
  acts : tx.context.Acts
  fee : setup.overflowChecks → feeWei tx.gasUsed (tx.effectiveGasPrice <|> tx.gasPrice) ≤ u128Max
  summary : ∃ actions summary, transactionActions tx.context = .ok actions ∧
    buildSummary actions tx.context = .ok summary

/-! ## What an explanation lists -/

section Explanation

variable {setup : Setup} {db db₀ : Db} {text : String} {hash : Bytes} {tx : TransactionRow}
  {timestamp : String}

theorem calculateTxFee_isOk {gasUsed : ℕ} {gasPrice : Option Numeric} :
    (∃ fee, calculateTxFee setup gasUsed gasPrice = .ok fee) ↔
      (setup.overflowChecks → feeWei gasUsed gasPrice ≤ u128Max) := by
  unfold calculateTxFee
  dsimp only
  split
  next h =>
    refine ⟨nofun, fun hfee => ?_⟩
    exact absurd (hfee h.2) (Nat.not_le.mpr h.1)
  next h =>
    refine ⟨fun _ hchecks => Nat.le_of_not_lt fun hover => h ⟨hover, hchecks⟩, fun _ => ⟨_, rfl⟩⟩

theorem selectTransaction_congr (h : db₀.SameIndexed db) :
    selectTransaction setup hash db = selectTransaction setup hash db₀ := by
  unfold selectTransaction
  rw [h.blocks, h.transactions]

/-- **What an explanation lists**, when the indexed tables stay: the actions of the transaction. -/
theorem explainTransaction_answers {later : Db → Db → Prop} {inv : Db → Prop}
    (hinv : ∀ db, inv db → db₀.SameIndexed db) (htext : hexDecodeTrimmed text = some hash) :
    (explainTransaction setup text).run.Answers later (fun _ r => ∀ e, r = .ok e →
      ∃ tx timestamp, selectTransaction setup hash db₀ = some (tx, timestamp) ∧
        transactionActions tx.context = .ok e.actions ∧ (e.actions ≠ [] → tx.Recorded setup))
      inv := by
  have hparameter : Session.hexParameter text = pure hash := by
    rw [Session.hexParameter, htext]
    rfl
  rw [explainTransaction, hparameter]
  refine Session.answers_query fun db₁ h₁ => ?_
  rw [selectTransaction_congr (hinv db₁ h₁)]
  refine Session.answers_lift (fun _ _ h => by cases h) fun row hrow => ?_
  have hfound : selectTransaction setup hash db₀ = some row := by
    split at hrow
    next found => exact found.trans (congrArg some (Except.ok.inj hrow))
    next => cases hrow
  obtain ⟨tx, timestamp⟩ := row
  refine Session.answers_lift (fun _ _ h => by cases h) fun fee hfee => ?_
  refine Session.answers_lift (fun _ _ h => by cases h) fun actions hactions => ?_
  refine Session.answers_query fun db₂ _ => ?_
  refine Session.answers_lift (fun _ _ h => by cases h) fun summary hsummary => ?_
  rintro _ ⟨⟩
  refine ⟨tx, timestamp, hfound, hactions, fun hne => ⟨?_, ?_, actions, summary, hactions, ?_⟩⟩
  · exact (transactionActions_ne_nil hactions).mp hne
  · exact calculateTxFee_isOk.mp ⟨fee, hfee⟩
  · exact hsummary

theorem selectTransaction_mem (h : selectTransaction setup hash db = some (tx, timestamp)) :
    tx ∈ db.transactions ∧ tx.hash = hash := by
  obtain ⟨tx', htx', hmem⟩ := List.mem_flatMap.mp (List.mem_of_head? h)
  obtain ⟨block, -, heq⟩ := List.mem_map.mp hmem
  cases heq
  exact ⟨(List.mem_filter.mp htx').1, of_decide_eq_true (List.mem_filter.mp htx').2⟩

/-- A stored transaction is found by its hash. -/
theorem selectTransaction_of_mem (hdb : db.Valid) (htx : tx ∈ db.transactions) :
    ∃ timestamp, selectTransaction setup tx.hash db = some (tx, timestamp) := by
  obtain ⟨block, hblock, hnumber⟩ := List.mem_map.mp (hdb.transactions_block tx htx)
  cases hfound : selectTransaction setup tx.hash db with
  | none =>
    -- The block of the transaction is stored, so that the join is not empty.
    have hempty := List.flatMap_eq_nil_iff.mp (List.head?_eq_none_iff.mp hfound) tx
      (List.mem_filter.mpr ⟨htx, decide_eq_true rfl⟩)
    have hnone := List.filter_eq_nil_iff.mp (List.map_eq_nil_iff.mp hempty) block hblock
    exact absurd (decide_eq_true hnumber) hnone
  | some row =>
    obtain ⟨tx', timestamp⟩ := row
    obtain ⟨hmem, hhash⟩ := selectTransaction_mem hfound
    rw [List.inj_on_of_nodup_map hdb.transactions_hash hmem htx hhash]
    exact ⟨timestamp, rfl⟩

/-- The explanation of a recorded transaction, on its own. -/
theorem explainTransaction_runOn (hfound : selectTransaction setup hash db = some (tx, timestamp))
    (htext : hexDecodeTrimmed text = some hash) (hrecorded : tx.Recorded setup) (now : ℕ) :
    ∃ e, (explainTransaction setup text).runOn ⟨db, [], now⟩ = (.ok e, ⟨db, [], now⟩) ∧
      e.txHash = text ∧ transactionActions tx.context = .ok e.actions ∧ e.actions ≠ [] := by
  obtain ⟨fee, hfee⟩ := calculateTxFee_isOk.mpr hrecorded.fee
  obtain ⟨actions, summary, hactions, hsummary⟩ := hrecorded.summary
  have hne := (transactionActions_ne_nil hactions).mpr hrecorded.acts
  rw [explainTransaction, Session.hexParameter, htext]
  simp only [Session.runOn_bind, Session.runOn_lift, Session.runOn_query, hfound, hfee, hactions,
    hsummary, Session.runOn_pure]
  exact ⟨_, rfl, rfl, rfl, hne⟩

/-- Persisting appends a row for each action. -/
theorem persistActions_served {actions : List TransactionAction} {now : ℕ}
    (hactions : ∀ action ∈ actions, action.Decodable) (htx : db.hasTransaction hash = true) :
    ∃ db', persistActions hash actions ⟨db, [], now⟩ = (.ok (), ⟨db', [], now⟩) ∧
      db'.transactionActions.length = db.transactionActions.length + actions.length := by
  induction actions generalizing db with
  | nil => exact ⟨db, rfl, rfl⟩
  | cons action actions ih =>
    obtain ⟨row, hrow, hhash⟩ := (hactions action List.mem_cons_self).actionRow hash
    obtain ⟨db₁, hinsert, hrows, htx₁⟩ : ∃ db', db.insertTransactionAction row = .ok db' ∧
        db'.transactionActions = db.transactionActions ++ [row db.serials.transactionActions] ∧
        db'.hasTransaction hash = true := by
      rw [Db.insertTransactionAction_eq, hhash]
      exact ⟨_, if_pos htx, rfl, htx⟩
    obtain ⟨db', hpersist, hlength⟩ :=
      ih (fun a ha => hactions a (List.mem_cons_of_mem _ ha)) htx₁
    refine ⟨db', ?_, ?_⟩
    · rw [persistActions, hrow]
      dsimp only
      rw [@PgPool.transact_served ⟨db, [], now⟩ rfl _ _ hinsert]
      exact hpersist
    · rw [hlength, hrows, List.length_append, List.length_singleton, List.length_cons]
      omega

/-- The handler appends actions of a recorded transaction. -/
theorem explainHandler_appends (hfound : selectTransaction setup tx.hash db = some (tx, timestamp))
    (hrecorded : tx.Recorded setup) (now : ℕ) :
    db.transactionActions.length <
      ((explainHandler setup (hexText tx.hash)).runOn
        ⟨db, [], now⟩).2.db.transactionActions.length := by
  obtain ⟨e, hrun, htext, hactions, hne⟩ :=
    explainTransaction_runOn hfound (hexDecodeTrimmed_hexText tx.hash) hrecorded now
  have htransaction : db.hasTransaction tx.hash = true :=
    decide_eq_true (List.mem_map_of_mem (selectTransaction_mem hfound).1)
  obtain ⟨db', hpersist, hlength⟩ := @persistActions_served db tx.hash e.actions now
    (transactionActions_hex tx.context_isHex hactions) htransaction
  rw [explainHandler, Session.runOn_bind, hrun]
  dsimp only
  rw [Session.runOn_ignore_snd, Session.persistTransactionActions_runOn,
    ChainLens.persistTransactionActions, htext, hexBytes, hexDecodeTrimmed_hexText]
  dsimp only
  rw [hpersist]
  dsimp only
  rw [hlength]
  have := List.length_pos_iff.mpr hne
  omega

end Explanation

/-! ## Calls for one block -/

namespace Reprocess

/-- A call that is for the block: the processor's, or a request for a transaction. -/
inductive Call where
  | process
  | explain (text : String)

section System

variable (setup : Setup) (detectors : Detectors) (n : ℕ)

def Call.program : Call → Program
  | .process => (processBlock setup detectors n).run
  | .explain text => (explainHandler setup text).run

/-- A request is for the block if its text is that of a transaction at the height. -/
def Call.Concerns (db : Db) : Call → Prop
  | .process => True
  | .explain text => ∃ tx ∈ db.transactions, tx.blockNumber = saturate i64Max n ∧
      hexDecodeTrimmed text = some tx.hash

/-- The pool, and the calls under way. -/
structure State where
  pool : PgPool
  running : List Program

/-- A call arrives, a call under way goes on, or the conditions of the coming calls change. -/
inductive Event where
  | arrive (call : Call)
  | advance (i : ℕ)
  | conditions (fates : List Fate) (now : ℕ)

/-- The calls go on in any order, one query or statement at a time. -/
inductive Step : State → Event → State → Prop
  | arrive {s : State} {call : Call} : call.Concerns n s.pool.db →
      Step s (.arrive call)
        { s with running := s.running ++ [call.program setup detectors n] }
  | advance {s : State} {i : ℕ} {p p' : Program} {pool : PgPool} : s.running[i]? = some p →
      p.step PgPool.snapshot s.pool = some (p', pool) →
      Step s (.advance i) ⟨pool, s.running.set i p'⟩
  | conditions {s : State} {fates : List Fate} {now : ℕ} :
      Step s (.conditions fates now) { s with pool := { s.pool with fates, now } }

end System

/-- The indexed tables and the actions are as they were. -/
def Kept (pool pool' : PgPool) : Prop :=
  pool.db.SameIndexed pool'.db ∧ pool'.db.transactionActions = pool.db.transactionActions

theorem kept_snapshot (pool : PgPool) : Kept pool pool.snapshot.2 := by
  rw [Kept, PgPool.snapshot_db]
  exact ⟨.refl _, rfl⟩

section Unrecorded

variable {setup : Setup} {detectors : Detectors} {n : ℕ} {db₀ : Db} {inv : Db → Prop}
  {later : Db → Db → Prop} {good : PgPool → PgPool → Prop}

theorem persistNothing {explanation : TransactionExplanation} (h : explanation.actions = [])
    (R : PgPool → PgPool → Prop) :
    (Session.persistTransactionActions explanation).run.Every R fun _ => True := by
  unfold Session.persistTransactionActions
  rw [h]
  cases hexBytes explanation.txHash "invalid tx hash" <;> trivial

/-- The explanation of a transaction that is not recorded lists no action. -/
theorem explainTransaction_unrecorded {text : String} {tx : TransactionRow} (hdb₀ : db₀.Valid)
    (hinv : ∀ db, inv db → db₀.SameIndexed db) (htx : tx ∈ db₀.transactions)
    (htext : hexDecodeTrimmed text = some tx.hash) (hunrecorded : ¬ tx.Recorded setup) :
    (explainTransaction setup text).run.Always PgPool.db later good
      (fun _ r => ∀ e, r = .ok e → e.actions = []) inv := by
  refine (explainTransaction_reads text).always ?_ ?_
  · refine (explainTransaction_answers hinv htext).weaken fun i r _ hr e he => ?_
    obtain ⟨tx', timestamp, hfound, hactions, hrecorded⟩ := hr e he
    obtain ⟨timestamp', hfound'⟩ := @selectTransaction_of_mem setup db₀ tx hdb₀ htx
    cases hfound.symm.trans hfound'
    by_contra hne
    exact hunrecorded (hrecorded hne)
  · rintro i _ ⟨e, rfl⟩
    exact nofun

theorem processBlock_unrecorded (hdb₀ : db₀.Valid)
    (hnone : ∀ tx ∈ db₀.transactions, tx.blockNumber = saturate i64Max n → ¬ tx.Recorded setup)
    (hinv : ∀ db, inv db → db₀.SameIndexed db) :
    (processBlock setup detectors n).run.Always PgPool.db later Kept (fun _ _ => True) inv := by
  apply processBlock_always
  · refine Session.always_selection fun db hdb hash hhash i hi => ?_
    obtain ⟨tx, htx, rfl⟩ := List.mem_map.mp hhash
    obtain ⟨hmem, hnumber⟩ := List.mem_filter.mp htx
    rw [(hinv db hdb).transactions] at hmem
    refine Session.always_handle ((explainTransaction_unrecorded hdb₀
      (fun db' h => hinv db' (hi db' h)) hmem (hexDecodeTrimmed_hexText tx.hash)
      (hnone tx hmem (of_decide_eq_true hnumber))).weaken fun j r _ hr e he => ?_)
    exact (Session.every_ignore (persistNothing (hr e he) _)).always
  -- The statements of the other parts are refused.
  · intro pool pool' h
    rw [Kept, h]
    exact ⟨.refl _, rfl⟩

theorem explainHandler_unrecorded {text : String} {tx : TransactionRow} (hdb₀ : db₀.Valid)
    (hinv : ∀ db, inv db → db₀.SameIndexed db) (htx : tx ∈ db₀.transactions)
    (htext : hexDecodeTrimmed text = some tx.hash) (hunrecorded : ¬ tx.Recorded setup) :
    (explainHandler setup text).run.Always PgPool.db later good (fun _ _ => True) inv := by
  refine Session.always_bind ((explainTransaction_unrecorded hdb₀ hinv htx htext
    hunrecorded).weaken fun i r _ hr => ?_)
  cases r with
  | ok e =>
    exact ((Session.every_ignore (persistNothing (hr e rfl) _)).mono (fun _ _ h => h)
      fun _ _ => trivial).always
  | error e => trivial

/-- Every call for the block keeps the actions. -/
theorem Call.program_unrecorded {call : Call} {db : Db} (hdb₀ : db₀.Valid)
    (hnone : ∀ tx ∈ db₀.transactions, tx.blockNumber = saturate i64Max n → ¬ tx.Recorded setup)
    (hdb : db₀.SameIndexed db) (hcall : call.Concerns n db) :
    (call.program setup detectors n).Always PgPool.db later Kept (fun _ _ => True)
      db₀.SameIndexed := by
  cases call with
  | process => exact processBlock_unrecorded hdb₀ hnone fun _ h => h
  | explain text =>
    obtain ⟨tx, htx, hnumber, htext⟩ := hcall
    rw [hdb.transactions] at htx
    exact explainHandler_unrecorded hdb₀ (fun _ h => h) htx htext (hnone tx htx hnumber)

end Unrecorded

/-! ## When the actions stay -/

section Unchanged

variable {setup : Setup} {detectors : Detectors} {n : ℕ} {db₀ : Db} {s t : State} {e : Event}

/-- The indexed tables and the actions are those of a pool, and the calls under way keep them. -/
structure Quiet (db₀ : Db) (actions : List TransactionActionRow) (s : State) : Prop where
  sameIndexed : db₀.SameIndexed s.pool.db
  actions : s.pool.db.transactionActions = actions
  running : ∀ p ∈ s.running, p.Always PgPool.db (fun _ _ => True) Kept (fun _ _ => True)
    db₀.SameIndexed

theorem quiet_step {actions : List TransactionActionRow} (hdb₀ : db₀.Valid)
    (hnone : ∀ tx ∈ db₀.transactions, tx.blockNumber = saturate i64Max n → ¬ tx.Recorded setup)
    (hs : Quiet db₀ actions s) (h : Step setup detectors n s e t) : Quiet db₀ actions t := by
  cases h with
  | arrive hcall =>
    refine ⟨hs.sameIndexed, hs.actions, fun p hp => ?_⟩
    rcases List.mem_append.mp hp with hp | hp
    · exact hs.running p hp
    · rw [List.mem_singleton.mp hp]
      exact Call.program_unrecorded hdb₀ hnone hs.sameIndexed hcall
  | advance hp hstep =>
    obtain ⟨hkept, hrest⟩ := (hs.running _ (List.mem_of_getElem? hp)).step
      (fun _ _ => PgPool.snapshot_ok) kept_snapshot hs.sameIndexed hstep
    refine ⟨hs.sameIndexed.trans hkept.1, hkept.2.trans hs.actions, fun p hp => ?_⟩
    rcases List.mem_or_eq_of_mem_set hp with hp | rfl
    · exact hs.running p hp
    · rcases hrest with hrest | hrest
      · exact hrest
      · exact hrest.strengthen (fun _ h => ⟨h, trivial⟩) fun _ _ _ _ _ => trivial
  | conditions => exact ⟨hs.sameIndexed, hs.actions, hs.running⟩

/-- A call that runs alone goes on to its end. -/
theorem run_alone (p : Program) (pool : PgPool) :
    ∃ moves s, Run (Step setup detectors n) ⟨pool, [p]⟩ moves s ∧
      s.pool = (p.run PgPool.snapshot pool).2 := by
  induction p generalizing pool with
  | done r => exact ⟨[], _, .nil _, rfl⟩
  | panic message => exact ⟨[], _, .nil _, rfl⟩
  | query next ih =>
    obtain ⟨moves, s, hrun, hpool⟩ := ih pool.snapshot.1 pool.snapshot.2
    exact ⟨_, s, .cons (.advance (i := 0) rfl rfl) hrun, hpool⟩
  | exec stmt next ih =>
    obtain ⟨moves, s, hrun, hpool⟩ := ih (stmt pool).1 (stmt pool).2
    exact ⟨_, s, .cons (.advance (i := 0) rfl rfl) hrun, hpool⟩

/-- **When processing a block again leaves the actions as they are.** After `process_block` ran on
a database, whatever calls for the block follow, and however they interleave, the actions stay
exactly if no transaction at the height is recorded. -/
theorem unchanged_iff (setup : Setup) (detectors : Detectors) (n : ℕ) (pool : PgPool)
    (hvalid : pool.db.Valid) :
    let processed := ((processBlock setup detectors n).runOn pool).2
    (∀ moves s, Run (Step setup detectors n) ⟨processed, []⟩ moves s →
      s.pool.db.transactionActions = processed.db.transactionActions) ↔
    ∀ tx ∈ pool.db.transactions, tx.blockNumber = saturate i64Max n → ¬ tx.Recorded setup := by
  intro processed
  have hsame : pool.db.SameIndexed processed.db := by
    show pool.db.SameIndexed ((processBlock setup detectors n).runOn pool).2.db
    rw [Session.runOn_snd]
    refine processBlock_sameIndexed.run (fun pool => ?_) (fun _ => .refl _)
      (fun _ _ _ h₁ h₂ => h₁.trans h₂) pool
    rw [PgPool.snapshot_db]
  constructor
  -- A request for a recorded transaction, served with nobody else at work, appends its actions.
  · intro h tx htx hnumber hrecorded
    obtain ⟨timestamp, hfound⟩ := @selectTransaction_of_mem setup pool.db tx hvalid htx
    rw [← selectTransaction_congr hsame] at hfound
    have hserved : Step setup detectors n ⟨processed, []⟩ (.conditions [] 0)
        ⟨⟨processed.db, [], 0⟩, []⟩ := .conditions
    have hconcerns : (Call.explain (hexText tx.hash)).Concerns n processed.db :=
      ⟨tx, by rwa [hsame.transactions], hnumber, hexDecodeTrimmed_hexText tx.hash⟩
    have harrive : Step setup detectors n ⟨⟨processed.db, [], 0⟩, []⟩
        (.arrive (.explain (hexText tx.hash)))
        ⟨⟨processed.db, [], 0⟩, [Call.program setup detectors n (.explain (hexText tx.hash))]⟩ :=
      .arrive hconcerns
    obtain ⟨moves, s, hrun, hpool⟩ := @run_alone setup detectors n
      (Call.program setup detectors n (.explain (hexText tx.hash))) ⟨processed.db, [], 0⟩
    have hactions := h _ s (.cons hserved (.cons harrive hrun))
    have hgrow := explainHandler_appends hfound hrecorded 0
    rw [Session.runOn_snd] at hgrow
    rw [hpool, Call.program] at hactions
    rw [hactions] at hgrow
    exact Nat.lt_irrefl _ hgrow
  · intro hnone moves s hrun
    have hquiet : Quiet pool.db processed.db.transactionActions s :=
      @Run.invariant _ _ _ _ _ _ (Quiet pool.db processed.db.transactionActions) (fun _ => True)
        (fun _ _ _ hstep _ hs => quiet_step hvalid hnone hs hstep) hrun (fun _ _ => trivial)
        ⟨hsame, rfl, nofun⟩
    exact hquiet.actions

end Unchanged

/-! ## A transfer of ether, and a call without value -/

/-- A setup on which every timestamp has one text. -/
def plainSetup : Setup where
  timestampText _ := "2020-09-13 12:26:40+00"
  minText := List.head?
  maxText := List.head?
  overflowChecks := false

/-- The source's detectors, with nothing after the calls that they do not get past. -/
def plainDetectors : Detectors := sourceDetectors (fun _ => pure []) fun _ => throw .rowNotFound

/-- A block whose only transaction moves an amount of wei. -/
def valueBlock (value : U256) : IndexedBlock where
  block := BatchLog.indexed.block
  transactions := BatchLog.indexed.transactions.map fun tx => { tx with value }
  logs := []
  tokenTransfers := []

/-- A database with this block only. -/
def valuePool (value : U256) : PgPool := ⟨Db.migrated.committed (valueBlock value) 0, [], 0⟩

theorem valuePool_valid (value : U256) : (valuePool value).db.Valid := by
  have hcoherent : (valueBlock value).Coherent := by
    refine ⟨?_, nofun, nofun⟩
    simp [valueBlock, BatchLog.indexed]
  have htime : (valueBlock value).block.timestamp < 9224318016000 := by
    show BatchLog.indexed.block.timestamp < 9224318016000
    decide
  exact Db.valid_migrated.commitBlock (Db.commitBlock_isOk hcoherent htime
    (fun _ hrow _ => absurd hrow List.not_mem_nil) 0)

/-- What processing the block leaves. -/
def valueProcessed (value : U256) : PgPool :=
  ((processBlock plainSetup plainDetectors 7).runOn (valuePool value)).2

/-- Processing a block with half an ether again appends a second row for the transfer. -/
theorem processed_twice :
    let again := ((processBlock plainSetup plainDetectors 7).runOn
      (valueProcessed 500000000000000000)).2
    (valueProcessed 500000000000000000).db.transactionActions.map (·.description) =
        ["Transferred 0.500000 ETH"] ∧
      again.db.transactionActions.map (·.description) =
        ["Transferred 0.500000 ETH", "Transferred 0.500000 ETH"] := by
  decide +kernel

theorem valuePool_transactions (value : U256) : ∀ tx ∈ (valuePool value).db.transactions,
    tx.value = u256ToNumeric value ∧ tx.input = [] ∧ tx.toAddr ≠ none := by
  intro tx htx
  cases List.mem_singleton.mp htx
  exact ⟨rfl, rfl, nofun⟩

/-- A block without value or calldata leaves no action, however often it is processed. -/
theorem plainCall_unchanged :
    (valueProcessed 0).db.transactionActions = [] ∧ ∀ moves s,
      Run (Step plainSetup plainDetectors 7) ⟨valueProcessed 0, []⟩ moves s →
        s.pool.db.transactionActions = (valueProcessed 0).db.transactionActions := by
  refine ⟨by decide +kernel, ?_⟩
  unfold valueProcessed
  apply (unchanged_iff plainSetup plainDetectors 7 (valuePool 0) (valuePool_valid 0)).mpr
  intro tx htx _ hrecorded
  obtain ⟨hvalue, hinput, hto⟩ := valuePool_transactions 0 tx htx
  have hzero : u256ToNumeric 0 = "0" := by decide +kernel
  rcases hrecorded.acts with ⟨hnone, -⟩ | ⟨hlength, -⟩ | ⟨-, hne⟩
  · exact hto (Option.map_eq_none_iff.mp hnone)
  · have hnil : tx.context.input = [] := hinput
    rw [hnil] at hlength
    exact absurd hlength (by decide)
  · exact hne (hvalue.trans hzero)

end Reprocess

end ChainLens
