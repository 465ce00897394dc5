import ChainLens.Indexer.Surviving
import ChainLens.Intelligence.Calldata

/-!
# Where action rows come from

A request reads a transaction in one query and inserts its actions in later statements, one by
one. In between the loop may roll the block back, store it again, or store another block with the
same transaction. Whatever the order, a row of the actions is that of a transaction which a commit
of the same run stored.

## Main definitions

* `TransactionRow.Acted`: the row records an action of the transaction
* `Service.Sourced`: the invariant, with a condition on the requests under way

## Main results

* `PoolRequest.program_known`: a request inserts actions of the transactions it has seen
* `Service.actions_of_run`: the rows of the actions after any run
-/

namespace ChainLens

open Transition

/-- The row, up to its serial number, is that of an action of the transaction. -/
def TransactionRow.Records (tx : TransactionRow) (make : ℕ → TransactionActionRow) : Prop :=
  ∃ actions, transactionActions tx.context = .ok actions ∧
    ∃ action ∈ actions, actionRow tx.hash action = .ok make

/-- The row records an action of the transaction. -/
def TransactionRow.Acted (tx : TransactionRow) (row : TransactionActionRow) : Prop :=
  ∃ make, tx.Records make ∧ row = make row.id

/-- The row records an action of a transaction of a set. -/
def RecordsKnown (known : TransactionRow → Prop) (make : ℕ → TransactionActionRow) : Prop :=
  ∃ tx, known tx ∧ tx.Records make

/-- Action rows are only added, for transactions of a set. -/
def Db.GainsActions (known : TransactionRow → Prop) (db db' : Db) : Prop :=
  ∀ row ∈ db'.transactionActions, row ∈ db.transactionActions ∨ ∃ tx, known tx ∧ tx.Acted row

/-- The row of an action has the hash and the serial number it is made with. -/
theorem actionRow_make {txHash : Bytes} {action : TransactionAction}
    {make : ℕ → TransactionActionRow} (h : actionRow txHash action = .ok make) (id : ℕ) :
    (make id).id = id ∧ (make id).txHash = txHash := by
  simp only [actionRow, bind, Except.bind] at h
  split at h
  · cases h
  split at h
  · cases h
  split at h
  · cases h
  split at h
  · cases h
  cases h
  exact ⟨rfl, rfl⟩

namespace TransactionRow

variable {tx : TransactionRow} {make : ℕ → TransactionActionRow}

theorem Records.acted (h : tx.Records make) (id : ℕ) : tx.Acted (make id) := by
  obtain ⟨actions, hactions, action, haction, hrow⟩ := h
  refine ⟨make, ⟨actions, hactions, action, haction, hrow⟩, ?_⟩
  rw [(actionRow_make hrow id).1]

end TransactionRow

section Requests

variable {setup : Setup} {analyses : Analyses} {known : TransactionRow → Prop} {inv : Db → Prop}
  {later : Db → Db → Prop} {db db' : Db}

theorem Db.GainsActions.of_eq (h : db'.transactionActions = db.transactionActions) :
    db.GainsActions known db' :=
  fun _ hrow => Or.inl (h ▸ hrow)

/-- A statement that is persisted adds an action row of a known transaction, or none. -/
theorem Persisted.gainsActions {pool pool' : PgPool}
    (h : Persisted (RecordsKnown known) pool pool') : pool.db.GainsActions known pool'.db := by
  rcases h.cases_db with ⟨make, ⟨tx, hknown, hrecords⟩, rfl⟩ | hsame
  · refine pool.transact_preserves (fun db hok => ?_) (.of_eq rfl)
    rw [Db.insertTransactionAction_eq] at hok
    split at hok <;> cases hok
    intro row hmem
    rcases List.mem_append.mp hmem with hold | hnew
    · exact Or.inl hold
    · rw [List.mem_singleton.mp hnew]
      exact Or.inr ⟨tx, hknown, hrecords.acted _⟩
  · rw [hsame]
    exact .of_eq rfl

/-! ## What a request inserts -/

/-- The actions of an explanation are those of a known transaction. -/
def TransactionExplanation.OfKnown (known : TransactionRow → Prop)
    (explanation : TransactionExplanation) : Prop :=
  ∃ tx, known tx ∧ hexDecodeTrimmed explanation.txHash = some tx.hash ∧
    transactionActions tx.context = .ok explanation.actions

/-- **An explanation is of a transaction that was seen.** -/
theorem explainTransaction_ofKnown (text : String)
    (hinv : ∀ db, inv db → ∀ tx ∈ db.transactions, known tx) :
    (explainTransaction setup text).run.Always PgPool.db later
      (fun pool pool' => pool.db.GainsActions known pool'.db)
      (fun _ r => ∀ e : ExplainedTransaction, r = .ok e → e.toTransactionExplanation.OfKnown known)
      inv := by
  refine (explainTransaction_reads text).always ?_ ?_
  · rw [explainTransaction]
    refine Session.answers_lift (fun _ _ h => by cases h) fun hash hhash => ?_
    refine Session.answers_query fun db hdb => ?_
    refine Session.answers_lift (fun _ _ h => by cases h) fun found hfound => ?_
    obtain ⟨tx, timestamp⟩ := found
    have hselected : selectTransaction setup hash db = some (tx, timestamp) := by
      split at hfound
      next hrow => exact hrow.trans (congrArg some (Except.ok.inj hfound))
      next => cases hfound
    obtain ⟨hmem, hsame⟩ := selectTransaction_mem hselected
    refine Session.answers_lift (fun _ _ h => by cases h) fun fee _ => ?_
    refine Session.answers_lift (fun _ _ h => by cases h) fun actions hactions => ?_
    refine Session.answers_query fun db₂ _ => ?_
    refine Session.answers_lift (fun _ _ h => by cases h) fun summary _ => ?_
    rintro _ ⟨⟩
    refine ⟨tx, hinv db hdb tx hmem, ?_, hactions⟩
    rw [hsame]
    split at hhash
    next bytes hbytes => exact hbytes.trans (congrArg some (Except.ok.inj hhash))
    next => cases hhash
  · rintro i _ ⟨e, rfl⟩ explained h
    cases h

/-- The actions of the explanation are persisted. -/
theorem persistTransactionActions_gains {explanation : TransactionExplanation}
    (h : explanation.OfKnown known) :
    (Session.persistTransactionActions explanation).run.Every
      (fun pool pool' => pool.db.GainsActions known pool'.db) fun _ => True := by
  obtain ⟨tx, hknown, hhash, hactions⟩ := h
  refine (@persistTransactionActions_persists (RecordsKnown known) explanation ?_).mono
    (fun _ _ h => h.gainsActions) fun _ h => h
  intro hash hsame action haction row hrow
  obtain rfl := Option.some.inj (hhash.symm.trans hsame)
  exact ⟨tx, hknown, _, hactions, action, haction, hrow⟩

/-- **A request inserts actions of the transactions it has seen.** -/
theorem PoolRequest.program_known (request : PoolRequest)
    (hinv : ∀ db, inv db → ∀ tx ∈ db.transactions, known tx) :
    (request.program setup analyses).Always PgPool.db later
      (fun pool pool' => pool.db.GainsActions known pool'.db) (fun _ _ => True) inv := by
  by_cases hexplains : request.Explains
  · cases request with
    | processBlock blockNumber =>
      refine Session.always_then (Session.always_selection fun db _ hash _ i hi => ?_) fun _ _ => ?_
      · refine Session.always_handle ((explainTransaction_ofKnown _ fun db hdb =>
          hinv db (hi db hdb)).weaken fun j r _ hr e he => ?_)
        exact (Session.every_ignore (persistTransactionActions_gains (hr e he))).always
      · exact (processRest_persists.mono (fun _ _ h => Persisted.gainsActions h)
          fun _ h => h).always
    | explainTransaction text =>
      refine Session.always_bind ((explainTransaction_ofKnown text hinv).weaken fun i r _ hr => ?_)
      cases r with
      | ok e =>
        exact ((Session.every_ignore (persistTransactionActions_gains (hr e rfl))).mono
          (fun _ _ h => h) fun _ _ => trivial).always
      | error e => trivial
    | _ => exact hexplains.elim
  · exact ((PoolRequest.program_persists_other hexplains).mono
      (fun _ _ h => Persisted.gainsActions h) fun _ h => h).always

end Requests

/-! ## Every run -/

namespace Service

variable {cfg : Config} {setup : Setup} {analyses : Analyses} {known : TransactionRow → Prop}
  {moves : List (Move State Event)} {s t : State} {e : Event}

/-- The stored transactions are known, the action rows are theirs, and the requests under way insert
actions of known transactions only. -/
structure Sourced (known : TransactionRow → Prop) (s : State) : Prop where
  sound : Sound s
  transactions : ∀ tx ∈ s.indexer.db.transactions, known tx
  actions : ∀ row ∈ s.indexer.db.transactionActions, ∃ tx, known tx ∧ tx.Acted row
  running : ∀ p ∈ s.running, p.Always PgPool.db (fun _ _ => True)
    (fun pool pool' => pool.db.GainsActions known pool'.db) (fun _ _ => True)
    fun db => ∀ tx ∈ db.transactions, known tx

/-- A move of the loop brings the transactions of the block it stores, and no action. -/
theorem known_main {s t : Indexer.State} {e : Indexer.Event} (h : Indexer.Step cfg s e t)
    (hvalid : s.db.Valid)
    (hstores : ∀ indexed, Indexer.Stores ⟨s, e, t⟩ indexed →
      ∀ tx ∈ indexed.transactionRows, known tx)
    (hknown : ∀ tx ∈ s.db.transactions, known tx) :
    (∀ tx ∈ t.db.transactions, known tx) ∧
      ∀ row ∈ t.db.transactionActions, row ∈ s.db.transactionActions := by
  rcases Indexer.step_changes h with hsame | ⟨indexed, hstored⟩ | ⟨event, now, hrollback⟩
  · rw [hsame]
    exact ⟨hknown, fun _ hrow => hrow⟩
  · obtain ⟨now, hdb⟩ := hstored.db h
    rw [Db.commitBlock_eq hdb]
    refine ⟨fun tx htx => ?_, fun _ hrow => hrow⟩
    rcases Table.mem_of_mem_insertAll htx with htx | htx
    · exact hknown tx htx
    · exact hstores indexed hstored tx htx
  · rw [hrollback, Db.rollback_transactions hvalid, Db.rollback_transactionActions hvalid]
    exact ⟨fun tx htx => hknown tx (List.mem_of_mem_filter htx),
      fun _ hrow => List.mem_of_mem_filter hrow⟩

theorem sourced_step (h : Step cfg setup analyses s e t)
    (hstores : ∀ indexed, Stores ⟨s, e, t⟩ indexed → ∀ tx ∈ indexed.transactionRows, known tx)
    (hs : Sourced known s) : Sourced known t := by
  have hsound := sound_step h hs.sound
  cases h with
  | main hmain =>
    obtain ⟨htransactions, hactions⟩ := known_main hmain hs.sound.valid
      (fun indexed hstored => hstores indexed (.intro hstored)) hs.transactions
    exact ⟨hsound, htransactions, fun row hrow => hs.actions row (hactions row hrow), hs.running⟩
  | @arrive request =>
    refine ⟨hsound, hs.transactions, hs.actions, fun p hp => ?_⟩
    rcases List.mem_append.mp hp with hp | hp
    · exact hs.running p hp
    · rw [List.mem_singleton.mp hp]
      exact request.program_known fun _ h => h
  | @advance i fates now p p' pool hp hstep =>
    have hmem := List.mem_of_getElem? hp
    obtain ⟨hgains, hrest⟩ := (hs.running p hmem).step (fun _ _ => PgPool.snapshot_ok)
      (fun pool => by rw [PgPool.snapshot_db]; exact .of_eq rfl) hs.transactions hstep
    have hsame := Db.sameIndexed_of_bare
      (advance_confined (hs.sound.running p hmem) hstep).1.bare
    refine ⟨hsound, fun tx htx => ?_, fun row hrow => ?_, fun p hp => ?_⟩
    · exact hs.transactions tx (hsame.transactions ▸ htx)
    · rcases hgains row hrow with hold | hnew
      · exact hs.actions row hold
      · exact hnew
    · rcases List.mem_or_eq_of_mem_set hp with hp | rfl
      · exact hs.running p hp
      · rcases hrest with hrest | hrest
        · exact hrest
        -- What the query has seen is not needed later on.
        · exact hrest.strengthen (fun _ h => ⟨h, trivial⟩) fun _ _ _ _ _ => trivial
  | abandon =>
    exact ⟨hsound, hs.transactions, hs.actions,
      fun p hp => hs.running p (List.mem_of_mem_eraseIdx hp)⟩

/-- After any run the stored transactions are in blocks that moves of the run stored. -/
theorem sourced_run (hrun : Run (Step cfg setup analyses) initial moves s) :
    Sourced (fun tx => ∃ move ∈ moves, ∃ indexed, Stores move indexed ∧
      tx ∈ indexed.transactionRows) s := by
  let known (tx : TransactionRow) : Prop :=
    ∃ move ∈ moves, ∃ indexed, Stores move indexed ∧ tx ∈ indexed.transactionRows
  let allowed (move : Move State Event) : Prop := move ∈ moves
  have hkeep : ∀ s e t, Step cfg setup analyses s e t → allowed ⟨s, e, t⟩ → Sourced known s →
      Sourced known t := fun s e t hstep hmove hs =>
    sourced_step hstep (fun indexed hstored tx htx => ⟨_, hmove, indexed, hstored, htx⟩) hs
  have hstart : Sourced known initial := ⟨sound_initial, nofun, nofun, nofun⟩
  exact hrun.invariant hkeep (fun _ hmove => hmove) hstart

/-- **Where action rows come from**: after any run, with requests and rollbacks in any order, every
action row is that of an action of a transaction in a block that a move of the run stored, and a
transaction with its hash is stored still. -/
theorem actions_of_run (hrun : Run (Step cfg setup analyses) initial moves s) :
    ∀ row ∈ s.indexer.db.transactionActions,
      (∃ move ∈ moves, ∃ indexed, Stores move indexed ∧
        ∃ tx ∈ indexed.transactionRows, tx.Acted row) ∧
      ∃ tx ∈ s.indexer.db.transactions, tx.hash = row.txHash := by
  have hs := sourced_run hrun
  intro row hrow
  obtain ⟨tx, ⟨move, hmove, indexed, hstored, htx⟩, hacted⟩ := hs.actions row hrow
  refine ⟨⟨move, hmove, indexed, hstored, tx, htx, hacted⟩, ?_⟩
  exact List.mem_map.mp (hs.sound.valid.transactionActions_tx row hrow)

/-- The transaction is indexed and explained, and its action is persisted. -/
theorem actions_logged : ∃ moves s, Run (Step (Indexer.smallConfig 1 1) Reprocess.plainSetup
      plainAnalyses) initial moves s ∧
    ∃ row ∈ s.indexer.db.transactionActions, ∃ move ∈ moves, ∃ indexed, Stores move indexed ∧
      ∃ tx ∈ indexed.transactionRows, tx.Acted row := by
  obtain ⟨before, hbefore, -⟩ := run_stored
  have hvalid : Logged.db.Valid := (sound_run hbefore sound_initial).valid
  have hmem : loggedRow ∈ Logged.db.transactions := List.mem_singleton_self loggedRow
  obtain ⟨timestamp, hfound⟩ := @selectTransaction_of_mem Reprocess.plainSetup _ _ hvalid hmem
  obtain ⟨moves, db, running, hexplained, -, row, hrow⟩ := @run_explained (Indexer.smallConfig 1 1)
    _ plainAnalyses _ _ _ hfound loggedRow_recorded (.receiving 1 [])
  have hrun := hbefore.append hexplained
  exact ⟨_, _, hrun, row, hrow, (actions_of_run hrun row hrow).1⟩

end Service

end ChainLens
