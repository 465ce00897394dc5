import ChainLens.Indexer.Service
import ChainLens.Reorg.Ledger

/-!
# What a run leaves in the tables

Over a run of the service blocks are stored and rolled back, calls are repeated after lost
acknowledgements, the process is stopped and started again, and requests come and go. As long as
every block repeats what is stored at its height, or is at a free one and has no transaction that
is stored at a greater height, the tables of the chain hold in the end what a new database holds
that was only ever given the blocks that are left. On a chain that never changes every block meets
this, so that the content of the tables is decided by the stored heights. The index of addresses
and the record of reorgs are never cut: the first row of a key stays, whatever comes after it.

## Main definitions

* `Indexer.Stores`, `Service.Stores`: a move makes a block durable
* `Service.Admitted`: the block a move makes durable is admitted
* `Service.StoredBy`: the blocks that the moves of a run make durable
* `Contents`, `Service.Event.Holds`: what a chain that never changes decodes to, and a node with it

## Main results

* `Service.surviving_of_admitted`: every run whose blocks are admitted
* `Service.sameChain_of_hashes`: the stored hashes decide the content of the tables
* `Service.contents_of_holds`: every run on a chain that never changes
* `Service.appendOnly_of_run`: the address index and the record of reorgs over a run
-/

namespace ChainLens

open Transition

/-! ## A chain that never changes -/

/-- What the blocks of a chain decode to. Every block is at its own height, and no transaction is
in two of them. -/
structure Contents where
  head : ℕ
  block : ℕ → IndexedBlock
  head_le : head ≤ i64Max
  number_eq : ∀ n ≤ head, (block n).block.number = n
  apart : ∀ m ≤ head, ∀ n ≤ head, ∀ t ∈ (block m).transactions, ∀ t' ∈ (block n).transactions,
    t.hash = t'.hash → m = n

/-- Whatever replies of the node decode, decode to the contents. -/
def EthClient.Holds (client : EthClient) (contents : Contents) : Prop :=
  ∀ n block receipts indexed, client.getBlockByNumber n true = .ok (some block) →
    fetchReceipts client n block = .ok receipts → decodeBlock block receipts = .ok indexed →
      n ≤ contents.head ∧ indexed = contents.block n

namespace Contents

variable (contents : Contents) {n : ℕ} {ledger : List IndexedBlock}

theorem height_eq (hn : n ≤ contents.head) : (contents.block n).height = n := by
  rw [IndexedBlock.height, contents.number_eq n hn]
  exact saturate_of_le (hn.trans contents.head_le)

/-- The blocks of the chain admit each other. -/
theorem admits {db : Db} (hshows : db.Shows ledger)
    (hledger : ∀ b ∈ ledger, ∃ m ≤ contents.head, b = contents.block m) (hn : n ≤ contents.head)
    (hcoherent : (contents.block n).Coherent) : db.Admits (contents.block n) where
  repeated htaken := by
    rw [hshows.heights_eq] at htaken
    obtain ⟨b, hb, hheight⟩ := List.mem_map.mp htaken
    obtain ⟨m, hm, rfl⟩ := hledger b hb
    -- The only block of that height is the block itself.
    rw [contents.height_eq hm, contents.height_eq hn] at hheight
    subst hheight
    rw [hshows.transactions, hshows.logs, hshows.tokenTransfers]
    refine ⟨fun row hrow => ?_, fun row hrow => ?_, fun row hrow => ?_⟩ <;>
      exact Table.key_mem_insertAll (List.mem_flatMap.mpr ⟨_, hb, hrow⟩)
  ordered _ row hrow stored hstored hhash := by
    rw [hshows.transactions] at hstored
    obtain ⟨b, hb, hstored⟩ := Ledger.mem_table _ _ hstored
    obtain ⟨m, hm, rfl⟩ := hledger b hb
    have hheight := IndexedBlock.transactionRows_height (hshows.coherent _ hb) stored hstored
    have hheight' := IndexedBlock.transactionRows_height hcoherent row hrow
    obtain ⟨t, ht, rfl⟩ := List.mem_map.mp hrow
    obtain ⟨t', ht', rfl⟩ := List.mem_map.mp hstored
    have hsame := contents.apart m hm n hn t' ht' t ht (FixedBytes.ext hhash)
    subst hsame
    rw [hheight, hheight']

/-- The blocks of the stored heights are in the ledger. -/
theorem mem_ledger {db : Db} (hshows : db.Shows ledger)
    (hledger : ∀ b ∈ ledger, ∃ m ≤ contents.head, b = contents.block m) :
    ∀ n ∈ db.blocks.map (·.number), n ≤ contents.head ∧ contents.block n ∈ ledger := by
  intro n hn
  rw [hshows.heights_eq] at hn
  obtain ⟨b, hb, hheight⟩ := List.mem_map.mp hn
  obtain ⟨m, hm, rfl⟩ := hledger b hb
  rw [contents.height_eq hm] at hheight
  exact hheight ▸ ⟨hm, hb⟩

/-- A ledger of blocks of the chain is given by its heights. -/
theorem ledger_eq {db : Db} (hshows : db.Shows ledger)
    (hledger : ∀ b ∈ ledger, ∃ m ≤ contents.head, b = contents.block m) :
    ledger = db.blocks.map fun row => contents.block row.number := by
  have hheights : (db.blocks.map fun row => contents.block row.number) =
      (ledger.map IndexedBlock.height).map contents.block := by
    rw [← hshows.heights_eq, List.map_map]
    rfl
  rw [hheights, List.map_map]
  refine (List.map_id ledger).symm.trans (List.map_congr_left fun b hb => ?_)
  obtain ⟨m, hm, rfl⟩ := hledger b hb
  exact congrArg contents.block (contents.height_eq hm).symm

end Contents

namespace Indexer

/-- The node of a call holds the contents. -/
def Event.Holds (contents : Contents) : Event → Prop
  | .commit client _ _ => client.Holds contents
  | _ => True

/-! ## One move -/

/-- A move makes a block durable, acknowledged or not, that its call decoded from the replies. -/
inductive Stores : Move State Event → IndexedBlock → Prop where
  | intro {s t : State} {e : Event} {client : EthClient} {store : PostgresStore} {n now : ℕ}
      {block : BlockResponse} {receipts : List ReceiptResponse} {indexed : IndexedBlock}
      (hcalls : Calls ⟨s, e, t⟩ client store n)
      (hblock : client.getBlockByNumber n true = .ok (some block))
      (hreceipts : fetchReceipts client n block = .ok receipts)
      (hdecode : decodeBlock block receipts = .ok indexed)
      (hdb : store.db.commitBlock indexed now = .ok t.db) : Stores ⟨s, e, t⟩ indexed

section Step

variable {cfg : Config} {s t : State} {e : Event} {indexed : IndexedBlock}

theorem Stores.coherent {move : Move State Event} (h : Stores move indexed) :
    indexed.Coherent := by
  cases h with
  | intro _ _ _ hdecode => exact decodeBlock_coherent hdecode

/-- What the database is after a block was made durable. -/
theorem Stores.db (hstores : Stores ⟨s, e, t⟩ indexed) (h : Step cfg s e t) :
    ∃ now, s.db.commitBlock indexed now = .ok t.db := by
  cases hstores with
  | intro hcalls _ _ _ hdb => exact ⟨_, (hcalls.db h).1 ▸ hdb⟩

/-- **What a move does to the database**: nothing, or it makes a block durable, or a rollback. -/
theorem step_changes (h : Step cfg s e t) :
    t.db = s.db ∨ (∃ indexed, Stores ⟨s, e, t⟩ indexed) ∨
      ∃ event now, t.db = s.db.rollback event now := by
  rcases next_db h with hsame | ⟨client, store, n, hcalls⟩
  · exact Or.inl hsame
  · obtain ⟨hbefore, hafter⟩ := hcalls.db h
    have hstep := @commitBlock_step client store n cfg.maxReorgDepth
    rw [← hafter] at hstep
    generalize (commitBlock client store n cfg.maxReorgDepth).1 = result at hstep
    generalize hdb : t.db = db at hstep
    cases hstep with
    | failed => exact Or.inl hbefore
    | rolledBack => exact Or.inr (Or.inr ⟨_, _, by rw [← hbefore]⟩)
    | committed hblock _ hreceipts hdecode hcommit =>
      exact Or.inr (Or.inl ⟨_, .intro hcalls hblock hreceipts hdecode (hdb ▸ hcommit)⟩)

/-- A block that is stored from a node with the contents is a block of the chain. -/
theorem Stores.of_holds {contents : Contents} (hstores : Stores ⟨s, e, t⟩ indexed)
    (hholds : e.Holds contents) : ∃ n ≤ contents.head, indexed = contents.block n := by
  cases hstores with
  | intro hcalls hblock hreceipts hdecode =>
    cases hcalls
    exact ⟨_, hholds _ _ _ _ hblock hreceipts hdecode⟩

/-- **One move and the ledger**: a move whose block is admitted leaves a ledger of earlier blocks
and the one it stored. -/
theorem shows_step {ledger : List IndexedBlock} (h : Step cfg s e t)
    (hadmitted : ∀ indexed, Stores ⟨s, e, t⟩ indexed → s.db.Admits indexed) (hvalid : s.db.Valid)
    (hs : s.db.Shows ledger) :
    ∃ ledger', t.db.Shows ledger' ∧
      ∀ indexed ∈ ledger', indexed ∈ ledger ∨ Stores ⟨s, e, t⟩ indexed := by
  rcases step_changes h with hsame | ⟨indexed, hstores⟩ | ⟨event, now, hrollback⟩
  · exact ⟨ledger, hsame ▸ hs, fun _ => Or.inl⟩
  · obtain ⟨now, hdb⟩ := hstores.db h
    have htime := Db.timestamp_lt_of_commitBlock hdb
    refine ⟨Ledger.apply IndexedBlock.height ledger (.extend indexed), ?_, fun b hb => ?_⟩
    · rw [Db.commitBlock_eq hdb]
      exact hs.commitBlock hstores.coherent htime (hadmitted indexed hstores) now
    · rcases Ledger.mem_of_mem_apply hb with hb | hb
      · exact Or.inl hb
      · cases hb
        exact Or.inr hstores
  · refine ⟨Ledger.apply IndexedBlock.height ledger (.cut event.commonAncestor), ?_,
      fun b hb => Or.inl ?_⟩
    · exact hrollback ▸ hs.rollback hvalid event now
    · exact List.mem_of_mem_filter hb

/-- In one move the address index and the record of reorgs only get rows at their ends: the rows
of the stored block that are new, and one row for a rollback. -/
theorem appendOnly_step (h : Step cfg s e t) :
    s.db.addressTransactions <+: t.db.addressTransactions ∧ s.db.reorgs <+: t.db.reorgs ∧
      ∀ indexed, Stores ⟨s, e, t⟩ indexed → t.db.addressTransactions =
        Table.insertAll AddressTransactionRow.key s.db.addressTransactions
          (indexed.transactions.flatMap addressTransactionRows) := by
  have hstored : ∀ indexed, Stores ⟨s, e, t⟩ indexed →
      t.db.addressTransactions = Table.insertAll AddressTransactionRow.key
          s.db.addressTransactions (indexed.transactions.flatMap addressTransactionRows) ∧
        t.db.reorgs = s.db.reorgs := by
    intro indexed hstores
    obtain ⟨now, hdb⟩ := hstores.db h
    rw [Db.commitBlock_eq hdb]
    exact ⟨rfl, rfl⟩
  refine ⟨?_, ?_, fun indexed hstores => (hstored indexed hstores).1⟩
  · rcases step_changes h with hsame | ⟨indexed, hstores⟩ | ⟨event, now, hrollback⟩
    · exact hsame ▸ List.prefix_rfl
    · rw [(hstored indexed hstores).1, ← Table.append_added]
      exact List.prefix_append _ _
    · rw [hrollback]
      exact List.prefix_rfl
  · rcases step_changes h with hsame | ⟨indexed, hstores⟩ | ⟨event, now, hrollback⟩
    · exact hsame ▸ List.prefix_rfl
    · exact (hstored indexed hstores).2 ▸ List.prefix_rfl
    · rw [hrollback]
      exact List.prefix_append _ _

end Step

end Indexer

/-! ## Empty blocks -/

/-- What the block of a numbered chain decodes to. -/
def branchIndexed (branch : ℕ → UInt8) (n : ℕ) : IndexedBlock where
  block := {
    number := n
    hash := branchHash (branch n) n
    parentHash := branchHash (branch (n - 1)) (n - 1)
    timestamp := 1600000000
    miner := .zero 20
    gasUsed := 0
    gasLimit := 30000000
    baseFeePerGas := none
    txCount := 0 }
  transactions := []
  logs := []
  tokenTransfers := []

theorem decodeBlock_branchBlock (branch : ℕ → UInt8) (n : ℕ) :
    decodeBlock (branchBlock branch n) [] = .ok (branchIndexed branch n) := rfl

/-- The contents of a numbered chain. -/
def Contents.numbered (branch : ℕ → UInt8) (head : ℕ) (hhead : head < 256) : Contents where
  head := head
  block := branchIndexed branch
  head_le := by unfold i64Max; omega
  number_eq _ _ := rfl
  apart _ _ _ _ _ ht := absurd ht List.not_mem_nil

theorem EthClient.serving_holds (branch : ℕ → UInt8) (head : ℕ) (hhead : head < 256) :
    (EthClient.serving (.numbered branch head hhead)).Holds (.numbered branch head hhead) := by
  intro n block receipts indexed hblock hreceipts hdecode
  obtain ⟨hn, rfl⟩ := (EthClient.serving_serves _).follows _ _ _ hblock
  cases hreceipts
  cases hdecode.symm.trans (decodeBlock_branchBlock branch n)
  exact ⟨hn, rfl⟩

/-- A block without transactions, logs and transfers meets every condition. -/
theorem Db.admits_branchIndexed (db : Db) (branch : ℕ → UInt8) (n : ℕ) :
    db.Admits (branchIndexed branch n) where
  repeated _ := ⟨fun _ h => absurd h List.not_mem_nil, fun _ h => absurd h List.not_mem_nil,
    fun _ h => absurd h List.not_mem_nil⟩
  ordered _ _ h := absurd h List.not_mem_nil

/-! ## Blocks with transactions -/

namespace Traded

/-- The hash of the transaction of a block. -/
def transactionHash (branch : ℕ → UInt8) (n : ℕ) : B256 :=
  ⟨List.replicate 29 0 ++ [2, branch n, UInt8.ofNat n], by simp⟩

/-- The contracts of the logs of a block, with the topic of each. -/
def sites : List (Address × B256) :=
  [(.withLastByte 19 3, .withLastByte 31 4), (.withLastByte 19 3, .withLastByte 31 5),
    (.withLastByte 19 6, .withLastByte 31 4), (.withLastByte 19 3, .withLastByte 31 4)]

section Chain

variable (branch : ℕ → UInt8) (n : ℕ)

/-- A transfer of one wei, between the same two accounts in every block. -/
def transaction : TransactionResponse :=
  { BatchLog.transaction with hash := transactionHash branch n, value := 1 }

def receipt : ReceiptResponse :=
  { BatchLog.receipt with
    transactionHash := transactionHash branch n
    blockHash := branchHash (branch n) n
    blockNumber := n
    logs := sites.zipIdx.map fun ((address, topic), index) =>
      { BatchLog.rawLog with
        address
        topics := [topic]
        data := []
        blockNumber := n
        transactionHash := transactionHash branch n
        blockHash := branchHash (branch n) n
        logIndex := index } }

def block : BlockResponse :=
  { branchBlock branch n with gasUsed := 21000, transactions := [transaction branch n] }

/-- What a block decodes to. -/
def indexed : IndexedBlock where
  block := { (branchIndexed branch n).block with gasUsed := 21000, txCount := 1 }
  transactions := BatchLog.indexed.transactions.map fun t =>
    { t with hash := transactionHash branch n, blockNumber := n, value := 1 }
  logs := sites.zipIdx.map fun ((address, topic), index) => {
    blockNumber := n
    logIndex := index
    txHash := transactionHash branch n
    address
    topic0 := some topic
    topic1 := none
    topic2 := none
    topic3 := none
    data := [] }
  tokenTransfers := []

/-- A node with the blocks up to its head. -/
def client (head : ℕ) : EthClient where
  getBlockByNumber n _ := .ok (if n ≤ head then some (block branch n) else none)
  getBlockReceipts n := .ok [receipt branch n]
  getTransactionReceipt _ := .ok none
  supportsBlockReceipts := true

end Chain

def plain (_ : ℕ) : UInt8 := 1

theorem decodeBlock_eq : ∀ n ≤ 2,
    decodeBlock (block plain n) [receipt plain n] = .ok (indexed plain n) := by decide +kernel

/-- Three blocks with a transaction and four logs each. -/
def contents : Contents where
  head := 2
  block := indexed plain
  head_le := by decide
  number_eq _ _ := rfl
  apart := by decide +kernel

theorem client_holds : (client plain 2).Holds contents := by
  intro n block receipts decoded hblock hreceipts hdecode
  by_cases hn : n ≤ 2
  · have hserved : (client plain 2).getBlockByNumber n true =
        .ok (some (Traded.block plain n)) := by simp [client, hn]
    cases hserved.symm.trans hblock
    cases hreceipts
    cases hdecode.symm.trans (decodeBlock_eq n hn)
    exact ⟨hn, rfl⟩
  · have hnone : (client plain 2).getBlockByNumber n true = .ok none := by simp [client, hn]
    cases hnone.symm.trans hblock

/-- The store with the blocks up to a height. -/
def stored : ℕ → Db
  | 0 => Db.migrated.committed (indexed plain 0) 0
  | n + 1 => (stored n).committed (indexed plain (n + 1)) 0

/-- A chain that forks from the plain one above height 0. -/
def forked (n : ℕ) : UInt8 := if n < 1 then 1 else 2

/-- Block 3 of the forked chain rolls the three blocks back to height 0. -/
def cut : Db := (stored 2).rollback (reorgEvent 0 3) 0

/-- Block 0 again. -/
def repeated : Db := cut.committed (indexed forked 0) 0

/-- Block 1 of the forked chain. -/
def regrown : Db := repeated.committed (indexed forked 1) 0

end Traded

/-! ## Every run -/

/-- Ledgers that show the same hashes are the same, if a hash stands for one block. -/
theorem ledger_eq_of_hashes {ledger ledger' : List IndexedBlock}
    (hhashes : ledger.map (·.block.hash.bytes) = ledger'.map (·.block.hash.bytes))
    (hone : ∀ b ∈ ledger, ∀ b' ∈ ledger', b.block.hash = b'.block.hash → b = b') :
    ledger = ledger' := by
  induction ledger generalizing ledger' with
  | nil => exact (List.map_eq_nil_iff.mp hhashes.symm).symm
  | cons b ledger ih =>
    cases ledger' with
    | nil => cases hhashes
    | cons b' ledger' =>
      rw [List.map_cons, List.map_cons, List.cons.injEq] at hhashes
      have hhead := hone b List.mem_cons_self b' List.mem_cons_self (FixedBytes.ext hhashes.1)
      have hrest := ih hhashes.2 fun c hc c' hc' =>
        hone c (List.mem_cons_of_mem _ hc) c' (List.mem_cons_of_mem _ hc')
      rw [hhead, hrest]

theorem shows_hashes {db : Db} {ledger : List IndexedBlock} (h : db.Shows ledger) :
    db.blocks.map (·.hash) = ledger.map (·.block.hash.bytes) := by
  rw [h.blocks_eq, List.map_map]
  rfl

namespace Service

variable {cfg cfg' : Config} {setup setup' : Setup} {analyses analyses' : Analyses}
  {moves moves' : List (Move State Event)} {s s' u : State}

/-- A move of the service makes a block durable, acknowledged or not. -/
inductive Stores : Move State Event → IndexedBlock → Prop where
  | intro {s t : State} {e : Indexer.Event} {indexed : IndexedBlock}
      (h : Indexer.Stores ⟨s.indexer, e, t.indexer⟩ indexed) : Stores ⟨s, .main e, t⟩ indexed

/-- The block a move makes durable repeats what is stored at its height, or is for a free height,
where no transaction of it is stored at a greater one. -/
def Admitted (move : Move State Event) : Prop :=
  ∀ indexed, Stores move indexed → move.before.indexer.db.Admits indexed

/-- The node of a call holds the contents. -/
def Event.Holds (contents : Contents) : Event → Prop
  | .main e => e.Holds contents
  | _ => True

theorem Stores.coherent {move : Move State Event} {indexed : IndexedBlock}
    (h : Stores move indexed) : indexed.Coherent := by
  cases h with
  | intro h => exact h.coherent

theorem Stores.of_holds {contents : Contents} {move : Move State Event} {indexed : IndexedBlock}
    (h : Stores move indexed) (hholds : move.event.Holds contents) :
    ∃ n ≤ contents.head, indexed = contents.block n := by
  cases h with
  | intro h => exact Indexer.Stores.of_holds h hholds

/-- **One move and the ledger**: a move whose block is admitted leaves a ledger of earlier blocks
and the one it stored. -/
theorem shows_step {s t : State} {e : Event} {ledger : List IndexedBlock}
    (h : Step cfg setup analyses s e t) (hadmitted : Admitted ⟨s, e, t⟩) (hs : Sound s)
    (hshows : s.indexer.db.Shows ledger) :
    ∃ ledger', t.indexer.db.Shows ledger' ∧
      ∀ indexed ∈ ledger', indexed ∈ ledger ∨ Stores ⟨s, e, t⟩ indexed := by
  rcases step_cases h hs with ⟨e', rfl, -, hmain⟩ | ⟨-, -, hconfined, -⟩
  · obtain ⟨ledger', hshows', hfrom⟩ := Indexer.shows_step hmain
      (fun indexed hstores => hadmitted indexed (.intro hstores)) hs.valid hshows
    exact ⟨ledger', hshows', fun b hb => (hfrom b hb).imp_right .intro⟩
  · exact ⟨ledger, hshows.of_sameIndexed (Db.sameIndexed_of_bare hconfined.bare),
      fun _ hb => Or.inl hb⟩

/-- **A run whose blocks are admitted** leaves a ledger of blocks that its moves stored. -/
theorem ledger_of_admitted (hrun : Run (Step cfg setup analyses) initial moves s)
    (hadmitted : ∀ move ∈ moves, Admitted move) :
    s.indexer.db.Valid ∧ ∃ ledger, s.indexer.db.Shows ledger ∧
      ∀ indexed ∈ ledger, ∃ move ∈ moves, Stores move indexed := by
  let allowed (move : Move State Event) : Prop := move ∈ moves ∧ Admitted move
  let inv (s : State) : Prop := Sound s ∧ ∃ ledger, s.indexer.db.Shows ledger ∧
    ∀ indexed ∈ ledger, ∃ move ∈ moves, Stores move indexed
  have hkeep : ∀ s e t, Step cfg setup analyses s e t → allowed ⟨s, e, t⟩ → inv s → inv t := by
    rintro s e t hstep ⟨hmem, hmove⟩ ⟨hs, ledger, hshows, hfrom⟩
    obtain ⟨ledger', hshows', hfrom'⟩ := shows_step hstep hmove hs hshows
    refine ⟨sound_step hstep hs, ledger', hshows', fun indexed hindexed => ?_⟩
    rcases hfrom' indexed hindexed with hold | hstores
    · exact hfrom indexed hold
    · exact ⟨_, hmem, hstores⟩
  have hstart : inv initial :=
    ⟨sound_initial, [], Db.shows_migrated, fun _ h => absurd h List.not_mem_nil⟩
  have hend : inv s :=
    hrun.invariant hkeep (fun move hmove => ⟨hmove, hadmitted move hmove⟩) hstart
  exact ⟨hend.1.valid, hend.2⟩

/-- A move against a node that serves a chain of empty blocks. -/
theorem admitted_serving {branch : ℕ → UInt8} {head : ℕ} {hhead : head < 256}
    {move : Move State Event}
    (h : move.event.Holds (.numbered branch head hhead)) : Admitted move := by
  intro indexed hstores
  obtain ⟨n, -, rfl⟩ := hstores.of_holds h
  exact Db.admits_branchIndexed _ branch n

namespace Regrown

/-- A chain that forks from the plain one above height 0. -/
def branch (n : ℕ) : UInt8 := if n < 1 then 1 else 2

theorem two_lt : 2 < 256 := by decide

theorem three_lt : 3 < 256 := by decide

def plain : CanonicalChain := .numbered (fun _ => 1) 2 two_lt

def forked : CanonicalChain := .numbered branch 3 three_lt

/-- Block 3 of the forked chain rolls three plain blocks back to height 0. -/
def cut : Db := (Db.numbered (fun _ => 1) 0 2).rollback (reorgEvent 0 3) 0

/-- Block 0 again, and block 1 of the forked chain. -/
def db : Db := (cut.committed (branchIndexed branch 0) 0).committed (branchIndexed branch 1) 0

theorem exists_run : ∃ moves, Run (Step (Indexer.smallConfig 0 3) Reprocess.plainSetup
      plainAnalyses) initial moves ⟨⟨db, .receiving 1 []⟩, []⟩ ∧
    ∀ move ∈ moves, move.event.Holds (.numbered (fun _ => 1) 2 (by decide)) ∨
      move.event.Holds (.numbered branch 3 (by decide)) := by
  have hrun : Run (Indexer.Step (Indexer.smallConfig 0 3)) ⟨.migrated, .stopped⟩
      [⟨⟨.migrated, .stopped⟩, .start, ⟨.migrated, .polling 0⟩⟩,
        ⟨⟨.migrated, .polling 0⟩, .poll 3 4, ⟨.migrated, .receiving 0 [0, 1, 2, 3]⟩⟩,
        ⟨⟨.migrated, .receiving 0 [0, 1, 2, 3]⟩, .commitFrom plain,
          Indexer.storedTo 0 (.receiving 0 [1, 2, 3])⟩,
        ⟨Indexer.storedTo 0 (.receiving 0 [1, 2, 3]), .commitFrom plain,
          Indexer.storedTo 1 (.receiving 1 [2, 3])⟩,
        ⟨Indexer.storedTo 1 (.receiving 1 [2, 3]), .commitFrom plain,
          Indexer.storedTo 2 (.receiving 2 [3])⟩,
        ⟨Indexer.storedTo 2 (.receiving 2 [3]), .commitFrom forked, ⟨cut, .polling 0⟩⟩,
        ⟨⟨cut, .polling 0⟩, .poll 3 2, ⟨cut, .receiving 0 [0, 1]⟩⟩,
        ⟨⟨cut, .receiving 0 [0, 1]⟩, .commitFrom forked,
          ⟨cut.committed (branchIndexed branch 0) 0, .receiving 0 [1]⟩⟩,
        ⟨⟨cut.committed (branchIndexed branch 0) 0, .receiving 0 [1]⟩, .commitFrom forked,
          ⟨db, .receiving 1 []⟩⟩]
      ⟨db, .receiving 1 []⟩ :=
    .cons rfl (.cons rfl (.cons rfl (.cons rfl (.cons rfl (.cons rfl (.cons rfl
      (.cons rfl (.cons rfl (.nil _)))))))))
  have hplain : (EthClient.serving plain).Holds (.numbered (fun _ => 1) 2 (by decide)) :=
    EthClient.serving_holds _ _ _
  have hforked : (EthClient.serving forked).Holds (.numbered branch 3 (by decide)) :=
    EthClient.serving_holds _ _ _
  refine ⟨_, run_main hrun, List.forall_mem_map.mpr ?_⟩
  simp only [List.forall_mem_cons, List.not_mem_nil, false_implies, implies_true, and_true]
  exact ⟨.inl trivial, .inl trivial, .inl hplain, .inl hplain, .inl hplain, .inr hforked,
    .inl trivial, .inr hforked, .inr hforked⟩

/-- The two blocks that are left, on their own. -/
theorem exists_direct : ∃ moves, Run (Step (Indexer.smallConfig 0 1) Reprocess.plainSetup
      plainAnalyses) initial moves ⟨⟨.numbered branch 0 1, .receiving 1 []⟩, []⟩ ∧
    ∀ move ∈ moves, move.event.Holds (.numbered branch 3 (by decide)) := by
  have hrun : Run (Indexer.Step (Indexer.smallConfig 0 1)) ⟨.migrated, .stopped⟩
      [⟨⟨.migrated, .stopped⟩, .start, ⟨.migrated, .polling 0⟩⟩,
        ⟨⟨.migrated, .polling 0⟩, .poll 3 2, ⟨.migrated, .receiving 0 [0, 1]⟩⟩,
        ⟨⟨.migrated, .receiving 0 [0, 1]⟩, .commitFrom forked,
          ⟨.numbered branch 0 0, .receiving 0 [1]⟩⟩,
        ⟨⟨.numbered branch 0 0, .receiving 0 [1]⟩, .commitFrom forked,
          ⟨.numbered branch 0 1, .receiving 1 []⟩⟩]
      ⟨.numbered branch 0 1, .receiving 1 []⟩ :=
    .cons rfl (.cons rfl (.cons rfl (.cons rfl (.nil _))))
  have hforked : (EthClient.serving forked).Holds (.numbered branch 3 (by decide)) :=
    EthClient.serving_holds _ _ _
  refine ⟨_, run_main hrun, List.forall_mem_map.mpr ?_⟩
  simp only [List.forall_mem_cons, List.not_mem_nil, false_implies, implies_true, and_true]
  exact ⟨trivial, trivial, hforked, hforked⟩

theorem admitted {move : Move State Event}
    (h : move.event.Holds (.numbered (fun _ => 1) 2 (by decide)) ∨
      move.event.Holds (.numbered branch 3 (by decide))) : Admitted move :=
  h.elim admitted_serving admitted_serving

end Regrown

/-- Two blocks with transactions are indexed, and after a restart the third one. -/
theorem run_restarted : ∃ moves, Run (Step (Indexer.smallConfig 0 1) Reprocess.plainSetup
      plainAnalyses) initial moves ⟨⟨Traded.stored 2, .receiving 2 []⟩, []⟩ ∧
    ∀ move ∈ moves, move.event.Holds Traded.contents := by
  let commit : Indexer.Event := .commit (Traded.client Traded.plain 2) [] 0
  have hrun : Run (Indexer.Step (Indexer.smallConfig 0 1)) ⟨.migrated, .stopped⟩
      [⟨⟨.migrated, .stopped⟩, .start, ⟨.migrated, .polling 0⟩⟩,
        ⟨⟨.migrated, .polling 0⟩, .poll 2 2, ⟨.migrated, .receiving 0 [0, 1]⟩⟩,
        ⟨⟨.migrated, .receiving 0 [0, 1]⟩, commit, ⟨Traded.stored 0, .receiving 0 [1]⟩⟩,
        ⟨⟨Traded.stored 0, .receiving 0 [1]⟩, commit, ⟨Traded.stored 1, .receiving 1 []⟩⟩,
        ⟨⟨Traded.stored 1, .receiving 1 []⟩, .stop, ⟨Traded.stored 1, .stopped⟩⟩,
        ⟨⟨Traded.stored 1, .stopped⟩, .start, ⟨Traded.stored 1, .polling 1⟩⟩,
        ⟨⟨Traded.stored 1, .polling 1⟩, .poll 2 2, ⟨Traded.stored 1, .receiving 1 [1, 2]⟩⟩,
        ⟨⟨Traded.stored 1, .receiving 1 [1, 2]⟩, commit, ⟨Traded.stored 1, .receiving 1 [2]⟩⟩,
        ⟨⟨Traded.stored 1, .receiving 1 [2]⟩, commit, ⟨Traded.stored 2, .receiving 2 []⟩⟩]
      ⟨Traded.stored 2, .receiving 2 []⟩ :=
    .cons rfl (.cons rfl (.cons rfl (.cons rfl (.cons rfl (.cons rfl (.cons rfl
      (.cons rfl (.cons rfl (.nil _)))))))))
  have hcommit : commit.Holds Traded.contents := Traded.client_holds
  refine ⟨_, run_main hrun, List.forall_mem_map.mpr ?_⟩
  simp only [List.forall_mem_cons, List.not_mem_nil, false_implies, implies_true, and_true]
  exact ⟨trivial, trivial, hcommit, hcommit, trivial, trivial, trivial, hcommit, hcommit⟩

/-- The three blocks are rolled back by the chain that forks above height 0. -/
theorem run_forked : ∃ moves, Run (Step (Indexer.smallConfig 0 3) Reprocess.plainSetup
    plainAnalyses) initial moves ⟨⟨Traded.regrown, .receiving 1 []⟩, []⟩ := by
  let commit : Indexer.Event := .commit (Traded.client Traded.plain 2) [] 0
  let recommit : Indexer.Event := .commit (Traded.client Traded.forked 3) [] 0
  have hrun : Run (Indexer.Step (Indexer.smallConfig 0 3)) ⟨.migrated, .stopped⟩
      [⟨⟨.migrated, .stopped⟩, .start, ⟨.migrated, .polling 0⟩⟩,
        ⟨⟨.migrated, .polling 0⟩, .poll 3 4, ⟨.migrated, .receiving 0 [0, 1, 2, 3]⟩⟩,
        ⟨⟨.migrated, .receiving 0 [0, 1, 2, 3]⟩, commit,
          ⟨Traded.stored 0, .receiving 0 [1, 2, 3]⟩⟩,
        ⟨⟨Traded.stored 0, .receiving 0 [1, 2, 3]⟩, commit,
          ⟨Traded.stored 1, .receiving 1 [2, 3]⟩⟩,
        ⟨⟨Traded.stored 1, .receiving 1 [2, 3]⟩, commit, ⟨Traded.stored 2, .receiving 2 [3]⟩⟩,
        ⟨⟨Traded.stored 2, .receiving 2 [3]⟩, recommit, ⟨Traded.cut, .polling 0⟩⟩,
        ⟨⟨Traded.cut, .polling 0⟩, .poll 3 2, ⟨Traded.cut, .receiving 0 [0, 1]⟩⟩,
        ⟨⟨Traded.cut, .receiving 0 [0, 1]⟩, recommit,
          ⟨Traded.repeated, .receiving 0 [1]⟩⟩,
        ⟨⟨Traded.repeated, .receiving 0 [1]⟩, recommit, ⟨Traded.regrown, .receiving 1 []⟩⟩]
      ⟨Traded.regrown, .receiving 1 []⟩ :=
    .cons rfl (.cons rfl (.cons rfl (.cons rfl (.cons rfl (.cons rfl (.cons rfl
      (.cons rfl (.cons rfl (.nil _)))))))))
  exact ⟨_, run_main hrun⟩

/-- **What survives a run**: the tables of the chain are those of a new store that is given the
surviving blocks only, each of which a move of the run stored. -/
theorem surviving_of_admitted (hrun : Run (Step cfg setup analyses) initial moves s)
    (hadmitted : ∀ move ∈ moves, Admitted move) :
    ∃ (ledger : List IndexedBlock) (store : PostgresStore),
      PostgresStore.commitAll ⟨.migrated, [], 0⟩ (ledger.map (·, 0)) = (.ok (), store) ∧
      s.indexer.db.SameChain store.db ∧
      ∀ indexed ∈ ledger, ∃ move ∈ moves, Stores move indexed := by
  obtain ⟨hvalid, ledger, hshows, hfrom⟩ := ledger_of_admitted hrun hadmitted
  obtain ⟨store, hstore, hsame⟩ := hshows.fresh hvalid
  exact ⟨ledger, store, hstore, hsame, hfrom⟩

/-- After the fork: blocks of both chains were stored, and two are left. -/
theorem surviving_regrown : ∃ (ledger : List IndexedBlock) (store : PostgresStore),
    PostgresStore.commitAll ⟨.migrated, [], 0⟩ (ledger.map (·, 0)) = (.ok (), store) ∧
      Regrown.db.SameChain store.db ∧
      Regrown.db.blocks.map (·.hash) = [(branchHash 1 0).bytes, (branchHash 2 1).bytes] := by
  obtain ⟨moves, hrun, hholds⟩ := Regrown.exists_run
  obtain ⟨ledger, store, hstore, hsame, -⟩ :=
    surviving_of_admitted hrun fun move hmove => Regrown.admitted (hholds move hmove)
  exact ⟨ledger, store, hstore, hsame, by decide⟩

/-- **The stored hashes decide the tables**: two runs, of whatever configurations and over
whatever chains, that end with the same stored hashes end with the same tables of the chain, if no
two different blocks that they stored share a hash. -/
theorem sameChain_of_hashes (hrun : Run (Step cfg setup analyses) initial moves s)
    (hrun' : Run (Step cfg' setup' analyses') initial moves' s')
    (hadmitted : ∀ move ∈ moves, Admitted move) (hadmitted' : ∀ move ∈ moves', Admitted move)
    (hone : ∀ move ∈ moves, ∀ move' ∈ moves', ∀ b b', Stores move b → Stores move' b' →
      b.block.hash = b'.block.hash → b = b')
    (hhashes : s.indexer.db.blocks.map (·.hash) = s'.indexer.db.blocks.map (·.hash)) :
    s.indexer.db.SameChain s'.indexer.db := by
  obtain ⟨-, ledger, hshows, hfrom⟩ := ledger_of_admitted hrun hadmitted
  obtain ⟨-, ledger', hshows', hfrom'⟩ := ledger_of_admitted hrun' hadmitted'
  rw [shows_hashes hshows, shows_hashes hshows'] at hhashes
  have heq : ledger = ledger' := by
    refine ledger_eq_of_hashes hhashes fun b hb b' hb' => ?_
    obtain ⟨move, hmove, hstores⟩ := hfrom b hb
    obtain ⟨move', hmove', hstores'⟩ := hfrom' b' hb'
    exact hone move hmove move' hmove' b b' hstores hstores'
  subst heq
  exact hshows.sameChain hshows'

/-- The two blocks that are left, indexed without the detour, leave the same tables. -/
theorem sameChain_regrown :
    Regrown.db.SameChain (Db.numbered Regrown.branch 0 1) := by
  obtain ⟨moves, hrun, hholds⟩ := Regrown.exists_run
  obtain ⟨moves', hrun', hholds'⟩ := Regrown.exists_direct
  refine sameChain_of_hashes hrun hrun' (fun move hmove => Regrown.admitted (hholds move hmove))
    (fun move hmove => admitted_serving (hholds' move hmove)) ?_ (by decide)
  -- Blocks of the two chains share a hash below the fork only.
  have hsame : ∀ n ≤ 2, ∀ m ≤ 3, branchHash 1 n = branchHash (Regrown.branch m) m →
      branchIndexed (fun _ => 1) n = branchIndexed Regrown.branch m := by decide
  have hown : ∀ n ≤ 3, ∀ m ≤ 3, branchHash (Regrown.branch n) n =
      branchHash (Regrown.branch m) m → n = m :=
    fun n hn m hm hhash => branchHash_height (by omega) (by omega) hhash
  intro move hmove move' hmove' b b' hstores hstores' hhash
  obtain ⟨m, hm, rfl⟩ := hstores'.of_holds (hholds' move' hmove')
  rcases hholds move hmove with hplain | hforked
  · obtain ⟨n, hn, rfl⟩ := hstores.of_holds hplain
    exact hsame n hn m hm hhash
  · obtain ⟨n, hn, rfl⟩ := hstores.of_holds hforked
    exact congrArg _ (hown n hn m hm hhash)

/-- **A run on a chain that never changes** leaves a ledger of blocks of the chain. -/
theorem ledger_of_holds {contents : Contents}
    (hrun : Run (Step cfg setup analyses) initial moves s)
    (hholds : ∀ move ∈ moves, move.event.Holds contents) :
    Sound s ∧ ∃ ledger, s.indexer.db.Shows ledger ∧
      ∀ b ∈ ledger, ∃ m ≤ contents.head, b = contents.block m := by
  let allowed (move : Move State Event) : Prop := move.event.Holds contents
  let inv (s : State) : Prop := Sound s ∧ ∃ ledger, s.indexer.db.Shows ledger ∧
    ∀ b ∈ ledger, ∃ m ≤ contents.head, b = contents.block m
  have hkeep : ∀ s e t, Step cfg setup analyses s e t → allowed ⟨s, e, t⟩ → inv s → inv t := by
    rintro s e t hstep hmove ⟨hs, ledger, hshows, hledger⟩
    have hadmitted : Admitted ⟨s, e, t⟩ := by
      intro indexed hstores
      have hcoherent := hstores.coherent
      obtain ⟨n, hn, rfl⟩ := hstores.of_holds hmove
      exact contents.admits hshows hledger hn hcoherent
    obtain ⟨ledger', hshows', hfrom⟩ := shows_step hstep hadmitted hs hshows
    refine ⟨sound_step hstep hs, ledger', hshows', fun b hb => ?_⟩
    rcases hfrom b hb with hold | hstores
    · exact hledger b hold
    · exact hstores.of_holds hmove
  have hstart : inv initial :=
    ⟨sound_initial, [], Db.shows_migrated, fun _ h => absurd h List.not_mem_nil⟩
  have hend : inv s := hrun.invariant hkeep hholds hstart
  exact hend

/-- The same in one move of the service, where the index changes only with a stored block. -/
theorem appendOnly_step {s t : State} {e : Event} (h : Step cfg setup analyses s e t)
    (hs : Sound s) :
    s.indexer.db.addressTransactions <+: t.indexer.db.addressTransactions ∧
      s.indexer.db.reorgs <+: t.indexer.db.reorgs ∧
      (∀ indexed, Stores ⟨s, e, t⟩ indexed → t.indexer.db.addressTransactions =
        Table.insertAll AddressTransactionRow.key s.indexer.db.addressTransactions
          (indexed.transactions.flatMap addressTransactionRows)) ∧
      (t.indexer.db.addressTransactions = s.indexer.db.addressTransactions ∨
        ∃ indexed, Stores ⟨s, e, t⟩ indexed) := by
  rcases step_cases h hs with ⟨e', rfl, -, hmain⟩ | ⟨hnone, -, hconfined, -⟩
  · obtain ⟨haddress, hreorgs, hstored⟩ := Indexer.appendOnly_step hmain
    refine ⟨haddress, hreorgs, ?_, ?_⟩
    · rintro indexed ⟨hstores⟩
      exact hstored indexed hstores
    · rcases Indexer.step_changes hmain with hsame | ⟨indexed, hstores⟩ | ⟨event, now, hrollback⟩
      · exact Or.inl (congrArg Db.addressTransactions hsame)
      · exact Or.inr ⟨indexed, .intro hstores⟩
      · rw [hrollback]
        exact Or.inl rfl
  · have hsame := Db.sameIndexed_of_bare hconfined.bare
    refine ⟨hsame.addressTransactions ▸ List.prefix_rfl, hsame.reorgs ▸ List.prefix_rfl, ?_,
      Or.inl hsame.addressTransactions⟩
    rintro indexed ⟨hstores⟩
    cases hnone

/-- The blocks that the moves make durable, in order. -/
inductive StoredBy : List (Move State Event) → List IndexedBlock → Prop where
  | nil : StoredBy [] []
  | skip {move : Move State Event} {moves : List (Move State Event)} {blocks : List IndexedBlock}
      (hnone : ∀ indexed, ¬ Stores move indexed) (h : StoredBy moves blocks) :
      StoredBy (move :: moves) blocks
  | store {move : Move State Event} {moves : List (Move State Event)} {indexed : IndexedBlock}
      {blocks : List IndexedBlock} (hstores : Stores move indexed) (h : StoredBy moves blocks) :
      StoredBy (move :: moves) (indexed :: blocks)

/-- **The index of addresses over a run** gets the rows of the stored blocks, one after the other,
and the record of reorgs only grows at its end. -/
theorem index_of_run (hrun : Run (Step cfg setup analyses) s moves u) (hs : Sound s) :
    s.indexer.db.reorgs <+: u.indexer.db.reorgs ∧ ∃ blocks, StoredBy moves blocks ∧
      u.indexer.db.addressTransactions =
        Table.insertAll AddressTransactionRow.key s.indexer.db.addressTransactions
          (blocks.flatMap fun indexed => indexed.transactions.flatMap addressTransactionRows) := by
  induction hrun with
  | nil s => exact ⟨List.prefix_rfl, [], .nil, rfl⟩
  | @cons s t u e moves hstep _ ih =>
    obtain ⟨hreorgs, blocks, hblocks, hindex⟩ := ih (sound_step hstep hs)
    obtain ⟨-, hreorgs₁, hstored, hsame⟩ := appendOnly_step hstep hs
    refine ⟨hreorgs₁.trans hreorgs, ?_⟩
    by_cases hstores : ∃ indexed, Stores ⟨s, e, t⟩ indexed
    · obtain ⟨indexed, hstores⟩ := hstores
      refine ⟨indexed :: blocks, .store hstores hblocks, ?_⟩
      rw [hindex, hstored indexed hstores, ← Table.insertAll_append, List.flatMap_cons]
    · refine ⟨blocks, .skip (not_exists.mp hstores) hblocks, ?_⟩
      rw [hindex, hsame.resolve_right hstores]

/-- **The index of addresses never forgets**: over any run the index and the record of reorgs only
grow at their ends. A row gets into the index exactly if nothing was there under its key, and it is
the first of its key among the rows of the blocks that were stored, rolled back or not. -/
theorem appendOnly_of_run (hrun : Run (Step cfg setup analyses) s moves u) (hs : Sound s) :
    s.indexer.db.addressTransactions <+: u.indexer.db.addressTransactions ∧
      s.indexer.db.reorgs <+: u.indexer.db.reorgs ∧
      ∃ blocks, StoredBy moves blocks ∧ ∀ row, row ∈ u.indexer.db.addressTransactions ↔
        row ∈ s.indexer.db.addressTransactions ∨
          row.key ∉ s.indexer.db.addressTransactions.map AddressTransactionRow.key ∧
            (blocks.flatMap fun indexed =>
              indexed.transactions.flatMap addressTransactionRows).find?
                (fun other => other.key = row.key) = some row := by
  obtain ⟨hreorgs, blocks, hblocks, hindex⟩ := index_of_run hrun hs
  refine ⟨?_, hreorgs, blocks, hblocks, fun row => ?_⟩
  · rw [hindex, ← Table.append_added]
    exact List.prefix_append _ _
  · rw [hindex]
    exact Table.mem_insertAll_iff

/-- After the fork the index has the transaction of the orphaned block at height 1, and not that
of the block that took its place. -/
theorem appendOnly_regrown : ∃ moves, Run (Step (Indexer.smallConfig 0 3) Reprocess.plainSetup
      plainAnalyses) initial moves ⟨⟨Traded.regrown, .receiving 1 []⟩, []⟩ ∧
    (∃ blocks, StoredBy moves blocks ∧ ∀ row, row ∈ Traded.regrown.addressTransactions ↔
      row ∈ Db.migrated.addressTransactions ∨
        row.key ∉ Db.migrated.addressTransactions.map AddressTransactionRow.key ∧
          (blocks.flatMap fun indexed =>
            indexed.transactions.flatMap addressTransactionRows).find?
              (fun other => other.key = row.key) = some row) ∧
    (Traded.regrown.addressTransactions.filter (·.blockNumber = 1)).map (·.txHash) =
      List.replicate 2 (Traded.transactionHash Traded.plain 1).bytes ∧
    Traded.regrown.transactions.map (·.hash) =
      [(Traded.transactionHash Traded.plain 0).bytes,
        (Traded.transactionHash Traded.forked 1).bytes] ∧
    Traded.regrown.reorgs.length = 1 := by
  obtain ⟨moves, hrun⟩ := run_forked
  exact ⟨moves, hrun, (appendOnly_of_run hrun sound_initial).2.2, by decide +kernel,
    by decide +kernel, by decide +kernel⟩

end Service

end ChainLens
