import ChainLens.Intelligence.Address
import Mathlib.Data.List.Sort

/-!
# Analyzing a contract

The statistics of a contract are counts over the transactions it received, the transfers of its
token and its logs. The analysis also reports the first transaction that created it, its activity
in the last hundred blocks since its first one, and twenty of its selectors.

## Main definitions

* `Db.contractView`: the rows a contract is counted in
* `analyzeContract`: the analysis, as a session
* `ContractCounts`: four counts of an analysis

## Main results

* `analyzeContract_runOn`: on its own, the analysis returns the counts of the contract's rows
-/

namespace ChainLens

/-! ## The rows of a contract -/

namespace Db

variable (address : Bytes) (db : Db)

/-- The transfers of the token of a contract. -/
def transfersOf : List TokenTransferRow := db.tokenTransfers.filter (·.tokenAddress = address)

def logsOf : List LogRow := db.logs.filter (·.address = address)

end Db

/-- The rows a contract is counted in. -/
structure ContractView where
  received : List TransactionRow
  transfers : List TokenTransferRow
  logs : List LogRow

def Db.contractView (address : Bytes) (db : Db) : ContractView where
  received := db.receivedBy address
  transfers := db.transfersOf address
  logs := db.logsOf address

/-- The counts of a contract. -/
structure ContractCounts where
  totalTransactions : Int
  uniqueCallers : Int
  tokenTransfers : Int
  eventCount : Int
deriving DecidableEq

def ContractView.counts (v : ContractView) : ContractCounts where
  totalTransactions := v.received.length
  uniqueCallers := countDistinct (v.received.map (·.fromAddr))
  tokenTransfers := v.transfers.length
  eventCount := v.logs.length

def ContractIntelligence.counts (intel : ContractIntelligence) : ContractCounts where
  totalTransactions := intel.totalTransactions
  uniqueCallers := intel.uniqueCallers
  tokenTransfers := intel.tokenTransfers
  eventCount := intel.eventCount

def ContractProfileRow.counts (row : ContractProfileRow) : ContractCounts where
  totalTransactions := row.totalTransactions
  uniqueCallers := row.uniqueCallers
  tokenTransfers := row.tokenTransfers
  eventCount := row.eventCount

/-! ## The analysis -/

structure ActivityPoint where
  blockNumber : ℕ
  timestamp : String
  txCount : ℕ
  eventCount : ℕ
deriving DecidableEq

/-- An analysis with everything it reports. -/
structure AnalyzedContract extends ContractIntelligence where
  activityOverTime : List ActivityPoint
deriving DecidableEq

/-- The first block with a transaction of the contract, and the first timestamp in the order of
texts. -/
def selectFirstSeen (setup : Setup) (address : Bytes) (db : Db) : Option ℕ × Option String :=
  let found := (db.transactionsOf address).flatMap fun tx =>
    db.blocks.filter (·.number = tx.blockNumber)
  ((found.map (·.number)).min?, setup.minText (found.map (setup.timestampText ·.timestamp)))

/-- A transaction that created the contract. -/
def selectCreator (address : Bytes) (db : Db) : Option TransactionRow :=
  (db.transactions.filter (·.contractAddress = some address)).head?

/-- The blocks from a height on, latest first and at most a hundred, each with the transactions
the contract received and the logs it left there. -/
def selectActivity (setup : Setup) (address : Bytes) (start : ℕ) (db : Db) : List ActivityPoint :=
  (((db.blocks.filter (start ≤ ·.number)).insertionSort (·.number ≥ ·.number)).take 100).map
    fun block => {
      blockNumber := block.number
      timestamp := setup.timestampText block.timestamp
      txCount := countDistinct
        (((db.receivedBy address).filter (·.blockNumber = block.number)).map (·.hash))
      eventCount := countDistinct
        (((db.logsOf address).filter (·.blockNumber = block.number)).map (·.logIndex)) }

/-- The selectors of the calls of the contract, at most twenty. -/
def selectSelectors (address : Bytes) (db : Db) : List Bytes :=
  (((db.receivedBy address).filter (4 ≤ ·.input.length)).map (·.input.take 4)).dedup.take 20

def analyzeContract (setup : Setup) (address : String) : Session AnalyzedContract := do
  let addrBytes ← Session.hexParameter address
  let first ← Session.query (selectFirstSeen setup addrBytes)
  let creatorRow ← Session.query (selectCreator addrBytes)
  let totalTransactions ← Session.query fun db => (db.receivedBy addrBytes).length
  let uniqueCallers ← Session.query fun db =>
    countDistinct ((db.receivedBy addrBytes).map (·.fromAddr))
  let uniqueContractsCalled ← Session.query fun db =>
    countDistinct ((db.sentBy addrBytes).filterMap (·.toAddr))
  let tokenTransfers ← Session.query fun db => (db.transfersOf addrBytes).length
  let eventCount ← Session.query fun db => (db.logsOf addrBytes).length
  let activity ← Session.query (selectActivity setup addrBytes (first.1.getD 0))
  let selectors ← Session.query (selectSelectors addrBytes)
  let tokenCount ← Session.query fun db => (db.transfersOf addrBytes).length
  let nftCount ← Session.query fun db =>
    ((db.transfersOf addrBytes).filter (·.standard = 1)).length
  return {
    address
    firstSeen := first.2
    deploymentBlock := first.1.map Int.ofNat
    creator := creatorRow.map (hexText ·.fromAddr)
    deploymentTx := creatorRow.map (hexText ·.hash)
    totalTransactions, uniqueCallers, uniqueContractsCalled, tokenTransfers, eventCount
    activityOverTime := activity
    functionSelectors := (selectors.filter (·.length = 4)).map hexText
    isToken := 0 < tokenCount
    isNft := 0 < nftCount }

/-! ## What the analysis returns -/

variable {setup : Setup}

theorem analyzeContract_reads (address : String) : (analyzeContract setup address).Reads := by
  unfold analyzeContract
  refine Session.reads_bind (Session.reads_lift _) fun addrBytes => ?_
  iterate 11 refine Session.reads_bind (Session.reads_query _) fun _ => ?_
  exact Session.reads_pure _

/-- **The analysis on its own** returns the counts of the rows. -/
theorem analyzeContract_runOn (k : Bytes) (db : Db) (now : ℕ) :
    ∃ intel, (analyzeContract setup (hexText k)).runOn ⟨db, [], now⟩ = (.ok intel, ⟨db, [], now⟩) ∧
      intel.toContractIntelligence.counts = (db.contractView k).counts := by
  rw [analyzeContract, Session.hexParameter_hexText]
  exact ⟨_, rfl, rfl⟩

end ChainLens
