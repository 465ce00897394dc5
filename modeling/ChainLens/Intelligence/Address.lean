import ChainLens.Intelligence.Actions
import Mathlib.Data.List.Dedup

/-!
# Analyzing an address

The statistics of an address are counts over the transactions it sent and received and over the
token transfers from and to it, each by a query of its own, with classifications by fixed
thresholds. One of the queries compares the input of transactions, which is a byte string, with a
pattern whose literal the server takes for a byte string as well, and refuses. No analysis of an
address comes to its end.

## Main definitions

* `AddressFindings.intelligence`: the record made of what the queries find
* `analyzeAddress`: the analysis, as a session
* `AddressCounts`: the five counts of an analysis

## Main results

* `analyzeAddress_fails`: the analysis of any address returns an error
-/

namespace ChainLens

/-! ## Aggregates -/

/-- `COUNT(DISTINCT …)`. -/
def countDistinct {α : Type} [DecidableEq α] (values : List α) : ℕ := values.dedup.length

/-- `COALESCE(SUM(…), 0)::text`. -/
def sumText (values : List Numeric) : Numeric := toString (values.map numericValue).sum

/-! ## The rows of an address -/

namespace Db

variable (address : Bytes) (db : Db)

def sentBy : List TransactionRow := db.transactions.filter (·.fromAddr = address)

def receivedBy : List TransactionRow := db.transactions.filter (·.toAddr = some address)

def transfersFrom : List TokenTransferRow := db.tokenTransfers.filter (·.fromAddr = address)

def transfersTo : List TokenTransferRow := db.tokenTransfers.filter (·.toAddr = address)

/-- `WHERE from_addr = $1 OR to_addr = $1` on the transactions. -/
def transactionsOf : List TransactionRow :=
  db.transactions.filter fun tx => tx.fromAddr = address ∨ tx.toAddr = some address

end Db

/-- The counts of an address. -/
structure AddressCounts where
  totalTransactions : Int
  uniqueContractsCalled : Int
  uniqueCallers : Int
  tokenTransfersSent : Int
  tokenTransfersReceived : Int
deriving DecidableEq

def AddressIntelligence.counts (intel : AddressIntelligence) : AddressCounts where
  totalTransactions := intel.totalTransactions
  uniqueContractsCalled := intel.uniqueContractsCalled
  uniqueCallers := intel.uniqueCallers
  tokenTransfersSent := intel.tokenTransfersSent
  tokenTransfersReceived := intel.tokenTransfersReceived

def AddressStatsRow.counts (row : AddressStatsRow) : AddressCounts where
  totalTransactions := row.totalTransactions
  uniqueContractsCalled := row.uniqueContractsCalled
  uniqueCallers := row.uniqueCallers
  tokenTransfersSent := row.tokenTransfersSent
  tokenTransfersReceived := row.tokenTransfersReceived

/-! ## The analysis -/

/-- The first and the last timestamp of the transactions of an address, in the order of texts. -/
def selectFirstLast (setup : Setup) (address : Bytes) (db : Db) : Option String × Option String :=
  let texts := (db.transactionsOf address).flatMap fun tx =>
    (db.blocks.filter (·.number = tx.blockNumber)).map (setup.timestampText ·.timestamp)
  (setup.minText texts, setup.maxText texts)

/-- The transactions of an address whose input matches a pattern. -/
def selectDexCount (pattern : Bytes) (address : Bytes) (db : Db) : ℕ :=
  ((db.transactionsOf address).filter fun tx => Sql.like pattern tx.input).length

/-- `… AND t.input LIKE '\x%'`. The column holds byte strings, so the literal is read as one when
the query is prepared: a percent sign in the hex format. -/
def queryDexCount (address : Bytes) : Session ℕ :=
  match Sql.hexFormat ['%'] with
  | some pattern => Session.query (selectDexCount pattern address)
  | none => Session.refused .invalidBytea

theorem queryDexCount_eq (address : Bytes) :
    queryDexCount address = Session.refused .invalidBytea := by
  rw [queryDexCount, Sql.hexFormat_eq_none (by decide) (by decide)]

/-- The transfers of an address with standard 1. -/
def selectNftCount (address : Bytes) (db : Db) : ℕ :=
  (db.tokenTransfers.filter fun t =>
    (t.fromAddr = address ∨ t.toAddr = address) ∧ t.standard = 1).length

def activityLevel (totalTransactions : ℕ) : String :=
  if 1000 < totalTransactions then "very_high"
  else if 100 < totalTransactions then "high"
  else if 10 < totalTransactions then "medium"
  else if 0 < totalTransactions then "low"
  else "none"

/-- A classification, if its condition holds. -/
def classifyIf (condition : Prop) [Decidable condition] (label : String) : List String :=
  if condition then [label] else []

/-- What the queries of an analysis find. -/
structure AddressFindings where
  firstLast : Option String × Option String
  totalTransactions : ℕ
  totalEthSent : Numeric
  totalEthReceived : Numeric
  uniqueContractsCalled : ℕ
  uniqueCallers : ℕ
  tokenTransfersSent : ℕ
  tokenTransfersReceived : ℕ
  dexCount : ℕ
  nftCount : ℕ

/-- The record made of what the queries find. -/
def AddressFindings.intelligence (address : String) (found : AddressFindings) :
    AddressIntelligence where
  address := address
  firstSeen := found.firstLast.1
  lastActive := found.firstLast.2
  totalTransactions := found.totalTransactions
  totalEthSent := weiToEth found.totalEthSent
  totalEthReceived := weiToEth found.totalEthReceived
  uniqueContractsCalled := found.uniqueContractsCalled
  uniqueCallers := found.uniqueCallers
  tokenTransfersSent := found.tokenTransfersSent
  tokenTransfersReceived := found.tokenTransfersReceived
  behaviorClassifications :=
    classifyIf (100 < found.totalTransactions) "active_user" ++
    classifyIf (found.totalTransactions = 0) "inactive" ++
    classifyIf (1000000000000000000 < weiValue found.totalEthSent ∨
      1000000000000000000 < weiValue found.totalEthReceived) "high_value_transfer" ++
    classifyIf (10 < found.uniqueContractsCalled) "contract_interactor" ++
    classifyIf (50 < found.tokenTransfersSent ∨ 50 < found.tokenTransfersReceived)
      "token_trader" ++
    classifyIf (20 < found.dexCount) "dex_participant" ++
    classifyIf (0 < found.nftCount) "nft_participant" ++
    classifyIf (0 < found.totalTransactions ∧ found.uniqueCallers = 0) "deployer"
  activityLevel := activityLevel found.totalTransactions

def analyzeAddress (setup : Setup) (address : String) : Session AddressIntelligence := do
  let addrBytes ← Session.hexParameter address
  let firstLast ← Session.query (selectFirstLast setup addrBytes)
  let totalTransactions ← Session.query fun db => (db.sentBy addrBytes).length
  let totalEthSent ← Session.query fun db => sumText ((db.sentBy addrBytes).map (·.value))
  let totalEthReceived ← Session.query fun db => sumText ((db.receivedBy addrBytes).map (·.value))
  let uniqueContractsCalled ← Session.query fun db =>
    countDistinct ((db.sentBy addrBytes).filterMap (·.toAddr))
  let uniqueCallers ← Session.query fun db =>
    countDistinct ((db.receivedBy addrBytes).map (·.fromAddr))
  let tokenTransfersSent ← Session.query fun db => (db.transfersFrom addrBytes).length
  let tokenTransfersReceived ← Session.query fun db => (db.transfersTo addrBytes).length
  let dexCount ← queryDexCount addrBytes
  let nftCount ← Session.query (selectNftCount addrBytes)
  return AddressFindings.intelligence address {
    firstLast, totalTransactions, totalEthSent, totalEthReceived, uniqueContractsCalled
    uniqueCallers, tokenTransfersSent, tokenTransfersReceived, dexCount, nftCount }

/-! ## What the analysis returns -/

/-- **The analysis of any address fails**, whatever its queries return, and changes nothing. -/
theorem analyzeAddress_fails (setup : Setup) (address : String) :
    (analyzeAddress setup address).Fails := by
  unfold analyzeAddress
  refine Session.fails_bind_right (Session.reads_lift _) fun addrBytes => ?_
  -- The queries before the refused one are answered or fail.
  iterate 8 refine Session.fails_bind_right (Session.reads_query _) fun _ => ?_
  rw [queryDexCount_eq]
  exact Session.fails_bind_left (Session.fails_refused _)

end ChainLens
