import ChainLens.Domain.Types
import ChainLens.Library.SqlTypes
import ChainLens.Library.Table

/-!
# The database schema

The tables the migrations create, as lists of rows, and the statements the program runs on them:
inserts with their conflict targets and constraints, and deletes with the foreign-key actions
they trigger. `BYTEA` columns hold byte strings, `NUMERIC` columns their canonical decimal text,
`BIGINT` and `INT` columns the naturals that fit them, `DOUBLE PRECISION` columns bit patterns.

## Main definitions

* `BlockRow`, `TransactionRow`, …: the rows of each table
* `Db`: the tables, the cursor row included
* `Db.prepared`, `getColumns`: statements and rows whose types are checked first
* `Db.deleteBlocks`: deleting blocks with every cascade
* `Db.Valid`: the primary keys, unique columns and foreign keys of the migrations
-/

namespace ChainLens

/-- A `NUMERIC(78,0)` value, as its canonical decimal text. -/
abbrev Numeric := String

/-- The value of a canonical decimal text. -/
def numericValue (n : Numeric) : ℕ :=
  n.toList.foldl (fun acc c => 10 * acc + (c.toNat - '0'.toNat)) 0

/-- **Reading back what was written**, however long the number. -/
@[simp] theorem numericValue_toString (n : ℕ) : numericValue (toString n) = n := by
  have hdigits : (toString n).toList = Nat.toDigits 10 n := Nat.toList_repr
  unfold numericValue
  rw [hdigits]
  exact Nat.ofDigitChars_ten_toDigits

/-- A `DOUBLE PRECISION` value, as its bit pattern. -/
abbrev Double := UInt64

/-! ## Rows of the chain tables -/

structure BlockRow where
  number : ℕ
  hash : Bytes
  parentHash : Bytes
  timestamp : ℕ
  miner : Bytes
  gasUsed : ℕ
  gasLimit : ℕ
  baseFee : Option Numeric
  txCount : ℕ
deriving DecidableEq

structure TransactionRow where
  hash : Bytes
  blockNumber : ℕ
  txIndex : ℕ
  fromAddr : Bytes
  toAddr : Option Bytes
  value : Numeric
  nonce : ℕ
  txType : ℕ
  gasLimit : ℕ
  gasPrice : Option Numeric
  maxFeePerGas : Option Numeric
  maxPriorityFeePerGas : Option Numeric
  input : Bytes
  status : Option ℕ
  gasUsed : ℕ
  effectiveGasPrice : Option Numeric
  contractAddress : Option Bytes
deriving DecidableEq

structure LogRow where
  blockNumber : ℕ
  logIndex : ℕ
  txHash : Bytes
  address : Bytes
  topic0 : Option Bytes
  topic1 : Option Bytes
  topic2 : Option Bytes
  topic3 : Option Bytes
  data : Bytes
deriving DecidableEq

/-- The primary key of `logs`, and of `token_transfers`. -/
def LogRow.key (row : LogRow) : ℕ × ℕ := (row.blockNumber, row.logIndex)

structure TokenTransferRow where
  blockNumber : ℕ
  logIndex : ℕ
  tokenAddress : Bytes
  fromAddr : Bytes
  toAddr : Bytes
  value : Numeric
  tokenId : Numeric
  standard : ℕ
deriving DecidableEq

def TokenTransferRow.key (row : TokenTransferRow) : ℕ × ℕ := (row.blockNumber, row.logIndex)

structure AddressTransactionRow where
  address : Bytes
  blockNumber : ℕ
  txIndex : ℕ
  txHash : Bytes
  direction : ℕ
deriving DecidableEq

/-- The primary key of `address_transactions`. -/
def AddressTransactionRow.key (row : AddressTransactionRow) : Bytes × ℕ × ℕ × ℕ :=
  (row.address, row.blockNumber, row.txIndex, row.direction)

/-- The single row of `indexer_state`. -/
structure IndexerState where
  lastIndexedNumber : Option ℕ
  lastIndexedHash : Option Bytes
  finalizedNumber : Option ℕ
  updatedAt : ℕ
deriving DecidableEq

structure ReorgRow where
  id : ℕ
  detectedAt : ℕ
  commonAncestorNumber : ℕ
  depth : ℕ
  orphanedFrom : ℕ
  orphanedTo : ℕ
  orphanedHashes : List Bytes
deriving DecidableEq

/-! ## Rows of the intelligence tables -/

structure TransactionActionRow where
  id : ℕ
  txHash : Bytes
  actionType : String
  fromAddr : Bytes
  toAddr : Option Bytes
  tokenAddress : Option Bytes
  amount : Option Int
  spender : Option Bytes
  description : String
deriving DecidableEq

structure AddressStatsRow where
  address : Bytes
  firstSeen : Option String
  lastActive : Option String
  totalTransactions : Int
  totalEthSent : Numeric
  totalEthReceived : Numeric
  uniqueContractsCalled : Int
  uniqueCallers : Int
  tokenTransfersSent : Int
  tokenTransfersReceived : Int
  behaviorClassifications : List String
  activityLevel : String
  updatedAt : ℕ
deriving DecidableEq

structure AddressRelationshipRow where
  fromAddr : Bytes
  toAddr : Bytes
  relationshipType : String
  interactionCount : Int
  totalValue : Option Numeric
  lastSeen : Option ℕ
deriving DecidableEq

/-- The primary key of `address_relationships`. -/
def AddressRelationshipRow.key (row : AddressRelationshipRow) : Bytes × Bytes × String :=
  (row.fromAddr, row.toAddr, row.relationshipType)

structure AnomalyRow where
  id : ℕ
  anomalyType : String
  severity : String
  detectedAt : String
  entity : Bytes
  entityType : String
  description : String
  observedValue : Double
  baselineValue : Double
  threshold : Double
  evidence : List String
  blockNumber : Option ℕ
  txHash : Option Bytes
deriving DecidableEq

structure ContractProfileRow where
  address : Bytes
  firstSeen : Option String
  deploymentBlock : Option ℕ
  creator : Option Bytes
  deploymentTx : Option Bytes
  totalTransactions : Int
  uniqueCallers : Int
  uniqueContractsCalled : Int
  tokenTransfers : Int
  eventCount : Int
  functionSelectors : List String
  isToken : Bool
  isNft : Bool
  updatedAt : ℕ
deriving DecidableEq

structure BlockAnalyticsRow where
  blockNumber : ℕ
  totalPriorityFees : Numeric
  avgPriorityFee : Numeric
  maxPriorityFee : Numeric
  mevEventCount : ℕ
  unusualTxCount : ℕ
deriving DecidableEq

structure MevEventRow where
  id : ℕ
  mevType : String
  severity : String
  blockNumber : ℕ
  detectedAt : String
  description : String
  involvedAddresses : List Bytes
  involvedTransactions : List Bytes
  confidence : Double
deriving DecidableEq

/-! ## The database -/

/-- The next values of the `BIGSERIAL` columns. -/
structure Serials where
  reorgs : ℕ
  transactionActions : ℕ
  anomalies : ℕ
  mevEvents : ℕ
deriving DecidableEq

/-- The tables, and the sequences behind their serial columns. -/
structure Db where
  blocks : List BlockRow
  transactions : List TransactionRow
  logs : List LogRow
  tokenTransfers : List TokenTransferRow
  addressTransactions : List AddressTransactionRow
  indexerState : IndexerState
  reorgs : List ReorgRow
  transactionActions : List TransactionActionRow
  addressStats : List AddressStatsRow
  addressRelationships : List AddressRelationshipRow
  anomalies : List AnomalyRow
  contractProfiles : List ContractProfileRow
  blockAnalytics : List BlockAnalyticsRow
  mevEvents : List MevEventRow
  serials : Serials
deriving DecidableEq

/-- The database as the migrations leave it. -/
def Db.migrated : Db where
  blocks := []
  transactions := []
  logs := []
  tokenTransfers := []
  addressTransactions := []
  indexerState := ⟨none, none, none, 0⟩
  reorgs := []
  transactionActions := []
  addressStats := []
  addressRelationships := []
  anomalies := []
  contractProfiles := []
  blockAnalytics := []
  mevEvents := []
  serials := ⟨1, 1, 1, 1⟩

/-- The errors of a statement. -/
inductive SqlError where
  | io
  | uniqueViolation (constraint : String)
  | foreignKeyViolation (constraint : String)
  | datetimeFieldOverflow
  | datatypeMismatch (column : String)
  | undefinedOperator (name : String)
  | invalidBytea
  | protocol (message : String)
deriving DecidableEq

/-! ## Types -/

/-- A statement runs if the types of its parameters fit the columns they are for. They are checked
when it is prepared, before the values are known. -/
def Db.prepared (parameters : List Sql.Assignment) (run : Except SqlError Db) :
    Except SqlError Db :=
  match Sql.refusedAt parameters with
  | none => run
  | some column => .error (.datatypeMismatch column)

theorem Db.prepared_of_fits {parameters : List Sql.Assignment}
    (h : ∀ parameter ∈ parameters, parameter.fits = true) (run : Except SqlError Db) :
    prepared parameters run = run := by
  rw [prepared, Sql.refusedAt_eq_none_iff.mpr h]

theorem Db.prepared_of_refused {parameters : List Sql.Assignment} {column : String}
    (h : Sql.refusedAt parameters = some column) (run : Except SqlError Db) :
    prepared parameters run = .error (.datatypeMismatch column) := by
  rw [prepared, h]

/-- `row.get(…)` for each column of a row, which panics at a column of another type. -/
def getColumns {ε : Type} (columns : List Sql.Column) : Except (Fault ε) Unit :=
  match Sql.unreadableAt columns with
  | none => .ok ()
  | some column => .error (.panic column)

/-! ## Deletes and their foreign-key actions -/

/-- Whether a hash is among others. -/
instance decidableMemBytes (b : Bytes) (l : List Bytes) : Decidable (b ∈ l) := inferInstance

/-- Whether a log key is among others. -/
instance decidableMemKey (k : ℕ × ℕ) (l : List (ℕ × ℕ)) : Decidable (k ∈ l) := inferInstance

namespace Db

/-- `DELETE FROM transactions`, with the cascades to actions and anomalies. -/
def deleteTransactions (db : Db) (p : TransactionRow → Bool) : Db :=
  let gone := (db.transactions.filter p).map (·.hash)
  { db with
    transactions := db.transactions.filter (!p ·)
    transactionActions := db.transactionActions.filter (·.txHash ∉ gone)
    anomalies := db.anomalies.filter fun row => ∀ hash ∈ row.txHash, hash ∉ gone }

/-- `DELETE FROM logs`, with the cascade to token transfers. -/
def deleteLogs (db : Db) (p : LogRow → Bool) : Db :=
  let gone := (db.logs.filter p).map LogRow.key
  { db with
    logs := db.logs.filter (!p ·)
    tokenTransfers := db.tokenTransfers.filter (·.key ∉ gone) }

/-- `DELETE FROM blocks`, with every cascade; a contract profile only loses its deployment
block. -/
def deleteBlocks (db : Db) (p : BlockRow → Bool) : Db :=
  let gone := (db.blocks.filter p).map (·.number)
  let db := { db with blocks := db.blocks.filter (!p ·) }
  -- Transactions and logs take what depends on them along.
  let db := db.deleteTransactions (·.blockNumber ∈ gone)
  let db := db.deleteLogs (·.blockNumber ∈ gone)
  { db with
    anomalies := db.anomalies.filter fun row => ∀ number ∈ row.blockNumber, number ∉ gone
    -- This reference is set to null, the others cascade.
    contractProfiles := db.contractProfiles.map fun row =>
      if ∃ number ∈ row.deploymentBlock, number ∈ gone then { row with deploymentBlock := none }
      else row
    blockAnalytics := db.blockAnalytics.filter (·.blockNumber ∉ gone)
    mevEvents := db.mevEvents.filter (·.blockNumber ∉ gone) }

/-! ## Constraints -/

/-- The constraints of the migrations the development relies on: the range of the block number
columns, primary keys, unique columns and foreign keys. -/
structure Valid (db : Db) : Prop where
  blocks_bigint : ∀ row ∈ db.blocks, row.number ≤ i64Max
  addressTransactions_bigint : ∀ row ∈ db.addressTransactions, row.blockNumber ≤ i64Max
  blocks_number : (db.blocks.map (·.number)).Nodup
  blocks_hash : (db.blocks.map (·.hash)).Nodup
  transactions_hash : (db.transactions.map (·.hash)).Nodup
  transactions_block : ∀ row ∈ db.transactions, row.blockNumber ∈ db.blocks.map (·.number)
  logs_key : (db.logs.map LogRow.key).Nodup
  logs_block : ∀ row ∈ db.logs, row.blockNumber ∈ db.blocks.map (·.number)
  tokenTransfers_log : ∀ row ∈ db.tokenTransfers, row.key ∈ db.logs.map LogRow.key
  transactionActions_tx : ∀ row ∈ db.transactionActions, row.txHash ∈ db.transactions.map (·.hash)
  anomalies_block : ∀ row ∈ db.anomalies, ∀ number ∈ row.blockNumber,
    number ∈ db.blocks.map (·.number)
  anomalies_tx : ∀ row ∈ db.anomalies, ∀ hash ∈ row.txHash, hash ∈ db.transactions.map (·.hash)
  blockAnalytics_block : ∀ row ∈ db.blockAnalytics, row.blockNumber ∈ db.blocks.map (·.number)
  mevEvents_block : ∀ row ∈ db.mevEvents, row.blockNumber ∈ db.blocks.map (·.number)

theorem valid_migrated : Valid migrated := by
  constructor <;> simp [migrated]

end Db

end ChainLens
