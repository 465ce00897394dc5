import ChainLens.Domain.Text
import ChainLens.Store.Postgres

/-!
# Persisting intelligence

The background processor and the API handlers write derived data through these functions, each
of its statements in a transaction of its own. They reach the intelligence tables only, and the
foreign keys tie what they write to the stored blocks and transactions.

The statements write no cast, unlike those of the indexer. An action is bound as what its columns
take, and every other statement binds a text for a column of times or numbers, so that it is refused
when it is prepared, whatever the values are.

## Main definitions

* `persistTransactionActions`, `persistAddressStats`, `persistContractProfile`, `persistAnomaly`,
  `persistMevEvent`, `persistBlockAnalytics`, `persistAddressRelationship`
* `Refused`: calls that return an error and leave the database
* `Db.SameIndexed`: the tables the indexer fills are the same

## Main results

* `persistAddressStats_refused` and its siblings: all calls but those for actions are refused
* `persistTransactionActions_valid`, `persistTransactionActions_sameIndexed`: the others keep the
  constraints and the indexed tables
-/

namespace ChainLens

/-! ## What is persisted -/

inductive ActionType where
  | ethTransfer
  | erc20Transfer
  | erc20Approval
  | erc721Transfer
  | erc1155Transfer
  | contractCreation
  | contractCall
  | swap
  | unknown
deriving DecidableEq

/-- `format!("{:?}", action_type).to_lowercase()`. -/
def ActionType.lowercase : ActionType → String
  | .ethTransfer => "ethtransfer"
  | .erc20Transfer => "erc20transfer"
  | .erc20Approval => "erc20approval"
  | .erc721Transfer => "erc721transfer"
  | .erc1155Transfer => "erc1155transfer"
  | .contractCreation => "contractcreation"
  | .contractCall => "contractcall"
  | .swap => "swap"
  | .unknown => "unknown"

structure TransactionAction where
  actionType : ActionType
  fromAddr : String
  toAddr : Option String
  tokenAddress : Option String
  amount : Option String
  spender : Option String
  description : String
deriving DecidableEq

structure TransactionExplanation where
  txHash : String
  actions : List TransactionAction
deriving DecidableEq

structure AddressIntelligence where
  address : String
  firstSeen : Option String
  lastActive : Option String
  totalTransactions : Int
  totalEthSent : Numeric
  totalEthReceived : Numeric
  uniqueContractsCalled : Int
  uniqueCallers : Int
  tokenTransfersSent : Int
  tokenTransfersReceived : Int
  behaviorClassifications : List String
  activityLevel : String
deriving DecidableEq

structure ContractIntelligence where
  address : String
  firstSeen : Option String
  deploymentBlock : Option Int
  creator : Option String
  deploymentTx : Option String
  totalTransactions : Int
  uniqueCallers : Int
  uniqueContractsCalled : Int
  tokenTransfers : Int
  eventCount : Int
  functionSelectors : List String
  isToken : Bool
  isNft : Bool
deriving DecidableEq

inductive AnomalyType where
  | largeTransfer
  | activitySpike
  | newWalletHighValue
  | contractInteractionSpike
  | coordinatedActivity
deriving DecidableEq

def AnomalyType.lowercase : AnomalyType → String
  | .largeTransfer => "largetransfer"
  | .activitySpike => "activityspike"
  | .newWalletHighValue => "newwallethighvalue"
  | .contractInteractionSpike => "contractinteractionspike"
  | .coordinatedActivity => "coordinatedactivity"

inductive Severity where
  | low
  | medium
  | high
  | critical
deriving DecidableEq

def Severity.lowercase : Severity → String
  | .low => "low"
  | .medium => "medium"
  | .high => "high"
  | .critical => "critical"

structure Anomaly where
  anomalyType : AnomalyType
  severity : Severity
  detectedAt : String
  entity : String
  entityType : String
  description : String
  observedValue : Double
  baselineValue : Double
  threshold : Double
  evidence : List String
  blockNumber : Option Int
  txHash : Option String
deriving DecidableEq

inductive MevType where
  | possibleSandwich
  | possibleArbitrage
  | possibleLiquidation
  | priorityFeeAnomaly
  | repeatedProtocolInteraction
deriving DecidableEq

def MevType.lowercase : MevType → String
  | .possibleSandwich => "possiblesandwich"
  | .possibleArbitrage => "possiblearbitrage"
  | .possibleLiquidation => "possibleliquidation"
  | .priorityFeeAnomaly => "priorityfeeanomaly"
  | .repeatedProtocolInteraction => "repeatedprotocolinteraction"

structure MevEvent where
  mevType : MevType
  severity : String
  blockNumber : Int
  timestamp : String
  description : String
  involvedAddresses : List String
  involvedTransactions : List String
  confidence : Double
deriving DecidableEq

structure BlockAnalytics where
  blockNumber : Int
  totalPriorityFees : Numeric
  avgPriorityFee : Numeric
  maxPriorityFee : Numeric
  mevEvents : List MevEvent
  unusualTransactions : List String
deriving DecidableEq

/-! ## The statements -/

section Parameters

open Sql

def transactionActionParameters : List Assignment := [
  ⟨"tx_hash", .bytea, .bytes⟩,
  ⟨"action_type", .varchar, .string⟩,
  ⟨"from_addr", .bytea, .bytes⟩,
  ⟨"to_addr", .bytea, .option .bytes⟩,
  ⟨"token_address", .bytea, .option .bytes⟩,
  ⟨"amount", .numeric, .option .i64⟩,
  ⟨"spender", .bytea, .option .bytes⟩,
  ⟨"description", .text, .string⟩]

def addressStatsParameters : List Assignment := [
  ⟨"address", .bytea, .bytes⟩,
  ⟨"first_seen", .timestamptz, .option .string⟩,
  ⟨"last_active", .timestamptz, .option .string⟩,
  ⟨"total_transactions", .bigint, .i64⟩,
  ⟨"total_eth_sent", .numeric, .string⟩,
  ⟨"total_eth_received", .numeric, .string⟩,
  ⟨"unique_contracts_called", .bigint, .i64⟩,
  ⟨"unique_callers", .bigint, .i64⟩,
  ⟨"token_transfers_sent", .bigint, .i64⟩,
  ⟨"token_transfers_received", .bigint, .i64⟩,
  ⟨"behavior_classifications", .array .text, .vec .string⟩,
  ⟨"activity_level", .varchar, .string⟩]

def contractProfileParameters : List Assignment := [
  ⟨"address", .bytea, .bytes⟩,
  ⟨"first_seen", .timestamptz, .option .string⟩,
  ⟨"deployment_block", .bigint, .option .i64⟩,
  ⟨"creator", .bytea, .option .bytes⟩,
  ⟨"deployment_tx", .bytea, .option .bytes⟩,
  ⟨"total_transactions", .bigint, .i64⟩,
  ⟨"unique_callers", .bigint, .i64⟩,
  ⟨"unique_contracts_called", .bigint, .i64⟩,
  ⟨"token_transfers", .bigint, .i64⟩,
  ⟨"event_count", .bigint, .i64⟩,
  ⟨"function_selectors", .array .text, .vec .string⟩,
  ⟨"is_token", .boolean, .bool⟩,
  ⟨"is_nft", .boolean, .bool⟩]

def anomalyParameters : List Assignment := [
  ⟨"anomaly_type", .varchar, .string⟩,
  ⟨"severity", .varchar, .string⟩,
  ⟨"detected_at", .timestamptz, .string⟩,
  ⟨"entity", .bytea, .bytes⟩,
  ⟨"entity_type", .varchar, .string⟩,
  ⟨"description", .text, .string⟩,
  ⟨"observed_value", .double, .f64⟩,
  ⟨"baseline_value", .double, .f64⟩,
  ⟨"threshold", .double, .f64⟩,
  ⟨"evidence", .jsonb, .json⟩,
  ⟨"block_number", .bigint, .option .i64⟩,
  ⟨"tx_hash", .bytea, .option .bytes⟩]

def mevEventParameters : List Assignment := [
  ⟨"mev_type", .varchar, .string⟩,
  ⟨"severity", .varchar, .string⟩,
  ⟨"block_number", .bigint, .i64⟩,
  ⟨"detected_at", .timestamptz, .string⟩,
  ⟨"description", .text, .string⟩,
  ⟨"involved_addresses", .array .bytea, .vec .bytes⟩,
  ⟨"involved_transactions", .array .bytea, .vec .bytes⟩,
  ⟨"confidence", .double, .f64⟩]

def blockAnalyticsParameters : List Assignment := [
  ⟨"block_number", .bigint, .i64⟩,
  ⟨"total_priority_fees", .numeric, .string⟩,
  ⟨"avg_priority_fee", .numeric, .string⟩,
  ⟨"max_priority_fee", .numeric, .string⟩,
  ⟨"mev_event_count", .integer, .i32⟩,
  ⟨"unusual_tx_count", .integer, .i32⟩]

def addressRelationshipParameters : List Assignment := [
  ⟨"from_addr", .bytea, .bytes⟩,
  ⟨"to_addr", .bytea, .bytes⟩,
  ⟨"relationship_type", .varchar, .string⟩,
  ⟨"interaction_count", .bigint, .i64⟩,
  ⟨"total_value", .numeric, .option .string⟩]

end Parameters

namespace Db

def hasTransaction (db : Db) (hash : Bytes) : Bool := hash ∈ db.transactions.map (·.hash)

/-- Whether a signed block number is the height of a stored block. -/
def hasBlockNumber (db : Db) (number : Int) : Bool := 0 ≤ number ∧ db.hasBlock number.toNat

def insertTransactionAction (row : ℕ → TransactionActionRow) (db : Db) : Except SqlError Db :=
  prepared transactionActionParameters <|
    let id := db.serials.transactionActions
    if db.hasTransaction (row id).txHash then
      .ok { db with
        transactionActions := db.transactionActions ++ [row id]
        serials := { db.serials with transactionActions := id + 1 } }
    else .error (.foreignKeyViolation "transaction_actions_tx_hash_fkey")

def upsertAddressStats (row : AddressStatsRow) (db : Db) : Except SqlError Db :=
  prepared addressStatsParameters <|
    .ok { db with
      addressStats := Table.upsert AddressStatsRow.address (fun _ row => row) db.addressStats row }

def upsertContractProfile (deploymentBlock : Option Int) (row : ContractProfileRow) (db : Db) :
    Except SqlError Db :=
  prepared contractProfileParameters <|
    if ∀ number ∈ deploymentBlock, db.hasBlockNumber number then
      .ok { db with
        contractProfiles :=
          Table.upsert ContractProfileRow.address (fun _ row => row) db.contractProfiles row }
    else .error (.foreignKeyViolation "contract_profiles_deployment_block_fkey")

def insertAnomaly (blockNumber : Option Int) (row : ℕ → AnomalyRow) (db : Db) :
    Except SqlError Db :=
  prepared anomalyParameters <|
    let id := db.serials.anomalies
    if ¬ ∀ number ∈ blockNumber, db.hasBlockNumber number then
      .error (.foreignKeyViolation "anomalies_block_number_fkey")
    else if ¬ ∀ hash ∈ (row id).txHash, db.hasTransaction hash then
      .error (.foreignKeyViolation "anomalies_tx_hash_fkey")
    else
      .ok { db with
        anomalies := db.anomalies ++ [row id]
        serials := { db.serials with anomalies := id + 1 } }

def insertMevEvent (blockNumber : Int) (row : ℕ → MevEventRow) (db : Db) : Except SqlError Db :=
  prepared mevEventParameters <|
    let id := db.serials.mevEvents
    if db.hasBlockNumber blockNumber then
      .ok { db with
        mevEvents := db.mevEvents ++ [row id]
        serials := { db.serials with mevEvents := id + 1 } }
    else .error (.foreignKeyViolation "mev_events_block_number_fkey")

def upsertBlockAnalytics (blockNumber : Int) (row : BlockAnalyticsRow) (db : Db) :
    Except SqlError Db :=
  prepared blockAnalyticsParameters <|
    if db.hasBlockNumber blockNumber then
      .ok { db with
        blockAnalytics :=
          Table.upsert BlockAnalyticsRow.blockNumber (fun _ row => row) db.blockAnalytics row }
    else .error (.foreignKeyViolation "block_analytics_block_number_fkey")

/-- On a conflict the count, the value and the time of the last interaction are replaced. -/
def upsertAddressRelationship (row : AddressRelationshipRow) (now : ℕ) (db : Db) :
    Except SqlError Db :=
  prepared addressRelationshipParameters <|
    .ok { db with
      addressRelationships := Table.upsert AddressRelationshipRow.key
        (fun _ row => { row with lastSeen := some now }) db.addressRelationships row }

/-- An action is bound as its columns' types, but for a `VARCHAR` that takes a text and a `NUMERIC`
that takes an integer. -/
theorem insertTransactionAction_eq (row : ℕ → TransactionActionRow) (db : Db) :
    db.insertTransactionAction row =
      if db.hasTransaction (row db.serials.transactionActions).txHash then
        .ok { db with
          transactionActions := db.transactionActions ++ [row db.serials.transactionActions]
          serials := { db.serials with transactionActions := db.serials.transactionActions + 1 } }
      else .error (.foreignKeyViolation "transaction_actions_tx_hash_fkey") :=
  prepared_of_fits (by decide) _

/-! The other statements are refused at their first column that is bound as a text without taking
one. -/

theorem upsertAddressStats_refused (row : AddressStatsRow) (db : Db) :
    db.upsertAddressStats row = .error (.datatypeMismatch "first_seen") :=
  prepared_of_refused rfl _

theorem upsertContractProfile_refused (deploymentBlock : Option Int) (row : ContractProfileRow)
    (db : Db) :
    db.upsertContractProfile deploymentBlock row = .error (.datatypeMismatch "first_seen") :=
  prepared_of_refused rfl _

theorem insertAnomaly_refused (blockNumber : Option Int) (row : ℕ → AnomalyRow) (db : Db) :
    db.insertAnomaly blockNumber row = .error (.datatypeMismatch "detected_at") :=
  prepared_of_refused rfl _

theorem insertMevEvent_refused (blockNumber : Int) (row : ℕ → MevEventRow) (db : Db) :
    db.insertMevEvent blockNumber row = .error (.datatypeMismatch "detected_at") :=
  prepared_of_refused rfl _

theorem upsertBlockAnalytics_refused (blockNumber : Int) (row : BlockAnalyticsRow) (db : Db) :
    db.upsertBlockAnalytics blockNumber row = .error (.datatypeMismatch "total_priority_fees") :=
  prepared_of_refused rfl _

theorem upsertAddressRelationship_refused (row : AddressRelationshipRow) (now : ℕ) (db : Db) :
    db.upsertAddressRelationship row now = .error (.datatypeMismatch "total_value") :=
  prepared_of_refused rfl _

end Db

/-! ## The persist functions -/

/-- `hex::decode(text.trim_start_matches("0x")).map_err(|_| Protocol(message))`. -/
def hexBytes (text message : String) : Except SqlError Bytes :=
  match hexDecodeTrimmed text with
  | some bytes => .ok bytes
  | none => .error (.protocol message)

/-- The same on an optional text. -/
def hexBytesOption (text : Option String) (message : String) : Except SqlError (Option Bytes) :=
  match text with
  | none => .ok none
  | some text => (hexBytes text message).map some

/-- The row of an action, up to its serial number. -/
def actionRow (txHash : Bytes) (action : TransactionAction) :
    Except SqlError (ℕ → TransactionActionRow) := do
  let fromAddr ← hexBytes action.fromAddr "invalid from address"
  let toAddr ← hexBytesOption action.toAddr "invalid to address"
  let tokenAddress ← hexBytesOption action.tokenAddress "invalid token address"
  let spender ← hexBytesOption action.spender "invalid spender address"
  return fun id => {
    id, txHash
    actionType := action.actionType.lowercase
    fromAddr, toAddr, tokenAddress
    amount := action.amount.bind parseI64
    spender
    description := action.description }

/-- The loop over the actions: the rows before a failing one stay. -/
def persistActions (txHash : Bytes) :
    List TransactionAction → PgPool → Except SqlError Unit × PgPool
  | [], pool => (.ok (), pool)
  | action :: actions, pool =>
    match actionRow txHash action with
    | .error e => (.error e, pool)
    | .ok row =>
      match pool.transact (Db.insertTransactionAction row) with
      | (.error e, pool) => (.error e, pool)
      | (.ok (), pool) => persistActions txHash actions pool

def persistTransactionActions (pool : PgPool) (explanation : TransactionExplanation) :
    Except SqlError Unit × PgPool :=
  match hexBytes explanation.txHash "invalid tx hash" with
  | .error e => (.error e, pool)
  | .ok txHash => persistActions txHash explanation.actions pool

def persistAddressStats (pool : PgPool) (intel : AddressIntelligence) :
    Except SqlError Unit × PgPool :=
  match hexBytes intel.address "invalid address" with
  | .error e => (.error e, pool)
  | .ok address =>
    pool.transact (Db.upsertAddressStats {
      address
      firstSeen := intel.firstSeen
      lastActive := intel.lastActive
      totalTransactions := intel.totalTransactions
      totalEthSent := intel.totalEthSent
      totalEthReceived := intel.totalEthReceived
      uniqueContractsCalled := intel.uniqueContractsCalled
      uniqueCallers := intel.uniqueCallers
      tokenTransfersSent := intel.tokenTransfersSent
      tokenTransfersReceived := intel.tokenTransfersReceived
      behaviorClassifications := intel.behaviorClassifications
      activityLevel := intel.activityLevel
      updatedAt := pool.now })

/-- The row of a contract profile. -/
def contractProfileRow (intel : ContractIntelligence) (now : ℕ) :
    Except SqlError ContractProfileRow := do
  let address ← hexBytes intel.address "invalid address"
  let creator ← hexBytesOption intel.creator "invalid creator"
  let deploymentTx ← hexBytesOption intel.deploymentTx "invalid deploy tx"
  return {
    address
    firstSeen := intel.firstSeen
    deploymentBlock := intel.deploymentBlock.map Int.toNat
    creator, deploymentTx
    totalTransactions := intel.totalTransactions
    uniqueCallers := intel.uniqueCallers
    uniqueContractsCalled := intel.uniqueContractsCalled
    tokenTransfers := intel.tokenTransfers
    eventCount := intel.eventCount
    functionSelectors := intel.functionSelectors
    isToken := intel.isToken
    isNft := intel.isNft
    updatedAt := now }

def persistContractProfile (pool : PgPool) (intel : ContractIntelligence) :
    Except SqlError Unit × PgPool :=
  match contractProfileRow intel pool.now with
  | .error e => (.error e, pool)
  | .ok row => pool.transact (Db.upsertContractProfile intel.deploymentBlock row)

/-- The row of an anomaly, up to its serial number. An entity that is not hex is stored as its
text, and a transaction hash that is not hex as the empty byte string. -/
def anomalyRow (anomaly : Anomaly) (id : ℕ) : AnomalyRow where
  id := id
  anomalyType := anomaly.anomalyType.lowercase
  severity := anomaly.severity.lowercase
  detectedAt := anomaly.detectedAt
  entity := (hexDecodeTrimmed anomaly.entity).getD anomaly.entity.toUTF8.toList
  entityType := anomaly.entityType
  description := anomaly.description
  observedValue := anomaly.observedValue
  baselineValue := anomaly.baselineValue
  threshold := anomaly.threshold
  evidence := anomaly.evidence
  blockNumber := anomaly.blockNumber.map Int.toNat
  txHash := anomaly.txHash.map fun hash => (hexDecodeTrimmed hash).getD []

/-- The result is the serial number of the new row. -/
def persistAnomaly (pool : PgPool) (anomaly : Anomaly) : Except SqlError ℕ × PgPool :=
  let (result, pool') := pool.transact (Db.insertAnomaly anomaly.blockNumber (anomalyRow anomaly))
  (result.map fun _ => pool.db.serials.anomalies, pool')

/-- The row of an MEV event, up to its serial number; texts that are not hex are left out. -/
def mevEventRow (event : MevEvent) (id : ℕ) : MevEventRow where
  id := id
  mevType := event.mevType.lowercase
  severity := event.severity
  blockNumber := event.blockNumber.toNat
  detectedAt := event.timestamp
  description := event.description
  involvedAddresses := event.involvedAddresses.filterMap hexDecodeTrimmed
  involvedTransactions := event.involvedTransactions.filterMap hexDecodeTrimmed
  confidence := event.confidence

def persistMevEvent (pool : PgPool) (event : MevEvent) : Except SqlError ℕ × PgPool :=
  let (result, pool') := pool.transact (Db.insertMevEvent event.blockNumber (mevEventRow event))
  (result.map fun _ => pool.db.serials.mevEvents, pool')

def persistBlockAnalytics (pool : PgPool) (analytics : BlockAnalytics) :
    Except SqlError Unit × PgPool :=
  pool.transact (Db.upsertBlockAnalytics analytics.blockNumber {
    blockNumber := analytics.blockNumber.toNat
    totalPriorityFees := analytics.totalPriorityFees
    avgPriorityFee := analytics.avgPriorityFee
    maxPriorityFee := analytics.maxPriorityFee
    mevEventCount := saturate i32Max analytics.mevEvents.length
    unusualTxCount := saturate i32Max analytics.unusualTransactions.length })

def persistAddressRelationship (pool : PgPool) (fromAddr toAddr relationship : String)
    (count : Int) (totalValue : Option Numeric) : Except SqlError Unit × PgPool :=
  match hexBytes fromAddr "invalid from" with
  | .error e => (.error e, pool)
  | .ok fromBytes =>
    match hexBytes toAddr "invalid to" with
    | .error e => (.error e, pool)
    | .ok toBytes =>
      pool.transact (Db.upsertAddressRelationship
        ⟨fromBytes, toBytes, relationship, count, totalValue, none⟩ pool.now)

/-! ## Refused calls -/

/-- A call returns an error and leaves the database, whatever happens to its statement. -/
def Refused {α : Type} (call : PgPool → Except SqlError α × PgPool) : Prop :=
  ∀ pool, (∃ e, (call pool).1 = .error e) ∧ (call pool).2.db = pool.db

/-- A statement that is refused on every database. -/
theorem refused_transact {body : Db → Except SqlError Db} {error : SqlError}
    (h : ∀ db, body db = .error error) (pool : PgPool) :
    (∃ e, (pool.transact body).1 = .error e) ∧ (pool.transact body).2.db = pool.db := by
  rcases pool.transact_cases body with hsame | ⟨db, hok, -⟩
  · exact hsame
  · cases (h pool.db).symm.trans hok

theorem persistAddressStats_refused (intel : AddressIntelligence) :
    Refused (persistAddressStats · intel) := by
  intro pool
  dsimp only
  unfold persistAddressStats
  split
  next e _ => exact ⟨⟨e, rfl⟩, rfl⟩
  next => exact refused_transact (Db.upsertAddressStats_refused _) pool

theorem persistContractProfile_refused (intel : ContractIntelligence) :
    Refused (persistContractProfile · intel) := by
  intro pool
  dsimp only
  unfold persistContractProfile
  split
  next e _ => exact ⟨⟨e, rfl⟩, rfl⟩
  next => exact refused_transact (Db.upsertContractProfile_refused _ _) pool

theorem persistAnomaly_refused (anomaly : Anomaly) : Refused (persistAnomaly · anomaly) := by
  intro pool
  obtain ⟨⟨e, he⟩, hdb⟩ := refused_transact
    (Db.insertAnomaly_refused anomaly.blockNumber (anomalyRow anomaly)) pool
  exact ⟨⟨e, congrArg (Except.map _) he⟩, hdb⟩

theorem persistMevEvent_refused (event : MevEvent) : Refused (persistMevEvent · event) := by
  intro pool
  obtain ⟨⟨e, he⟩, hdb⟩ := refused_transact
    (Db.insertMevEvent_refused event.blockNumber (mevEventRow event)) pool
  exact ⟨⟨e, congrArg (Except.map _) he⟩, hdb⟩

theorem persistBlockAnalytics_refused (analytics : BlockAnalytics) :
    Refused (persistBlockAnalytics · analytics) :=
  refused_transact (Db.upsertBlockAnalytics_refused _ _)

theorem persistAddressRelationship_refused (fromAddr toAddr relationship : String) (count : Int)
    (totalValue : Option Numeric) :
    Refused (persistAddressRelationship · fromAddr toAddr relationship count totalValue) := by
  intro pool
  dsimp only
  unfold persistAddressRelationship
  split
  next e _ => exact ⟨⟨e, rfl⟩, rfl⟩
  next =>
    split
    next e _ => exact ⟨⟨e, rfl⟩, rfl⟩
    next => exact refused_transact (Db.upsertAddressRelationship_refused _ _) pool

/-! ## The constraints stay -/

theorem Db.Valid.insertTransactionAction {db db' : Db} (hdb : db.Valid)
    {row : ℕ → TransactionActionRow} (h : db.insertTransactionAction row = .ok db') :
    db'.Valid := by
  rw [insertTransactionAction_eq] at h
  split at h
  next htx =>
    cases h
    refine { hdb with transactionActions_tx := fun r hr => ?_ }
    rcases List.mem_append.mp hr with hr | hr
    · exact hdb.transactionActions_tx r hr
    · rw [List.mem_singleton.mp hr]
      exact of_decide_eq_true htx
  · cases h

theorem persistActions_valid {pool : PgPool} {txHash : Bytes} {actions : List TransactionAction}
    (h : pool.db.Valid) : (persistActions txHash actions pool).2.db.Valid := by
  induction actions generalizing pool with
  | nil => exact h
  | cons action actions ih =>
    unfold persistActions
    split
    · exact h
    next row hrow =>
      have hkeep : (pool.transact (Db.insertTransactionAction row)).2.db.Valid :=
        pool.transact_preserves (fun _ hok => h.insertTransactionAction hok) h
      split
      next heq =>
        rw [heq] at hkeep
        exact hkeep
      next heq =>
        rw [heq] at hkeep
        exact ih hkeep

theorem persistTransactionActions_valid {pool : PgPool} (h : pool.db.Valid)
    (explanation : TransactionExplanation) :
    (persistTransactionActions pool explanation).2.db.Valid := by
  unfold persistTransactionActions
  split
  · exact h
  · exact persistActions_valid h

/-! ## The indexed tables stay -/

/-- The tables the indexer fills, with the cursor and the recorded reorgs, are the same. -/
structure Db.SameIndexed (db db' : Db) : Prop where
  blocks : db'.blocks = db.blocks
  transactions : db'.transactions = db.transactions
  logs : db'.logs = db.logs
  tokenTransfers : db'.tokenTransfers = db.tokenTransfers
  addressTransactions : db'.addressTransactions = db.addressTransactions
  indexerState : db'.indexerState = db.indexerState
  reorgs : db'.reorgs = db.reorgs

namespace Db.SameIndexed

variable {db db₁ db₂ : Db}

@[refl] theorem refl (db : Db) : db.SameIndexed db := ⟨rfl, rfl, rfl, rfl, rfl, rfl, rfl⟩

theorem trans (h₁ : db.SameIndexed db₁) (h₂ : db₁.SameIndexed db₂) : db.SameIndexed db₂ where
  blocks := h₂.blocks.trans h₁.blocks
  transactions := h₂.transactions.trans h₁.transactions
  logs := h₂.logs.trans h₁.logs
  tokenTransfers := h₂.tokenTransfers.trans h₁.tokenTransfers
  addressTransactions := h₂.addressTransactions.trans h₁.addressTransactions
  indexerState := h₂.indexerState.trans h₁.indexerState
  reorgs := h₂.reorgs.trans h₁.reorgs

theorem cursor (h : db.SameIndexed db₁) : db₁.cursor = db.cursor := by
  unfold Db.cursor
  rw [h.indexerState]

/-- A transaction whose body only touches other tables. -/
theorem transact {pool : PgPool} {body : Db → Except SqlError Db}
    (hbody : ∀ db, body pool.db = .ok db → pool.db.SameIndexed db) :
    pool.db.SameIndexed (pool.transact body).2.db :=
  pool.transact_preserves hbody (refl pool.db)

end Db.SameIndexed

/-- A call of one of the functions the background processor persists through. -/
inductive PersistCall where
  | transactionActions (explanation : TransactionExplanation)
  | addressStats (intel : AddressIntelligence)
  | contractProfile (intel : ContractIntelligence)
  | anomaly (found : Anomaly)
  | blockAnalytics (analytics : BlockAnalytics)
  | mevEvent (event : MevEvent)

/-- What a call leaves; the processor drops the results. -/
def PersistCall.run (pool : PgPool) : PersistCall → PgPool
  | .transactionActions explanation => (persistTransactionActions pool explanation).2
  | .addressStats intel => (persistAddressStats pool intel).2
  | .contractProfile intel => (persistContractProfile pool intel).2
  | .anomaly found => (persistAnomaly pool found).2
  | .blockAnalytics analytics => (persistBlockAnalytics pool analytics).2
  | .mevEvent event => (persistMevEvent pool event).2

section Pool

variable {pool : PgPool}

theorem insertTransactionAction_sameIndexed {row : ℕ → TransactionActionRow} {db db' : Db}
    (h : db.insertTransactionAction row = .ok db') : db.SameIndexed db' := by
  rw [Db.insertTransactionAction_eq] at h
  split at h
  · cases h
    exact ⟨rfl, rfl, rfl, rfl, rfl, rfl, rfl⟩
  · cases h

theorem persistActions_sameIndexed (txHash : Bytes) (actions : List TransactionAction)
    (pool : PgPool) : pool.db.SameIndexed (persistActions txHash actions pool).2.db := by
  induction actions generalizing pool with
  | nil => exact .refl pool.db
  | cons action actions ih =>
    unfold persistActions
    split
    · exact .refl pool.db
    next row hrow =>
      have hkeep : pool.db.SameIndexed (pool.transact (Db.insertTransactionAction row)).2.db :=
        .transact fun _ hok => insertTransactionAction_sameIndexed hok
      split
      next heq =>
        rw [heq] at hkeep
        exact hkeep
      next heq =>
        rw [heq] at hkeep
        exact hkeep.trans (ih _)

theorem persistTransactionActions_sameIndexed (explanation : TransactionExplanation) :
    pool.db.SameIndexed (persistTransactionActions pool explanation).2.db := by
  unfold persistTransactionActions
  split
  · exact .refl pool.db
  · exact persistActions_sameIndexed _ _ pool

/-- A call for actions, or one that leaves the database. -/
theorem PersistCall.run_cases (call : PersistCall) :
    (∃ explanation, call = .transactionActions explanation) ∨ (call.run pool).db = pool.db := by
  cases call with
  | transactionActions explanation => exact .inl ⟨explanation, rfl⟩
  | addressStats intel => exact .inr (persistAddressStats_refused intel pool).2
  | contractProfile intel => exact .inr (persistContractProfile_refused intel pool).2
  | anomaly found => exact .inr (persistAnomaly_refused found pool).2
  | blockAnalytics analytics => exact .inr (persistBlockAnalytics_refused analytics pool).2
  | mevEvent event => exact .inr (persistMevEvent_refused event pool).2

/-- **No persist function writes an indexed table.** -/
theorem PersistCall.run_sameIndexed (call : PersistCall) :
    pool.db.SameIndexed (call.run pool).db := by
  rcases call.run_cases with ⟨explanation, rfl⟩ | hsame
  · exact persistTransactionActions_sameIndexed explanation
  · rw [hsame]

end Pool

end ChainLens
