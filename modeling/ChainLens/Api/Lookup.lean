import ChainLens.Api.Handlers
import ChainLens.Domain.Decimal
import ChainLens.Store.Session

/-!
# Looking up blocks, transactions and events

A block is looked up by its number or by its hash. The text of the path is taken for a number
first, and a hash whose hex text has no letters can be one, since zeros may stand before a number.
The row of a block is never replied: its timestamp is read as a text, and the handler panics.

## Main definitions

* `Api.getBlock`, `Api.getTransaction`: the lookups
* `Api.GetContractEvents`: what the handler of the events may reply

## Main results

* `Api.selectBlock_iff`: when the texts of a block select it
* `Api.getBlock_panics`: the lookup of a stored block panics
-/

namespace ChainLens

namespace Api

/-- The errors of a lookup, by their status code. -/
inductive LookupError where
  | badRequest
  | notFound (error : String)
  | internalServerError
deriving DecidableEq

/-! ## Blocks -/

structure BlockResponse where
  number : ℕ
  hash : String
  parentHash : String
  timestamp : String
  miner : String
  gasUsed : ℕ
  gasLimit : ℕ
  baseFee : Option Numeric
  txCount : ℕ
deriving DecidableEq

def blockResponse (setup : Setup) (row : BlockRow) : BlockResponse where
  number := row.number
  hash := toHex row.hash
  parentHash := toHex row.parentHash
  timestamp := setup.timestampText row.timestamp
  miner := toHex row.miner
  gasUsed := row.gasUsed
  gasLimit := row.gasLimit
  baseFee := row.baseFee
  txCount := row.txCount

/-- What a block is looked up by. -/
inductive BlockKey where
  | number (number : Int)
  | hash (bytes : Bytes)

/-- A text is a number if it can be read as one. -/
def blockKey (numberOrHash : String) : Option BlockKey :=
  match parseI64 numberOrHash with
  | some number => some (.number number)
  | none => (fromHex numberOrHash).map .hash

/-- `SELECT … FROM blocks WHERE number = $1`, or `WHERE hash = $1`. -/
def BlockKey.select (db : Db) : BlockKey → Option BlockRow
  | .number n => db.blocks.find? fun row => (row.number : Int) = n
  | .hash bytes => db.blocks.find? fun row => row.hash = bytes

/-- The row that is selected for a text. -/
def selectBlock (numberOrHash : String) (db : Db) : Option BlockRow :=
  (blockKey numberOrHash).bind fun key => key.select db

/-- What the handler reads of a block, with the timestamp as it is stored. -/
def blockColumns : List Sql.Column := [
  ⟨"number", .bigint, .i64⟩,
  ⟨"hash", .bytea, .bytes⟩,
  ⟨"parent_hash", .bytea, .bytes⟩,
  ⟨"timestamp", .timestamptz, .string⟩,
  ⟨"miner", .bytea, .bytes⟩,
  ⟨"gas_used", .bigint, .i64⟩,
  ⟨"gas_limit", .bigint, .i64⟩,
  ⟨"base_fee", .text, .option .string⟩,
  ⟨"tx_count", .integer, .i32⟩]

/-- The handler, where the query is answered from a database or fails. -/
def getBlock (setup : Setup) (numberOrHash : String) (answer : Except SqlError Db) :
    Except (Fault LookupError) BlockResponse :=
  match blockKey numberOrHash, answer with
  | none, _ => .error (.error .badRequest)
  | some _, .error _ => .error (.error .internalServerError)
  | some key, .ok db =>
    match key.select db with
    | some row => do
      getColumns blockColumns
      return blockResponse setup row
    | none => .error (.error (.notFound "block not found"))

/-- The columns of a block are read in this order, and the timestamp is no text. -/
theorem getColumns_blockColumns {ε : Type} :
    getColumns (ε := ε) blockColumns = .error (.panic "timestamp") := rfl

section Select

variable {db : Db} {b : BlockRow}

/-- **No block is replied**: the lookup of a block that is stored panics, by whatever text the
block is selected. -/
theorem getBlock_panics (setup : Setup) {text : String} (h : selectBlock text db = some b) :
    getBlock setup text (.ok db) = .error (.panic "timestamp") := by
  obtain ⟨key, hkey, hselect⟩ := Option.bind_eq_some_iff.mp h
  simp only [getBlock, hkey, hselect, getColumns_blockColumns]
  rfl

theorem selectBlock_number (hdb : db.Valid) (hb : b ∈ db.blocks) {text : String}
    (htext : parseI64 text = some (b.number : Int)) : selectBlock text db = some b := by
  rw [selectBlock, blockKey, htext]
  refine Table.find?_eq_some_of_unique hb (by simp) ?_
  intro row hrow hnumber
  have hnumber : (row.number : Int) = b.number := of_decide_eq_true hnumber
  exact List.inj_on_of_nodup_map hdb.blocks_number hrow hb (Int.ofNat_inj.mp hnumber)

theorem selectBlock_hash (hdb : db.Valid) (hb : b ∈ db.blocks)
    (htext : parseI64 (toHex b.hash) = none) : selectBlock (toHex b.hash) db = some b := by
  rw [selectBlock, blockKey, htext]
  simp only [toHex, fromHex, hexDecode_hexEncode, Option.map_some, Option.bind_some]
  exact (Table.find?_key_eq_some_iff hdb.blocks_hash).mpr ⟨hb, rfl⟩

/-- A block is selected by its number. -/
theorem selectBlock_toString (hdb : db.Valid) (hb : b ∈ db.blocks) :
    selectBlock (toString b.number) db = some b := by
  apply selectBlock_number hdb hb
  rw [parseI64_toString, if_pos (hdb.blocks_bigint b hb)]

/-- Where no block has the number, the lookup finds none. -/
theorem getBlock_notFound (setup : Setup) {n : ℕ} (hle : n ≤ i64Max)
    (hn : n ∉ db.blocks.map (·.number)) :
    getBlock setup (toString n) (.ok db) = .error (.error (.notFound "block not found")) := by
  have hkey : blockKey (toString n) = some (.number n) := by
    rw [blockKey, parseI64_toString, if_pos hle]
  have hnone : db.blocks.find? (fun row => (row.number : Int) = n) = none := by
    refine List.find?_eq_none.mpr fun row hrow hsame => hn ?_
    have hnumber : row.number = n := Int.ofNat_inj.mp (of_decide_eq_true hsame)
    exact hnumber ▸ List.mem_map_of_mem hrow
  simp only [getBlock, hkey, BlockKey.select, hnone]

/-- A block that is selected by a number has this number. -/
theorem number_eq_of_selectBlock {text : String} {n : Int} (htext : parseI64 text = some n)
    (h : selectBlock text db = some b) : n = b.number := by
  rw [selectBlock, blockKey, htext, Option.bind_some, BlockKey.select] at h
  have hnumber : (b.number : Int) = n := by simpa using List.find?_some h
  exact hnumber.symm

/-- **When the texts of a block select it**: its hash is not, in hex, the number of another block
padded with zeros. -/
theorem selectBlock_iff (setup : Setup) (hdb : db.Valid) (hb : b ∈ db.blocks)
    (hhash : b.hash.length = 32) :
    selectBlock (toString b.number) db = some b ∧
        selectBlock (blockResponse setup b).hash db = some b ↔
      ∀ n : ℕ, n ≤ i64Max → (toHex b.hash).toList = (Nat.toDigits 10 n).leftpad 64 '0' →
        n = b.number := by
  have hne : b.hash ≠ [] := by
    rintro hnil
    rw [hnil] at hhash
    cases hhash
  have hread := fun k : Int => parseI64_hexEncode_iff hne (k := k)
  rw [hhash] at hread
  constructor
  · rintro ⟨-, hselected⟩ n hn hpad
    -- The text of the hash is read as a number, and selects by it.
    have hn := number_eq_of_selectBlock ((hread n).mpr ⟨n, hn, rfl, hpad⟩) hselected
    exact Int.ofNat_inj.mp hn
  · intro hown
    refine ⟨?_, ?_⟩
    · exact selectBlock_toString hdb hb
    · show selectBlock (toHex b.hash) db = some b
      cases hparse : parseI64 (toHex b.hash) with
      | none => exact selectBlock_hash hdb hb hparse
      | some k =>
        obtain ⟨n, hn, rfl, hpad⟩ := (hread k).mp hparse
        rw [hown n hn hpad] at hparse
        exact selectBlock_number hdb hb hparse

end Select

/-- A block with a hash. -/
def numbered (number : ℕ) (hash : Bytes) : BlockRow := ⟨number, hash, [], 0, [], 0, 0, none, 0⟩

/-- A block whose hash has letters, and one whose hash is the number of the first one. -/
def twoBlocks : Db :=
  { Db.migrated with
    blocks := [numbered 5 (List.replicate 32 0xab), numbered 7 (List.replicate 31 0 ++ [5])] }

theorem twoBlocks_valid : twoBlocks.Valid := by
  constructor <;> simp [twoBlocks, numbered, Db.migrated, i64Max]

/-- A server where every timestamp is written as its number. -/
def secondsSetup : Setup where
  timestampText := toString
  minText := List.head?
  maxText := List.head?
  overflowChecks := false

/-- The letters of a hash are no digits, so that it is not taken for a number. -/
theorem twoBlocks_selected :
    let b := numbered 5 (List.replicate 32 0xab)
    selectBlock (toString b.number) twoBlocks = some b ∧
      selectBlock (blockResponse secondsSetup b).hash twoBlocks = some b := by
  apply (selectBlock_iff secondsSetup twoBlocks_valid List.mem_cons_self
    List.length_replicate).mpr
  intro n _ hpad
  have hletter : 'a' ∈ (toHex (numbered 5 (List.replicate 32 0xab)).hash).toList := by
    decide +kernel
  rw [hpad] at hletter
  exact absurd (isDigit_leftpad n 64 'a' hletter) (by decide)

/-- The hash of the second block selects the first one. -/
theorem twoBlocks_confused :
    selectBlock (blockResponse secondsSetup (numbered 7 (List.replicate 31 0 ++ [5]))).hash
      twoBlocks = some (numbered 5 (List.replicate 32 0xab)) := by
  show selectBlock (toHex (List.replicate 31 0 ++ [5])) twoBlocks = _
  decide +kernel

/-! ## Transactions -/

structure TransactionResponse where
  hash : String
  blockNumber : ℕ
  txIndex : ℕ
  fromAddr : String
  toAddr : Option String
  value : Numeric
  nonce : ℕ
  txType : ℕ
  gasLimit : ℕ
  gasPrice : Option Numeric
  status : Option ℕ
  gasUsed : ℕ
deriving DecidableEq

def transactionResponse (row : TransactionRow) : TransactionResponse where
  hash := toHex row.hash
  blockNumber := row.blockNumber
  txIndex := row.txIndex
  fromAddr := toHex row.fromAddr
  toAddr := row.toAddr.map toHex
  value := row.value
  nonce := row.nonce
  txType := row.txType
  gasLimit := row.gasLimit
  gasPrice := row.gasPrice
  status := row.status
  gasUsed := row.gasUsed

/-- What the handler reads of a transaction. -/
def transactionColumns : List Sql.Column := [
  ⟨"hash", .bytea, .bytes⟩,
  ⟨"block_number", .bigint, .i64⟩,
  ⟨"tx_index", .integer, .i32⟩,
  ⟨"from_addr", .bytea, .bytes⟩,
  ⟨"to_addr", .bytea, .option .bytes⟩,
  ⟨"value", .text, .string⟩,
  ⟨"nonce", .bigint, .i64⟩,
  ⟨"tx_type", .smallint, .i16⟩,
  ⟨"gas_limit", .bigint, .i64⟩,
  ⟨"gas_price", .text, .option .string⟩,
  ⟨"status", .smallint, .option .i16⟩,
  ⟨"gas_used", .bigint, .i64⟩]

/-- Both amounts are selected as texts, and every column is read. -/
theorem getColumns_transactionColumns {ε : Type} :
    getColumns (ε := ε) transactionColumns = .ok () := rfl

/-- The handler, where the query is answered from a database or fails. -/
def getTransaction (hash : String) (answer : Except SqlError Db) :
    Except (Fault LookupError) TransactionResponse :=
  match fromHex hash, answer with
  | none, _ => .error (.error .badRequest)
  | some _, .error _ => .error (.error .internalServerError)
  | some bytes, .ok db =>
    match db.transactions.find? fun row => row.hash = bytes with
    | some row => do
      getColumns transactionColumns
      return transactionResponse row
    | none => .error (.error (.notFound "transaction not found"))

/-- The reply is the row that is found. -/
theorem getTransaction_eq {text : String} {bytes : Bytes} (h : fromHex text = some bytes)
    (db : Db) : getTransaction text (.ok db) =
      match db.transactions.find? fun row => row.hash = bytes with
      | some row => .ok (transactionResponse row)
      | none => .error (.error (.notFound "transaction not found")) := by
  simp only [getTransaction, h, getColumns_transactionColumns]
  rfl

/-- A reply is a stored row of the hash. -/
theorem exists_row_of_getTransaction {text : String} {db : Db} {response : TransactionResponse}
    (h : getTransaction text (.ok db) = .ok response) :
    ∃ row ∈ db.transactions, fromHex text = some row.hash ∧ response = transactionResponse row := by
  cases htext : fromHex text with
  | none =>
    simp only [getTransaction, htext] at h
    cases h
  | some hash =>
    rw [getTransaction_eq htext] at h
    cases hfound : db.transactions.find? fun row => row.hash = hash with
    | none =>
      simp only [hfound] at h
      cases h
    | some row =>
      simp only [hfound, Except.ok.injEq] at h
      have hhash : row.hash = hash := by simpa using List.find?_some hfound
      exact ⟨row, List.mem_of_find?_eq_some hfound, congrArg some hhash.symm, h.symm⟩

/-- A stored row is replied for its hash. -/
theorem getTransaction_of_mem {db : Db} (hdb : db.Valid) {row : TransactionRow}
    (hrow : row ∈ db.transactions) {text : String} (htext : fromHex text = some row.hash) :
    getTransaction text (.ok db) = .ok (transactionResponse row) := by
  rw [getTransaction_eq htext, (Table.find?_key_eq_some_iff hdb.transactions_hash).mpr ⟨hrow, rfl⟩]

/-! ## Events -/

structure EventQuery where
  topic0 : Option String
  fromBlock : Option Int
  toBlock : Option Int
  limit : Option Int

structure LogResponse where
  blockNumber : ℕ
  logIndex : ℕ
  txHash : String
  address : String
  topic0 : Option String
  topic1 : Option String
  topic2 : Option String
  topic3 : Option String
deriving DecidableEq

def logResponse (row : LogRow) : LogResponse where
  blockNumber := row.blockNumber
  logIndex := row.logIndex
  txHash := toHex row.txHash
  address := toHex row.address
  topic0 := row.topic0.map toHex
  topic1 := row.topic1.map toHex
  topic2 := row.topic2.map toHex
  topic3 := row.topic3.map toHex

/-- What the handler reads of an event. -/
def eventColumns : List Sql.Column := [
  ⟨"block_number", .bigint, .i64⟩,
  ⟨"log_index", .integer, .i32⟩,
  ⟨"tx_hash", .bytea, .bytes⟩,
  ⟨"address", .bytea, .bytes⟩,
  ⟨"topic0", .bytea, .option .bytes⟩,
  ⟨"topic1", .bytea, .option .bytes⟩,
  ⟨"topic2", .bytea, .option .bytes⟩,
  ⟨"topic3", .bytea, .option .bytes⟩]

namespace EventQuery

/-- The number of rows asked of the database. -/
def pageLimit (query : EventQuery) : Int := min (query.limit.getD 50) 500

/-- The first topic that is asked for, if the text of one is hex. -/
def topic (query : EventQuery) : Option (Option Bytes) :=
  match query.topic0 with
  | none => some none
  | some text => (fromHex text).map some

/-- `WHERE address = $1 AND block_number >= $2 AND …`. -/
def Matches (query : EventQuery) (address : Bytes) (topic : Option Bytes) (log : LogRow) : Prop :=
  log.address = address ∧ query.fromBlock.getD 0 ≤ (log.blockNumber : Int) ∧
    (log.blockNumber : Int) ≤ query.toBlock.getD i64Max ∧ (topic = none ∨ log.topic0 = topic)

instance (query : EventQuery) (address : Bytes) (topic : Option Bytes) :
    DecidablePred (query.Matches address topic) := fun _ => inferInstanceAs (Decidable (_ ∧ _))

end EventQuery

/-- `ORDER BY block_number DESC, log_index DESC`. -/
def EventPrecedes (log log' : LogRow) : Prop :=
  log'.blockNumber < log.blockNumber ∨
    log'.blockNumber = log.blockNumber ∧ log'.logIndex ≤ log.logIndex

/-- What `get_contract_events` may reply. The database may fail at any time. -/
inductive GetContractEvents (db : Db) (address : String) (query : EventQuery) :
    Except HandlerError (List LogResponse) → Prop where
  | invalidHex (h : fromHex address = none) :
      GetContractEvents db address query (.error .badRequest)
  | invalidTopic (h : query.topic = none) :
      GetContractEvents db address query (.error .badRequest)
  | page {bytes : Bytes} {topic : Option Bytes} {sorted : List LogRow}
      (haddress : fromHex address = some bytes) (htopic : query.topic = some topic)
      (hlimit : 0 ≤ query.pageLimit) (hcolumns : Sql.unreadableAt eventColumns = none)
      (hperm : sorted.Perm (db.logs.filter fun log => query.Matches bytes topic log))
      (hsorted : sorted.Pairwise EventPrecedes) :
      GetContractEvents db address query
        (.ok ((sorted.take query.pageLimit.toNat).map logResponse))
  -- A negative limit is an error of the statement as well.
  | failed {bytes : Bytes} {topic : Option Bytes} (haddress : fromHex address = some bytes)
      (htopic : query.topic = some topic) :
      GetContractEvents db address query (.error .internalServerError)

end Api

end ChainLens
