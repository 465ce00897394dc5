import ChainLens.Domain.Text
import ChainLens.Library.Json
import ChainLens.Rpc.Types

/-!
# Reading the replies of a node

Integers travel as hex texts, and the replies are records of them and of byte strings.

## Main definitions

* `HexQuantity.parse`: the integers
* `Words`: how byte strings and words are read
* `BlockResponse.deserialize`, `TransactionResponse.deserialize`, `ReceiptResponse.deserialize`:
  the records
* `JsonRpcResponse`: the envelope of a reply

## Main results

* `HexQuantity.parse_quantityText_toOption`: an integer is read back if it has 64 bits
* `TransactionResponse.deserialize_string`: a text is not a transaction
-/

namespace ChainLens

def u64Max : ℕ := 18446744073709551615

/-- `format!("0x{n:x}")`. -/
def quantityText (n : ℕ) : String := .ofList ('0' :: 'x' :: Nat.toDigits 16 n)

namespace HexQuantity

/-- The value of hex digits behind those that were read, up to the greatest one of its type. -/
def accumulate (max : ℕ) : ℕ → List Char → Except String ℕ
  | value, [] => .ok value
  | value, c :: rest =>
    match hexDigit c with
    | none => .error "invalid digit found in string"
    | some digit =>
      if 16 * value + digit ≤ max then accumulate max (16 * value + digit) rest
      else .error "number too large to fit in target type"

/-- `from_str_radix(digits, 16)` of an unsigned type, which takes a plus sign before the digits. -/
def fromStrRadix16 (max : ℕ) : List Char → Except String ℕ
  | [] => .error "cannot parse integer from empty string"
  | ['+'] => .error "invalid digit found in string"
  | '+' :: digits => accumulate max 0 digits
  | digits => accumulate max 0 digits

def parse (s : String) : Except String ℕ :=
  match s.toList with
  | ['0', 'x'] => .ok 0
  | '0' :: 'x' :: digits =>
    (fromStrRadix16 u64Max digits).mapError fun e => "invalid hex quantity " ++ s ++ ": " ++ e
  | _ => .error ("missing 0x prefix: " ++ s)

def u64 (value : Json) : Option ℕ := value.text.bind fun s => (parse s).toOption

def optionalU64 : Json → Option (Option ℕ) := Json.nullable u64

/-! ## Reading back -/

section Digits

variable {max : ℕ}

theorem accumulate_append (value : ℕ) (ds es : List Char) :
    accumulate max value (ds ++ es) = (accumulate max value ds).bind (accumulate max · es) := by
  induction ds generalizing value with
  | nil => rfl
  | cons d ds ih =>
    simp only [List.cons_append, accumulate]
    cases hexDigit d with
    | none => rfl
    | some digit =>
      dsimp only
      split
      · exact ih _
      · rfl

theorem accumulate_digitChar {value digit : ℕ} (hdigit : digit < 16) :
    accumulate max value [Nat.digitChar digit] =
      if 16 * value + digit ≤ max then .ok (16 * value + digit)
      else .error "number too large to fit in target type" := by
  simp [accumulate, hexDigit_digitChar hdigit]

/-- The digits of an integer have its value, if that is not too large. -/
theorem accumulate_toDigits (n : ℕ) :
    accumulate max 0 (Nat.toDigits 16 n) =
      if n ≤ max then .ok n else .error "number too large to fit in target type" := by
  induction n using Nat.strong_induction_on with
  | _ n ih =>
    rw [Nat.toDigits_eq_if (by omega)]
    split
    next hlt => rw [accumulate_digitChar hlt, Nat.mul_zero, Nat.zero_add]
    next hge =>
      -- The last digit comes after those of the quotient, which may be too large already.
      rw [accumulate_append, ih (n / 16) (by omega)]
      by_cases hquotient : n / 16 ≤ max
      · rw [if_pos hquotient]
        show accumulate max (n / 16) [Nat.digitChar (n % 16)] = _
        rw [accumulate_digitChar (by omega), show 16 * (n / 16) + n % 16 = n by omega]
      · rw [if_neg hquotient, if_neg (by omega)]
        rfl

/-- The digits of an integer have no sign before them. -/
theorem fromStrRadix16_toDigits (n : ℕ) :
    fromStrRadix16 max (Nat.toDigits 16 n) = accumulate max 0 (Nat.toDigits 16 n) := by
  have hsign : ∀ ds, Nat.toDigits 16 n ≠ '+' :: ds := by
    intro ds hds
    have hvalue := @accumulate_toDigits n n
    rw [hds, if_pos (Nat.le_refl n)] at hvalue
    cases hvalue
  unfold fromStrRadix16
  split
  next heq => exact absurd heq Nat.toDigits_ne_nil
  next heq => exact absurd heq (hsign [])
  next ds _ heq => exact absurd heq (hsign ds)
  next => rfl

end Digits

/-- **An integer is read back exactly if it has 64 bits.** -/
theorem parse_quantityText_toOption (n : ℕ) :
    (parse (quantityText n)).toOption = if n ≤ u64Max then some n else none := by
  rw [parse, quantityText, String.toList_ofList]
  split
  next heq => simp [Nat.toDigits_ne_nil] at heq
  next digits _ heq =>
    obtain rfl : Nat.toDigits 16 n = digits := by simpa using heq
    rw [fromStrRadix16_toDigits, accumulate_toDigits]
    split <;> rfl
  next hother => exact absurd rfl (hother _)

theorem u64_quantityText (n : ℕ) :
    u64 (.string (quantityText n)) = if n ≤ u64Max then some n else none :=
  parse_quantityText_toOption n

@[simp] theorem u64_quantityText_toNat (n : UInt64) :
    u64 (.string (quantityText n.toNat)) = some n.toNat := by
  rw [u64_quantityText]
  exact if_pos (Nat.le_of_lt_succ n.toNat_lt)

end HexQuantity

/-- How the byte strings and the words of 256 bits are read: their hex texts are, whatever else
is. -/
structure Words where
  b256 : Json → Option B256
  address : Json → Option Address
  u256 : Json → Option U256
  bytes : Json → Option Bytes
  b256_text : ∀ hash, b256 (.string (hexText hash.bytes)) = some hash
  address_text : ∀ a, address (.string (hexText a.bytes)) = some a
  u256_text : ∀ n, u256 (.string (quantityText n.toNat)) = some n
  bytes_text : ∀ bs, bytes (.string (hexText bs)) = some bs

attribute [simp] Words.b256_text Words.address_text Words.u256_text Words.bytes_text

section Records

variable (words : Words)

def TransactionResponse.deserialize (value : Json) : Option TransactionResponse := do
  let fields ← value.fields
  let hash ← Json.required words.b256 "hash" fields
  let transactionIndex ← Json.required HexQuantity.u64 "transactionIndex" fields
  let fromAddr ← Json.required words.address "from" fields
  let toAddr ← Json.defaulted (Json.nullable words.address) none "to" fields
  let value ← Json.required words.u256 "value" fields
  let nonce ← Json.required HexQuantity.u64 "nonce" fields
  let gas ← Json.required HexQuantity.u64 "gas" fields
  let gasPrice ← Json.defaulted (Json.nullable words.u256) none "gasPrice" fields
  let input ← Json.required words.bytes "input" fields
  let transactionType ← Json.defaulted HexQuantity.optionalU64 none "transactionType" fields
  let maxFeePerGas ← Json.defaulted (Json.nullable words.u256) none "maxFeePerGas" fields
  let maxPriorityFeePerGas ←
    Json.defaulted (Json.nullable words.u256) none "maxPriorityFeePerGas" fields
  -- Four more fields have to be well formed where they are present.
  let _ ← Json.defaulted (Json.nullable words.u256) none "chainId" fields
  let _ ← Json.defaulted (Json.nullable words.u256) none "v" fields
  let _ ← Json.defaulted (Json.nullable words.u256) none "r" fields
  let _ ← Json.defaulted (Json.nullable words.u256) none "s" fields
  return { hash, transactionIndex, fromAddr, toAddr, value, nonce, gas, gasPrice, input,
           transactionType, maxFeePerGas, maxPriorityFeePerGas }

def BlockResponse.deserialize (value : Json) : Option BlockResponse := do
  let fields ← value.fields
  let number ← Json.required HexQuantity.u64 "number" fields
  let hash ← Json.required words.b256 "hash" fields
  let parentHash ← Json.required words.b256 "parentHash" fields
  let timestamp ← Json.required HexQuantity.u64 "timestamp" fields
  let miner ← Json.required words.address "miner" fields
  let gasUsed ← Json.required HexQuantity.u64 "gasUsed" fields
  let gasLimit ← Json.required HexQuantity.u64 "gasLimit" fields
  let baseFeePerGas ← Json.defaulted HexQuantity.optionalU64 none "baseFeePerGas" fields
  let transactions ←
    Json.required (Json.elements (TransactionResponse.deserialize words)) "transactions" fields
  -- The size is read, and nothing looks at it.
  let _ ← Json.required HexQuantity.u64 "size" fields
  return { number, hash, parentHash, timestamp, miner, gasUsed, gasLimit, baseFeePerGas,
           transactions }

def LogResponse.deserialize (value : Json) : Option LogResponse := do
  let fields ← value.fields
  let address ← Json.required words.address "address" fields
  let topics ← Json.required (Json.elements words.b256) "topics" fields
  let data ← Json.required words.bytes "data" fields
  let blockNumber ← Json.required HexQuantity.u64 "blockNumber" fields
  let transactionHash ← Json.required words.b256 "transactionHash" fields
  let transactionIndex ← Json.required HexQuantity.u64 "transactionIndex" fields
  let blockHash ← Json.required words.b256 "blockHash" fields
  let logIndex ← Json.required HexQuantity.u64 "logIndex" fields
  let removed ← Json.defaulted Json.boolean false "removed" fields
  return { address, topics, data, blockNumber, transactionHash, transactionIndex, blockHash,
           logIndex, removed }

def ReceiptResponse.deserialize (value : Json) : Option ReceiptResponse := do
  let fields ← value.fields
  let transactionHash ← Json.required words.b256 "transactionHash" fields
  let transactionIndex ← Json.required HexQuantity.u64 "transactionIndex" fields
  let blockHash ← Json.required words.b256 "blockHash" fields
  let blockNumber ← Json.required HexQuantity.u64 "blockNumber" fields
  let fromAddr ← Json.required words.address "from" fields
  let toAddr ← Json.defaulted (Json.nullable words.address) none "to" fields
  let cumulativeGasUsed ← Json.required HexQuantity.u64 "cumulativeGasUsed" fields
  let gasUsed ← Json.required HexQuantity.u64 "gasUsed" fields
  let contractAddress ← Json.defaulted (Json.nullable words.address) none "contractAddress" fields
  let status ← Json.defaulted HexQuantity.optionalU64 none "status" fields
  let logs ← Json.required (Json.elements (LogResponse.deserialize words)) "logs" fields
  let transactionType ← Json.defaulted HexQuantity.optionalU64 none "transactionType" fields
  let effectiveGasPrice ← Json.defaulted (Json.nullable words.u256) none "effectiveGasPrice" fields
  return { transactionHash, transactionIndex, blockHash, blockNumber, fromAddr, toAddr,
           cumulativeGasUsed, gasUsed, contractAddress, status, logs, transactionType,
           effectiveGasPrice }

/-- **When a block is read**: each field is. -/
theorem BlockResponse.deserialize_object_iff {fields : List (String × Json)} {b : BlockResponse} :
    BlockResponse.deserialize words (.object fields) = some b ↔
      Json.required HexQuantity.u64 "number" fields = some b.number ∧
      Json.required words.b256 "hash" fields = some b.hash ∧
      Json.required words.b256 "parentHash" fields = some b.parentHash ∧
      Json.required HexQuantity.u64 "timestamp" fields = some b.timestamp ∧
      Json.required words.address "miner" fields = some b.miner ∧
      Json.required HexQuantity.u64 "gasUsed" fields = some b.gasUsed ∧
      Json.required HexQuantity.u64 "gasLimit" fields = some b.gasLimit ∧
      Json.defaulted HexQuantity.optionalU64 none "baseFeePerGas" fields = some b.baseFeePerGas ∧
      Json.required (Json.elements (TransactionResponse.deserialize words)) "transactions" fields =
        some b.transactions ∧
      ∃ size, Json.required HexQuantity.u64 "size" fields = some size := by
  constructor
  · intro h
    rw [BlockResponse.deserialize, Json.fields, Option.bind_eq_bind, Option.bind_some] at h
    obtain ⟨_, hnumber, h⟩ := Option.bind_eq_some_iff.mp h
    obtain ⟨_, hhash, h⟩ := Option.bind_eq_some_iff.mp h
    obtain ⟨_, hparent, h⟩ := Option.bind_eq_some_iff.mp h
    obtain ⟨_, htimestamp, h⟩ := Option.bind_eq_some_iff.mp h
    obtain ⟨_, hminer, h⟩ := Option.bind_eq_some_iff.mp h
    obtain ⟨_, hused, h⟩ := Option.bind_eq_some_iff.mp h
    obtain ⟨_, hlimit, h⟩ := Option.bind_eq_some_iff.mp h
    obtain ⟨_, hfee, h⟩ := Option.bind_eq_some_iff.mp h
    obtain ⟨_, htxs, h⟩ := Option.bind_eq_some_iff.mp h
    obtain ⟨size, hsize, h⟩ := Option.bind_eq_some_iff.mp h
    cases h
    exact ⟨hnumber, hhash, hparent, htimestamp, hminer, hused, hlimit, hfee, htxs, size, hsize⟩
  · rintro ⟨hnumber, hhash, hparent, htimestamp, hminer, hused, hlimit, hfee, htxs, size, hsize⟩
    rw [BlockResponse.deserialize, Json.fields, Option.bind_eq_bind, Option.bind_some, hnumber,
      hhash, hparent, htimestamp, hminer, hused, hlimit, hfee, htxs, hsize]
    rfl

/-- A text is not a transaction. -/
@[simp] theorem TransactionResponse.deserialize_string (text : String) :
    TransactionResponse.deserialize words (.string text) = none := rfl

end Records

/-! ## The envelope -/

structure JsonRpcError where
  code : Int
  message : String

structure JsonRpcResponse (T : Type) where
  result : Option T
  error : Option JsonRpcError

def readI64 : Json → Option Int
  | .integer n => if -(i64Max + 1) ≤ n ∧ n ≤ i64Max then some n else none
  | _ => none

def JsonRpcError.deserialize (value : Json) : Option JsonRpcError := do
  let fields ← value.fields
  let code ← Json.required readI64 "code" fields
  let message ← Json.required Json.text "message" fields
  return { code, message }

/-- The envelope, both of whose fields may be left out or null. -/
def JsonRpcResponse.deserialize {T : Type} (read : Json → Option T) (value : Json) :
    Option (JsonRpcResponse T) := do
  let fields ← value.fields
  let result ← Json.defaulted (Json.nullable read) none "result" fields
  let error ← Json.defaulted (Json.nullable JsonRpcError.deserialize) none "error" fields
  return { result, error }

/-- The envelope of a result. -/
theorem JsonRpcResponse.deserialize_result {T : Type} {read : Json → Option T}
    {fields : List (String × Json)} {value : Json}
    (hresult : Json.lookup "result" fields = some (some value))
    (herror : Json.Absent "error" fields) :
    deserialize read (.object fields) =
      (Json.nullable read value).map fun result => ⟨result, none⟩ := by
  rw [deserialize, Json.fields, Option.bind_eq_bind, Option.bind_some,
    Json.defaulted_of_lookup hresult, herror.defaulted]
  cases Json.nullable read value <;> rfl

end ChainLens
