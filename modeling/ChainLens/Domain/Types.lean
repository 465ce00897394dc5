import Mathlib.Data.List.Basic
import Mathlib.Tactic.Common

/-!
# Byte strings and decoded blocks

The value types shared by the RPC layer, the decoder and the store: fixed-width byte strings,
256-bit words, and the decoded header, transactions, logs and token transfers of one block.
Unsigned machine integers of the source (`u8`, `u32`, `u64`, `usize`) are natural numbers; the
places where the source narrows one are spelled out with `saturate`.

## Main definitions

* `FixedBytes n`, `B256`, `Address`, `U256`: the words of `alloy_primitives`
* `IndexedBlock`: a decoded block with its transactions, logs and token transfers
* `Fault ε`: how a call can fail, by a returned error or by a panic
-/

namespace ChainLens

/-- A byte string of any length. -/
abbrev Bytes := List UInt8

/-- A byte string of exactly `n` bytes. -/
@[ext] structure FixedBytes (n : ℕ) where
  bytes : Bytes
  length_bytes : bytes.length = n
deriving DecidableEq

/-- Block, transaction and topic hashes. -/
abbrev B256 := FixedBytes 32

abbrev Address := FixedBytes 20

/-- 256-bit unsigned integers. -/
abbrev U256 := BitVec 256

namespace FixedBytes

variable {n : ℕ}

/-- The all-zero byte string. -/
def zero (n : ℕ) : FixedBytes n := ⟨List.replicate n 0, by simp⟩

/-- The byte string that is zero up to its last byte. -/
def withLastByte (n : ℕ) (b : UInt8) : FixedBytes (n + 1) := ⟨List.replicate n 0 ++ [b], by simp⟩

theorem bytes_inj {a b : FixedBytes n} : a.bytes = b.bytes ↔ a = b :=
  ⟨FixedBytes.ext, congrArg _⟩

/-- A word of positive width is never the empty byte string. -/
theorem bytes_ne_nil (a : FixedBytes (n + 1)) : a.bytes ≠ [] := by
  intro h
  have := a.length_bytes
  simp [h] at this

end FixedBytes

/-- The big-endian value of a byte string. -/
def beValue (bs : Bytes) : ℕ := bs.foldl (fun acc b => acc * 256 + b.toNat) 0

/-- `U256::from_be_slice`, on the slices of at most 32 bytes the program passes. -/
def U256.fromBeSlice (bs : Bytes) : U256 := BitVec.ofNat 256 (beValue bs)

/-- `T::try_from(n).unwrap_or(T::MAX)` for an integer type with greatest value `max`. -/
def saturate (max n : ℕ) : ℕ := if n ≤ max then n else max

def u8Max : ℕ := 255

def u32Max : ℕ := 4294967295

def i32Max : ℕ := 2147483647

def i64Max : ℕ := 9223372036854775807

def usizeMax : ℕ := 18446744073709551615

theorem saturate_of_le {max n : ℕ} (h : n ≤ max) : saturate max n = n := if_pos h

theorem saturate_le (max n : ℕ) : saturate max n ≤ max := by
  unfold saturate
  split <;> omega

/-- How a call fails: by an error the caller can handle, or by a panic that ends its task. -/
inductive Fault (ε : Type) where
  | error (e : ε)
  | panic (message : String)
deriving DecidableEq

/-- Translate the errors of a callee into those of its caller. -/
def Fault.map {ε δ : Type} (f : ε → δ) : Fault ε → Fault δ
  | .error e => .error (f e)
  | .panic message => .panic message

/-! ## Decoded blocks -/

structure Block where
  number : ℕ
  hash : B256
  parentHash : B256
  timestamp : ℕ
  miner : Address
  gasUsed : ℕ
  gasLimit : ℕ
  baseFeePerGas : Option ℕ
  txCount : ℕ
deriving DecidableEq

structure Transaction where
  hash : B256
  blockNumber : ℕ
  txIndex : ℕ
  fromAddr : Address
  toAddr : Option Address
  value : U256
  nonce : ℕ
  txType : ℕ
  gasLimit : ℕ
  gasPrice : Option U256
  maxFeePerGas : Option U256
  maxPriorityFeePerGas : Option U256
  input : Bytes
  status : Option ℕ
  gasUsed : ℕ
  effectiveGasPrice : Option U256
  contractAddress : Option Address
deriving DecidableEq

structure Log where
  blockNumber : ℕ
  logIndex : ℕ
  txHash : B256
  address : Address
  topic0 : Option B256
  topic1 : Option B256
  topic2 : Option B256
  topic3 : Option B256
  data : Bytes
deriving DecidableEq

/-- The topics that are present, in order. -/
def Log.topics (log : Log) : List B256 :=
  log.topic0.toList ++ log.topic1.toList ++ log.topic2.toList ++ log.topic3.toList

inductive TokenStandard where
  | erc20
  | erc721
  | erc1155
deriving DecidableEq

structure TokenTransfer where
  blockNumber : ℕ
  logIndex : ℕ
  tokenAddress : Address
  fromAddr : Address
  toAddr : Address
  value : U256
  tokenId : U256
  standard : TokenStandard
deriving DecidableEq

/-- A block as the committer stores it. -/
structure IndexedBlock where
  block : Block
  transactions : List Transaction
  logs : List Log
  tokenTransfers : List TokenTransfer
deriving DecidableEq

/-- A transfer carries the block and the index of a log. -/
def TokenTransfer.Names (t : TokenTransfer) (log : Log) : Prop :=
  t.blockNumber = log.blockNumber ∧ t.logIndex = log.logIndex

/-- The rows of a block refer to the block itself: its transactions and logs carry its height,
and every transfer names one of its logs. -/
structure IndexedBlock.Coherent (indexed : IndexedBlock) : Prop where
  transactions : ∀ t ∈ indexed.transactions, t.blockNumber = indexed.block.number
  logs : ∀ l ∈ indexed.logs, l.blockNumber = indexed.block.number
  tokenTransfers : ∀ t ∈ indexed.tokenTransfers, ∃ l ∈ indexed.logs, t.Names l

end ChainLens
