import ChainLens.Domain.Types

/-!
# The JSON-RPC node

The deserialised replies of an Ethereum node, the client trait the pipeline fetches through, and
the canonical chain a node follows. During one call of the pipeline no request is repeated, so a
client is the function from its requests to the node's replies; between calls the node may be
replaced by any other.

## Main definitions

* `BlockResponse`, `TransactionResponse`, `ReceiptResponse`, `LogResponse`
* `EthClient`: the requests the pipeline makes
* `CanonicalChain`: a hash-linked chain of blocks with distinct hashes
* `EthClient.Follows`: the block replies come from one chain, or fail
* `CanonicalChain.numbered`: chains of empty blocks that fork where asked
-/

namespace ChainLens

structure TransactionResponse where
  hash : B256
  transactionIndex : ℕ
  fromAddr : Address
  toAddr : Option Address
  value : U256
  nonce : ℕ
  gas : ℕ
  gasPrice : Option U256
  input : Bytes
  transactionType : Option ℕ
  maxFeePerGas : Option U256
  maxPriorityFeePerGas : Option U256
deriving DecidableEq

structure BlockResponse where
  number : ℕ
  hash : B256
  parentHash : B256
  timestamp : ℕ
  miner : Address
  gasUsed : ℕ
  gasLimit : ℕ
  baseFeePerGas : Option ℕ
  transactions : List TransactionResponse
deriving DecidableEq

structure LogResponse where
  address : Address
  topics : List B256
  data : Bytes
  blockNumber : ℕ
  transactionHash : B256
  transactionIndex : ℕ
  blockHash : B256
  logIndex : ℕ
  removed : Bool
deriving DecidableEq

structure ReceiptResponse where
  transactionHash : B256
  transactionIndex : ℕ
  blockHash : B256
  blockNumber : ℕ
  fromAddr : Address
  toAddr : Option Address
  cumulativeGasUsed : ℕ
  gasUsed : ℕ
  contractAddress : Option Address
  status : Option ℕ
  logs : List LogResponse
  transactionType : Option ℕ
  effectiveGasPrice : Option U256
deriving DecidableEq

inductive RpcError where
  | http (status : ℕ) (body : String)
  | jsonRpc (code : Int) (message : String)
  | timeout
  | connection (message : String)
  | deserialize (message : String)
deriving DecidableEq

/-- The client trait: the replies of a node to the requests of one pipeline call. -/
structure EthClient where
  getBlockByNumber : (number : ℕ) → (fullTransactions : Bool) →
    Except RpcError (Option BlockResponse)
  getBlockReceipts : ℕ → Except RpcError (List ReceiptResponse)
  getTransactionReceipt : B256 → Except RpcError (Option ReceiptResponse)
  supportsBlockReceipts : Bool

/-! ## Canonical chains -/

/-- A canonical chain up to its head: every block carries its own height and the hash of its
predecessor, and no two blocks share a hash. -/
structure CanonicalChain where
  head : ℕ
  block : ℕ → BlockResponse
  number_eq : ∀ n ≤ head, (block n).number = n
  linked : ∀ n < head, (block (n + 1)).parentHash = (block n).hash
  distinct : ∀ m ≤ head, ∀ n ≤ head, (block m).hash = (block n).hash → m = n

namespace EthClient

/-- Every block reply is a block of the chain, absent, or a failure. -/
def Follows (client : EthClient) (chain : CanonicalChain) : Prop :=
  ∀ n full block, client.getBlockByNumber n full = .ok (some block) →
    n ≤ chain.head ∧ block = chain.block n

/-- The node serves every block of the chain. -/
def Serves (client : EthClient) (chain : CanonicalChain) : Prop :=
  ∀ n full, client.getBlockByNumber n full =
    .ok (if n ≤ chain.head then some (chain.block n) else none)

theorem Serves.get_of_le {client : EthClient} {chain : CanonicalChain} (h : client.Serves chain)
    {n : ℕ} (hn : n ≤ chain.head) (full : Bool) :
    client.getBlockByNumber n full = .ok (some (chain.block n)) := by
  rw [h n full, if_pos hn]

theorem Serves.follows {client : EthClient} {chain : CanonicalChain} (h : client.Serves chain) :
    client.Follows chain := by
  intro n full block hblock
  rw [h n full] at hblock
  split at hblock
  · next hn => exact ⟨hn, by simpa using hblock.symm⟩
  · simp at hblock

end EthClient

/-! ## Numbered chains -/

/-- The hash of the block at a height on a branch. -/
def branchHash (branch : UInt8) (height : ℕ) : B256 :=
  ⟨List.replicate 29 0 ++ [1, branch, UInt8.ofNat height], by simp⟩

theorem branchHash_height {branch branch' : UInt8} {m n : ℕ} (hm : m < 256) (hn : n < 256)
    (h : branchHash branch m = branchHash branch' n) : m = n := by
  -- The height is the last byte of the hash.
  have hbyte : UInt8.ofNat m = UInt8.ofNat n := by
    simpa [branchHash] using (congrArg (·.bytes.getLast?) h)
  have := congrArg UInt8.toNat hbyte
  rwa [UInt8.toNat_ofNat', UInt8.toNat_ofNat', Nat.mod_eq_of_lt hm, Nat.mod_eq_of_lt hn] at this

/-- An empty block whose hash names its branch and height, on the branches below it. -/
def branchBlock (branch : ℕ → UInt8) (height : ℕ) : BlockResponse where
  number := height
  hash := branchHash (branch height) height
  parentHash := branchHash (branch (height - 1)) (height - 1)
  timestamp := 1600000000
  miner := .zero 20
  gasUsed := 0
  gasLimit := 30000000
  baseFeePerGas := none
  transactions := []

/-- The chain of empty blocks that is on the given branch at each height: two such chains fork
where their branches differ. -/
def CanonicalChain.numbered (branch : ℕ → UInt8) (head : ℕ) (hhead : head < 256) :
    CanonicalChain where
  head := head
  block := branchBlock branch
  number_eq _ _ := rfl
  linked _ _ := rfl
  distinct m hm n hn h := branchHash_height (by omega) (by omega) h

/-- The node that serves a chain of empty blocks. -/
def EthClient.serving (chain : CanonicalChain) : EthClient where
  getBlockByNumber n _ := .ok (if n ≤ chain.head then some (chain.block n) else none)
  getBlockReceipts _ := .ok []
  getTransactionReceipt _ := .ok none
  supportsBlockReceipts := true

theorem EthClient.serving_serves (chain : CanonicalChain) :
    (EthClient.serving chain).Serves chain := fun _ _ => rfl

end ChainLens
