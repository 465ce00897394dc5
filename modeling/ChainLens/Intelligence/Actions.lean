import ChainLens.Intelligence.Persist
import ChainLens.Store.Session

/-!
# Explaining a transaction

The actions of a transaction are read off its recipient, its value and its calldata: contract
creations, a table of known function selectors, and plain transfers. Three selectors carry
addresses and amounts at fixed offsets of the calldata. The explanation adds the fee, the contracts
whose logs the transaction left, and a summary, whose abbreviated addresses are string slices.

## Main definitions

* `CallContext`, `transactionActions`: the actions of a transaction
* `calculateTxFee`, `buildSummary`: the parts of an explanation that can panic
* `explainTransaction`, `Session.persistTransactionActions`

## Main results

* `transactionActions_hex`: the addresses of an action are texts of byte strings
* `transactionActions_ne_nil`: when a transaction has an action
* `Session.persistTransactionActions_runOn`: the session is the persist function
-/

namespace ChainLens

/-- The value a number's text is parsed to for display: zero when it does not fit `u128`. -/
def weiValue (wei : Numeric) : ℕ := (parseU128 wei).getD 0

def weiToEth (wei : Numeric) : String := formatFixed 6 (Float.ofNat (weiValue wei) / 1e18)

/-- The fee of a transaction. A price that does not fit `u128` counts as zero. -/
def feeWei (gasUsed : ℕ) (gasPrice : Option Numeric) : ℕ := gasUsed * (gasPrice.map weiValue).getD 0

/-- The product overflows with a panic where overflows are checked, and wraps elsewhere. -/
def calculateTxFee (setup : Setup) (gasUsed : ℕ) (gasPrice : Option Numeric) :
    Except (Fault QueryError) String :=
  let fee := feeWei gasUsed gasPrice
  if u128Max < fee ∧ setup.overflowChecks then .error (.panic "attempt to multiply with overflow")
  else .ok (formatFixed 6 (Float.ofNat (fee % (u128Max + 1)) / 1e18))

example : weiToEth "500000000000000000" = "0.500000" := by decide +kernel

/-! ## Actions -/

/-- What the actions of a transaction are read off. -/
structure CallContext where
  fromAddr : String
  toAddr : Option String
  value : Numeric
  input : Bytes

namespace CallContext

variable (c : CallContext)

/-- The value in ether. -/
def valueEth : String := weiToEth c.value

/-- `&input[start..start + 32]`. -/
def word (start : ℕ) : Except (Fault QueryError) Bytes :=
  if start + 32 ≤ c.input.length then .ok ((c.input.drop start).take 32)
  else .error (.panic "range out of bounds for slice")

/-- The last twenty bytes of the word at an offset, as an address. -/
def addressAt (start : ℕ) : Except (Fault QueryError) String := do
  let bytes ← c.word start
  return hexText (bytes.drop 12)

/-- `U256::from_be_slice` of the word at an offset. -/
def amountAt (start : ℕ) : Except (Fault QueryError) ℕ := do
  let bytes ← c.word start
  return (U256.fromBeSlice bytes).toNat

/-- An action between the parties of the transaction. -/
def between (actionType : ActionType) (tokenAddress amount : Option String)
    (description : String) : TransactionAction where
  actionType := actionType
  fromAddr := c.fromAddr
  toAddr := c.toAddr
  tokenAddress := tokenAddress
  amount := amount
  spender := none
  description := description

/-- Selector `a9059cbb`. -/
def erc20Transfer : Except (Fault QueryError) (List TransactionAction) := do
  if 68 ≤ c.input.length then
    let toAddr ← c.addressAt 16
    let amount ← c.amountAt 36
    return [{
      actionType := .erc20Transfer
      fromAddr := c.fromAddr
      toAddr := some toAddr
      tokenAddress := c.toAddr
      amount := some (toString amount)
      spender := none
      description := "Transferred " ++ toString amount ++ " tokens" }]
  else return []

/-- Selector `095ea7b3`. -/
def erc20Approval : Except (Fault QueryError) (List TransactionAction) := do
  if 68 ≤ c.input.length then
    let spender ← c.addressAt 16
    return [{
      actionType := .erc20Approval
      fromAddr := c.fromAddr
      toAddr := c.toAddr
      tokenAddress := c.toAddr
      amount := none
      spender := some spender
      description := "Approved token spending" }]
  else return []

/-- Selector `23b872dd`. The last word ends beyond the length that is checked. -/
def erc721Transfer : Except (Fault QueryError) (List TransactionAction) := do
  if 100 ≤ c.input.length then
    let fromAddr ← c.addressAt 16
    let toAddr ← c.addressAt 48
    let tokenId ← c.amountAt 80
    return [{
      actionType := .erc721Transfer
      fromAddr
      toAddr := some toAddr
      tokenAddress := c.toAddr
      amount := some (toString tokenId)
      spender := none
      description := "Transferred NFT #" ++ toString tokenId }]
  else return []

/-- A call whose only argument that is read is an amount. -/
def amountCall (actionType : ActionType) (before after : String) :
    Except (Fault QueryError) (List TransactionAction) := do
  if 36 ≤ c.input.length then
    let amount ← c.amountAt 4
    return [c.between actionType c.toAddr (some (toString amount))
      (before ++ toString amount ++ after)]
  else return []

/-- The selectors whose calls have one action, described without their arguments. -/
def knownCall : String → Option (ActionType × String)
  | "38ed1739" => some (.swap, "Swapped tokens (Uniswap V2)")
  | "8803dbee" => some (.swap, "Swapped tokens for exact output (Uniswap V2)")
  | "7ff36ab5" => some (.swap, "Swapped " ++ c.valueEth ++ " ETH for tokens (Uniswap V2)")
  | "4a25d94a" => some (.swap, "Swapped tokens for exact ETH (Uniswap V2)")
  | "18cbafe5" => some (.swap, "Swapped tokens for ETH (Uniswap V2)")
  | "414bf389" => some (.swap, "Swapped tokens (Uniswap V3)")
  | "c04b8d59" => some (.swap, "Swapped tokens via path (Uniswap V3)")
  | "db3e2198" => some (.swap, "Swapped tokens for exact output (Uniswap V3)")
  | "12aa3caf" => some (.swap, "Swapped tokens (1inch)")
  | "d0e30db0" => some (.swap, "Wrapped " ++ c.valueEth ++ " ETH to WETH")
  | "e8eda6df" => some (.contractCall, "Deposited " ++ c.valueEth ++ " to Aave")
  | "a6417ed6" => some (.swap, "Swapped tokens (Curve)")
  | "52bbbe29" => some (.swap, "Swapped tokens (Balancer)")
  | "a1903eab" => some (.contractCall, "Staked " ++ c.valueEth ++ " ETH (Lido)")
  | "0f23ca79" => some (.contractCall, "Requested withdrawal (Lido)")
  | "1e83409a" => some (.contractCall, "Registered ENS name")
  | "ac9650d8" => some (.contractCall, "Executed multicall")
  | _ => none

/-- A plain transfer of ether. -/
def ethTransfer : TransactionAction :=
  c.between .ethTransfer none none ("Transferred " ++ c.valueEth ++ " ETH")

/-- The actions of a call with a selector. -/
def selectorActions (selector : String) : Except (Fault QueryError) (List TransactionAction) :=
  match selector with
  | "a9059cbb" => c.erc20Transfer
  | "095ea7b3" => c.erc20Approval
  | "23b872dd" => c.erc721Transfer
  | "2e1a7d4d" => c.amountCall .swap "Unwrapped " " WETH to ETH"
  | "a0712d68" => c.amountCall .contractCall "Supplied " " to Compound"
  -- No four bytes have this text.
  | "DCALL__" => .ok [c.between .contractCall none none "Delegatecall"]
  | selector =>
    match c.knownCall selector with
    | some (actionType, description) => .ok [c.between actionType c.toAddr none description]
    | none =>
      if c.value ≠ "0" then .ok [c.ethTransfer]
      else .ok [c.between .contractCall none none "Called contract function"]

/-- The action of a contract creation. -/
def creation : TransactionAction where
  actionType := .contractCreation
  fromAddr := c.fromAddr
  toAddr := none
  tokenAddress := none
  amount := none
  spender := none
  description := "Deployed a new contract"

end CallContext

/-- The actions of a transaction. -/
def transactionActions (c : CallContext) : Except (Fault QueryError) (List TransactionAction) :=
  if c.toAddr = none ∧ c.input ≠ [] then .ok [c.creation]
  else if 4 ≤ c.input.length then c.selectorActions (hexEncode (c.input.take 4))
  else if c.value ≠ "0" then .ok [c.ethTransfer]
  else .ok []

/-! ## The summary -/

/-- `&text[..10]`. -/
def abbreviate (text : String) : Except (Fault QueryError) String :=
  if 10 ≤ text.utf8ByteSize then .ok (.ofList (text.toList.take 10))
  else .error (.panic "byte index out of bounds")

/-- `text.as_ref().map(|t| &t[..10]).unwrap_or(other)`. -/
def abbreviateOr (text : Option String) (other : String) : Except (Fault QueryError) String :=
  match text with
  | some text => abbreviate text
  | none => .ok other

def buildSummary (actions : List TransactionAction) (c : CallContext) :
    Except (Fault QueryError) String := do
  match actions with
  | [] => return "Transaction from " ++ (← abbreviate c.fromAddr)
  | primary :: _ =>
    match primary.actionType with
    | .ethTransfer =>
      return "Transferred " ++ c.valueEth ++ " ETH from " ++ (← abbreviate c.fromAddr) ++ " to " ++
        (← abbreviateOr c.toAddr "contract creation")
    | .erc20Transfer =>
      return "Transferred " ++ primary.amount.getD "unknown" ++ " tokens from " ++
        (← abbreviate c.fromAddr) ++ " to " ++ (← abbreviateOr primary.toAddr "unknown")
    | .erc20Approval =>
      return "Approved " ++ (← abbreviateOr primary.spender "unknown") ++
        " to spend tokens from " ++ (← abbreviate c.fromAddr)
    | .erc721Transfer =>
      return "Transferred NFT #" ++ primary.amount.getD "unknown" ++ " from " ++
        (← abbreviate c.fromAddr) ++ " to " ++ (← abbreviateOr primary.toAddr "unknown")
    | .contractCreation => return "Deployed new contract from " ++ (← abbreviate c.fromAddr)
    | .contractCall => return "Called contract at " ++ (← abbreviateOr c.toAddr "unknown")
    | _ => return "Transaction from " ++ (← abbreviate c.fromAddr)

/-! ## The explanation -/

/-- An explanation with everything it reports. -/
structure ExplainedTransaction extends TransactionExplanation where
  blockNumber : ℕ
  timestamp : String
  fromAddr : String
  toAddr : Option String
  valueWei : Numeric
  valueEth : String
  gasUsed : ℕ
  gasPrice : Option Numeric
  effectiveGasPrice : Option Numeric
  txFee : String
  status : String
  contractsInvolved : List String
  summary : String
deriving DecidableEq

/-- The transaction with a hash, joined with the text of its block's timestamp. -/
def selectTransaction (setup : Setup) (hash : Bytes) (db : Db) :
    Option (TransactionRow × String) :=
  ((db.transactions.filter (·.hash = hash)).flatMap fun tx =>
    (db.blocks.filter (·.number = tx.blockNumber)).map fun block =>
      (tx, setup.timestampText block.timestamp)).head?

/-- The addresses of the logs of a transaction. -/
def selectLogAddresses (blockNumber : ℕ) (hash : Bytes) (db : Db) : List Bytes :=
  (db.logs.filter fun log => log.blockNumber = blockNumber ∧ log.txHash = hash).map (·.address)

/-- The context of a stored transaction. -/
def TransactionRow.context (tx : TransactionRow) : CallContext where
  fromAddr := hexText tx.fromAddr
  toAddr := tx.toAddr.map hexText
  value := tx.value
  input := tx.input

def statusText : Option ℕ → String
  | some 1 => "success"
  | some 0 => "failed"
  | _ => "unknown"

/-- Each address once, in the order of its first log. -/
def contractsInvolved (addresses : List Bytes) : List String :=
  (addresses.map hexText).foldl (fun seen address =>
    if address ∈ seen then seen else seen ++ [address]) []

/-- `hex::decode(text.trim_start_matches("0x")).map_err(|_| RowNotFound)?`. -/
def Session.hexParameter (text : String) : Session Bytes :=
  Session.lift <|
    match hexDecodeTrimmed text with
    | some bytes => .ok bytes
    | none => .error (.error .rowNotFound)

@[simp] theorem Session.hexParameter_hexText (bytes : Bytes) :
    Session.hexParameter (hexText bytes) = pure bytes := by
  rw [Session.hexParameter, hexDecodeTrimmed_hexText]
  rfl

def explainTransaction (setup : Setup) (txHash : String) : Session ExplainedTransaction := do
  let hashBytes ← Session.hexParameter txHash
  let found ← Session.query (selectTransaction setup hashBytes)
  let (tx, timestamp) ← Session.lift <|
    match found with
    | some row => .ok row
    | none => .error (.error .rowNotFound)
  let txFee ← Session.lift (calculateTxFee setup tx.gasUsed (tx.effectiveGasPrice <|> tx.gasPrice))
  let actions ← Session.lift (transactionActions tx.context)
  let addresses ← Session.query (selectLogAddresses tx.blockNumber hashBytes)
  let summary ← Session.lift (buildSummary actions tx.context)
  return {
    txHash, actions, timestamp, txFee, summary
    blockNumber := tx.blockNumber
    fromAddr := tx.context.fromAddr
    toAddr := tx.context.toAddr
    valueWei := tx.value
    valueEth := tx.context.valueEth
    gasUsed := tx.gasUsed
    gasPrice := tx.gasPrice
    effectiveGasPrice := tx.effectiveGasPrice
    status := statusText tx.status
    contractsInvolved := contractsInvolved addresses }

theorem explainTransaction_reads {setup : Setup} (txHash : String) :
    (explainTransaction setup txHash).Reads := by
  unfold explainTransaction
  refine Session.reads_bind (Session.reads_lift _) fun hashBytes => ?_
  refine Session.reads_bind (Session.reads_query _) fun found => ?_
  refine Session.reads_bind (Session.reads_lift _) fun row => ?_
  refine Session.reads_bind (Session.reads_lift _) fun txFee => ?_
  refine Session.reads_bind (Session.reads_lift _) fun actions => ?_
  refine Session.reads_bind (Session.reads_query _) fun addresses => ?_
  refine Session.reads_bind (Session.reads_lift _) fun summary => ?_
  exact Session.reads_pure _

/-! ## Persisting an explanation -/

namespace Session

/-- The loop of `persist_transaction_actions`, one statement for each action. -/
def persistActions (txHash : Bytes) : List TransactionAction → Session Unit
  | [] => pure ()
  | action :: actions => do
    let row ← lift ((actionRow txHash action).mapError fun e => .error (.sql e))
    exec (·.transact (Db.insertTransactionAction row))
    persistActions txHash actions

def persistTransactionActions (explanation : TransactionExplanation) : Session Unit := do
  let txHash ← lift
    ((hexBytes explanation.txHash "invalid tx hash").mapError fun e => .error (.sql e))
  persistActions txHash explanation.actions

theorem persistActions_runOn (txHash : Bytes) (actions : List TransactionAction) (pool : PgPool) :
    (persistActions txHash actions).runOn pool =
      ((ChainLens.persistActions txHash actions pool).1.mapError fun e => .error (.sql e),
        (ChainLens.persistActions txHash actions pool).2) := by
  induction actions generalizing pool with
  | nil => rfl
  | cons action actions ih =>
    rw [persistActions, ChainLens.persistActions, runOn_bind, runOn_lift]
    cases actionRow txHash action with
    | error e => rfl
    | ok row =>
      simp only [Except.mapError]
      rw [runOn_bind, runOn_exec]
      cases hexec : pool.transact (Db.insertTransactionAction row) with
      | mk result pool' =>
        cases result with
        | error e => rfl
        | ok _ => exact ih pool'

/-- **The session is the persist function** when nobody else uses the pool. -/
theorem persistTransactionActions_runOn (explanation : TransactionExplanation) (pool : PgPool) :
    (persistTransactionActions explanation).runOn pool =
      ((ChainLens.persistTransactionActions pool explanation).1.mapError fun e => .error (.sql e),
        (ChainLens.persistTransactionActions pool explanation).2) := by
  rw [persistTransactionActions, ChainLens.persistTransactionActions, runOn_bind, runOn_lift]
  cases hexBytes explanation.txHash "invalid tx hash" with
  | error e => rfl
  | ok txHash => exact persistActions_runOn txHash explanation.actions pool

end Session

/-! ## The addresses of an action -/

/-- The text of some byte string. -/
def IsHexText (text : String) : Prop := ∃ bytes, text = hexText bytes

/-- The addresses of the action can be decoded. -/
structure TransactionAction.Decodable (action : TransactionAction) : Prop where
  fromAddr : IsHexText action.fromAddr
  toAddr : ∀ text ∈ action.toAddr, IsHexText text
  tokenAddress : ∀ text ∈ action.tokenAddress, IsHexText text
  spender : ∀ text ∈ action.spender, IsHexText text

theorem IsHexText.hexBytes {text : String} (h : IsHexText text) (message : String) :
    ∃ bytes, hexBytes text message = .ok bytes := by
  obtain ⟨bytes, rfl⟩ := h
  exact ⟨bytes, by rw [ChainLens.hexBytes, hexDecodeTrimmed_hexText]⟩

theorem hexBytesOption_isOk {text : Option String} (h : ∀ t ∈ text, IsHexText t)
    (message : String) : ∃ bytes, hexBytesOption text message = .ok bytes := by
  cases text with
  | none => exact ⟨none, rfl⟩
  | some text =>
    obtain ⟨bytes, hbytes⟩ := (h text rfl).hexBytes message
    exact ⟨some bytes, by rw [hexBytesOption, hbytes]; rfl⟩

/-- The row of a decodable action. -/
theorem TransactionAction.Decodable.actionRow {action : TransactionAction} (h : action.Decodable)
    (txHash : Bytes) :
    ∃ row, actionRow txHash action = .ok row ∧ ∀ id, (row id).txHash = txHash := by
  obtain ⟨fromAddr, hfrom⟩ := h.fromAddr.hexBytes "invalid from address"
  obtain ⟨toAddr, hto⟩ := hexBytesOption_isOk h.toAddr "invalid to address"
  obtain ⟨tokenAddress, htoken⟩ := hexBytesOption_isOk h.tokenAddress "invalid token address"
  obtain ⟨spender, hspender⟩ := hexBytesOption_isOk h.spender "invalid spender address"
  rw [ChainLens.actionRow, hfrom, hto, htoken, hspender]
  exact ⟨_, rfl, fun _ => rfl⟩

/-- Every address of the action satisfies `P`. -/
structure TransactionAction.Addresses (P : String → Prop) (action : TransactionAction) : Prop where
  fromAddr : P action.fromAddr
  toAddr : ∀ text ∈ action.toAddr, P text
  tokenAddress : ∀ text ∈ action.tokenAddress, P text
  spender : ∀ text ∈ action.spender, P text

namespace CallContext

variable {c : CallContext} {actions : List TransactionAction} {P : String → Prop}

/-- The parties of the transaction are texts of byte strings. -/
structure IsHex (c : CallContext) : Prop where
  fromAddr : IsHexText c.fromAddr
  toAddr : ∀ text ∈ c.toAddr, IsHexText text

/-- Every address that actions are made of satisfies `P`: those of the parties, and those in the
calldata. -/
structure Addresses (P : String → Prop) (c : CallContext) : Prop where
  fromAddr : P c.fromAddr
  toAddr : ∀ text ∈ c.toAddr, P text
  decoded : ∀ start text, c.addressAt start = .ok text → P text

theorem addressAt_isHex {start : ℕ} {text : String} (h : c.addressAt start = .ok text) :
    IsHexText text := by
  unfold addressAt at h
  obtain ⟨bytes, -, hbytes⟩ := Except.bind_eq_ok_iff.mp h
  exact ⟨bytes.drop 12, (Except.ok.inj hbytes).symm⟩

theorem between_addresses (hc : c.Addresses P) (actionType : ActionType)
    {tokenAddress : Option String} (amount : Option String) (description : String)
    (htoken : tokenAddress = none ∨ tokenAddress = c.toAddr) :
    (c.between actionType tokenAddress amount description).Addresses P := by
  refine ⟨hc.fromAddr, hc.toAddr, ?_, nofun⟩
  show ∀ text ∈ tokenAddress, _
  rcases htoken with rfl | rfl
  · nofun
  · exact hc.toAddr

theorem amountCall_addresses (hc : c.Addresses P) {actionType : ActionType}
    {before after : String} (h : c.amountCall actionType before after = .ok actions) :
    ∀ action ∈ actions, action.Addresses P := by
  unfold amountCall at h
  split at h
  · obtain ⟨amount, -, hactions⟩ := Except.bind_eq_ok_iff.mp h
    cases hactions
    intro action hmem
    rw [List.mem_singleton.mp hmem]
    exact between_addresses hc _ _ _ (Or.inr rfl)
  · cases h
    exact List.forall_mem_nil _

theorem erc20Transfer_addresses (hc : c.Addresses P) (h : c.erc20Transfer = .ok actions) :
    ∀ action ∈ actions, action.Addresses P := by
  unfold erc20Transfer at h
  split at h
  · obtain ⟨toAddr, hto, h⟩ := Except.bind_eq_ok_iff.mp h
    obtain ⟨amount, -, hactions⟩ := Except.bind_eq_ok_iff.mp h
    cases hactions
    intro action hmem
    rw [List.mem_singleton.mp hmem]
    refine ⟨hc.fromAddr, ?_, hc.toAddr, nofun⟩
    rintro _ ⟨⟩
    exact hc.decoded _ _ hto
  · cases h
    exact List.forall_mem_nil _

theorem erc20Approval_addresses (hc : c.Addresses P) (h : c.erc20Approval = .ok actions) :
    ∀ action ∈ actions, action.Addresses P := by
  unfold erc20Approval at h
  split at h
  · obtain ⟨spender, hspender, hactions⟩ := Except.bind_eq_ok_iff.mp h
    cases hactions
    intro action hmem
    rw [List.mem_singleton.mp hmem]
    refine ⟨hc.fromAddr, hc.toAddr, hc.toAddr, ?_⟩
    rintro _ ⟨⟩
    exact hc.decoded _ _ hspender
  · cases h
    exact List.forall_mem_nil _

theorem erc721Transfer_addresses (hc : c.Addresses P) (h : c.erc721Transfer = .ok actions) :
    ∀ action ∈ actions, action.Addresses P := by
  unfold erc721Transfer at h
  split at h
  · obtain ⟨fromAddr, hfrom, h⟩ := Except.bind_eq_ok_iff.mp h
    obtain ⟨toAddr, hto, h⟩ := Except.bind_eq_ok_iff.mp h
    obtain ⟨tokenId, -, hactions⟩ := Except.bind_eq_ok_iff.mp h
    cases hactions
    intro action hmem
    rw [List.mem_singleton.mp hmem]
    refine ⟨hc.decoded _ _ hfrom, ?_, hc.toAddr, nofun⟩
    rintro _ ⟨⟩
    exact hc.decoded _ _ hto
  · cases h
    exact List.forall_mem_nil _

theorem ethTransfer_addresses (hc : c.Addresses P) : c.ethTransfer.Addresses P :=
  between_addresses hc _ _ _ (Or.inl rfl)

theorem selectorActions_addresses (hc : c.Addresses P) {selector : String}
    (h : c.selectorActions selector = .ok actions) : ∀ action ∈ actions, action.Addresses P := by
  unfold selectorActions at h
  split at h
  · exact erc20Transfer_addresses hc h
  · exact erc20Approval_addresses hc h
  · exact erc721Transfer_addresses hc h
  · exact amountCall_addresses hc h
  · exact amountCall_addresses hc h
  -- What is left lists one action between the parties.
  · cases h
    simpa using between_addresses hc _ _ _ (Or.inl rfl)
  · split at h
    · cases h
      simpa using between_addresses hc _ _ _ (Or.inr rfl)
    · split at h <;> cases h
      · simpa using ethTransfer_addresses hc
      · simpa using between_addresses hc _ _ _ (Or.inl rfl)

end CallContext

/-- **What the addresses of an action are**: those of the parties, or in the calldata. -/
theorem transactionActions_addresses {c : CallContext} {P : String → Prop} (hc : c.Addresses P)
    {actions : List TransactionAction} (h : transactionActions c = .ok actions) :
    ∀ action ∈ actions, action.Addresses P := by
  unfold transactionActions at h
  split at h
  · cases h
    simpa using ⟨hc.fromAddr, nofun, nofun, nofun⟩
  · split at h
    · exact CallContext.selectorActions_addresses hc h
    · split at h <;> cases h
      · simpa using CallContext.ethTransfer_addresses hc
      · exact List.forall_mem_nil _

theorem TransactionRow.context_isHex (tx : TransactionRow) : tx.context.IsHex where
  fromAddr := ⟨tx.fromAddr, rfl⟩
  toAddr text h := by
    obtain ⟨bytes, -, rfl⟩ := Option.map_eq_some_iff.mp h
    exact ⟨bytes, rfl⟩

/-- **The addresses of an action are texts of byte strings**, so that its row can be built. -/
theorem transactionActions_hex {c : CallContext} (hc : c.IsHex) {actions : List TransactionAction}
    (h : transactionActions c = .ok actions) : ∀ action ∈ actions, action.Decodable := by
  intro action hmem
  have haddresses : c.Addresses IsHexText :=
    ⟨hc.fromAddr, hc.toAddr, fun _ _ => CallContext.addressAt_isHex⟩
  obtain ⟨hfrom, hto, htoken, hspender⟩ := transactionActions_addresses haddresses h action hmem
  exact ⟨hfrom, hto, htoken, hspender⟩

/-! ## When there is an action -/

namespace CallContext

variable {c : CallContext} {actions : List TransactionAction}

/-- The calldata a selector's action needs. -/
def calldataBytes : String → ℕ
  | "a9059cbb" => 68
  | "095ea7b3" => 68
  | "23b872dd" => 100
  | "2e1a7d4d" => 36
  | "a0712d68" => 36
  | _ => 4

/-- The transaction creates a contract, or calls with enough calldata for the selector, or has no
selector and a value. -/
def Acts (c : CallContext) : Prop :=
  (c.toAddr = none ∧ c.input ≠ []) ∨
  (4 ≤ c.input.length ∧ calldataBytes (hexEncode (c.input.take 4)) ≤ c.input.length) ∨
  (c.input.length < 4 ∧ c.value ≠ "0")

instance (c : CallContext) : Decidable c.Acts := inferInstanceAs (Decidable (_ ∨ _ ∨ _))

theorem amountCall_ne_nil {actionType : ActionType} {before after : String}
    (h : c.amountCall actionType before after = .ok actions) :
    actions ≠ [] ↔ 36 ≤ c.input.length := by
  unfold amountCall at h
  split at h
  next hlength =>
    obtain ⟨amount, -, hactions⟩ := Except.bind_eq_ok_iff.mp h
    cases hactions
    simp [hlength]
  next hlength =>
    cases h
    simp [hlength]

theorem erc20Transfer_ne_nil (h : c.erc20Transfer = .ok actions) :
    actions ≠ [] ↔ 68 ≤ c.input.length := by
  unfold erc20Transfer at h
  split at h
  next hlength =>
    obtain ⟨toAddr, -, h⟩ := Except.bind_eq_ok_iff.mp h
    obtain ⟨amount, -, hactions⟩ := Except.bind_eq_ok_iff.mp h
    cases hactions
    simp [hlength]
  next hlength =>
    cases h
    simp [hlength]

theorem erc20Approval_ne_nil (h : c.erc20Approval = .ok actions) :
    actions ≠ [] ↔ 68 ≤ c.input.length := by
  unfold erc20Approval at h
  split at h
  next hlength =>
    obtain ⟨spender, -, hactions⟩ := Except.bind_eq_ok_iff.mp h
    cases hactions
    simp [hlength]
  next hlength =>
    cases h
    simp [hlength]

theorem erc721Transfer_ne_nil (h : c.erc721Transfer = .ok actions) :
    actions ≠ [] ↔ 100 ≤ c.input.length := by
  unfold erc721Transfer at h
  split at h
  next hlength =>
    obtain ⟨fromAddr, -, h⟩ := Except.bind_eq_ok_iff.mp h
    obtain ⟨toAddr, -, h⟩ := Except.bind_eq_ok_iff.mp h
    obtain ⟨tokenId, -, hactions⟩ := Except.bind_eq_ok_iff.mp h
    cases hactions
    simp [hlength]
  next hlength =>
    cases h
    simp [hlength]

theorem selectorActions_ne_nil (hinput : 4 ≤ c.input.length) {selector : String}
    (h : c.selectorActions selector = .ok actions) :
    actions ≠ [] ↔ calldataBytes selector ≤ c.input.length := by
  unfold selectorActions at h
  split at h
  · simpa [calldataBytes] using erc20Transfer_ne_nil h
  · simpa [calldataBytes] using erc20Approval_ne_nil h
  · simpa [calldataBytes] using erc721Transfer_ne_nil h
  · simpa [calldataBytes] using amountCall_ne_nil h
  · simpa [calldataBytes] using amountCall_ne_nil h
  · cases h
    simpa [calldataBytes] using hinput
  next h₁ h₂ h₃ h₄ h₅ _ =>
    have hbytes : calldataBytes selector = 4 := by
      unfold calldataBytes
      split <;> first | rfl | contradiction
    rw [hbytes]
    refine ⟨fun _ => hinput, fun _ => ?_⟩
    split at h
    · cases h
      nofun
    · split at h <;> cases h <;> nofun

end CallContext

/-- **When a transaction has an action.** -/
theorem transactionActions_ne_nil {c : CallContext} {actions : List TransactionAction}
    (h : transactionActions c = .ok actions) : actions ≠ [] ↔ c.Acts := by
  unfold transactionActions at h
  unfold CallContext.Acts
  split at h
  next hcreation =>
    cases h
    simp [hcreation]
  next hcreation =>
    split at h
    next hlength =>
      rw [CallContext.selectorActions_ne_nil hlength h]
      simp [hcreation, hlength, Nat.not_lt.mpr hlength]
    next hlength =>
      split at h <;> cases h
      next hvalue => simp [hlength, hvalue, Nat.lt_of_not_le hlength]
      next hvalue => simp [hcreation, hlength, hvalue]

end ChainLens
