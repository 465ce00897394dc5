import ChainLens.Decode.RoundTrip
import ChainLens.Intelligence.Reprocess

/-!
# Decoding calldata

The arguments of a call stand behind the four bytes of its selector, a word of 32 bytes each.
Explanations read the addresses among them twelve bytes too late, and of a `transferFrom` they read
a last word that ends twelve bytes beyond the calldata of the call.

## Main definitions

* `TokenCall`: the calls of a token that explanations decode, and their calldata
* `CallContext.ReadsPastEnd`: a call for which a slice is out of range
* `AccessesInRange`: no slice is out of range wherever a transaction is explained

## Main results

* `transactionActions_isOk_iff`: when the actions of a transaction can be read
* `explains_iff`: when an explanation shows the arguments of a call
* `accessesInRange_iff`: when no slice is out of range
-/

namespace ChainLens

/-! ## What is read off the calldata -/

namespace CallContext

variable {c : CallContext} {start : ℕ}

/-- The text of the address that is read at an offset. -/
def addressText (c : CallContext) (start : ℕ) : String :=
  hexText (((c.input.drop start).take 32).drop 12)

theorem word_of_le (h : start + 32 ≤ c.input.length) :
    c.word start = .ok ((c.input.drop start).take 32) := if_pos h

theorem addressAt_of_le (h : start + 32 ≤ c.input.length) :
    c.addressAt start = .ok (c.addressText start) := by
  rw [addressAt, word_of_le h]
  rfl

theorem amountAt_of_le (h : start + 32 ≤ c.input.length) :
    c.amountAt start = .ok (BigEndian.wordAt 32 c.input start) := by
  have hlength : ((c.input.drop start).take 32).length ≤ 32 := List.length_take_le _ _
  rw [amountAt, word_of_le h]
  show Except.ok (U256.fromBeSlice ((c.input.drop start).take 32)).toNat = _
  rw [U256.toNat_fromBeSlice hlength]
  rfl

theorem erc20Transfer_of_le (h : 68 ≤ c.input.length) :
    c.erc20Transfer = .ok [{
      actionType := .erc20Transfer
      fromAddr := c.fromAddr
      toAddr := some (c.addressText 16)
      tokenAddress := c.toAddr
      amount := some (toString (BigEndian.wordAt 32 c.input 36))
      spender := none
      description :=
        "Transferred " ++ toString (BigEndian.wordAt 32 c.input 36) ++ " tokens" }] := by
  rw [erc20Transfer, if_pos h, addressAt_of_le (by omega), amountAt_of_le (by omega)]
  rfl

theorem erc20Approval_of_le (h : 68 ≤ c.input.length) :
    c.erc20Approval = .ok [{
      actionType := .erc20Approval
      fromAddr := c.fromAddr
      toAddr := c.toAddr
      tokenAddress := c.toAddr
      amount := none
      spender := some (c.addressText 16)
      description := "Approved token spending" }] := by
  rw [erc20Approval, if_pos h, addressAt_of_le (by omega)]
  rfl

/-- The last word has to lie inside the calldata, which is not what is checked. -/
theorem erc721Transfer_of_le (h : 112 ≤ c.input.length) :
    c.erc721Transfer = .ok [{
      actionType := .erc721Transfer
      fromAddr := c.addressText 16
      toAddr := some (c.addressText 48)
      tokenAddress := c.toAddr
      amount := some (toString (BigEndian.wordAt 32 c.input 80))
      spender := none
      description := "Transferred NFT #" ++ toString (BigEndian.wordAt 32 c.input 80) }] := by
  rw [erc721Transfer, if_pos (by omega), addressAt_of_le (by omega), addressAt_of_le (by omega),
    amountAt_of_le (by omega)]
  rfl

theorem erc721Transfer_panics (h : 100 ≤ c.input.length) (hshort : c.input.length < 112) :
    c.erc721Transfer = .error (.panic "range out of bounds for slice") := by
  have hword : c.word 80 = .error (.panic "range out of bounds for slice") :=
    if_neg (by omega)
  rw [erc721Transfer, if_pos h, addressAt_of_le (by omega), addressAt_of_le (by omega), amountAt,
    hword]
  rfl

theorem amountCall_isOk (actionType : ActionType) (before after : String) :
    ∃ actions, c.amountCall actionType before after = .ok actions := by
  unfold amountCall
  split
  next h =>
    rw [amountAt_of_le (by omega)]
    exact ⟨_, rfl⟩
  next => exact ⟨_, rfl⟩

/-- The selector `23b872dd`. -/
def transferFromSelector : Bytes := [0x23, 0xb8, 0x72, 0xdd]

/-- A call of `transferFrom` whose calldata has the arguments, but ends before the last word that
is read. -/
structure ReadsPastEnd (c : CallContext) : Prop where
  called : c.toAddr ≠ none
  selector : c.input.take 4 = transferFromSelector
  checked : 100 ≤ c.input.length
  short : c.input.length < 112

instance (c : CallContext) : Decidable c.ReadsPastEnd :=
  decidable_of_iff (c.toAddr ≠ none ∧ c.input.take 4 = transferFromSelector ∧
    100 ≤ c.input.length ∧ c.input.length < 112)
    ⟨fun ⟨h₁, h₂, h₃, h₄⟩ => ⟨h₁, h₂, h₃, h₄⟩, fun ⟨h₁, h₂, h₃, h₄⟩ => ⟨h₁, h₂, h₃, h₄⟩⟩

theorem selectorActions_isOk {selector : String}
    (h : selector = "23b872dd" → c.input.length < 100 ∨ 112 ≤ c.input.length) :
    ∃ actions, c.selectorActions selector = .ok actions := by
  unfold selectorActions
  split
  · by_cases hlength : 68 ≤ c.input.length
    · exact ⟨_, erc20Transfer_of_le hlength⟩
    · exact ⟨_, if_neg hlength⟩
  · by_cases hlength : 68 ≤ c.input.length
    · exact ⟨_, erc20Approval_of_le hlength⟩
    · exact ⟨_, if_neg hlength⟩
  · rcases h rfl with hshort | hlong
    · exact ⟨_, if_neg (by omega)⟩
    · exact ⟨_, erc721Transfer_of_le hlong⟩
  · exact amountCall_isOk _ _ _
  · exact amountCall_isOk _ _ _
  · exact ⟨_, rfl⟩
  · split
    · exact ⟨_, rfl⟩
    · split <;> exact ⟨_, rfl⟩

end CallContext

/-- The text of the selector is that of its bytes. -/
theorem hexEncode_eq_transferFrom {bytes : Bytes} :
    hexEncode bytes = "23b872dd" ↔ bytes = CallContext.transferFromSelector := by
  have htext : hexEncode CallContext.transferFromSelector = "23b872dd" := by decide
  rw [← htext, hexEncode_inj]

section Actions

variable {c : CallContext}

theorem transactionActions_panics (h : c.ReadsPastEnd) :
    transactionActions c = .error (.panic "range out of bounds for slice") := by
  have hcalled : ¬ (c.toAddr = none ∧ c.input ≠ []) := fun hnone => h.called hnone.1
  have hchecked := h.checked
  rw [transactionActions, if_neg hcalled, if_pos (by omega),
    hexEncode_eq_transferFrom.mpr h.selector]
  exact CallContext.erc721Transfer_panics h.checked h.short

/-- **When the actions of a transaction can be read.** -/
theorem transactionActions_isOk_iff :
    (∃ actions, transactionActions c = .ok actions) ↔ ¬ c.ReadsPastEnd := by
  constructor
  · rintro ⟨actions, hactions⟩ hpast
    rw [transactionActions_panics hpast] at hactions
    cases hactions
  · intro hpast
    unfold transactionActions
    split
    · exact ⟨_, rfl⟩
    next hcreation =>
      split
      next hlength =>
        refine CallContext.selectorActions_isOk fun hselector => ?_
        by_contra hrange
        rw [not_or, Nat.not_lt, Nat.not_le] at hrange
        have hinput : c.input ≠ [] := List.ne_nil_of_length_pos (by omega)
        exact hpast ⟨fun hnone => hcreation ⟨hnone, hinput⟩,
          hexEncode_eq_transferFrom.mp hselector, hrange.1, hrange.2⟩
      next => split <;> exact ⟨_, rfl⟩

/-- A panic of the actions is that of a slice. -/
theorem transactionActions_error {fault : Fault QueryError}
    (h : transactionActions c = .error fault) :
    fault = .panic "range out of bounds for slice" ∧ c.ReadsPastEnd := by
  have hpast : c.ReadsPastEnd := by
    by_contra hpast
    obtain ⟨actions, hactions⟩ := transactionActions_isOk_iff.mpr hpast
    rw [hactions] at h
    cases h
  rw [transactionActions_panics hpast] at h
  cases h
  exact ⟨rfl, hpast⟩

end Actions

/-! ## The summary -/

/-- The first ten bytes of the text can be taken. -/
def Abbreviable (text : String) : Prop := 10 ≤ text.utf8ByteSize

theorem abbreviable_hexText {bytes : Bytes} (h : 4 ≤ bytes.length) :
    Abbreviable (hexText bytes) := by
  have hsize := length_le_utf8ByteSize (hexText bytes)
  rw [length_hexText] at hsize
  unfold Abbreviable
  omega

theorem abbreviate_isOk {text : String} (h : Abbreviable text) : ∃ s, abbreviate text = .ok s :=
  ⟨_, if_pos h⟩

theorem abbreviateOr_isOk {text : Option String} (h : ∀ t ∈ text, Abbreviable t)
    (other : String) : ∃ s, abbreviateOr text other = .ok s := by
  cases text with
  | none => exact ⟨other, rfl⟩
  | some text => exact abbreviate_isOk (h text rfl)

/-- A word in the calldata has more bytes than are abbreviated to. -/
theorem CallContext.addressAt_abbreviable {c : CallContext} {start : ℕ} {text : String}
    (h : c.addressAt start = .ok text) : Abbreviable text := by
  unfold CallContext.addressAt CallContext.word at h
  split at h
  next hlength =>
    cases h
    refine abbreviable_hexText ?_
    rw [List.length_drop, List.length_take, List.length_drop]
    omega
  next => cases h

theorem buildSummary_isOk {c : CallContext} {actions : List TransactionAction}
    (hc : c.Addresses Abbreviable) (hactions : ∀ action ∈ actions, action.Addresses Abbreviable) :
    ∃ summary, buildSummary actions c = .ok summary := by
  obtain ⟨sender, hsender⟩ := abbreviate_isOk hc.fromAddr
  unfold buildSummary
  cases actions with
  | nil =>
    rw [hsender]
    exact ⟨_, rfl⟩
  | cons primary rest =>
    have hprimary := hactions primary List.mem_cons_self
    obtain ⟨target, htarget⟩ := abbreviateOr_isOk hprimary.toAddr "unknown"
    obtain ⟨spender, hspender⟩ := abbreviateOr_isOk hprimary.spender "unknown"
    obtain ⟨called, hcalled⟩ := abbreviateOr_isOk hc.toAddr "unknown"
    obtain ⟨receiver, hreceiver⟩ := abbreviateOr_isOk hc.toAddr "contract creation"
    dsimp only
    split
    · rw [hsender, hreceiver]
      exact ⟨_, rfl⟩
    · rw [hsender, htarget]
      exact ⟨_, rfl⟩
    · rw [hspender, hsender]
      exact ⟨_, rfl⟩
    · rw [hsender, htarget]
      exact ⟨_, rfl⟩
    · rw [hsender]
      exact ⟨_, rfl⟩
    · rw [hcalled]
      exact ⟨_, rfl⟩
    · rw [hsender]
      exact ⟨_, rfl⟩

/-- The sender of the transaction is an address, and so is its recipient. -/
structure TransactionRow.HasAddresses (tx : TransactionRow) : Prop where
  fromAddr : tx.fromAddr.length = 20
  toAddr : ∀ address ∈ tx.toAddr, address.length = 20

theorem TransactionRow.HasAddresses.abbreviable {tx : TransactionRow} (h : tx.HasAddresses) :
    tx.context.Addresses Abbreviable where
  fromAddr := abbreviable_hexText (by rw [h.fromAddr]; decide)
  toAddr text htext := by
    obtain ⟨address, haddress, rfl⟩ := Option.map_eq_some_iff.mp htext
    exact abbreviable_hexText (by rw [h.toAddr address haddress]; decide)
  decoded _ _ := CallContext.addressAt_abbreviable

/-- **The summary of a transaction with addresses** abbreviates what has enough bytes. -/
theorem TransactionRow.HasAddresses.buildSummary_isOk {tx : TransactionRow}
    (h : tx.HasAddresses) {actions : List TransactionAction}
    (hactions : transactionActions tx.context = .ok actions) :
    ∃ summary, buildSummary actions tx.context = .ok summary :=
  ChainLens.buildSummary_isOk h.abbreviable (transactionActions_addresses h.abbreviable hactions)

/-! ## Explaining a stored transaction -/

/-- The fee does not overflow where overflows are checked. -/
def TransactionRow.FeeFits (setup : Setup) (tx : TransactionRow) : Prop :=
  setup.overflowChecks → feeWei tx.gasUsed (tx.effectiveGasPrice <|> tx.gasPrice) ≤ u128Max

section Explanation

variable {setup : Setup} {text : String} {hash : Bytes} {pool pool' : PgPool}

/-- The parts of an explanation that is returned. -/
theorem explainTransaction_runOn_ok {e : ExplainedTransaction}
    (htext : hexDecodeTrimmed text = some hash)
    (h : (explainTransaction setup text).runOn pool = (.ok e, pool')) :
    ∃ tx timestamp, selectTransaction setup hash pool.db = some (tx, timestamp) ∧
      tx.FeeFits setup ∧ transactionActions tx.context = .ok e.actions ∧ e.txHash = text := by
  unfold explainTransaction at h
  obtain ⟨hashBytes, pool₀, hparameter, h⟩ := Session.runOn_bind_ok h
  rw [Session.hexParameter, htext, Session.runOn_lift] at hparameter
  cases hparameter
  obtain ⟨found, pool₁, hquery, h⟩ := Session.runOn_bind_ok h
  obtain ⟨rfl, -⟩ := Session.runOn_query_ok hquery
  obtain ⟨⟨tx, timestamp⟩, pool₂, hrow, h⟩ := Session.runOn_bind_ok h
  obtain ⟨fee, pool₃, hfee, h⟩ := Session.runOn_bind_ok h
  obtain ⟨actions, pool₄, hactions, h⟩ := Session.runOn_bind_ok h
  obtain ⟨addresses, pool₅, -, h⟩ := Session.runOn_bind_ok h
  obtain ⟨summary, pool₆, -, h⟩ := Session.runOn_bind_ok h
  rw [Session.runOn_lift] at hrow hfee hactions
  cases h
  refine ⟨tx, timestamp, ?_, ?_, congrArg Prod.fst hactions, rfl⟩
  · split at hrow
    next found => exact found.trans (congrArg some (Except.ok.inj (congrArg Prod.fst hrow)))
    next => cases hrow
  · exact calculateTxFee_isOk.mp ⟨fee, congrArg Prod.fst hfee⟩

/-- A panic of an explanation is that of one of its parts. -/
theorem explainTransaction_runOn_panic {message : String}
    (htext : hexDecodeTrimmed text = some hash)
    (h : ((explainTransaction setup text).runOn pool).1 = .error (.panic message)) :
    ∃ tx timestamp, selectTransaction setup hash pool.db = some (tx, timestamp) ∧
      (message = "attempt to multiply with overflow" ∨
        transactionActions tx.context = .error (.panic message) ∨
        ∃ actions, transactionActions tx.context = .ok actions ∧
          buildSummary actions tx.context = .error (.panic message)) := by
  rw [explainTransaction, Session.hexParameter, htext] at h
  rcases Session.runOn_bind_error h with h | ⟨hashBytes, pool₀, hparameter, h⟩
  · cases h
  rw [Session.runOn_lift] at hparameter
  cases hparameter
  rcases Session.runOn_bind_error h with h | ⟨found, pool₁, hquery, h⟩
  · exact absurd h Session.runOn_query_error
  obtain ⟨rfl, -⟩ := Session.runOn_query_ok hquery
  -- The row is missing, which is an error, or it is found.
  cases hfound : selectTransaction setup hash pool.db with
  | none =>
    rw [hfound] at h
    cases h
  | some row =>
    obtain ⟨tx, timestamp⟩ := row
    refine ⟨tx, timestamp, rfl, ?_⟩
    rw [hfound] at h
    rcases Session.runOn_bind_error h with h | ⟨_, pool₂, hrow, h⟩
    · cases h
    rw [Session.runOn_lift] at hrow
    cases hrow
    rcases Session.runOn_bind_error h with h | ⟨fee, pool₃, hfee, h⟩
    · rw [Session.runOn_lift] at h
      dsimp only [calculateTxFee] at h
      split at h
      · cases h
        exact Or.inl rfl
      · cases h
    rcases Session.runOn_bind_error h with h | ⟨actions, pool₄, hactions, h⟩
    · rw [Session.runOn_lift] at h
      exact Or.inr (Or.inl h)
    rw [Session.runOn_lift] at hactions
    rcases Session.runOn_bind_error h with h | ⟨addresses, pool₅, -, h⟩
    · exact absurd h Session.runOn_query_error
    rcases Session.runOn_bind_error h with h | ⟨summary, pool₆, -, h⟩
    · rw [Session.runOn_lift] at h
      exact Or.inr (Or.inr ⟨actions, congrArg Prod.fst hactions, h⟩)
    · cases h

/-- An explanation with nobody else at work, of a transaction whose parts can be computed. -/
theorem explainTransaction_served {db : Db} {tx : TransactionRow} {timestamp : String}
    {actions : List TransactionAction}
    (hfound : selectTransaction setup hash db = some (tx, timestamp))
    (htext : hexDecodeTrimmed text = some hash) (hfee : tx.FeeFits setup)
    (haddresses : tx.HasAddresses) (hactions : transactionActions tx.context = .ok actions)
    (now : ℕ) : ∃ e, (explainTransaction setup text).runOn ⟨db, [], now⟩ =
      (.ok e, ⟨db, [], now⟩) ∧ e.actions = actions ∧ e.txHash = text := by
  obtain ⟨fee, hfee⟩ := calculateTxFee_isOk.mpr hfee
  obtain ⟨summary, hsummary⟩ := haddresses.buildSummary_isOk hactions
  rw [explainTransaction, Session.hexParameter, htext]
  simp only [Session.runOn_bind, Session.runOn_lift, Session.runOn_query, hfound, hfee, hactions,
    hsummary, Session.runOn_pure]
  exact ⟨_, rfl, rfl, rfl⟩

/-- A transaction that is read past its end panics there, unless its fee did before. -/
theorem explainTransaction_pastEnd {db : Db} {tx : TransactionRow} {timestamp : String}
    (hfound : selectTransaction setup hash db = some (tx, timestamp))
    (htext : hexDecodeTrimmed text = some hash) (hfee : tx.FeeFits setup)
    (hpast : tx.context.ReadsPastEnd) (now : ℕ) :
    (explainTransaction setup text).runOn ⟨db, [], now⟩ =
      (.error (.panic "range out of bounds for slice"), ⟨db, [], now⟩) := by
  obtain ⟨fee, hfee⟩ := calculateTxFee_isOk.mpr hfee
  rw [explainTransaction, Session.hexParameter, htext]
  simp only [Session.runOn_bind, Session.runOn_lift, Session.runOn_query, hfound, hfee,
    transactionActions_panics hpast]

end Explanation

/-! ## Slices out of range -/

/-- The panics of a byte slice and of a string slice. -/
def IsAccessPanic (message : String) : Prop :=
  message = "range out of bounds for slice" ∨ message = "byte index out of bounds"

/-- Whatever the answers of the pool, no slice is out of range. -/
def Session.InRange {α : Type} (p : Session α) (db : Db) : Prop :=
  ∀ pool : PgPool, pool.db = db → ∀ message,
    (p.runOn pool).1 = .error (.panic message) → ¬ IsAccessPanic message

/-- No slice is out of range when the transaction is explained, for whichever settings: by itself,
by the handler, or by the background processor. -/
structure AccessesInRange (hash : Bytes) (db : Db) : Prop where
  explain : ∀ setup text, hexDecodeTrimmed text = some hash →
    (explainTransaction setup text).InRange db
  handler : ∀ setup text, hexDecodeTrimmed text = some hash →
    (explainHandler setup text).InRange db
  processor : ∀ setup, (processTransaction setup hash).InRange db

/-- Persisting does not panic. -/
theorem persistTransactionActions_runOn_panic {explanation : TransactionExplanation}
    {pool : PgPool} {message : String} :
    ((Session.persistTransactionActions explanation).runOn pool).1 ≠ .error (.panic message) := by
  rw [Session.persistTransactionActions_runOn]
  cases (persistTransactionActions pool explanation).1 <;> nofun

theorem ignore_persistTransactionActions_runOn_error {explanation : TransactionExplanation}
    {pool : PgPool} {fault : Fault QueryError} :
    ((Session.persistTransactionActions explanation).ignore.runOn pool).1 ≠ .error fault := by
  intro h
  obtain ⟨message, rfl, hpanic⟩ := Session.runOn_ignore_error h
  exact persistTransactionActions_runOn_panic hpanic

section InRange

variable {db : Db} {tx : TransactionRow}

/-- A transaction that is not read past its end is explained without a slice out of range. -/
theorem explainTransaction_inRange (hdb : db.Valid) (htx : tx ∈ db.transactions)
    (haddresses : tx.HasAddresses) (hpast : ¬ tx.context.ReadsPastEnd) {setup : Setup}
    {text : String} (htext : hexDecodeTrimmed text = some tx.hash) :
    (explainTransaction setup text).InRange db := by
  rintro pool rfl message hpanic haccess
  obtain ⟨tx', timestamp, hfound, hcases⟩ := explainTransaction_runOn_panic htext hpanic
  obtain ⟨hmem, hhash⟩ := selectTransaction_mem hfound
  obtain rfl : tx' = tx := List.inj_on_of_nodup_map hdb.transactions_hash hmem htx hhash
  rcases hcases with rfl | hactions | ⟨actions, hactions, hsummary⟩
  · unfold IsAccessPanic at haccess
    exact absurd haccess (by decide)
  · exact hpast (transactionActions_error hactions).2
  · obtain ⟨summary, hok⟩ := haddresses.buildSummary_isOk hactions
    rw [hok] at hsummary
    cases hsummary

/-- A transaction that is read past its end panics in a build that does not check overflows. -/
theorem not_accessesInRange (hdb : db.Valid) (htx : tx ∈ db.transactions)
    (hpast : tx.context.ReadsPastEnd) : ¬ AccessesInRange tx.hash db := by
  intro h
  have hfee : tx.FeeFits Reprocess.plainSetup := nofun
  obtain ⟨timestamp, hfound⟩ := @selectTransaction_of_mem Reprocess.plainSetup db tx hdb htx
  have hrun := explainTransaction_pastEnd hfound (hexDecodeTrimmed_hexText tx.hash) hfee hpast 0
  exact h.explain _ _ (hexDecodeTrimmed_hexText tx.hash) _ rfl _ (congrArg Prod.fst hrun)
    (Or.inl rfl)

/-- **When no slice is out of range**: exactly unless the transaction is a call of `transferFrom`
whose calldata ends before the last word that is read. -/
theorem accessesInRange_iff (hdb : db.Valid) (htx : tx ∈ db.transactions)
    (haddresses : tx.HasAddresses) :
    AccessesInRange tx.hash db ↔ ¬ tx.context.ReadsPastEnd := by
  constructor
  · exact fun h hpast => not_accessesInRange hdb htx hpast h
  · intro hpast
    have hexplain : ∀ setup text, hexDecodeTrimmed text = some tx.hash →
        (explainTransaction setup text).InRange db := fun setup text htext =>
      explainTransaction_inRange hdb htx haddresses hpast htext
    refine ⟨hexplain, fun setup text htext pool hpool message h => ?_, ?_⟩
    · rcases Session.runOn_bind_error h with h | ⟨e, pool₁, -, h⟩
      · exact hexplain setup text htext pool hpool message h
      · exact absurd h ignore_persistTransactionActions_runOn_error
    · intro setup pool hpool message h
      rcases Session.runOn_handle_error h with ⟨_, ⟨⟩, h⟩ | ⟨e, pool₁, -, h⟩
      · exact hexplain setup _ (hexDecodeTrimmed_hexText tx.hash) pool hpool _ h
      · exact absurd h ignore_persistTransactionActions_runOn_error

end InRange

/-! ## Calls of a token -/

/-- The word of an address: the address behind twelve zero bytes. -/
def addressWord (address : Address) : Bytes := (addressTopic address).bytes

@[simp] theorem length_addressWord (address : Address) : (addressWord address).length = 32 :=
  (addressTopic address).length_bytes

/-- The calls whose arguments an explanation shows. -/
inductive TokenCall where
  | transfer (toAddr : Address) (amount : U256)
  | approve (spender : Address) (amount : U256)
  | transferFrom (fromAddr toAddr : Address) (amount : U256)

namespace TokenCall

/-- The selector, and a word for each argument. -/
def calldata : TokenCall → Bytes
  | transfer toAddr amount =>
    [0xa9, 0x05, 0x9c, 0xbb] ++ addressWord toAddr ++ wordBytes amount
  | approve spender amount =>
    [0x09, 0x5e, 0xa7, 0xb3] ++ addressWord spender ++ wordBytes amount
  | transferFrom fromAddr toAddr amount =>
    CallContext.transferFromSelector ++ addressWord fromAddr ++ addressWord toAddr ++
      wordBytes amount

/-- The action shows the arguments of the call; an approval does not show its amount. -/
def ShownBy : TokenCall → TransactionAction → Prop
  | transfer toAddr amount, action =>
    action.actionType = .erc20Transfer ∧ action.toAddr = some (hexText toAddr.bytes) ∧
      action.amount = some (toString amount.toNat)
  | approve spender _, action =>
    action.actionType = .erc20Approval ∧ action.spender = some (hexText spender.bytes)
  | transferFrom fromAddr toAddr amount, action =>
    action.fromAddr = hexText fromAddr.bytes ∧ action.toAddr = some (hexText toAddr.bytes) ∧
      action.amount = some (toString amount.toNat)

/-- The last eight bytes of the address, and behind them the first twelve of the amount, are the
address. -/
def Overlaps (address : Address) (amount : U256) : Prop :=
  address.bytes = address.bytes.drop 12 ++ (wordBytes amount).take 12

instance (address : Address) (amount : U256) : Decidable (Overlaps address amount) :=
  inferInstanceAs (Decidable (_ = _))

/-- The address that is read twelve bytes too late is the one that was meant. Of a `transferFrom`
none is read. -/
def Recoverable : TokenCall → Prop
  | transfer toAddr amount => Overlaps toAddr amount
  | approve spender amount => Overlaps spender amount
  | transferFrom _ _ _ => False

end TokenCall

section Call

variable {c : CallContext}

/-- The address that is read at offset 16. -/
theorem addressText_sixteen {selector : Bytes} {address : Address} {amount : U256}
    (hselector : selector.length = 4)
    (hinput : c.input = selector ++ addressWord address ++ wordBytes amount) :
    c.addressText 16 = hexText (address.bytes.drop 12 ++ (wordBytes amount).take 12) := by
  have hdrop : c.input.drop 16 = address.bytes ++ wordBytes amount := by
    rw [hinput, addressWord, addressTopic, ← List.append_assoc selector, List.append_assoc,
      List.drop_append_of_le_length (by simp [hselector])]
    simp [hselector]
  have htake : address.bytes.take 32 = address.bytes :=
    List.take_of_length_le (by rw [address.length_bytes]; decide)
  rw [CallContext.addressText, hdrop, List.take_append, htake, List.drop_append]
  simp [address.length_bytes]

/-- The amount stands behind the address. -/
theorem wordAt_amount {selector : Bytes} {address : Address} {amount : U256}
    (hselector : selector.length = 4)
    (hinput : c.input = selector ++ addressWord address ++ wordBytes amount) :
    BigEndian.wordAt 32 c.input 36 = amount.toNat := by
  have hpre : (selector ++ addressWord address).length = 36 := by simp [hselector]
  have hword := BigEndian.wordAt_append hpre (length_wordBytes amount) []
  rw [List.append_nil] at hword
  rw [hinput, hword, value_wordBytes]

theorem transactionActions_of_selector {selector : String} (hcalled : c.toAddr ≠ none)
    (hlength : 4 ≤ c.input.length) (hselector : hexEncode (c.input.take 4) = selector) :
    transactionActions c = c.selectorActions selector := by
  rw [transactionActions, if_neg (fun hnone => hcalled hnone.1), if_pos hlength, hselector]

theorem transactionActions_transfer {toAddr : Address} {amount : U256}
    (hcalled : c.toAddr ≠ none) (hinput : c.input = (TokenCall.transfer toAddr amount).calldata) :
    ∃ action, transactionActions c = .ok [action] ∧ action.actionType = .erc20Transfer ∧
      action.toAddr = some (hexText (toAddr.bytes.drop 12 ++ (wordBytes amount).take 12)) ∧
      action.amount = some (toString amount.toNat) := by
  have hlength : c.input.length = 68 := by simp [hinput, TokenCall.calldata]
  have hselector : hexEncode (c.input.take 4) = "a9059cbb" := by
    rw [hinput, TokenCall.calldata, List.append_assoc, List.take_append_of_le_length (by simp)]
    decide
  refine ⟨_, (transactionActions_of_selector hcalled (by omega) hselector).trans
    (CallContext.erc20Transfer_of_le (by omega)), rfl, ?_, ?_⟩
  · rw [addressText_sixteen rfl hinput]
  · rw [wordAt_amount rfl hinput]

theorem transactionActions_approve {spender : Address} {amount : U256}
    (hcalled : c.toAddr ≠ none) (hinput : c.input = (TokenCall.approve spender amount).calldata) :
    ∃ action, transactionActions c = .ok [action] ∧ action.actionType = .erc20Approval ∧
      action.spender = some (hexText (spender.bytes.drop 12 ++ (wordBytes amount).take 12)) := by
  have hlength : c.input.length = 68 := by simp [hinput, TokenCall.calldata]
  have hselector : hexEncode (c.input.take 4) = "095ea7b3" := by
    rw [hinput, TokenCall.calldata, List.append_assoc, List.take_append_of_le_length (by simp)]
    decide
  refine ⟨_, (transactionActions_of_selector hcalled (by omega) hselector).trans
    (CallContext.erc20Approval_of_le (by omega)), rfl, ?_⟩
  rw [addressText_sixteen rfl hinput]

/-- The calldata of a `transferFrom` ends before the last word that is read. -/
theorem readsPastEnd_transferFrom {fromAddr toAddr : Address} {amount : U256}
    (hcalled : c.toAddr ≠ none)
    (hinput : c.input = (TokenCall.transferFrom fromAddr toAddr amount).calldata) :
    c.ReadsPastEnd := by
  have hlength : c.input.length = 100 := by
    simp [hinput, TokenCall.calldata, CallContext.transferFromSelector]
  refine ⟨hcalled, ?_, by omega, by omega⟩
  rw [hinput, TokenCall.calldata, List.append_assoc, List.append_assoc,
    List.take_append_of_le_length (by simp [CallContext.transferFromSelector])]
  rfl

theorem TokenCall.four_le_calldata (call : TokenCall) : 4 ≤ call.calldata.length := by
  cases call <;> simp [TokenCall.calldata, CallContext.transferFromSelector]

/-- Without a recipient, the calldata is taken for the code of a new contract. -/
theorem transactionActions_creation (hnone : c.toAddr = none) (hlength : 4 ≤ c.input.length) :
    transactionActions c = .ok [c.creation] := by
  have hinput : c.input ≠ [] := List.ne_nil_of_length_pos (by omega)
  rw [transactionActions, if_pos ⟨hnone, hinput⟩]

/-- **When the actions show the arguments of a call**: there is a recipient, and the address that
is read twelve bytes too late is the one that was meant. -/
theorem transactionActions_shows_iff {call : TokenCall} (hinput : c.input = call.calldata) :
    (∃ actions, transactionActions c = .ok actions ∧ ∃ action ∈ actions, call.ShownBy action) ↔
      c.toAddr ≠ none ∧ call.Recoverable := by
  by_cases hcalled : c.toAddr = none
  · -- The calldata is taken for a contract's code, and a creation shows no argument.
    have hlength : 4 ≤ c.input.length := hinput ▸ call.four_le_calldata
    rw [transactionActions_creation hcalled hlength]
    refine iff_of_false ?_ fun h => h.1 hcalled
    rintro ⟨_, ⟨⟩, action, hmem, hshown⟩
    cases List.mem_singleton.mp hmem
    cases call with
    | transfer => cases hshown.1
    | approve => cases hshown.1
    | transferFrom => cases hshown.2.1
  · rw [and_iff_right hcalled]
    cases call with
    | transfer toAddr amount =>
      -- The recipient that is shown starts twelve bytes late; the amount is the right one.
      obtain ⟨action, hactions, htype, hto, hamount⟩ :=
        transactionActions_transfer hcalled hinput
      rw [hactions]
      constructor
      · rintro ⟨_, ⟨⟩, action', hmem, -, hto', -⟩
        cases List.mem_singleton.mp hmem
        exact (hexText_inj.mp (Option.some.inj (hto.symm.trans hto'))).symm
      · intro hoverlaps
        exact ⟨_, rfl, action, List.mem_singleton_self _, htype,
          hto.trans (congrArg (some ∘ hexText) hoverlaps.symm), hamount⟩
    | approve spender amount =>
      obtain ⟨action, hactions, htype, hspender⟩ := transactionActions_approve hcalled hinput
      rw [hactions]
      constructor
      · rintro ⟨_, ⟨⟩, action', hmem, -, hspender'⟩
        cases List.mem_singleton.mp hmem
        exact (hexText_inj.mp (Option.some.inj (hspender.symm.trans hspender'))).symm
      · intro hoverlaps
        exact ⟨_, rfl, action, List.mem_singleton_self _, htype,
          hspender.trans (congrArg (some ∘ hexText) hoverlaps.symm)⟩
    | transferFrom fromAddr toAddr amount =>
      -- The third argument of `transferFrom` is read past the end.
      refine iff_of_false ?_ id
      rintro ⟨actions, hactions, -⟩
      exact transactionActions_isOk_iff.mp ⟨actions, hactions⟩
        (readsPastEnd_transferFrom hcalled hinput)

end Call

/-- An explanation of the stored transaction shows the arguments of the call. -/
def Explains (setup : Setup) (db : Db) (tx : TransactionRow) (call : TokenCall) : Prop :=
  ∀ text, hexDecodeTrimmed text = some tx.hash → ∀ now, ∃ e,
    (explainTransaction setup text).runOn ⟨db, [], now⟩ = (.ok e, ⟨db, [], now⟩) ∧
      ∃ action ∈ e.actions, call.ShownBy action

theorem Explains.shows {setup : Setup} {db : Db} {tx : TransactionRow} {call : TokenCall}
    (hdb : db.Valid) (htx : tx ∈ db.transactions) (h : Explains setup db tx call) :
    (∃ actions, transactionActions tx.context = .ok actions ∧
      ∃ action ∈ actions, call.ShownBy action) ∧ tx.FeeFits setup := by
  obtain ⟨e, hrun, action, hmem, hshown⟩ := h _ (hexDecodeTrimmed_hexText tx.hash) 0
  obtain ⟨tx', timestamp, hfound, hfee, hactions, -⟩ :=
    explainTransaction_runOn_ok (hexDecodeTrimmed_hexText tx.hash) hrun
  obtain ⟨htx', hhash⟩ := selectTransaction_mem hfound
  obtain rfl : tx' = tx := List.inj_on_of_nodup_map hdb.transactions_hash htx' htx hhash
  exact ⟨⟨e.actions, hactions, action, hmem, hshown⟩, hfee⟩

/-- **When an explanation shows the arguments of a call**: the call has a recipient, the address
that is read twelve bytes too late is the one that was meant, and the fee does not overflow. -/
theorem explains_iff {setup : Setup} {db : Db} {tx : TransactionRow} {call : TokenCall}
    (hdb : db.Valid) (htx : tx ∈ db.transactions) (haddresses : tx.HasAddresses)
    (hinput : tx.input = call.calldata) :
    Explains setup db tx call ↔ tx.toAddr ≠ none ∧ call.Recoverable ∧ tx.FeeFits setup := by
  have hshows := @transactionActions_shows_iff tx.context call hinput
  have hcalled : tx.context.toAddr ≠ none ↔ tx.toAddr ≠ none :=
    not_congr Option.map_eq_none_iff
  rw [hcalled] at hshows
  rw [← and_assoc, ← hshows]
  constructor
  · exact Explains.shows hdb htx
  · rintro ⟨⟨actions, hactions, action, hmem, hshown⟩, hfee⟩ text htext now
    obtain ⟨timestamp, hfound⟩ := @selectTransaction_of_mem setup db tx hdb htx
    obtain ⟨e, hrun, rfl, -⟩ :=
      explainTransaction_served hfound htext hfee haddresses hactions now
    exact ⟨e, hrun, action, hmem, hshown⟩

/-! ## A block with one call -/

/-- A transaction with the given calldata. -/
def callTransaction (input : Bytes) : Transaction :=
  { BatchLog.indexed.transactions.head (by decide) with input }

def callRow (input : Bytes) : TransactionRow := transactionRow (callTransaction input)

def callBlock (input : Bytes) : IndexedBlock where
  block := BatchLog.indexed.block
  transactions := [callTransaction input]
  logs := []
  tokenTransfers := []

/-- A database with this block only. -/
def callDb (input : Bytes) : Db := Db.migrated.committed (callBlock input) 0

theorem callDb_valid (input : Bytes) : (callDb input).Valid := by
  have hcoherent : (callBlock input).Coherent := by
    refine ⟨?_, nofun, nofun⟩
    simp [callBlock, callTransaction, BatchLog.indexed]
  have htime : (callBlock input).block.timestamp < 9224318016000 := by
    show BatchLog.indexed.block.timestamp < 9224318016000
    decide
  exact Db.valid_migrated.commitBlock (Db.commitBlock_isOk hcoherent htime
    (fun _ hrow _ => absurd hrow List.not_mem_nil) 0)

theorem callRow_mem (input : Bytes) : callRow input ∈ (callDb input).transactions :=
  List.mem_singleton_self _

theorem callRow_hasAddresses (input : Bytes) : (callRow input).HasAddresses where
  fromAddr := (callTransaction input).fromAddr.length_bytes
  toAddr := by
    rintro _ ⟨⟩
    rfl

/-- A transfer of nothing to the zero address. -/
theorem zeroTransfer_explains_iff :
    let call := TokenCall.transfer (.zero 20) 0
    Explains Reprocess.plainSetup (callDb call.calldata) (callRow call.calldata) call ↔
      (callRow call.calldata).toAddr ≠ none ∧ call.Recoverable ∧
        (callRow call.calldata).FeeFits Reprocess.plainSetup :=
  explains_iff (callDb_valid _) (callRow_mem _) (callRow_hasAddresses _) rfl

/-- A transfer of five units is shown with another recipient. -/
theorem transfer_not_explained :
    ¬ ∀ (db : Db) (tx : TransactionRow) (call : TokenCall), db.Valid → tx ∈ db.transactions →
      tx.HasAddresses → tx.toAddr ≠ none → tx.input = call.calldata →
        Explains Reprocess.plainSetup db tx call := by
  intro hall
  have hexplains := hall (callDb (TokenCall.transfer (.withLastByte 19 2) 5).calldata) _
    (.transfer (.withLastByte 19 2) 5) (callDb_valid _) (callRow_mem _) (callRow_hasAddresses _)
    nofun rfl
  have hshows := (hexplains.shows (callDb_valid _) (callRow_mem _)).1
  have hoverlaps : TokenCall.Overlaps (.withLastByte 19 2) 5 :=
    ((transactionActions_shows_iff rfl).mp hshows).2
  exact absurd hoverlaps (by decide +kernel)

/-- A call without calldata. -/
theorem emptyCall_accessesInRange_iff :
    AccessesInRange (callRow []).hash (callDb []) ↔ ¬ (callRow []).context.ReadsPastEnd :=
  accessesInRange_iff (callDb_valid []) (callRow_mem []) (callRow_hasAddresses [])

/-- A call of `transferFrom` in the layout of the ABI panics. -/
theorem transferFrom_out_of_range :
    ¬ ∀ (db : Db) (tx : TransactionRow), db.Valid → tx ∈ db.transactions → tx.HasAddresses →
      AccessesInRange tx.hash db := by
  intro hall
  let call := TokenCall.transferFrom (.withLastByte 19 1) (.withLastByte 19 2) 5
  refine not_accessesInRange (callDb_valid call.calldata) (callRow_mem _) ?_
    (hall _ _ (callDb_valid _) (callRow_mem _) (callRow_hasAddresses _))
  exact readsPastEnd_transferFrom nofun rfl

end ChainLens
