import ChainLens.Intelligence.Calldata

/-!
# The amounts of persisted actions

The amount of an action is a word of the calldata in decimal. On the way to its column, which has
room for every word, it is parsed as a signed integer of 64 bits, and what does not parse is stored
as no amount at all.

## Main definitions

* `CallContext.amountRead`: the word that the amount of the actions is
* `AmountsKept`: the rows of the actions have the actions' amounts

## Main results

* `transactionActions_amount`: the amount of an action is that word
* `persistTransactionActions_rows`: the rows that persisting adds
* `amountsKept_iff`: when the amounts are kept
-/

namespace ChainLens

/-! ## The amount of an action -/

namespace CallContext

variable {c : CallContext} {actions : List TransactionAction}

/-- Where the calldata of a selector has the amount. -/
def amountPosition : String → Option ℕ
  | "a9059cbb" => some 36
  | "23b872dd" => some 80
  | "2e1a7d4d" => some 4
  | "a0712d68" => some 4
  | _ => none

/-- The amount in the calldata, if the transaction is a call and its calldata is long enough for
the selector. -/
def amountRead (c : CallContext) : Option ℕ :=
  let selector := hexEncode (c.input.take 4)
  if c.toAddr = none ∨ c.input.length < calldataBytes selector then none
  else (amountPosition selector).map (BigEndian.wordAt 32 c.input)

/-- The amount at a position, in actions that are listed from some length on. -/
def HasAmount (c : CallContext) (length : ℕ) (position : Option ℕ)
    (actions : List TransactionAction) : Prop :=
  ∀ action ∈ actions, length ≤ c.input.length ∧
    action.amount = (position.map (BigEndian.wordAt 32 c.input)).map toString

theorem hasAmount_nil (length : ℕ) (position : Option ℕ) : c.HasAmount length position [] :=
  List.forall_mem_nil _

theorem amountCall_hasAmount {actionType : ActionType} {before after : String}
    (h : c.amountCall actionType before after = .ok actions) : c.HasAmount 36 (some 4) actions := by
  unfold amountCall at h
  split at h
  next hlength =>
    rw [amountAt_of_le (by omega)] at h
    cases h
    intro action hmem
    rw [List.mem_singleton.mp hmem]
    exact ⟨hlength, rfl⟩
  next =>
    cases h
    exact hasAmount_nil _ _

theorem erc20Transfer_hasAmount (h : c.erc20Transfer = .ok actions) :
    c.HasAmount 68 (some 36) actions := by
  by_cases hlength : 68 ≤ c.input.length
  · rw [erc20Transfer_of_le hlength] at h
    cases h
    intro action hmem
    rw [List.mem_singleton.mp hmem]
    exact ⟨hlength, rfl⟩
  · rw [erc20Transfer, if_neg hlength] at h
    cases h
    exact hasAmount_nil _ _

theorem erc20Approval_hasAmount (h : c.erc20Approval = .ok actions) :
    c.HasAmount 68 none actions := by
  by_cases hlength : 68 ≤ c.input.length
  · rw [erc20Approval_of_le hlength] at h
    cases h
    intro action hmem
    rw [List.mem_singleton.mp hmem]
    exact ⟨hlength, rfl⟩
  · rw [erc20Approval, if_neg hlength] at h
    cases h
    exact hasAmount_nil _ _

theorem erc721Transfer_hasAmount (h : c.erc721Transfer = .ok actions) :
    c.HasAmount 100 (some 80) actions := by
  by_cases hlength : 112 ≤ c.input.length
  · rw [erc721Transfer_of_le hlength] at h
    cases h
    intro action hmem
    rw [List.mem_singleton.mp hmem]
    exact ⟨by omega, rfl⟩
  · by_cases hchecked : 100 ≤ c.input.length
    · rw [erc721Transfer_panics hchecked (by omega)] at h
      cases h
    · rw [erc721Transfer, if_neg hchecked] at h
      cases h
      exact hasAmount_nil _ _

theorem hasAmount_singleton {action : TransactionAction} (hlength : 4 ≤ c.input.length)
    (hamount : action.amount = none) : c.HasAmount 4 none [action] := by
  intro action' hmem
  rw [List.mem_singleton.mp hmem]
  exact ⟨hlength, hamount⟩

theorem selectorActions_hasAmount (hlength : 4 ≤ c.input.length) {selector : String}
    (h : c.selectorActions selector = .ok actions) :
    c.HasAmount (calldataBytes selector) (amountPosition selector) actions := by
  unfold selectorActions at h
  split at h
  · simpa [calldataBytes, amountPosition] using erc20Transfer_hasAmount h
  · simpa [calldataBytes, amountPosition] using erc20Approval_hasAmount h
  · simpa [calldataBytes, amountPosition] using erc721Transfer_hasAmount h
  · simpa [calldataBytes, amountPosition] using amountCall_hasAmount h
  · simpa [calldataBytes, amountPosition] using amountCall_hasAmount h
  · cases h
    simpa [calldataBytes, amountPosition] using hasAmount_singleton hlength rfl
  next h₁ h₂ h₃ h₄ h₅ _ =>
    have hbytes : calldataBytes selector = 4 := by
      unfold calldataBytes
      split <;> first | rfl | contradiction
    have hposition : amountPosition selector = none := by
      unfold amountPosition
      split <;> first | rfl | contradiction
    rw [hbytes, hposition]
    split at h
    · cases h
      exact hasAmount_singleton hlength rfl
    · split at h <;> cases h <;> exact hasAmount_singleton hlength rfl

end CallContext

/-- **The amount of an action** is the word that is read off the calldata. -/
theorem transactionActions_amount {c : CallContext} {actions : List TransactionAction}
    (h : transactionActions c = .ok actions) :
    ∀ action ∈ actions, action.amount = c.amountRead.map toString := by
  unfold transactionActions at h
  split at h
  next hcreation =>
    cases h
    simp [CallContext.amountRead, hcreation, CallContext.creation]
  next hcreation =>
    split at h
    next hlength =>
      have hcalled : c.toAddr ≠ none := fun hnone =>
        hcreation ⟨hnone, List.ne_nil_of_length_pos (by omega)⟩
      intro action hmem
      obtain ⟨hbytes, hamount⟩ := CallContext.selectorActions_hasAmount hlength h action hmem
      rw [hamount, CallContext.amountRead, if_neg (not_or.mpr ⟨hcalled, by omega⟩)]
    next hlength =>
      have hnone : c.amountRead = none := by
        unfold CallContext.amountRead
        refine if_pos (Or.inr ?_)
        have : 4 ≤ CallContext.calldataBytes (hexEncode (c.input.take 4)) := by
          unfold CallContext.calldataBytes
          split <;> omega
        omega
      rw [hnone]
      split at h <;> cases h
      · simp [CallContext.ethTransfer, CallContext.between]
      · exact List.forall_mem_nil _

/-! ## The rows of the actions -/

section Rows

variable {pool pool' : PgPool} {txHash : Bytes} {actions : List TransactionAction}

theorem actionRow_amount {action : TransactionAction} {row : ℕ → TransactionActionRow}
    (h : actionRow txHash action = .ok row) (id : ℕ) :
    (row id).amount = action.amount.bind parseI64 := by
  unfold actionRow at h
  obtain ⟨fromAddr, -, h⟩ := Except.bind_eq_ok_iff.mp h
  obtain ⟨toAddr, -, h⟩ := Except.bind_eq_ok_iff.mp h
  obtain ⟨tokenAddress, -, h⟩ := Except.bind_eq_ok_iff.mp h
  obtain ⟨spender, -, h⟩ := Except.bind_eq_ok_iff.mp h
  cases h
  rfl

/-- A transaction that was acknowledged had its effects. -/
theorem PgPool.transact_ok {body : Db → Except SqlError Db}
    (h : pool.transact body = (.ok (), pool')) : body pool.db = .ok pool'.db := by
  rcases pool.transact_cases body with ⟨⟨e, herror⟩, -⟩ | ⟨db, hbody, hdb, -⟩
  · rw [h] at herror
    cases herror
  · rw [h] at hdb
    rw [hbody, ← hdb]

/-- **The rows that persisting adds**, one for each action. -/
theorem persistActions_rows (h : persistActions txHash actions pool = (.ok (), pool')) :
    ∃ rows, pool'.db.transactionActions = pool.db.transactionActions ++ rows ∧
      List.Forall₂ (fun action row => row.amount = action.amount.bind parseI64) actions rows := by
  induction actions generalizing pool with
  | nil =>
    cases h
    exact ⟨[], (List.append_nil _).symm, .nil⟩
  | cons action actions ih =>
    unfold persistActions at h
    split at h
    next => cases h
    next row hrow =>
      split at h
      next => cases h
      next pool₁ htransact =>
        have hinsert := PgPool.transact_ok htransact
        obtain ⟨rows, hrows, hamounts⟩ := ih h
        simp only [Db.insertTransactionAction] at hinsert
        split at hinsert
        next =>
          refine ⟨row pool.db.serials.transactionActions :: rows, ?_, ?_⟩
          · rw [hrows, ← Except.ok.inj hinsert, List.append_assoc, List.singleton_append]
          · exact .cons (actionRow_amount hrow _) hamounts
        next => cases hinsert

theorem persistTransactionActions_rows {explanation : TransactionExplanation}
    (h : persistTransactionActions pool explanation = (.ok (), pool')) :
    ∃ rows, pool'.db.transactionActions = pool.db.transactionActions ++ rows ∧
      List.Forall₂ (fun action row => row.amount = action.amount.bind parseI64)
        explanation.actions rows := by
  unfold persistTransactionActions at h
  split at h
  next => cases h
  next => exact persistActions_rows h

end Rows

/-- The rows that were added have the amounts of the actions, and none where an action has none. -/
def AmountsKept (before after : Db) (actions : List TransactionAction) : Prop :=
  ∃ rows, after.transactionActions = before.transactionActions ++ rows ∧
    List.Forall₂ (fun action row =>
      row.amount = action.amount.map fun text => (numericValue text : Int)) actions rows

/-- A number is kept exactly if it is parsed. -/
theorem parseI64_kept_iff (n : Option ℕ) :
    (n.map toString).bind parseI64 =
        (n.map toString).map (fun text => (numericValue text : Int)) ↔
      ∀ k ∈ n, k ≤ i64Max := by
  cases n with
  | none => simp
  | some n =>
    rw [Option.map_some, Option.bind_some, Option.map_some, parseI64_toString,
      numericValue_toString]
    simp

section Kept

variable {before after : Db} {actions : List TransactionAction} {rows : List TransactionActionRow}

/-- The amounts are kept exactly if they are parsed, where they are all the same. -/
theorem amountsKept_iff_parsed {n : Option ℕ}
    (hafter : after.transactionActions = before.transactionActions ++ rows)
    (hrows : List.Forall₂ (fun action row => row.amount = action.amount.bind parseI64) actions rows)
    (hamount : ∀ action ∈ actions, action.amount = n.map toString) :
    AmountsKept before after actions ↔ (actions ≠ [] → ∀ k ∈ n, k ≤ i64Max) := by
  rw [← parseI64_kept_iff]
  constructor
  · rintro ⟨rows', hafter', hkept⟩ hne
    obtain rfl : rows = rows' := List.append_cancel_left (hafter.symm.trans hafter')
    obtain ⟨action, rest, rfl⟩ := List.exists_cons_of_ne_nil hne
    obtain ⟨row, rows, hrow, -, rfl⟩ := List.forall₂_cons_left_iff.mp hrows
    obtain ⟨hkept, -⟩ := List.forall₂_cons.mp hkept
    rw [← hamount action List.mem_cons_self, ← hrow, hkept]
  · intro hparsed
    refine ⟨rows, hafter, ?_⟩
    have hall : ∀ action ∈ actions, action.amount.bind parseI64 =
        action.amount.map fun text => (numericValue text : Int) := by
      intro action hmem
      rw [hamount action hmem]
      exact hparsed (List.ne_nil_of_mem hmem)
    exact ((List.forall₂_and_left _ _).mpr ⟨hall, hrows⟩).imp fun _ _ h => h.2.trans h.1

end Kept

/-- An amount is read where there is an action. -/
theorem CallContext.acts_of_amountRead {c : CallContext} {n : ℕ} (h : n ∈ c.amountRead) :
    c.Acts := by
  unfold CallContext.amountRead at h
  dsimp only at h
  split at h
  next => cases h
  next hcalldata =>
    rw [not_or, Nat.not_lt] at hcalldata
    refine Or.inr (Or.inl ⟨le_trans ?_ hcalldata.2, hcalldata.2⟩)
    unfold CallContext.calldataBytes
    split <;> omega

/-- **When the amounts are kept**: the amount in the calldata has 63 bits. -/
theorem amountsKept_iff {setup : Setup} {text : String} {tx : TransactionRow}
    {e : ExplainedTransaction} {pool pool' before after : PgPool} (hdb : pool.db.Valid)
    (htx : tx ∈ pool.db.transactions) (htext : hexDecodeTrimmed text = some tx.hash)
    (hexplain : (explainTransaction setup text).runOn pool = (.ok e, pool'))
    (hpersist : persistTransactionActions before e.toTransactionExplanation = (.ok (), after)) :
    AmountsKept before.db after.db e.actions ↔ ∀ n ∈ tx.context.amountRead, n ≤ i64Max := by
  obtain ⟨tx', timestamp, hfound, -, hactions, -⟩ := explainTransaction_runOn_ok htext hexplain
  obtain ⟨htx', hhash⟩ := selectTransaction_mem hfound
  obtain rfl : tx' = tx := List.inj_on_of_nodup_map hdb.transactions_hash htx' htx hhash
  obtain ⟨rows, hafter, hrows⟩ := persistTransactionActions_rows hpersist
  rw [amountsKept_iff_parsed hafter hrows (transactionActions_amount hactions)]
  constructor
  · intro hkept n hn
    have hne := (transactionActions_ne_nil hactions).mpr (CallContext.acts_of_amountRead hn)
    exact hkept hne n hn
  · exact fun hfits _ => hfits

/-! ## The amount of a transfer -/

/-- A transfer to the zero address is explained, and its action is persisted. -/
theorem exists_transfer_persisted (amount : U256) :
    let input := (TokenCall.transfer (.zero 20) amount).calldata
    ∃ e action pool after,
      (explainTransaction Reprocess.plainSetup (hexText (callRow input).hash)).runOn
          ⟨callDb input, [], 0⟩ = (.ok e, pool) ∧
        e.actions = [action] ∧ action.amount = some (toString amount.toNat) ∧
        persistTransactionActions ⟨callDb input, [], 0⟩ e.toTransactionExplanation =
          (.ok (), after) := by
  intro input
  have htext := hexDecodeTrimmed_hexText (callRow input).hash
  obtain ⟨timestamp, hfound⟩ :=
    @selectTransaction_of_mem Reprocess.plainSetup _ _ (callDb_valid input) (callRow_mem input)
  obtain ⟨action, hactions, -, -, hamount⟩ :=
    transactionActions_transfer (c := (callRow input).context) nofun rfl
  obtain ⟨e, hrun, hlisted, hhash⟩ :=
    explainTransaction_served hfound htext nofun (callRow_hasAddresses input) hactions 0
  have hstored : (callDb input).hasTransaction (callRow input).hash = true :=
    decide_eq_true (List.mem_map_of_mem (callRow_mem input))
  obtain ⟨after, hpersist, -⟩ := @persistActions_served (callDb input) (callRow input).hash
    e.actions 0 (transactionActions_hex (callRow input).context_isHex (hlisted ▸ hactions)) hstored
  refine ⟨e, action, _, ⟨after, [], 0⟩, hrun, hlisted, hamount, ?_⟩
  rw [persistTransactionActions, hhash, hexBytes, htext]
  exact hpersist

/-- A transfer of five units. -/
theorem smallTransfer_amountsKept_iff :
    let input := (TokenCall.transfer (.zero 20) 5).calldata
    ∃ (e : ExplainedTransaction) (pool after : PgPool),
      (explainTransaction Reprocess.plainSetup (hexText (callRow input).hash)).runOn
          ⟨callDb input, [], 0⟩ = (.ok e, pool) ∧
        (AmountsKept (callDb input) after.db e.actions ↔
          ∀ n ∈ (callRow input).context.amountRead, n ≤ i64Max) := by
  intro input
  obtain ⟨e, -, pool, after, hexplain, -, -, hpersist⟩ := exists_transfer_persisted 5
  exact ⟨e, pool, after, hexplain, amountsKept_iff (callDb_valid input) (callRow_mem input)
    (hexDecodeTrimmed_hexText _) hexplain hpersist⟩

/-- A transfer of ten tokens of eighteen decimals is stored without its amount. -/
theorem tenTokens_not_kept :
    ¬ ∀ (text : String) (e : ExplainedTransaction) (pool pool' before after : PgPool),
      pool.db.Valid →
        (explainTransaction Reprocess.plainSetup text).runOn pool = (.ok e, pool') →
        persistTransactionActions before e.toTransactionExplanation = (.ok (), after) →
          AmountsKept before.db after.db e.actions := by
  intro hall
  obtain ⟨e, action, pool, after, hexplain, hlisted, hamount, hpersist⟩ :=
    exists_transfer_persisted 10000000000000000000
  have hkept := hall _ e _ _ _ _ (callDb_valid _) hexplain hpersist
  obtain ⟨rows, hafter, hrows⟩ := persistTransactionActions_rows hpersist
  have hfits := (amountsKept_iff_parsed hafter hrows
    (n := some (10000000000000000000 : U256).toNat) (by simp [hlisted, hamount])).mp hkept
  exact absurd (hfits (by simp [hlisted]) _ rfl) (by decide)

end ChainLens
