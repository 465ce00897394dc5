import ChainLens.Store.Chain
import Mathlib.Order.Bounds.Basic

/-!
# Reorg detection

An incoming block whose parent hash is not the cursor's starts a walk down the canonical chain,
looking for the common ancestor. The walk compares each canonical block with the one hash the
cursor holds, and stops at height 0 whatever is stored there.

## Main definitions

* `findAncestor`, `detect`
* `stops`, `agreements`: the heights the walk can stop at, and those it should stop at

## Main results

* `findAncestor_ok`: where a successful walk stops
* `findAncestor_served`: the walk without failures
* `findAncestor_finds_iff`: when the walk finds the common ancestor
-/

namespace ChainLens

inductive ReorgError where
  | depthExceeded (depth maxDepth : ℕ)
  | rpc (e : RpcError)
  | store (e : StoreError)
deriving DecidableEq

/-- The walk of `findAncestor` from a depth on, with the iterations that remain. -/
def findAncestorFrom (client : EthClient) (start maxDepth : ℕ) :
    (remaining depth : ℕ) → PostgresStore → Except ReorgError ℕ × PostgresStore
  | 0, _, store => (.error (.depthExceeded (maxDepth + 1) maxDepth), store)
  | remaining + 1, depth, store =>
    -- Below height 0, where the walk has stopped before.
    if start < depth then
      (.error (.depthExceeded depth maxDepth), store)
    else
      let blockNumber := start - depth
      match client.getBlockByNumber blockNumber false with
      | .error e => (.error (.rpc e), store)
      | .ok none => (.error (.rpc (.deserialize s!"block {blockNumber} not found")), store)
      | .ok (some block) =>
        match store.lastIndexedBlock with
        | (.error e, store) => (.error (.store e), store)
        | (.ok cursor, store) =>
          -- The cursor's hash, whatever height the walk has reached.
          let storedHash := (cursor.getD (0, [])).2
          if blockNumber = 0 ∨ storedHash = block.hash.bytes then
            (.ok blockNumber, store)
          else
            findAncestorFrom client start maxDepth remaining (depth + 1) store

/-- Walk down from `start`, at most `maxDepth` blocks further. -/
def findAncestor (client : EthClient) (store : PostgresStore) (start maxDepth : ℕ) :
    Except ReorgError ℕ × PostgresStore :=
  findAncestorFrom client start maxDepth (maxDepth + 1) 0 store

def detect (client : EthClient) (store : PostgresStore) (incomingNumber : ℕ)
    (incomingParentHash : B256) (maxDepth : ℕ) : Except ReorgError (Option ℕ) × PostgresStore :=
  if incomingNumber = 0 then
    (.ok none, store)
  else
    let prevNumber := incomingNumber - 1
    match store.lastIndexedBlock with
    | (.error e, store) => (.error (.store e), store)
    | (.ok cursor, store) =>
      let storedHash := (cursor.getD (0, [])).2
      -- A store without a cursor has the empty hash, which no parent carries.
      if prevNumber = 0 ∨ storedHash = incomingParentHash.bytes then
        (.ok none, store)
      else
        match findAncestor client store prevNumber maxDepth with
        | (.error e, store) => (.error e, store)
        | (.ok ancestor, store) => (.ok (some ancestor), store)

/-! ## Where the walk stops -/

section Walk

variable {client : EthClient} {start maxDepth remaining depth : ℕ} {store store' : PostgresStore}

theorem findAncestorFrom_db :
    (findAncestorFrom client start maxDepth remaining depth store).2.db = store.db := by
  induction remaining generalizing depth store with
  | zero => rfl
  | succ remaining ih =>
    unfold findAncestorFrom
    split
    · rfl
    · dsimp only
      split
      · rfl
      · rfl
      · obtain ⟨store', hdb, hread | hread⟩ := store.lastIndexedBlock_cases
        · rw [hread]
          dsimp only
          split
          · exact hdb
          · exact ih.trans hdb
        · rw [hread]
          exact hdb

/-- The walk stops at a canonical block: height 0, or one that carries the cursor's hash. -/
def StopsAt (client : EthClient) (db : Db) (k : ℕ) : Prop :=
  ∃ block, client.getBlockByNumber k false = .ok (some block) ∧
    (k = 0 ∨ db.cursorHash = block.hash.bytes)

/-- The walk passes a canonical block of positive height with another hash. -/
def Passes (client : EthClient) (db : Db) (k : ℕ) : Prop :=
  ∃ block, client.getBlockByNumber k false = .ok (some block) ∧ k ≠ 0 ∧
    db.cursorHash ≠ block.hash.bytes

theorem findAncestorFrom_ok {k : ℕ}
    (h : findAncestorFrom client start maxDepth remaining depth store = (.ok k, store')) :
    ∃ d, k = start - d ∧ depth ≤ d ∧ d < depth + remaining ∧ d ≤ start ∧
      StopsAt client store.db k ∧ ∀ j, k < j → j ≤ start - depth → Passes client store.db j := by
  induction remaining generalizing depth store with
  | zero => simp [findAncestorFrom] at h
  | succ remaining ih =>
    unfold findAncestorFrom at h
    split at h
    · simp at h
    next hdepth =>
      dsimp only at h
      split at h
      · simp at h
      · simp at h
      next block hblock =>
        obtain ⟨store₁, hdb, hread | hread⟩ := store.lastIndexedBlock_cases
        · rw [hread] at h
          dsimp only at h
          split at h
          next hstop =>
            simp only [Prod.mk.injEq, Except.ok.injEq] at h
            obtain ⟨rfl, rfl⟩ := h
            exact ⟨depth, rfl, le_refl _, by omega, by omega, ⟨block, hblock, hstop⟩,
              fun j hj hj' => absurd hj (by omega)⟩
          next hpass =>
            obtain ⟨d, hk, hle, hlt, hstart, hstops, hpasses⟩ := ih h
            rw [hdb] at hstops hpasses
            refine ⟨d, hk, by omega, by omega, hstart, hstops, fun j hj hj' => ?_⟩
            -- This block was passed just now, and the ones below it later in the walk.
            rcases Nat.lt_or_eq_of_le hj' with hlt' | rfl
            · exact hpasses j hj (by omega)
            · exact ⟨block, hblock, not_or.mp hpass⟩
        · rw [hread] at h
          simp at h

/-- **Where a successful walk stops**: within the depth, at the first block that carries the
cursor's hash or has height 0. -/
theorem findAncestor_ok {k : ℕ} (h : findAncestor client store start maxDepth = (.ok k, store')) :
    start - maxDepth ≤ k ∧ k ≤ start ∧ StopsAt client store.db k ∧
      ∀ j, k < j → j ≤ start → Passes client store.db j := by
  obtain ⟨d, rfl, -, hlt, hstart, hstops, hpasses⟩ := findAncestorFrom_ok h
  exact ⟨by omega, by omega, hstops, hpasses⟩

theorem findAncestor_db : (findAncestor client store start maxDepth).2.db = store.db :=
  findAncestorFrom_db

/-- A walk that runs out of depth passed every block it looked at. -/
theorem findAncestorFrom_depthExceeded {d m : ℕ} (hdepth : depth ≤ start)
    (h : findAncestorFrom client start maxDepth remaining depth store =
      (.error (.depthExceeded d m), store')) :
    depth + remaining ≤ start ∧
      ∀ j, start < j + depth + remaining → j ≤ start - depth → Passes client store.db j := by
  induction remaining generalizing depth store with
  | zero => exact ⟨hdepth, fun j hj hj' => absurd hj (by omega)⟩
  | succ remaining ih =>
    unfold findAncestorFrom at h
    rw [if_neg (by omega)] at h
    dsimp only at h
    split at h
    · simp at h
    · simp at h
    next block hblock =>
      obtain ⟨store₁, hdb, hread | hread⟩ := store.lastIndexedBlock_cases
      · rw [hread] at h
        dsimp only at h
        split at h
        · simp at h
        next hpass =>
          rw [not_or] at hpass
          -- Height 0 would have stopped the walk, so there is a height below.
          obtain ⟨hle, hpasses⟩ := ih (by omega) h
          rw [hdb] at hpasses
          refine ⟨by omega, fun j hj hj' => ?_⟩
          rcases Nat.lt_or_eq_of_le hj' with hlt | rfl
          · exact hpasses j (by omega) (by omega)
          · exact ⟨block, hblock, hpass⟩
      · rw [hread] at h
        simp at h

/-- **Where the walk gives up**: `start` is beyond the depth, and no block within it stops. -/
theorem findAncestor_depthExceeded {d m : ℕ}
    (h : findAncestor client store start maxDepth = (.error (.depthExceeded d m), store')) :
    maxDepth < start ∧ ∀ j, start - maxDepth ≤ j → j ≤ start → Passes client store.db j := by
  obtain ⟨hle, hpasses⟩ := findAncestorFrom_depthExceeded (Nat.zero_le _) h
  exact ⟨by omega, fun j hj hj' => hpasses j (by omega) (by omega)⟩

/-! ## The walk without failures -/

/-- The heights a walk down a chain can stop at. -/
def stops (db : Db) (chain : CanonicalChain) (start maxDepth : ℕ) : Set ℕ :=
  {k | start - maxDepth ≤ k ∧ k ≤ start ∧
    (k = 0 ∨ db.cursorHash = (chain.block k).hash.bytes)}

variable {chain : CanonicalChain}

/-- One turn of the walk when both its calls are answered. -/
theorem findAncestorFrom_succ (hdepth : depth ≤ start) {block : BlockResponse}
    (hblock : client.getBlockByNumber (start - depth) false = .ok (some block))
    (hfates : store.fates = []) :
    findAncestorFrom client start maxDepth (remaining + 1) depth store =
      if start - depth = 0 ∨ store.db.cursorHash = block.hash.bytes then
        (.ok (start - depth), store)
      else
        findAncestorFrom client start maxDepth remaining (depth + 1) store := by
  rw [findAncestorFrom, if_neg (by omega)]
  simp only [hblock, PostgresStore.lastIndexedBlock_served hfates]
  rfl

theorem findAncestorFrom_served (hserves : client.Serves chain) (hfates : store.fates = [])
    (hstart : start ≤ chain.head) (hdepth : depth ≤ start)
    (hremaining : depth + remaining = maxDepth + 1) :
    (∃ k, findAncestorFrom client start maxDepth remaining depth store = (.ok k, store) ∧
      k ∈ stops store.db chain start maxDepth ∧
        ∀ j ∈ stops store.db chain start maxDepth, j ≤ start - depth → j ≤ k) ∨
    (findAncestorFrom client start maxDepth remaining depth store =
        (.error (.depthExceeded (maxDepth + 1) maxDepth), store) ∧
      ∀ j ∈ stops store.db chain start maxDepth, ¬ j ≤ start - depth) := by
  induction remaining generalizing depth with
  | zero =>
    refine Or.inr ⟨rfl, fun j hj hj' => ?_⟩
    have := hj.1
    omega
  | succ remaining ih =>
    rw [findAncestorFrom_succ hdepth (hserves.get_of_le (by omega) false) hfates]
    split
    next hstop =>
      refine Or.inl ⟨start - depth, rfl, ⟨by omega, by omega, hstop⟩, fun j _ hj' => hj'⟩
    next hpass =>
      -- The height just passed is none the walk can stop at.
      have hskip : ∀ j ∈ stops store.db chain start maxDepth, j ≤ start - depth →
          j ≤ start - (depth + 1) := by
        intro j hj hj'
        rcases Nat.lt_or_eq_of_le hj' with hlt | rfl
        · omega
        · exact absurd hj.2.2 hpass
      rw [not_or] at hpass
      rcases ih (show depth + 1 ≤ start by omega) (by omega) with
        ⟨k, hwalk, hk, hgreatest⟩ | ⟨hwalk, hnone⟩
      · exact Or.inl ⟨k, hwalk, hk, fun j hj hj' => hgreatest j hj (hskip j hj hj')⟩
      · exact Or.inr ⟨hwalk, fun j hj hj' => hnone j hj (hskip j hj hj')⟩

/-- **The walk without failures** returns the greatest height it can stop at, and gives up if
there is none. -/
theorem findAncestor_served (hserves : client.Serves chain) (hfates : store.fates = [])
    (hstart : start ≤ chain.head) :
    (∃ k, findAncestor client store start maxDepth = (.ok k, store) ∧
      IsGreatest (stops store.db chain start maxDepth) k) ∨
    (findAncestor client store start maxDepth =
        (.error (.depthExceeded (maxDepth + 1) maxDepth), store) ∧
      stops store.db chain start maxDepth = ∅) := by
  rcases findAncestorFrom_served hserves hfates hstart (Nat.zero_le _) (Nat.zero_add _) with
    ⟨k, hwalk, hk, hgreatest⟩ | ⟨hwalk, hnone⟩
  · exact Or.inl ⟨k, hwalk, hk, fun j hj => hgreatest j hj hj.2.1⟩
  · exact Or.inr ⟨hwalk, Set.eq_empty_of_forall_notMem fun j hj => hnone j hj hj.2.1⟩

end Walk

/-! ## Detection -/

section Detect

variable {client : EthClient} {incomingNumber maxDepth : ℕ} {incomingParentHash : B256}
  {store store' : PostgresStore}

/-- The incoming block is compared with the cursor: it is at height 2 or above, and its parent is
not the cursor's block. -/
def Unlinked (db : Db) (incomingNumber : ℕ) (incomingParentHash : B256) : Prop :=
  2 ≤ incomingNumber ∧ db.cursorHash ≠ incomingParentHash.bytes

theorem detect_db :
    (detect client store incomingNumber incomingParentHash maxDepth).2.db = store.db := by
  unfold detect
  split
  · rfl
  · obtain ⟨store₁, hdb, hread | hread⟩ := store.lastIndexedBlock_cases
    · rw [hread]
      dsimp only
      split
      · exact hdb
      · have hwalk : (findAncestor client store₁ (incomingNumber - 1) maxDepth).2.db =
            store₁.db := findAncestor_db
        split <;> simp_all
    · rw [hread]
      exact hdb

/-- **What detection reports**: no reorg on a linked block, and otherwise what the walk from the
block below returns. -/
theorem detect_ok {ancestor : Option ℕ}
    (h : detect client store incomingNumber incomingParentHash maxDepth =
      (.ok ancestor, store')) :
    (ancestor = none ∧ ¬ Unlinked store.db incomingNumber incomingParentHash) ∨
      ∃ k store₁, ancestor = some k ∧ Unlinked store.db incomingNumber incomingParentHash ∧
        store₁.db = store.db ∧
        findAncestor client store₁ (incomingNumber - 1) maxDepth = (.ok k, store') := by
  unfold detect at h
  split at h
  next hzero =>
    simp only [Prod.mk.injEq, Except.ok.injEq] at h
    -- At height 0 nothing is compared.
    exact Or.inl ⟨h.1.symm, fun hun => absurd hun.1 (by omega)⟩
  next hpos =>
    obtain ⟨store₁, hdb, hread | hread⟩ := store.lastIndexedBlock_cases
    · rw [hread] at h
      dsimp only at h
      split at h
      next hlinked =>
        simp only [Prod.mk.injEq, Except.ok.injEq] at h
        refine Or.inl ⟨h.1.symm, fun hun => ?_⟩
        rcases hlinked with hone | hhash
        · have := hun.1
          omega
        · exact hun.2 hhash
      next hunlinked =>
        rw [not_or] at hunlinked
        split at h
        · simp at h
        next k store₂ hwalk =>
          simp only [Prod.mk.injEq, Except.ok.injEq] at h
          obtain ⟨rfl, rfl⟩ := h
          exact Or.inr ⟨k, store₁, rfl, ⟨by omega, hunlinked.2⟩, hdb, hwalk⟩
    · rw [hread] at h
      simp at h

/-- The ancestor comes from the walk, which starts below the block. -/
theorem detect_ancestor_le {ancestor : ℕ}
    (h : (detect client store incomingNumber incomingParentHash maxDepth).1 =
      .ok (some ancestor)) : ancestor ≤ incomingNumber - 1 := by
  have hfound : detect client store incomingNumber incomingParentHash maxDepth =
      (.ok (some ancestor), (detect client store incomingNumber incomingParentHash maxDepth).2) :=
    Prod.ext h rfl
  rcases detect_ok hfound with ⟨hnone, -⟩ | ⟨k, store₁, hk, -, -, hwalk⟩
  · cases hnone
  · obtain rfl := Option.some.inj hk
    exact (findAncestor_ok hwalk).2.1

/-- A block that links to the cursor is not a reorg. -/
theorem detect_linked (hlinked : ¬ Unlinked store.db incomingNumber incomingParentHash)
    (hfates : store.fates = []) :
    detect client store incomingNumber incomingParentHash maxDepth = (.ok none, store) := by
  unfold detect
  split
  · rfl
  next hpos =>
    rw [PostgresStore.lastIndexedBlock_served hfates]
    refine if_pos (by_contra fun hnot => hlinked ?_)
    rw [not_or] at hnot
    exact ⟨by omega, hnot.2⟩

/-- **Where detection gives up**: on an unlinked block beyond the depth, when no canonical block
within it stops the walk. -/
theorem detect_depthExceeded {d m : ℕ}
    (h : detect client store incomingNumber incomingParentHash maxDepth =
      (.error (.depthExceeded d m), store')) :
    Unlinked store.db incomingNumber incomingParentHash ∧ maxDepth < incomingNumber - 1 ∧
      ∀ j, incomingNumber - 1 - maxDepth ≤ j → j ≤ incomingNumber - 1 →
        Passes client store.db j := by
  unfold detect at h
  split at h
  · simp at h
  next hpos =>
    obtain ⟨store₁, hdb, hread | hread⟩ := store.lastIndexedBlock_cases
    · rw [hread] at h
      dsimp only at h
      split at h
      · simp at h
      next hunlinked =>
        rw [not_or] at hunlinked
        split at h
        next e store₂ hwalk =>
          simp only [Prod.mk.injEq, Except.error.injEq] at h
          obtain ⟨rfl, rfl⟩ := h
          obtain ⟨hdepth, hpasses⟩ := findAncestor_depthExceeded hwalk
          exact ⟨⟨by omega, hunlinked.2⟩, hdepth, hdb ▸ hpasses⟩
        · simp at h
    · rw [hread] at h
      simp at h

end Detect

/-! ## The common ancestor -/

section Ancestor

/-- The heights within the depth where the stored and the canonical chain agree. -/
def agreements (db : Db) (chain : CanonicalChain) (start maxDepth : ℕ) : Set ℕ :=
  {k | start - maxDepth ≤ k ∧ k ≤ start ∧ db.Agrees chain k}

/-- What the walk is for: it returns the greatest height within the depth where the chains agree,
and gives up if there is none. -/
structure FindsAncestor (db : Db) (chain : CanonicalChain) (start maxDepth : ℕ)
    (result : Except ReorgError ℕ) : Prop where
  found : ∀ k, result = .ok k ↔ IsGreatest (agreements db chain start maxDepth) k
  exceeded : (∃ depth, result = .error (.depthExceeded depth maxDepth)) ↔
    agreements db chain start maxDepth = ∅

/-- The walk cannot be misled: within the depth no canonical block carries the tip's hash and no
positive height agrees, and if the walk reaches height 0 then that height does. -/
structure OnlyGenesisAgrees (db : Db) (chain : CanonicalChain) (start maxDepth : ℕ) : Prop where
  tip_absent : ∀ k, start - maxDepth ≤ k → k ≤ start →
    db.cursorHash ≠ (chain.block k).hash.bytes
  positive : ∀ k, start - maxDepth ≤ k → k ≤ start → k ≠ 0 → ¬ db.Agrees chain k
  genesis : start ≤ maxDepth → db.Agrees chain 0

variable {client : EthClient} {chain : CanonicalChain} {store : PostgresStore}
  {lo tip maxDepth : ℕ}

/-- On a chain that left the stored one, a height where the walk stops by the tip's hash does not
agree. -/
theorem not_agrees_of_tip_hash (hchain : store.db.HoldsChain lo tip)
    (htip : store.db.cursorHash ≠ (chain.block tip).hash.bytes) {k : ℕ}
    (hk : store.db.cursorHash = (chain.block k).hash.bytes) : ¬ store.db.Agrees chain k := by
  rintro ⟨row, hrow, hnumber, hhash⟩
  -- The stored row of that hash is the tip's, and the chains differ at the tip.
  obtain rfl : tip = k := by rw [← hnumber, hchain.number_of_hash hrow (hhash.trans hk.symm)]
  exact htip hk

theorem agreements_of_onlyGenesisAgrees
    (h : OnlyGenesisAgrees store.db chain tip maxDepth) :
    agreements store.db chain tip maxDepth = {k | k = 0 ∧ tip ≤ maxDepth} := by
  ext k
  constructor
  · rintro ⟨hlow, hhigh, hagrees⟩
    have hzero : k = 0 := by_contra fun hk => h.positive k hlow hhigh hk hagrees
    exact ⟨hzero, by omega⟩
  · rintro ⟨rfl, hdepth⟩
    exact ⟨by omega, by omega, h.genesis hdepth⟩

theorem stops_of_tip_absent
    (h : ∀ k, tip - maxDepth ≤ k → k ≤ tip → store.db.cursorHash ≠ (chain.block k).hash.bytes) :
    stops store.db chain tip maxDepth = {k | k = 0 ∧ tip ≤ maxDepth} := by
  ext k
  constructor
  · rintro ⟨hlow, hhigh, hzero | hhash⟩
    · exact ⟨hzero, by omega⟩
    · exact absurd hhash (h k hlow hhigh)
  · rintro ⟨rfl, hdepth⟩
    exact ⟨by omega, by omega, Or.inl rfl⟩

/-- **When the walk finds the common ancestor**: a linked chain is stored up to `tip`, and the
canonical block above it does not link. -/
theorem findAncestor_finds_iff (hserves : client.Serves chain) (hfates : store.fates = [])
    (hchain : store.db.HoldsChain lo tip) (hhead : tip < chain.head)
    (hunlinked : store.db.cursorHash ≠ (chain.block (tip + 1)).parentHash.bytes) :
    FindsAncestor store.db chain tip maxDepth (findAncestor client store tip maxDepth).1 ↔
      OnlyGenesisAgrees store.db chain tip maxDepth := by
  have htip : store.db.cursorHash ≠ (chain.block tip).hash.bytes := by
    rwa [chain.linked tip hhead] at hunlinked
  have hwalk := @findAncestor_served client tip maxDepth store chain hserves hfates hhead.le
  constructor
  · intro h
    -- A canonical block with the tip's hash would end the walk where the chains differ.
    have htipAbsent : ∀ k, tip - maxDepth ≤ k → k ≤ tip →
        store.db.cursorHash ≠ (chain.block k).hash.bytes := by
      intro k hlow hhigh hhash
      rcases hwalk with ⟨j, hresult, hstop, hgreatest⟩ | ⟨-, hnone⟩
      · have hagrees := ((h.found j).mp (by rw [hresult])).1.2.2
        have hkj := hgreatest ⟨hlow, hhigh, Or.inr hhash⟩
        rcases hstop.2.2 with rfl | hj
        · obtain rfl : k = 0 := Nat.le_zero.mp hkj
          exact not_agrees_of_tip_hash hchain htip hhash hagrees
        · exact not_agrees_of_tip_hash hchain htip hj hagrees
      · exact Set.notMem_empty k (hnone ▸ ⟨hlow, hhigh, Or.inr hhash⟩)
    have hstops := stops_of_tip_absent htipAbsent
    -- Then the walk can only end at height 0, or not at all.
    rcases hwalk with ⟨j, hresult, hstop, -⟩ | ⟨hresult, hnone⟩
    · obtain ⟨rfl, hdepth⟩ : j = 0 ∧ tip ≤ maxDepth := by rwa [hstops] at hstop
      obtain ⟨hzero, hgreatest⟩ := (h.found 0).mp (by rw [hresult])
      refine ⟨htipAbsent, fun k hlow hhigh hk hagrees => ?_, fun _ => hzero.2.2⟩
      have := hgreatest ⟨hlow, hhigh, hagrees⟩
      omega
    · have hempty := h.exceeded.mp ⟨_, by rw [hresult]⟩
      refine ⟨htipAbsent, fun k hlow hhigh _ hagrees => ?_, fun hdepth => ?_⟩
      · exact Set.notMem_empty k (hempty ▸ ⟨hlow, hhigh, hagrees⟩)
      · exact absurd (hstops ▸ ⟨rfl, hdepth⟩ : 0 ∈ stops store.db chain tip maxDepth)
          (by rw [hnone]; exact Set.notMem_empty 0)
  · intro h
    have hagreements := agreements_of_onlyGenesisAgrees h
    have hstops := stops_of_tip_absent h.tip_absent
    -- Where the walk can stop and where it should are then the same heights.
    rw [← hstops] at hagreements
    rcases hwalk with ⟨j, hresult, hgreatest⟩ | ⟨hresult, hnone⟩
    · refine ⟨fun k => ?_, ?_⟩
      · rw [hresult, hagreements, Except.ok.injEq]
        exact ⟨fun hjk => hjk ▸ hgreatest, fun hk => hgreatest.unique hk⟩
      · rw [hresult, hagreements]
        refine ⟨nofun, fun hempty => ?_⟩
        exact absurd hgreatest.1 (by rw [hempty]; exact Set.notMem_empty j)
    · refine ⟨fun k => ?_, ?_⟩
      · rw [hresult, hagreements, hnone]
        exact ⟨nofun, fun hk => absurd hk.1 (Set.notMem_empty k)⟩
      · rw [hresult, hagreements]
        exact ⟨fun _ => hnone, fun _ => ⟨_, rfl⟩⟩

end Ancestor

/-- A fork above height 1 in a stored chain that ends at height 2: the walk reports height 0. -/
theorem findAncestor_misses_fork :
    let chain := CanonicalChain.numbered (fun n => if n < 2 then 1 else 2) 3 (by decide)
    let client := EthClient.serving chain
    let store : PostgresStore := ⟨Db.numbered (fun _ => 1) 0 2, [], 0⟩
    client.Serves chain ∧ store.fates = [] ∧ store.db.HoldsChain 0 2 ∧ 2 < chain.head ∧
      store.db.cursorHash ≠ (chain.block 3).parentHash.bytes ∧
      (findAncestor client store 2 2).1 = .ok 0 ∧
      ¬ FindsAncestor store.db chain 2 2 (findAncestor client store 2 2).1 := by
  intro chain client store
  have hresult : (findAncestor client store 2 2).1 = .ok 0 := by decide
  refine ⟨EthClient.serving_serves chain, rfl, Db.numbered_holdsChain (by decide) (by decide),
    by decide, by decide, hresult, fun h => ?_⟩
  have hagrees : 1 ∈ agreements store.db chain 2 2 :=
    ⟨by decide, by decide, Db.branchRow (fun _ => 1) 1, by decide, rfl, by decide⟩
  exact absurd (((h.found 0).mp hresult).2 hagrees) (by decide)

/-- The equivalence on a stored chain that agrees at height 0 only. -/
theorem findAncestor_finds_genesis :
    let chain := CanonicalChain.numbered (fun n => if n < 1 then 1 else 2) 3 (by decide)
    let store : PostgresStore := ⟨Db.numbered (fun _ => 1) 0 2, [], 0⟩
    FindsAncestor store.db chain 2 2 (findAncestor (EthClient.serving chain) store 2 2).1 ↔
      OnlyGenesisAgrees store.db chain 2 2 :=
  findAncestor_finds_iff (EthClient.serving_serves _) rfl
    (Db.numbered_holdsChain (by decide) (by decide)) (by decide) (by decide)

end ChainLens
