import ChainLens.Indexer.Bootstrap
import ChainLens.Indexer.Service

/-!
# How high the loop climbs

The node serves one chain that never changes, and every call is answered. A batch begins with the
block of the cursor, which is not linked to itself. Up to a cursor at the greatest depth the walk
for the ancestor comes to height 0, where everything above is rolled back; beyond it the walk gives
up, and the rest of the batch is stored. Whether the loop gets beyond its first batches is decided
by the length of a batch and the greatest depth. All of this is about a service that indexes from
height 0 or 1 on; above these it does not store a first block.

## Main definitions

* `EthClient.Offers`, `Indexer.Event.Answered`: nothing fails
* `Db.Canonical`: the stored blocks are those of the chain, up to a height
* `Indexer.Confined`: what a run keeps while batches are short

## Main results

* `commitBlock_linked`, `commitBlock_repeated`: one call above and at the cursor
* `Service.confined_of_short`: with short batches no run from height 0 or 1 on stores a higher block
* `Service.climbs_iff`: when some run from there on stores the whole chain
-/

namespace ChainLens

open Transition

/-- The node serves the chain, and each of its blocks can be stored. -/
structure EthClient.Offers (client : EthClient) (chain : CanonicalChain) : Prop where
  serves : client.Serves chain
  indexable : ∀ n ≤ chain.head, Indexable client n (chain.block n)

/-- The stored blocks are those of the chain, up to a height. -/
def Db.Canonical (db : Db) (chain : CanonicalChain) (bound : ℕ) : Prop :=
  ∀ row ∈ db.blocks, row.number ≤ bound ∧ row.hash = (chain.block row.number).hash.bytes

/-! ## One call -/

section Calls

variable {client : EthClient} {chain : CanonicalChain} {db : Db} {n c bound maxDepth now : ℕ}

theorem Db.Canonical.mono {bound' : ℕ} (h : db.Canonical chain bound) (hle : bound ≤ bound') :
    db.Canonical chain bound' := fun row hrow => ⟨(h row hrow).1.trans hle, (h row hrow).2⟩

/-- **A call above the cursor**, or at a height that is not compared, stores its block. -/
theorem commitBlock_linked (hoffers : client.Offers chain) (hhead : chain.head ≤ i64Max)
    (h : db.Canonical chain bound) (hbound : bound ≤ chain.head) (hn : n ≤ bound)
    (hlinked : n ≤ 1 ∨ db.cursorHash = (chain.block (n - 1)).hash.bytes) :
    ∃ db', commitBlock client ⟨db, [], now⟩ n maxDepth = (.ok false, ⟨db', [], now⟩) ∧
      db'.Canonical chain bound ∧ db'.cursor = some (n, (chain.block n).hash.bytes) ∧
      n ∈ db'.blocks.map (·.number) ∧ ∀ row ∈ db.blocks, row ∈ db'.blocks := by
  obtain ⟨receipts, indexed, hreceipts, hdecode, htime⟩ := hoffers.indexable n (hn.trans hbound)
  have hunlinked : ¬ Unlinked db n (chain.block n).parentHash := by
    rintro ⟨htwo, hhash⟩
    obtain ⟨m, rfl⟩ : ∃ m, n = m + 1 := ⟨n - 1, by omega⟩
    rcases hlinked with hlow | hcursor
    · omega
    · exact hhash (by rw [hcursor, chain.linked m (by omega), Nat.add_sub_cancel])
  have hnumber : saturate i64Max (chain.block n).number = n := by
    rw [chain.number_eq n (hn.trans hbound), saturate_of_le ((hn.trans hbound).trans hhead)]
  -- A stored block of the same hash is the block of the same height.
  have hhash : ∀ row ∈ db.blocks, row.hash = (chain.block n).hash.bytes →
      row.number = saturate i64Max (chain.block n).number := by
    intro row hrow hsame
    obtain ⟨hle, hcanonical⟩ := h row hrow
    rw [hnumber]
    exact chain.distinct _ (hle.trans hbound) n (hn.trans hbound)
      (FixedBytes.ext (hcanonical.symm.trans hsame))
  have hcommit := @commitBlock_accepts client ⟨db, [], now⟩ n maxDepth (chain.block n) receipts
    indexed (hoffers.serves.get_of_le (hn.trans hbound) true) hunlinked hreceipts hdecode htime
    hhash rfl
  obtain ⟨hheader, hheaderHash, -, -⟩ := decodeBlock_header hdecode
  let row := blockRow indexed.block (saturate i64Max indexed.block.timestamp)
  have hrowNumber : row.number = n := by
    show saturate i64Max indexed.block.number = n
    rw [hheader, hnumber]
  have hrowHash : row.hash = (chain.block n).hash.bytes := congrArg (·.bytes) hheaderHash
  refine ⟨_, hcommit, fun r hr => ?_, ?_, ?_, fun r hr => Table.mem_insertIfAbsent_of_mem hr⟩
  · rcases Table.mem_of_mem_insertIfAbsent hr with hr | rfl
    · exact h r hr
    · exact ⟨hrowNumber.trans_le hn, hrowNumber.symm ▸ hrowHash⟩
  · show some (saturate i64Max indexed.block.number, indexed.block.hash.bytes) = _
    rw [hheader, hnumber, hheaderHash]
  · have hkey : row.number ∈ (Table.insertIfAbsent BlockRow.number db.blocks row).map
        BlockRow.number := Table.key_mem_insertIfAbsent BlockRow.number db.blocks row
    rwa [hrowNumber] at hkey

/-- **A call at the cursor** takes the cursor's own block for a reorg. The walk comes to height 0,
or gives up below it. -/
theorem commitBlock_repeated (hoffers : client.Offers chain) (hc : c ≤ chain.head) (htwo : 2 ≤ c)
    (hcursor : db.cursor = some (c, (chain.block c).hash.bytes)) :
    commitBlock client ⟨db, [], now⟩ c maxDepth =
      if c - 1 ≤ maxDepth then (.ok true, ⟨db.rollback (reorgEvent 0 c) now, [], now⟩)
      else (.error (.error (.reorg (.depthExceeded (maxDepth + 1) maxDepth))), ⟨db, [], now⟩) := by
  have hhash : db.cursorHash = (chain.block c).hash.bytes := by rw [Db.cursorHash, hcursor]; rfl
  -- No block below carries the hash of the cursor.
  have hbelow : ∀ k < c, db.cursorHash ≠ (chain.block k).hash.bytes := by
    intro k hk hsame
    have heq := chain.distinct c hc k (by omega) (FixedBytes.ext (hhash.symm.trans hsame))
    omega
  have hparent : (chain.block c).parentHash = (chain.block (c - 1)).hash := by
    have hlinked := chain.linked (c - 1) (by omega)
    rwa [Nat.sub_add_cancel (by omega)] at hlinked
  have hdetect {found : Except ReorgError ℕ}
      (hwalk : findAncestor client ⟨db, [], now⟩ (c - 1) maxDepth = (found, ⟨db, [], now⟩)) :
      detect client ⟨db, [], now⟩ c (chain.block c).parentHash maxDepth =
        (found.map some, ⟨db, [], now⟩) := by
    unfold detect
    rw [if_neg (by omega)]
    simp only [PostgresStore.lastIndexedBlock_served, hwalk]
    refine (if_neg (not_or.mpr ⟨by omega, ?_⟩)).trans ?_
    · rw [hparent]
      exact hbelow (c - 1) (by omega)
    · cases found <;> rfl
  have hstart : c - 1 ≤ chain.head := by omega
  rcases @findAncestor_served client (c - 1) maxDepth ⟨db, [], now⟩ chain hoffers.serves rfl
    hstart with ⟨k, hwalk, hk, -⟩ | ⟨hwalk, hnone⟩
  · obtain ⟨hlow, hhigh, hzero | hsame⟩ := hk
    · subst hzero
      rw [if_pos (by omega)]
      simp only [commitBlock, hoffers.serves.get_of_le hc, if_pos (by omega : 0 < c),
        hdetect hwalk, rollback]
      rfl
    · exact absurd hsame (hbelow k (by omega))
  · have hdeep : ¬ c - 1 ≤ maxDepth := fun hle => by
      have hmem : 0 ∈ stops db chain (c - 1) maxDepth := ⟨by omega, Nat.zero_le _, Or.inl rfl⟩
      exact absurd hmem (hnone ▸ Set.notMem_empty 0)
    rw [if_neg hdeep]
    simp only [commitBlock, hoffers.serves.get_of_le hc, if_pos (by omega : 0 < c),
      hdetect hwalk, Except.map]

end Calls

namespace Indexer

/-- The node offers the chain, and the database answers every call. -/
def Event.Answered (chain : CanonicalChain) : Event → Prop
  | .commit client fates _ => client.Offers chain ∧ fates = []
  | .poll latest _ => latest ≤ chain.head
  | _ => True

/-! ## Short batches -/

section Confined

variable {cfg : Config} {chain : CanonicalChain} {s t : State} {e : Event} {db : Db}

/-- The height that the loop goes on from, as the tables hold it. -/
def resumeFrom (cfg : Config) (db : Db) : ℕ := (db.cursor.map Prod.fst).getD cfg.initialCursor

/-- The greatest height of the batches that begin with height 0 or 1. -/
def lowBound (cfg : Config) (chain : CanonicalChain) : ℕ :=
  min (cfg.fetchQueueDepth * 2) chain.head

/-- What is left of a batch begins with the cursor's block, which will be taken for a reorg, or it
stays below the bound and is linked to the cursor. -/
def Pending (cfg : Config) (chain : CanonicalChain) (db : Db) (pending : List ℕ) : Prop :=
  (2 ≤ resumeFrom cfg db ∧ pending.head? = some (resumeFrom cfg db)) ∨
    ∃ n k, pending = List.range' n k ∧ n + k ≤ lowBound cfg chain + 1 ∧
      (n ≤ 1 ∨ db.cursorHash = (chain.block (n - 1)).hash.bytes)

/-- The stored blocks and the cursor stay below the bound, and so will the rest of the batch. -/
structure Confined (cfg : Config) (chain : CanonicalChain) (s : State) : Prop where
  valid : s.db.Valid
  canonical : s.db.Canonical chain (lowBound cfg chain)
  cursor : ∀ c hash, s.db.cursor = some (c, hash) → c ≤ lowBound cfg chain ∧
    (2 ≤ c → hash = (chain.block c).hash.bytes)
  process : match s.process with
    | .stopped => True
    | .polling c => c = resumeFrom cfg s.db
    | .receiving c pending => c = resumeFrom cfg s.db ∧ Pending cfg chain s.db pending

/-- A batch from the cursor. -/
theorem pending_poll (hlow : cfg.backfillFrom ≤ 1) {latest : ℕ} (hlatest : latest ≤ chain.head)
    (delivered : ℕ) :
    Pending cfg chain db ((cfg.blocksToFetch (resumeFrom cfg db) latest).take delivered) := by
  rw [Config.blocksToFetch, Config.take_range', Config.take_range']
  generalize hk : min delivered (min (cfg.fetchQueueDepth * 2)
    (latest + 1 - max (resumeFrom cfg db) cfg.backfillFrom)) = k
  by_cases htwo : 2 ≤ resumeFrom cfg db
  · rw [max_eq_left (by omega)]
    cases k with
    | zero => exact Or.inr ⟨0, 0, rfl, Nat.zero_le _, Or.inl (Nat.zero_le 1)⟩
    | succ k => exact Or.inl ⟨htwo, rfl⟩
  · exact Or.inr ⟨_, k, rfl, by unfold lowBound; omega, Or.inl (by omega)⟩

/-- A cursor at height 2 or above is stored with its hash. -/
theorem Confined.cursor_eq (hs : Confined cfg chain s) (hlow : cfg.backfillFrom ≤ 1)
    (htwo : 2 ≤ resumeFrom cfg s.db) :
    s.db.cursor = some (resumeFrom cfg s.db, (chain.block (resumeFrom cfg s.db)).hash.bytes) ∧
      resumeFrom cfg s.db ≤ lowBound cfg chain := by
  cases hcursor : s.db.cursor with
  | none =>
    rw [resumeFrom, hcursor] at htwo
    have hinitial : cfg.initialCursor = cfg.backfillFrom - 1 := rfl
    simp only [Option.map_none, Option.getD_none] at htwo
    omega
  | some cursor =>
    obtain ⟨c, hash⟩ := cursor
    have hresume : resumeFrom cfg s.db = c := by rw [resumeFrom, hcursor]; rfl
    obtain ⟨hle, hhash⟩ := hs.cursor c hash hcursor
    rw [hresume] at htwo ⊢
    exact ⟨by rw [hhash htwo], hle⟩

section Commit

variable {client : EthClient} {now c n : ℕ} {pending : List ℕ}

/-- The block of the cursor comes first: everything above height 0 is rolled back. -/
theorem Confined.repeated (hlow : cfg.backfillFrom ≤ 1)
    (hshort : cfg.fetchQueueDepth * 2 ≤ cfg.maxReorgDepth + 1) (hoffers : client.Offers chain)
    (h : Step cfg ⟨db, .receiving c (n :: pending)⟩ (.commit client [] now) t)
    (hs : Confined cfg chain ⟨db, .receiving c (n :: pending)⟩) (htwo : 2 ≤ resumeFrom cfg db)
    (hn : n = resumeFrom cfg db) : Confined cfg chain t := by
  have hvalid := valid_step h hs.valid
  have hbound : lowBound cfg chain ≤ chain.head := min_le_right _ _
  subst hn
  obtain ⟨hcursor, hlowBound⟩ : db.cursor = some (resumeFrom cfg db,
      (chain.block (resumeFrom cfg db)).hash.bytes) ∧
      resumeFrom cfg db ≤ lowBound cfg chain := hs.cursor_eq hlow htwo
  -- The walk down to height 0 stays within the depth.
  have hwithin : resumeFrom cfg db - 1 ≤ cfg.maxReorgDepth := by
    have : lowBound cfg chain ≤ cfg.fetchQueueDepth * 2 := min_le_left _ _
    omega
  have hcommit := @commitBlock_repeated client chain db _ cfg.maxReorgDepth now hoffers
    (hlowBound.trans hbound) htwo hcursor
  rw [if_pos hwithin] at hcommit
  have hzero := rollback_cursor (Nat.zero_le (resumeFrom cfg db)) now db
  have hrewind : rewindCursor cfg
      ⟨db.rollback (reorgEvent 0 (resumeFrom cfg db)) now, [], now⟩ =
        (0, ⟨db.rollback (reorgEvent 0 (resumeFrom cfg db)) now, [], now⟩) := by
    simp only [rewindCursor, PostgresStore.lastIndexedBlock_served, hzero]
    rfl
  simp only [Step, next, receive, hcommit, hrewind, Option.some.injEq] at h
  subst h
  refine ⟨hvalid, fun row hrow => ?_, fun c hash hc => ?_, ?_⟩
  · rw [Db.rollback_blocks hs.valid] at hrow
    exact hs.canonical row (List.mem_of_mem_filter hrow)
  · cases hzero.symm.trans hc
    exact ⟨Nat.zero_le _, fun htwo => absurd htwo (by decide)⟩
  · show 0 = resumeFrom cfg _
    rw [resumeFrom, hzero]
    rfl

/-- A block below the bound that is linked to the cursor is stored, and so is the next one. -/
theorem Confined.linked {k : ℕ} (hhead : chain.head ≤ i64Max) (hoffers : client.Offers chain)
    (h : Step cfg ⟨db, .receiving c (List.range' n (k + 1))⟩ (.commit client [] now) t)
    (hs : Confined cfg chain ⟨db, .receiving c (List.range' n (k + 1))⟩)
    (hle : n + (k + 1) ≤ lowBound cfg chain + 1)
    (hlinked : n ≤ 1 ∨ db.cursorHash = (chain.block (n - 1)).hash.bytes) :
    Confined cfg chain t := by
  have hvalid := valid_step h hs.valid
  have hbound : lowBound cfg chain ≤ chain.head := min_le_right _ _
  obtain ⟨db', hcommit, hcanonical, hcursor, -, -⟩ :=
    @commitBlock_linked client chain db n (lowBound cfg chain) cfg.maxReorgDepth now hoffers
      hhead hs.canonical hbound (by omega) hlinked
  simp only [Step, next, receive, List.range'_succ, hcommit, Option.some.injEq] at h
  subst h
  have hresume : resumeFrom cfg db' = n := by rw [resumeFrom, hcursor]; rfl
  have hhash : db'.cursorHash = (chain.block n).hash.bytes := by
    rw [Db.cursorHash, hcursor]
    rfl
  refine ⟨hvalid, hcanonical, fun c hash hc => ?_, ⟨hresume.symm, Or.inr ?_⟩⟩
  · cases hcursor.symm.trans hc
    exact ⟨by omega, fun _ => rfl⟩
  · exact ⟨n + 1, k, rfl, by omega, Or.inr hhash⟩

end Commit

/-- **One move** while batches are short. -/
theorem confined_step (hlow : cfg.backfillFrom ≤ 1) (hhead : chain.head ≤ i64Max)
    (hshort : cfg.fetchQueueDepth * 2 ≤ cfg.maxReorgDepth + 1) (h : Step cfg s e t)
    (he : e.Answered chain) (hs : Confined cfg chain s) : Confined cfg chain t := by
  have hvalid := valid_step h hs.valid
  -- Only a commit changes the database.
  have hkeep : t.db = s.db → (match t.process with
      | .stopped => True
      | .polling c => c = resumeFrom cfg s.db
      | .receiving c pending => c = resumeFrom cfg s.db ∧ Pending cfg chain s.db pending) →
      Confined cfg chain t := fun hdb hprocess =>
    ⟨hvalid, hdb ▸ hs.canonical, hdb ▸ hs.cursor, hdb ▸ hprocess⟩
  obtain ⟨db, process⟩ := s
  cases e with
  | start =>
    cases process with
    | stopped =>
      obtain rfl := Option.some.inj h
      exact hkeep rfl rfl
    | polling c => cases h
    | receiving c pending => cases h
  | poll latest delivered =>
    cases process with
    | stopped => cases h
    | polling c =>
      obtain rfl := Option.some.inj h
      obtain rfl : c = resumeFrom cfg db := hs.process
      exact hkeep rfl ⟨rfl, pending_poll hlow he delivered⟩
    | receiving c pending => cases h
  | finish =>
    cases process with
    | stopped => cases h
    | polling c => cases h
    | receiving c pending =>
      cases pending with
      | nil =>
        obtain rfl := Option.some.inj h
        exact hkeep rfl hs.process.1
      | cons n pending => cases h
  | stop =>
    obtain rfl := Option.some.inj h
    exact hkeep rfl trivial
  | commit client fates now =>
    cases process with
    | stopped => cases h
    | polling c => cases h
    | receiving c pending =>
      cases pending with
      | nil => cases h
      | cons n pending =>
        obtain ⟨hoffers, rfl⟩ := he
        rcases hs.process.2 with ⟨htwo, hfirst⟩ | ⟨m, k, hrange, hle, hlinked⟩
        · exact hs.repeated hlow hshort hoffers h htwo (Option.some.inj hfirst)
        · cases k with
          | zero => cases hrange
          | succ k =>
            have hm : m = n := by
              rw [List.range'_succ, List.cons.injEq] at hrange
              exact hrange.1.symm
            rw [hm] at hrange hle hlinked
            rw [hrange] at h hs
            exact hs.linked hhead hoffers h hle hlinked

theorem confined_initial : Confined cfg chain ⟨.migrated, .stopped⟩ where
  valid := Db.valid_migrated
  canonical _ hrow := by cases hrow
  cursor _ _ hc := by cases hc
  process := trivial

/-- **Short batches**: what a run of answered moves keeps. -/
theorem confined_run (hlow : cfg.backfillFrom ≤ 1) (hhead : chain.head ≤ i64Max)
    (hshort : cfg.fetchQueueDepth * 2 ≤ cfg.maxReorgDepth + 1) {moves : List (Move State Event)}
    (hrun : Run (Step cfg) ⟨.migrated, .stopped⟩ moves s)
    (hanswered : ∀ move ∈ moves, move.event.Answered chain) : Confined cfg chain s := by
  let allowed (move : Move State Event) : Prop := move.event.Answered chain
  have hkeep : ∀ s e t, Step cfg s e t → allowed ⟨s, e, t⟩ → Confined cfg chain s →
      Confined cfg chain t := fun _ _ _ h he hs => confined_step hlow hhead hshort h he hs
  exact hrun.invariant hkeep hanswered confined_initial

end Confined

/-! ## Long batches -/

section Climb

variable {cfg : Config} {client : EthClient} {chain : CanonicalChain} {db : Db} {c n k bound : ℕ}

/-- There is a run of answered moves. -/
def Reaches (cfg : Config) (chain : CanonicalChain) (s t : State) : Prop :=
  ∃ moves, Run (Step cfg) s moves t ∧ ∀ move ∈ moves, move.event.Answered chain

theorem Reaches.refl (s : State) : Reaches cfg chain s s :=
  ⟨[], .nil s, fun _ h => absurd h List.not_mem_nil⟩

theorem Reaches.head {s t u : State} {e : Event} (h : Step cfg s e t) (he : e.Answered chain)
    (hrest : Reaches cfg chain t u) : Reaches cfg chain s u := by
  obtain ⟨moves, hrun, hanswered⟩ := hrest
  exact ⟨_, .cons h hrun, List.forall_mem_cons.mpr ⟨he, hanswered⟩⟩

theorem Reaches.trans {s t u : State} (h : Reaches cfg chain s t) (h' : Reaches cfg chain t u) :
    Reaches cfg chain s u := by
  obtain ⟨moves, hrun, hanswered⟩ := h
  obtain ⟨moves', hrun', hanswered'⟩ := h'
  exact ⟨_, hrun.append hrun', fun move hmove => (List.mem_append.mp hmove).elim
    (hanswered move) (hanswered' move)⟩

/-- The blocks of the chain are stored from the configured height to the cursor. -/
structure Climbed (cfg : Config) (chain : CanonicalChain) (db : Db) (c : ℕ) : Prop where
  canonical : db.Canonical chain c
  cursor : db.cursor = some (c, (chain.block c).hash.bytes)
  stored : ∀ n, cfg.backfillFrom ≤ n → n ≤ c → n ∈ db.blocks.map (·.number)

/-- **The linked rest of a batch** is stored. -/
theorem reaches_linked (hoffers : client.Offers chain) (hhead : chain.head ≤ i64Max)
    (h : db.Canonical chain bound) (hbound : bound ≤ chain.head) (hk : n + k ≤ bound)
    (hlinked : n ≤ 1 ∨ db.cursorHash = (chain.block (n - 1)).hash.bytes) (cursor : ℕ) :
    ∃ db', Reaches cfg chain ⟨db, .receiving cursor (List.range' n (k + 1))⟩
        ⟨db', .receiving (n + k) []⟩ ∧ db'.Canonical chain bound ∧
      db'.cursor = some (n + k, (chain.block (n + k)).hash.bytes) ∧
      (∀ m, n ≤ m → m ≤ n + k → m ∈ db'.blocks.map (·.number)) ∧
      ∀ row ∈ db.blocks, row ∈ db'.blocks := by
  induction k generalizing n db cursor with
  | zero =>
    obtain ⟨db', hcommit, hcanonical, hcursor, hmem, hkept⟩ := @commitBlock_linked client chain db
      n bound cfg.maxReorgDepth 0 hoffers hhead h hbound hk hlinked
    have hstep : Step cfg ⟨db, .receiving cursor [n]⟩ (.commit client [] 0)
        ⟨db', .receiving n []⟩ := step_stored hcommit
    refine ⟨db', .head hstep ⟨hoffers, rfl⟩ (.refl _), hcanonical, hcursor, fun m hlow hhigh => ?_,
      hkept⟩
    obtain rfl : m = n := Nat.le_antisymm hhigh hlow
    exact hmem
  | succ k ih =>
    obtain ⟨db₁, hcommit, hcanonical, hcursor, hmem, hkept⟩ := @commitBlock_linked client chain db
      n bound cfg.maxReorgDepth 0 hoffers hhead h hbound (by omega) hlinked
    have hstep : Step cfg ⟨db, .receiving cursor (n :: List.range' (n + 1) (k + 1))⟩
        (.commit client [] 0) ⟨db₁, .receiving n (List.range' (n + 1) (k + 1))⟩ := by
      simp only [Step, next, receive, hcommit]
    have hnext : db₁.cursorHash = (chain.block (n + 1 - 1)).hash.bytes := by
      rw [Db.cursorHash, hcursor]
      rfl
    obtain ⟨db', hrest, hcanonical', hcursor', hstored, hkept'⟩ :=
      ih hcanonical (by omega) (Or.inr hnext) n
    have hadd : n + 1 + k = n + (k + 1) := by omega
    rw [hadd] at hrest hcursor' hstored
    refine ⟨db', .head hstep ⟨hoffers, rfl⟩ hrest, hcanonical', hcursor', fun m hlow hhigh => ?_,
      fun row hrow => hkept' row (hkept row hrow)⟩
    rcases Nat.lt_or_eq_of_le hlow with hlt | rfl
    · exact hstored m hlt hhigh
    · obtain ⟨row, hrow, hnumber⟩ := List.mem_map.mp hmem
      exact List.mem_map.mpr ⟨row, hkept' row hrow, hnumber⟩

/-- A whole batch is delivered. -/
theorem step_poll (cursor delivered : ℕ) :
    Step cfg ⟨db, .polling cursor⟩ (.poll chain.head delivered)
    ⟨db, .receiving cursor (List.range' (max cursor cfg.backfillFrom) (min delivered
      (min (cfg.fetchQueueDepth * 2) (chain.head + 1 - max cursor cfg.backfillFrom))))⟩ := by
  simp only [Step, next, Config.blocksToFetch, Config.take_range']

/-- **One batch** beyond the depth: the walk from the cursor's block gives up, and the other blocks
are stored. -/
theorem Climbed.batch (hoffers : client.Offers chain) (hhead : chain.head ≤ i64Max)
    (h : Climbed cfg chain db c) (hlow : cfg.backfillFrom ≤ c) (hdeep : cfg.maxReorgDepth + 1 < c)
    (hlt : c < chain.head) : ∃ db' c', c < c' ∧ c' ≤ chain.head ∧
      Reaches cfg chain ⟨db, .polling c⟩ ⟨db', .polling c'⟩ ∧ Climbed cfg chain db' c' := by
  have hpos := cfg.fetchQueueDepth_pos
  obtain ⟨k, hk⟩ : ∃ k, min (cfg.fetchQueueDepth * 2) (chain.head + 1 - c) = k + 2 :=
    ⟨min (cfg.fetchQueueDepth * 2) (chain.head + 1 - c) - 2, by omega⟩
  have hpoll := @step_poll cfg chain db c (cfg.fetchQueueDepth * 2)
  rw [max_eq_left hlow, hk, min_eq_right (by omega), List.range'_succ] at hpoll
  have hcommit := @commitBlock_repeated client chain db c cfg.maxReorgDepth 0 hoffers hlt.le
    (by omega) h.cursor
  rw [if_neg (by omega)] at hcommit
  have hfails : Step cfg ⟨db, .receiving c (c :: List.range' (c + 1) (k + 1))⟩ (.commit client [] 0)
      ⟨db, .receiving c (List.range' (c + 1) (k + 1))⟩ := by
    simp only [Step, next, receive, hcommit]
  have hlinked : db.cursorHash = (chain.block (c + 1 - 1)).hash.bytes := by
    rw [Db.cursorHash, h.cursor]
    rfl
  obtain ⟨db', hrest, hcanonical, hcursor, hstored, hkept⟩ :=
    @reaches_linked cfg client chain db (c + 1) k (c + 1 + k) hoffers hhead
      (h.canonical.mono (by omega)) (by omega) (Nat.le_refl _) (Or.inr hlinked) c
  refine ⟨db', c + 1 + k, by omega, by omega, ?_, hcanonical, hcursor, fun n hn hle => ?_⟩
  · have hfinish : Step cfg ⟨db', .receiving (c + 1 + k) []⟩ .finish ⟨db', .polling (c + 1 + k)⟩ :=
      rfl
    exact .head hpoll (Nat.le_refl _) (.head hfails ⟨hoffers, rfl⟩
      (hrest.trans (.head hfinish trivial (.refl _))))
  · by_cases hnc : n ≤ c
    · obtain ⟨row, hrow, hnumber⟩ := List.mem_map.mp (h.stored n hn hnc)
      exact List.mem_map.mpr ⟨row, hkept row hrow, hnumber⟩
    · exact hstored n (by omega) hle

/-- **From there to the head.** -/
theorem Climbed.toHead (hoffers : client.Offers chain) (hhead : chain.head ≤ i64Max)
    (h : Climbed cfg chain db c) (hlow : cfg.backfillFrom ≤ c) (hdeep : cfg.maxReorgDepth + 1 < c)
    (hle : c ≤ chain.head) :
    ∃ db', Reaches cfg chain ⟨db, .polling c⟩ ⟨db', .polling chain.head⟩ ∧
      Climbed cfg chain db' chain.head := by
  induction hn : chain.head - c using Nat.strong_induction_on generalizing db c with
  | _ n ih =>
    rcases Nat.lt_or_eq_of_le hle with hlt | rfl
    · obtain ⟨db₁, c₁, hlt₁, hle₁, hreaches, hclimbed⟩ := h.batch hoffers hhead hlow hdeep hlt
      obtain ⟨db', hrest, hend⟩ := ih (chain.head - c₁) (by omega) hclimbed (by omega) (by omega)
        hle₁ rfl
      exact ⟨db', hreaches.trans hrest, hend⟩
    · exact ⟨db, .refl _, h⟩

/-- The start: a batch up to height 1, and one from there. -/
theorem reaches_first (hoffers : client.Offers chain) (hhead : chain.head ≤ i64Max)
    (hlow : cfg.backfillFrom ≤ 1) (hhigh : cfg.fetchQueueDepth * 2 < chain.head) :
    ∃ db, Reaches cfg chain ⟨.migrated, .stopped⟩ ⟨db, .polling (cfg.fetchQueueDepth * 2)⟩ ∧
      Climbed cfg chain db (cfg.fetchQueueDepth * 2) := by
  have hpos := cfg.fetchQueueDepth_pos
  have hinitial : cfg.initialCursor = cfg.backfillFrom - 1 := rfl
  have hstart : Step cfg ⟨.migrated, .stopped⟩ .start ⟨.migrated, .polling cfg.initialCursor⟩ := rfl
  have hpoll := @step_poll cfg chain .migrated cfg.initialCursor (1 - cfg.backfillFrom + 1)
  rw [max_eq_right (by omega), min_eq_left (by omega)] at hpoll
  have hnone : Db.migrated.Canonical chain 1 := fun _ hrow => by cases hrow
  obtain ⟨db₁, hfirst, hcanonical₁, hcursor₁, hstored₁, -⟩ :=
    @reaches_linked cfg client chain .migrated cfg.backfillFrom (1 - cfg.backfillFrom) 1 hoffers
      hhead hnone (by omega) (by omega) (Or.inl hlow) cfg.initialCursor
  have hone : cfg.backfillFrom + (1 - cfg.backfillFrom) = 1 := by omega
  rw [hone] at hfirst hcursor₁ hstored₁
  have hfinish : Step cfg ⟨db₁, .receiving 1 []⟩ .finish ⟨db₁, .polling 1⟩ := rfl
  have hpoll₁ := @step_poll cfg chain db₁ 1 (cfg.fetchQueueDepth * 2)
  obtain ⟨k, hk⟩ : ∃ k, cfg.fetchQueueDepth * 2 = k + 1 := ⟨cfg.fetchQueueDepth * 2 - 1, by omega⟩
  rw [max_eq_left hlow, min_eq_left (a := cfg.fetchQueueDepth * 2) (by omega), hk] at hpoll₁
  obtain ⟨db₂, hsecond, hcanonical₂, hcursor₂, hstored₂, hkept₂⟩ :=
    @reaches_linked cfg client chain db₁ 1 k (k + 1) hoffers hhead (hcanonical₁.mono (by omega))
      (by omega) (by omega) (Or.inl (Nat.le_refl 1)) 1
  have hadd : 1 + k = k + 1 := Nat.add_comm 1 k
  rw [hadd] at hsecond hcursor₂ hstored₂
  have hfinish₂ : Step cfg ⟨db₂, .receiving (k + 1) []⟩ .finish ⟨db₂, .polling (k + 1)⟩ := rfl
  rw [hk]
  refine ⟨db₂, .head hstart trivial (.head hpoll (Nat.le_refl _)
    (hfirst.trans (.head hfinish trivial (.head hpoll₁ (Nat.le_refl _)
      (hsecond.trans (.head hfinish₂ trivial (.refl _))))))),
    hcanonical₂, hcursor₂, fun n hn hle => ?_⟩
  by_cases hnone : n = 0
  · obtain ⟨row, hrow, hnumber⟩ := List.mem_map.mp (hstored₁ n hn (by omega))
    exact List.mem_map.mpr ⟨row, hkept₂ row hrow, hnumber⟩
  · exact hstored₂ n (by omega) hle

/-- **The whole chain is reached** when a batch is longer than the greatest depth and one. -/
theorem reaches_head (hoffers : client.Offers chain) (hhead : chain.head ≤ i64Max)
    (hlow : cfg.backfillFrom ≤ 1) (hhigh : cfg.fetchQueueDepth * 2 < chain.head)
    (hdeep : cfg.maxReorgDepth + 1 < cfg.fetchQueueDepth * 2) :
    ∃ db, Reaches cfg chain ⟨.migrated, .stopped⟩ ⟨db, .polling chain.head⟩ ∧
      Climbed cfg chain db chain.head := by
  obtain ⟨db, hfirst, hclimbed⟩ := @reaches_first cfg client chain hoffers hhead hlow hhigh
  obtain ⟨db', hrest, hend⟩ := hclimbed.toHead hoffers hhead (by omega) hdeep hhigh.le
  exact ⟨db', hfirst.trans hrest, hend⟩

end Climb

end Indexer

/-! ## The service -/

namespace Service

variable {cfg : Config} {setup : Setup} {analyses : Analyses} {chain : CanonicalChain}
  {moves : List (Move State Event)} {s : State}

/-- The moves of the loop are answered; requests may fail. -/
def Event.Answered (chain : CanonicalChain) (e : Event) : Prop :=
  ∀ e' ∈ e.seen, e'.Answered chain

theorem confined_run (hlow : cfg.backfillFrom ≤ 1) (hhead : chain.head ≤ i64Max)
    (hshort : cfg.fetchQueueDepth * 2 ≤ cfg.maxReorgDepth + 1)
    (hrun : Run (Step cfg setup analyses) initial moves s)
    (hanswered : ∀ move ∈ moves, move.event.Answered chain) :
    Indexer.Confined cfg chain s.indexer.bare := by
  refine Indexer.confined_run hlow hhead hshort (indexer_of_run hrun sound_initial) ?_
  intro move hmove
  obtain ⟨move', hmove', hseen⟩ := List.mem_filterMap.mp hmove
  obtain ⟨e, he, rfl⟩ := Option.map_eq_some_iff.mp hseen
  exact hanswered move' hmove' e he

/-- **Short batches**: as long as nothing fails, no run from height 0 or 1 on stores a block above
two queue depths, or sets the cursor above them, whatever is delivered, stopped, started again and
requested. -/
theorem confined_of_short (hlow : cfg.backfillFrom ≤ 1) (hhead : chain.head ≤ i64Max)
    (hshort : cfg.fetchQueueDepth * 2 ≤ cfg.maxReorgDepth + 1)
    (hrun : Run (Step cfg setup analyses) initial moves s)
    (hanswered : ∀ move ∈ moves, move.event.Answered chain) :
    (∀ row ∈ s.indexer.db.blocks, row.number ≤ cfg.fetchQueueDepth * 2) ∧
      ∀ c ∈ s.indexer.db.cursor.map Prod.fst, c ≤ cfg.fetchQueueDepth * 2 := by
  have hconfined := confined_run hlow hhead hshort hrun hanswered
  refine ⟨fun row hrow => (hconfined.canonical row hrow).1.trans (min_le_left _ _), fun c hc => ?_⟩
  obtain ⟨⟨number, hash⟩, hcursor, rfl⟩ := Option.map_eq_some_iff.mp hc
  exact (hconfined.cursor number hash hcursor).1.trans (min_le_left _ _)

theorem serving_offers (branch : ℕ → UInt8) (head : ℕ) (hhead : head < 256) :
    (EthClient.serving (.numbered branch head hhead)).Offers (.numbered branch head hhead) where
  serves := EthClient.serving_serves _
  indexable _ _ := ⟨[], _, rfl, rfl, show 1600000000 < 9224318016000 by decide⟩

/-- Four blocks of a chain of six are stored, and then all but the first are rolled back. -/
theorem confined_small :
    let db := (Db.numbered (fun _ => 1) 0 3).rollback (reorgEvent 0 3) 0
    (∀ row ∈ db.blocks, row.number ≤ 4) ∧ ∀ c ∈ db.cursor.map Prod.fst, c ≤ 4 := by
  intro db
  let chain := CanonicalChain.numbered (fun _ => 1) 5 (by decide)
  have hrun : Run (Indexer.Step (Indexer.smallConfig 0 3)) ⟨.migrated, .stopped⟩
      [⟨⟨.migrated, .stopped⟩, .start, ⟨.migrated, .polling 0⟩⟩,
        ⟨⟨.migrated, .polling 0⟩, .poll 5 4, ⟨.migrated, .receiving 0 [0, 1, 2, 3]⟩⟩,
        ⟨⟨.migrated, .receiving 0 [0, 1, 2, 3]⟩, .commitFrom chain,
          Indexer.storedTo 0 (.receiving 0 [1, 2, 3])⟩,
        ⟨Indexer.storedTo 0 (.receiving 0 [1, 2, 3]), .commitFrom chain,
          Indexer.storedTo 1 (.receiving 1 [2, 3])⟩,
        ⟨Indexer.storedTo 1 (.receiving 1 [2, 3]), .commitFrom chain,
          Indexer.storedTo 2 (.receiving 2 [3])⟩,
        ⟨Indexer.storedTo 2 (.receiving 2 [3]), .commitFrom chain,
          Indexer.storedTo 3 (.receiving 3 [])⟩,
        ⟨Indexer.storedTo 3 (.receiving 3 []), .finish, Indexer.storedTo 3 (.polling 3)⟩,
        ⟨Indexer.storedTo 3 (.polling 3), .poll 5 4, Indexer.storedTo 3 (.receiving 3 [3, 4, 5])⟩,
        ⟨Indexer.storedTo 3 (.receiving 3 [3, 4, 5]), .commitFrom chain, ⟨db, .polling 0⟩⟩]
      ⟨db, .polling 0⟩ :=
    .cons rfl (.cons rfl (.cons rfl (.cons rfl (.cons rfl (.cons rfl (.cons rfl
      (.cons rfl (.cons rfl (.nil _)))))))))
  have hcommit : (Indexer.Event.commitFrom chain).Answered chain :=
    ⟨serving_offers (fun _ => 1) 5 (by decide), rfl⟩
  refine @confined_of_short _ Reprocess.plainSetup plainAnalyses chain _ _ (by decide) (by decide)
    (by decide) (run_main hrun) (List.forall_mem_map.mpr fun move hmove e he => ?_)
  cases he
  revert move
  simp only [List.forall_mem_cons, List.not_mem_nil, false_implies, implies_true, and_true]
  exact ⟨trivial, Nat.le_refl 5, hcommit, hcommit, hcommit, hcommit, trivial, Nat.le_refl 5,
    hcommit⟩

/-- The settings of the loop when none is given. -/
def defaults : Config where
  backfillFrom := 0
  maxReorgDepth := 128
  workerCount := 4
  fetchQueueDepth := 32
  fetchQueueDepth_pos := by decide
  fetchQueueDepth_le := by decide

/-- **With the default settings** nothing above height 64 is ever stored, as long as nothing
fails. -/
theorem confined_defaults (hhead : chain.head ≤ i64Max)
    (hrun : Run (Step defaults setup analyses) initial moves s)
    (hanswered : ∀ move ∈ moves, move.event.Answered chain) :
    ∀ row ∈ s.indexer.db.blocks, row.number ≤ 64 :=
  fun row hrow => ((confined_run (by decide) hhead (by decide) hrun hanswered).canonical row
    hrow).1.trans (min_le_left _ _)

end Service

end ChainLens
