import ChainLens.Rpc.Types
import ChainLens.Store.Postgres

/-!
# The stored chain

What the indexer keeps the database for: the heights in `blocks` are an interval without gaps
that ends at the cursor, and neighbouring blocks are linked by their hashes.

## Main definitions

* `Db.HoldsInterval`: the stored heights and their links
* `Db.HoldsChain`: an interval whose tip is the cursor, hash included
* `Db.Agrees`: the stored and the canonical hash of a height coincide
* `Db.numbered`: the databases that hold a chain of numbered blocks
-/

namespace ChainLens

namespace Db

/-- Neighbouring stored blocks are linked. -/
def Linked (db : Db) : Prop :=
  ∀ row ∈ db.blocks, ∀ next ∈ db.blocks, next.number = row.number + 1 →
    next.parentHash = row.hash

/-- The stored heights are the interval from `lo` to `tip`, and neighbours are linked. -/
structure HoldsInterval (db : Db) (lo tip : ℕ) : Prop where
  le : lo ≤ tip
  heights : ∀ n, n ∈ db.blocks.map (·.number) ↔ lo ≤ n ∧ n ≤ tip
  linked : db.Linked

/-- The store holds a linked chain, and the cursor is its tip. -/
structure HoldsChain (db : Db) (lo tip : ℕ) : Prop extends HoldsInterval db lo tip where
  valid : db.Valid
  cursor : ∃ row ∈ db.blocks, row.number = tip ∧ db.cursor = some (tip, row.hash)

/-- The stored hash of a height is the canonical one. -/
def Agrees (db : Db) (chain : CanonicalChain) (k : ℕ) : Prop :=
  ∃ row ∈ db.blocks, row.number = k ∧ row.hash = (chain.block k).hash.bytes

section Rows

variable {db : Db}

/-- Rows of one height are one row. -/
theorem Valid.eq_of_number (h : db.Valid) {row row' : BlockRow} (hrow : row ∈ db.blocks)
    (hrow' : row' ∈ db.blocks) (heq : row.number = row'.number) : row = row' :=
  List.inj_on_of_nodup_map h.blocks_number hrow hrow' heq

/-- Rows of one hash are one row. -/
theorem Valid.eq_of_hash (h : db.Valid) {row row' : BlockRow} (hrow : row ∈ db.blocks)
    (hrow' : row' ∈ db.blocks) (heq : row.hash = row'.hash) : row = row' :=
  List.inj_on_of_nodup_map h.blocks_hash hrow hrow' heq

end Rows

variable {db : Db} {lo tip : ℕ}

/-- The hash incoming blocks are compared with is the tip's. -/
theorem HoldsChain.tip_hash (h : db.HoldsChain lo tip) :
    ∃ row ∈ db.blocks, row.number = tip ∧ row.hash = db.cursorHash := by
  obtain ⟨row, hrow, hnumber, hcursor⟩ := h.cursor
  exact ⟨row, hrow, hnumber, by rw [cursorHash, hcursor, Option.getD_some]⟩

/-- Only the tip carries the cursor's hash. -/
theorem HoldsChain.number_of_hash (h : db.HoldsChain lo tip) {row : BlockRow}
    (hrow : row ∈ db.blocks) (hhash : row.hash = db.cursorHash) : row.number = tip := by
  obtain ⟨tipRow, htip, hnumber, htipHash⟩ := h.tip_hash
  rw [h.valid.eq_of_hash hrow htip (hhash.trans htipHash.symm), hnumber]

/-! ## Growing and cutting an interval -/

theorem HoldsInterval.mem_heights (h : db.HoldsInterval lo tip) {row : BlockRow}
    (hrow : row ∈ db.blocks) : lo ≤ row.number ∧ row.number ≤ tip :=
  (h.heights row.number).mp (List.mem_map_of_mem hrow)

/-- One block is an interval. -/
theorem HoldsInterval.singleton {row : BlockRow} (hblocks : db.blocks = [row]) :
    db.HoldsInterval row.number row.number where
  le := Nat.le_refl _
  heights n := by
    rw [hblocks, List.map_singleton, List.mem_singleton]
    omega
  linked first hfirst second hsecond hnumber := by
    rw [hblocks, List.mem_singleton] at hfirst hsecond
    rw [hfirst, hsecond] at hnumber
    exact absurd hnumber (by omega)

/-- An interval stays one under a block above its tip that is linked to it. -/
theorem HoldsInterval.append (h : db.HoldsInterval lo tip) {db' : Db} {row : BlockRow}
    (hblocks : db'.blocks = db.blocks ++ [row]) (hnumber : row.number = tip + 1)
    (hparent : ∀ last ∈ db.blocks, last.number = tip → row.parentHash = last.hash) :
    db'.HoldsInterval lo (tip + 1) where
  le := Nat.le_succ_of_le h.le
  heights n := by
    have hle := h.le
    rw [hblocks, List.map_append, List.mem_append, h.heights, List.map_singleton,
      List.mem_singleton, hnumber]
    omega
  linked first hfirst second hsecond hnext := by
    rw [hblocks, List.mem_append, List.mem_singleton] at hfirst hsecond
    rcases hfirst with hfirst | rfl
    · rcases hsecond with hsecond | rfl
      · exact h.linked first hfirst second hsecond hnext
      · exact hparent first hfirst (by omega)
    · -- No stored block is above the new one.
      rcases hsecond with hsecond | rfl
      · have := (h.mem_heights hsecond).2
        omega
      · omega

/-- An interval cut above one of its heights is an interval. -/
theorem HoldsInterval.cut (h : db.HoldsInterval lo tip) {db' : Db} {a : ℕ} (hlo : lo ≤ a)
    (htip : a ≤ tip) (hblocks : db'.blocks = db.blocks.filter (·.number ≤ a)) :
    db'.HoldsInterval lo a where
  le := hlo
  heights n := by
    have hheights := h.heights n
    simp only [List.mem_map] at hheights
    simp only [hblocks, List.mem_map, List.mem_filter, decide_eq_true_eq]
    constructor
    · rintro ⟨row, ⟨hrow, hle⟩, rfl⟩
      exact ⟨(h.mem_heights hrow).1, hle⟩
    · rintro ⟨hlow, hhigh⟩
      obtain ⟨row, hrow, rfl⟩ := hheights.mpr ⟨hlow, Nat.le_trans hhigh htip⟩
      exact ⟨row, ⟨hrow, hhigh⟩, rfl⟩
  linked first hfirst second hsecond hnext := by
    rw [hblocks, List.mem_filter] at hfirst hsecond
    exact h.linked first hfirst.1 second hsecond.1 hnext

/-! ## Numbered chains in the store -/

/-- The row of a numbered block. -/
def branchRow (branch : ℕ → UInt8) (height : ℕ) : BlockRow where
  number := height
  hash := (branchBlock branch height).hash.bytes
  parentHash := (branchBlock branch height).parentHash.bytes
  timestamp := 1600000000
  miner := (FixedBytes.zero 20).bytes
  gasUsed := 0
  gasLimit := 30000000
  baseFee := none
  txCount := 0

/-- The database that holds a numbered chain from `lo` to `tip`. -/
def numbered (branch : ℕ → UInt8) (lo tip : ℕ) : Db :=
  { migrated with
    blocks := (List.range' lo (tip + 1 - lo)).map (branchRow branch)
    indexerState := ⟨some tip, some (branchHash (branch tip) tip).bytes, none, 0⟩ }

theorem mem_numbered_blocks {branch : ℕ → UInt8} {row : BlockRow} :
    row ∈ (numbered branch lo tip).blocks ↔ ∃ k, lo ≤ k ∧ k ≤ tip ∧ row = branchRow branch k := by
  simp only [numbered, List.mem_map, List.mem_range'_1]
  constructor
  · rintro ⟨k, ⟨hlo, hhi⟩, rfl⟩
    exact ⟨k, hlo, by omega, rfl⟩
  · rintro ⟨k, hlo, hhi, rfl⟩
    exact ⟨k, ⟨hlo, by omega⟩, rfl⟩

theorem numbered_holdsChain {branch : ℕ → UInt8} (h : lo ≤ tip) (htip : tip < 256) :
    (numbered branch lo tip).HoldsChain lo tip where
  le := h
  heights n := by
    simp only [List.mem_map, mem_numbered_blocks]
    constructor
    · rintro ⟨_, ⟨k, hlo, hhi, rfl⟩, rfl⟩
      exact ⟨hlo, hhi⟩
    · rintro ⟨hlo, hhi⟩
      exact ⟨_, ⟨n, hlo, hhi, rfl⟩, rfl⟩
  linked row hrow next hnext heq := by
    obtain ⟨k, -, -, rfl⟩ := mem_numbered_blocks.mp hrow
    obtain ⟨j, -, -, rfl⟩ := mem_numbered_blocks.mp hnext
    obtain rfl : j = k + 1 := heq
    rfl
  valid := by
    have hhashes : ((numbered branch lo tip).blocks.map (·.hash)).Nodup := by
      rw [numbered, List.map_map]
      refine List.Nodup.map_on (fun j hj k hk heq => ?_) List.nodup_range'
      rw [List.mem_range'_1] at hj hk
      exact branchHash_height (by omega) (by omega) (FixedBytes.ext heq)
    have hnumbers : ((numbered branch lo tip).blocks.map (·.number)).Nodup := by
      rw [numbered, List.map_map]
      exact List.Nodup.map_on (fun j _ k _ heq => heq) List.nodup_range'
    have hbigint : ∀ row ∈ (numbered branch lo tip).blocks, row.number ≤ i64Max := by
      intro row hrow
      obtain ⟨k, -, hk, rfl⟩ := mem_numbered_blocks.mp hrow
      unfold i64Max branchRow
      dsimp only
      omega
    -- All other tables are empty.
    constructor <;> first
      | exact hnumbers
      | exact hhashes
      | exact hbigint
      | simp [numbered, migrated]
  cursor := ⟨branchRow branch tip, mem_numbered_blocks.mpr ⟨tip, h, Nat.le_refl _, rfl⟩, rfl, rfl⟩

end Db

end ChainLens
