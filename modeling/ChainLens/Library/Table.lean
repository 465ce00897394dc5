import Mathlib.Algebra.Ring.Nat
import Mathlib.Data.List.Nodup
import Mathlib.Data.List.Perm.Basic
import Mathlib.Data.List.Forall2
import Mathlib.Tactic.Common

/-!
# Keyed tables and fallible folds

A table is a list of rows in insertion order, read through a key. Inserting a row whose key is
present does nothing; inserting a list of rows therefore appends a sublist of it, and all of it
exactly when the keys are pairwise distinct and new. The second half collects the facts about
`Except` loops the development uses: what a successful traversal returns, where a failing one
stops, and what a successful fold preserves.

## Main definitions

* `Table.insertIfAbsent key t row`, `Table.insertAll key t rows`, `Table.upsert key merge t row`
* `Table.leftJoin matching rows others`

## Main results

* `Table.insertAll_eq`: inserting appends a sublist with distinct new keys
* `Table.mem_insertAll_iff`: an added row is the first of a new key
* `Table.insertAll_eq_self_iff`: nothing is inserted exactly when the keys are present
* `Table.filter_leftJoin`, `Table.nodup_leftJoin_iff`: conditions before a join, and when it repeats
  no key
* `Table.insertAll_perm_iff`: nothing is dropped exactly when the keys are distinct
* `Except.mapM_eq_ok_iff`, `Except.mapM_eq_error_iff`, `Except.foldlM_proj`
-/

namespace Table

variable {α κ : Type} [DecidableEq κ] (key : α → κ)

/-- Insert a row unless its key is present. -/
def insertIfAbsent (t : List α) (row : α) : List α :=
  if key row ∈ t.map key then t else t ++ [row]

/-- Insert the rows one after the other. -/
def insertAll (t rows : List α) : List α := rows.foldl (insertIfAbsent key) t

/-- Insert a row, or replace the row of its key by what `merge` makes of the two. -/
def upsert (merge : α → α → α) (t : List α) (row : α) : List α :=
  if key row ∈ t.map key then t.map fun r => if key r = key row then merge r row else r
  else t ++ [row]

variable {key}

/-- The only row that matches is the one that is found. -/
theorem find?_eq_some_of_unique {t : List α} {row : α} {p : α → Bool} (hrow : row ∈ t)
    (hmatch : p row) (honly : ∀ r ∈ t, p r → r = row) : t.find? p = some row := by
  cases hfind : t.find? p with
  | none => exact absurd hmatch (List.find?_eq_none.mp hfind row hrow)
  | some r => rw [honly r (List.mem_of_find?_eq_some hfind) (List.find?_some hfind)]

/-- With distinct keys, the row with a key is found. -/
theorem find?_key_eq_some_iff {key : α → κ} {t : List α} (h : (t.map key).Nodup) {k : κ} {row : α} :
    (t.find? fun r => key r = k) = some row ↔ row ∈ t ∧ key row = k := by
  constructor
  · intro hfind
    exact ⟨List.mem_of_find?_eq_some hfind, by simpa using List.find?_some hfind⟩
  · rintro ⟨hrow, rfl⟩
    refine find?_eq_some_of_unique hrow (decide_eq_true rfl) fun r hr hkey => ?_
    exact List.inj_on_of_nodup_map h hr hrow (of_decide_eq_true hkey)

/-- With distinct keys, a key has the one row. -/
theorem filter_key_eq {t : List α} (hkeys : (t.map key).Nodup) {row : α} (hrow : row ∈ t) :
    t.filter (key · = key row) = [row] := by
  induction t with
  | nil => cases hrow
  | cons r t ih =>
    rw [List.map_cons, List.nodup_cons] at hkeys
    rcases List.mem_cons.mp hrow with rfl | hrow
    · have hrest : t.filter (key · = key row) = [] :=
        List.filter_eq_nil_iff.mpr fun r hr hkey =>
          hkeys.1 (of_decide_eq_true hkey ▸ List.mem_map_of_mem hr)
      rw [List.filter_cons_of_pos (by simp), hrest]
    · have hne : ¬ key r = key row := fun h => hkeys.1 (h ▸ List.mem_map_of_mem hrow)
      rw [List.filter_cons_of_neg (by simpa using hne), ih hkeys.2 hrow]

theorem insertIfAbsent_of_mem {t : List α} {row : α} (h : key row ∈ t.map key) :
    insertIfAbsent key t row = t := if_pos h

theorem insertIfAbsent_of_notMem {t : List α} {row : α} (h : key row ∉ t.map key) :
    insertIfAbsent key t row = t ++ [row] := if_neg h

theorem mem_insertIfAbsent_of_mem {t : List α} {row r : α} (h : r ∈ t) :
    r ∈ insertIfAbsent key t row := by
  unfold insertIfAbsent
  split
  · exact h
  · exact List.mem_append_left _ h

theorem mem_of_mem_insertIfAbsent {t : List α} {row r : α} (h : r ∈ insertIfAbsent key t row) :
    r ∈ t ∨ r = row := by
  unfold insertIfAbsent at h
  split at h
  · exact Or.inl h
  · simpa using h

variable (key) in
theorem key_mem_insertIfAbsent (t : List α) (row : α) :
    key row ∈ (insertIfAbsent key t row).map key := by
  by_cases h : key row ∈ t.map key
  · rwa [insertIfAbsent_of_mem h]
  · rw [insertIfAbsent_of_notMem h]
    simp

theorem nodup_insertIfAbsent {t : List α} (h : (t.map key).Nodup) (row : α) :
    ((insertIfAbsent key t row).map key).Nodup := by
  by_cases hrow : key row ∈ t.map key
  · rwa [insertIfAbsent_of_mem hrow]
  · rw [insertIfAbsent_of_notMem hrow, List.map_append, List.map_singleton]
    refine List.nodup_append.mpr ⟨h, List.nodup_singleton _, ?_⟩
    rintro k hk _ hk' rfl
    exact hrow (List.mem_singleton.mp hk' ▸ hk)

/-- A second column stays distinct when the row that goes in is new in it. -/
theorem nodup_map_insertIfAbsent {β : Type} {f : α → β} {t : List α} (h : (t.map f).Nodup)
    {row : α} (hnew : ∀ r ∈ insertIfAbsent key t row, r ∈ t ∨ f r ∉ t.map f) :
    ((insertIfAbsent key t row).map f).Nodup := by
  by_cases hrow : key row ∈ t.map key
  · rwa [insertIfAbsent_of_mem hrow]
  · rw [insertIfAbsent_of_notMem hrow] at hnew ⊢
    rw [List.map_append, List.map_singleton]
    refine List.nodup_append.mpr ⟨h, List.nodup_singleton _, ?_⟩
    -- A repetition would put the value of the new row among the old ones.
    rintro k hk _ hk' rfl
    rcases hnew row (by simp) with hmem | hmem
    · exact hrow (List.mem_map_of_mem hmem)
    · exact hmem (List.mem_singleton.mp hk' ▸ hk)

@[simp] theorem insertAll_nil (t : List α) : insertAll key t [] = t := rfl

@[simp] theorem insertAll_cons (t : List α) (row : α) (rows : List α) :
    insertAll key t (row :: rows) = insertAll key (insertIfAbsent key t row) rows := rfl

theorem insertAll_append (t rows rows' : List α) :
    insertAll key t (rows ++ rows') = insertAll key (insertAll key t rows) rows' :=
  List.foldl_append

variable (key) in
/-- **What an insertion keeps**: a sublist of the rows, whose keys are distinct and new. -/
theorem insertAll_eq (t rows : List α) :
    ∃ kept, kept.Sublist rows ∧ insertAll key t rows = t ++ kept ∧ (kept.map key).Nodup ∧
      ∀ r ∈ kept, key r ∉ t.map key := by
  induction rows generalizing t with
  | nil => exact ⟨[], List.Sublist.slnil, by simp, by simp, by simp⟩
  | cons row rows ih =>
    -- A row is skipped or appended, and the remaining rows meet the longer table.
    by_cases hrow : key row ∈ t.map key
    · obtain ⟨kept, hsub, heq, hnd, hnew⟩ := ih t
      refine ⟨kept, hsub.cons row, ?_, hnd, hnew⟩
      rw [insertAll_cons, insertIfAbsent_of_mem hrow, heq]
    · obtain ⟨kept, hsub, heq, hnd, hnew⟩ := ih (t ++ [row])
      have hsplit : ∀ r ∈ kept, key r ∉ t.map key ∧ key r ≠ key row := by
        intro r hr
        have := hnew r hr
        simp only [List.map_append, List.map_singleton, List.mem_append,
          List.mem_singleton, not_or] at this
        exact this
      refine ⟨row :: kept, hsub.cons_cons row, ?_, ?_, ?_⟩
      · rw [insertAll_cons, insertIfAbsent_of_notMem hrow, heq, List.append_assoc,
          List.singleton_append]
      · rw [List.map_cons, List.nodup_cons]
        refine ⟨fun h => ?_, hnd⟩
        obtain ⟨r, hr, hkey⟩ := List.mem_map.mp h
        exact (hsplit r hr).2 hkey
      · intro r hr
        rcases List.mem_cons.mp hr with rfl | hr
        · exact hrow
        · exact (hsplit r hr).1

variable (key) in
/-- The rows an insertion adds to a table. -/
def added (t rows : List α) : List α := (insertAll key t rows).drop t.length

theorem append_added (t rows : List α) : t ++ added key t rows = insertAll key t rows := by
  obtain ⟨kept, -, heq, -, -⟩ := insertAll_eq key t rows
  rw [added, heq, List.drop_left]

theorem mem_insertAll_of_mem {t : List α} {r : α} (h : r ∈ t) (rows : List α) :
    r ∈ insertAll key t rows := by
  obtain ⟨kept, -, heq, -, -⟩ := insertAll_eq key t rows
  rw [heq]
  exact List.mem_append_left _ h

theorem mem_of_mem_insertAll {t rows : List α} {r : α} (h : r ∈ insertAll key t rows) :
    r ∈ t ∨ r ∈ rows := by
  obtain ⟨kept, hsub, heq, -, -⟩ := insertAll_eq key t rows
  rw [heq] at h
  exact (List.mem_append.mp h).imp_right fun hr => hsub.subset hr

/-- **The rows of a table after an insertion**: those it had, and of the others the first of each
new key. -/
theorem mem_insertAll_iff {t rows : List α} {r : α} : r ∈ insertAll key t rows ↔
    r ∈ t ∨ key r ∉ t.map key ∧ rows.find? (fun row => key row = key r) = some r := by
  induction rows generalizing t with
  | nil => simp
  | cons row rows ih =>
    rw [insertAll_cons, ih, List.find?_cons]
    by_cases hsame : key row = key r
    · simp only [hsame, decide_true, Option.some_inj]
      by_cases hrow : key row ∈ t.map key
      · rw [insertIfAbsent_of_mem hrow, ← hsame]
        simp only [hrow, not_true, false_and]
      · rw [insertIfAbsent_of_notMem hrow, List.map_append, List.mem_append, ← hsame]
        simp [hrow, eq_comm]
    · simp only [hsame, decide_false]
      by_cases hrow : key row ∈ t.map key
      · rw [insertIfAbsent_of_mem hrow]
      · rw [insertIfAbsent_of_notMem hrow, List.map_append, List.mem_append, List.mem_append]
        have hne : r ≠ row := fun h => hsame (h ▸ rfl)
        simp [hne, Ne.symm hsame]

theorem nodup_insertAll {t : List α} (h : (t.map key).Nodup) (rows : List α) :
    ((insertAll key t rows).map key).Nodup := by
  induction rows generalizing t with
  | nil => exact h
  | cons row rows ih => exact ih (nodup_insertIfAbsent h row)

theorem key_mem_insertAll {t rows : List α} {r : α} (h : r ∈ rows) :
    key r ∈ (insertAll key t rows).map key := by
  induction rows generalizing t with
  | nil => cases h
  | cons row rows ih =>
    rcases List.mem_cons.mp h with rfl | h
    · obtain ⟨r', hr', hkey⟩ := List.mem_map.mp (key_mem_insertIfAbsent key t r)
      exact hkey ▸ List.mem_map_of_mem (mem_insertAll_of_mem hr' rows)
    · exact ih h

theorem key_mem_insertAll_iff {t rows : List α} {k : κ} :
    k ∈ (insertAll key t rows).map key ↔ k ∈ t.map key ∨ k ∈ rows.map key := by
  constructor
  · intro h
    obtain ⟨r, hr, rfl⟩ := List.mem_map.mp h
    exact (mem_of_mem_insertAll hr).imp (List.mem_map_of_mem ·) (List.mem_map_of_mem ·)
  · rintro (h | h)
    · obtain ⟨r, hr, rfl⟩ := List.mem_map.mp h
      exact List.mem_map_of_mem (mem_insertAll_of_mem hr rows)
    · obtain ⟨r, hr, rfl⟩ := List.mem_map.mp h
      exact key_mem_insertAll hr

/-- **What is read under the keys of the inserted rows** is what was to be inserted, exactly when
no row that was there before, and none inserted with it, holds something else under its key. -/
theorem insertAll_reads_iff {β : Type} (f : α → β) {t rows : List α} :
    (∀ row ∈ rows, ∀ r ∈ insertAll key t rows, key r = key row → f r = f row) ↔
      (∀ row ∈ rows, ∀ r ∈ t, key r = key row → f r = f row) ∧
        ∀ row ∈ rows, ∀ r ∈ rows, key r = key row → f r = f row := by
  constructor
  · intro h
    refine ⟨fun row hrow r hr => h row hrow r (mem_insertAll_of_mem hr rows), ?_⟩
    intro row hrow r hr hkey
    -- Both keys lead to one row of the table.
    obtain ⟨found, hfound, hfoundKey⟩ := List.mem_map.mp (@key_mem_insertAll _ _ _ key t rows r hr)
    have hkeys := hfoundKey.trans hkey
    exact (h r hr found hfound hfoundKey).symm.trans (h row hrow found hfound hkeys)
  · rintro ⟨hbefore, hamong⟩ row hrow r hr hkey
    rcases mem_of_mem_insertAll hr with hr | hr
    · exact hbefore row hrow r hr hkey
    · exact hamong row hrow r hr hkey

/-- Rows with distinct new keys are all appended. -/
theorem insertAll_of_nodup {t rows : List α} (hnd : (rows.map key).Nodup)
    (hnew : ∀ r ∈ rows, key r ∉ t.map key) : insertAll key t rows = t ++ rows := by
  induction rows generalizing t with
  | nil => simp
  | cons row rows ih =>
    rw [List.map_cons, List.nodup_cons] at hnd
    rw [insertAll_cons, insertIfAbsent_of_notMem (hnew row List.mem_cons_self), ih hnd.2]
    · simp
    -- The row just appended is not in the way of the rows after it.
    · intro r hr
      rw [List.map_append, List.map_singleton, List.mem_append, List.mem_singleton]
      rintro (h | h)
      · exact hnew r (List.mem_cons_of_mem _ hr) h
      · exact hnd.1 (h ▸ List.mem_map_of_mem hr)

/-- **Nothing is inserted exactly when every key is present.** -/
theorem insertAll_eq_self_iff {t rows : List α} :
    insertAll key t rows = t ↔ ∀ r ∈ rows, key r ∈ t.map key := by
  constructor
  · intro h r hr
    rw [← h]
    exact key_mem_insertAll hr
  · intro h
    obtain ⟨kept, hsub, heq, -, hnew⟩ := insertAll_eq key t rows
    -- A row that was kept would have a new key.
    have hnil : kept = [] := by
      apply List.eq_nil_iff_forall_not_mem.mpr
      intro r hr
      exact hnew r hr (h r (hsub.subset hr))
    rw [heq, hnil, List.append_nil]

/-- **Nothing is dropped exactly when the keys are distinct**: into a table none of whose rows
satisfies `p`, insert rows that all do, under new keys, and compare them through `f`. -/
theorem insertAll_map_perm_iff {β : Type} (f : α → β) {t rows : List α} {p : α → Bool}
    (ht : ∀ r ∈ t, p r = false) (hrows : ∀ r ∈ rows, p r = true)
    (hnew : ∀ r ∈ rows, key r ∉ t.map key) :
    (((insertAll key t rows).filter p).map f).Perm (rows.map f) ↔ (rows.map key).Nodup := by
  obtain ⟨kept, hsub, heq, hnd, -⟩ := insertAll_eq key t rows
  -- Under `p` only the inserted rows are seen.
  have hfilter : (insertAll key t rows).filter p = kept := by
    rw [heq, List.filter_append, List.filter_eq_nil_iff.mpr (by simpa using ht),
      List.filter_eq_self.mpr fun r hr => hrows r (hsub.subset hr), List.nil_append]
  rw [hfilter]
  constructor
  · intro h
    -- A sublist of full length is the whole list.
    have hlength : kept.length = rows.length := by simpa using h.length_eq
    rwa [← hsub.eq_of_length hlength]
  · intro h
    rw [insertAll_of_nodup h hnew] at heq
    rw [List.append_cancel_left heq]

theorem insertAll_perm_iff {t rows : List α} {p : α → Bool} (ht : ∀ r ∈ t, p r = false)
    (hrows : ∀ r ∈ rows, p r = true) (hnew : ∀ r ∈ rows, key r ∉ t.map key) :
    ((insertAll key t rows).filter p).Perm rows ↔ (rows.map key).Nodup := by
  simpa using insertAll_map_perm_iff id ht hrows hnew

/-! ## Left joins -/

section Join

variable {β : Type} (matching : α → β → Bool)

/-- A row with each of the rows that match it, or alone. -/
def joinRow (others : List β) (row : α) : List (α × Option β) :=
  match others.filter (matching row) with
  | [] => [(row, none)]
  | matched => matched.map fun other => (row, some other)

/-- `LEFT JOIN`. -/
def leftJoin (rows : List α) (others : List β) : List (α × Option β) :=
  rows.flatMap (joinRow matching others)

/-- The rows of a join for one row. -/
def joinCount (others : List β) (row : α) : ℕ := max 1 (others.filter (matching row)).length

variable {matching} {rows : List α} {others : List β}

theorem joinCount_pos (others : List β) (row : α) : 0 < joinCount matching others row :=
  Nat.lt_of_lt_of_le Nat.one_pos (Nat.le_max_left _ _)

theorem map_fst_joinRow (others : List β) (row : α) :
    (joinRow matching others row).map Prod.fst =
      List.replicate (joinCount matching others row) row := by
  unfold joinRow joinCount
  cases others.filter (matching row) with
  | nil => rfl
  | cons other matched =>
    rw [List.map_map, List.length_cons, Nat.max_eq_right (Nat.succ_pos _)]
    exact List.map_const'

theorem fst_of_mem_joinRow {row : α} {r : α × Option β} (hr : r ∈ joinRow matching others row) :
    r.1 = row := by
  have hmem := List.mem_map_of_mem (f := Prod.fst) hr
  rw [map_fst_joinRow] at hmem
  exact List.eq_of_mem_replicate hmem

theorem length_joinRow (others : List β) (row : α) :
    (joinRow matching others row).length = joinCount matching others row := by
  rw [← List.length_map Prod.fst, map_fst_joinRow, List.length_replicate]

theorem length_leftJoin : (leftJoin matching rows others).length =
    (rows.map (joinCount matching others)).sum := by
  rw [leftJoin, List.length_flatMap]
  simp only [length_joinRow]

theorem mem_map_fst_leftJoin {row : α} :
    row ∈ (leftJoin matching rows others).map Prod.fst ↔ row ∈ rows := by
  rw [leftJoin, List.map_flatMap, List.mem_flatMap]
  simp only [map_fst_joinRow, List.mem_replicate]
  constructor
  · rintro ⟨other, hother, -, rfl⟩
    exact hother
  · intro hrow
    exact ⟨row, hrow, Nat.pos_iff_ne_zero.mp (joinCount_pos others row), rfl⟩

/-- A condition on the rows can be applied before the join. -/
theorem filter_leftJoin (p : α → Bool) : (leftJoin matching rows others).filter (fun r => p r.1) =
    leftJoin matching (rows.filter p) others := by
  induction rows with
  | nil => rfl
  | cons row rows ih =>
    unfold leftJoin at ih ⊢
    rw [List.flatMap_cons, List.filter_append, ih]
    by_cases hp : p row
    · have hkeep : (joinRow matching others row).filter (fun r => p r.1) =
          joinRow matching others row :=
        List.filter_eq_self.mpr fun r hr => by rw [fst_of_mem_joinRow hr, hp]
      rw [List.filter_cons_of_pos hp, List.flatMap_cons, hkeep]
    · have hdrop : (joinRow matching others row).filter (fun r => p r.1) = [] :=
        List.filter_eq_nil_iff.mpr fun r hr => by rwa [fst_of_mem_joinRow hr]
      rw [List.filter_cons_of_neg hp, hdrop, List.nil_append]

/-- A join repeats no key exactly if no key is repeated and every row is joined once. -/
theorem nodup_leftJoin_iff {γ : Type} {f : α → γ} :
    ((leftJoin matching rows others).map fun r => f r.1).Nodup ↔
      (rows.map f).Nodup ∧ ∀ row ∈ rows, joinCount matching others row = 1 := by
  induction rows with
  | nil => simp [leftJoin]
  | cons row rows ih =>
    have hrow : ((joinRow matching others row).map fun r => f r.1) =
        List.replicate (joinCount matching others row) (f row) := by
      rw [← List.map_replicate, ← map_fst_joinRow, List.map_map]
      rfl
    have hmem : f row ∈ (leftJoin matching rows others).map (fun r => f r.1) ↔
        f row ∈ rows.map f := by
      rw [← Function.comp_def f Prod.fst, ← List.map_map, List.mem_map, List.mem_map]
      simp only [mem_map_fst_leftJoin]
    have hpos : 0 < joinCount matching others row := joinCount_pos others row
    rw [leftJoin, List.flatMap_cons, List.map_append, hrow, ← leftJoin, List.nodup_append, ih,
      List.nodup_replicate, List.map_cons, List.nodup_cons, ← hmem, List.forall_mem_cons]
    constructor
    · rintro ⟨hone, ⟨hnodup, hall⟩, hdisjoint⟩
      refine ⟨⟨fun h => ?_, hnodup⟩, by omega, hall⟩
      exact hdisjoint (f row) (List.mem_replicate.mpr ⟨by omega, rfl⟩) (f row) h rfl
    · rintro ⟨⟨hnew, hnodup⟩, hone, hall⟩
      refine ⟨by omega, ⟨hnodup, hall⟩, ?_⟩
      intro k hk k' hk' heq
      rw [List.eq_of_mem_replicate hk] at heq
      exact hnew (heq ▸ hk')

end Join

end Table

namespace Except

variable {ε α β σ : Type}

/-- A traversal succeeds with the list of its results. -/
theorem mapM_eq_ok_iff {f : α → Except ε β} {l : List α} {ys : List β} :
    l.mapM f = .ok ys ↔ List.Forall₂ (fun x y => f x = .ok y) l ys := by
  induction l generalizing ys with
  | nil => cases ys <;> simp [pure, Except.pure]
  | cons x l ih =>
    -- The traversal fails with the head or with the tail, and then no list fits.
    rw [List.mapM_cons, List.forall₂_cons_left_iff]
    cases hx : f x with
    | error e => simp [bind, Except.bind]
    | ok y =>
      cases hl : l.mapM f with
      | error e =>
        simp only [bind, Except.bind, reduceCtorEq, false_iff, not_exists, not_and]
        intro y' ys' _ hys'
        simp [ih.mpr hys'] at hl
      | ok zs =>
        simp only [bind, Except.bind, pure, Except.pure, Except.ok.injEq]
        constructor
        · rintro rfl
          exact ⟨y, zs, rfl, ih.mp hl, rfl⟩
        · rintro ⟨y', ys', rfl, hys', rfl⟩
          have := hl.symm.trans (ih.mpr hys')
          rw [Except.ok.inj this]

/-- Every result of a successful traversal is the result of some element. -/
theorem exists_of_mem_mapM {f : α → Except ε β} {l : List α} {ys : List β}
    (h : l.mapM f = .ok ys) {y : β} (hy : y ∈ ys) : ∃ x ∈ l, f x = .ok y := by
  have hall := mapM_eq_ok_iff.mp h
  clear h
  induction hall with
  | nil => cases hy
  | cons hx _ ih =>
    rcases List.mem_cons.mp hy with rfl | hy
    · exact ⟨_, List.mem_cons_self, hx⟩
    · obtain ⟨x, hmem, hfx⟩ := ih hy
      exact ⟨x, List.mem_cons_of_mem _ hmem, hfx⟩

/-- Every element of a successful traversal has a result. -/
theorem exists_of_mapM_of_mem {f : α → Except ε β} {l : List α} {ys : List β}
    (h : l.mapM f = .ok ys) {x : α} (hx : x ∈ l) : ∃ y, f x = .ok y := by
  obtain ⟨i, hi, rfl⟩ := List.mem_iff_getElem.mp hx
  have hlength := (mapM_eq_ok_iff.mp h).length_eq
  exact ⟨_, (mapM_eq_ok_iff.mp h).get hi (hlength ▸ hi)⟩

/-- A traversal by a function that succeeds on the list is a map. -/
theorem mapM_eq_ok_map {f : α → Except ε β} {g : α → β} {l : List α}
    (h : ∀ x ∈ l, f x = .ok (g x)) : l.mapM f = .ok (l.map g) :=
  mapM_eq_ok_iff.mpr (List.forall₂_map_right_iff.mpr (List.forall₂_same.mpr h))

/-- A successful traversal has one result for each element. -/
theorem length_mapM {f : α → Except ε β} {l : List α} {ys : List β} (h : l.mapM f = .ok ys) :
    ys.length = l.length :=
  (mapM_eq_ok_iff.mp h).length_eq.symm

/-- The result at a position is the result of the element there. -/
theorem getElem_mapM {f : α → Except ε β} {l : List α} {ys : List β} (h : l.mapM f = .ok ys)
    {i : ℕ} (hi : i < l.length) (hi' : i < ys.length) : f l[i] = .ok ys[i] :=
  (mapM_eq_ok_iff.mp h).get hi hi'

/-- **Where a traversal fails**: at the first element that fails, and with its error. -/
theorem mapM_eq_error_iff {f : α → Except ε β} {l : List α} {e : ε} :
    l.mapM f = .error e ↔
      ∃ (i : ℕ) (x : α), l[i]? = some x ∧ f x = .error e ∧
        ∀ j < i, ∀ y, l[j]? = some y → ∃ b, f y = .ok b := by
  induction l with
  | nil => simp [pure, Except.pure]
  | cons x l ih =>
    rw [List.mapM_cons]
    cases hx : f x with
    | error e' =>
      -- The head fails, so nothing before the failing element is left to check.
      constructor
      · intro h
        cases h
        exact ⟨0, x, rfl, hx, fun j hj => absurd hj (Nat.not_lt_zero j)⟩
      · rintro ⟨_ | i, y, hy, hfail, hbefore⟩
        · cases hy
          rw [← Except.error.inj (hx.symm.trans hfail)]
          rfl
        · obtain ⟨b, hb⟩ := hbefore 0 (Nat.succ_pos i) x rfl
          rw [hx] at hb
          cases hb
    | ok b =>
      -- The head succeeds, so the failing element is one of the tail.
      have htail : (do let y ← (.ok b : Except ε β); let ys ← l.mapM f; pure (y :: ys)) = .error e ↔
          l.mapM f = .error e := by
        cases l.mapM f <;> simp [bind, Except.bind, pure, Except.pure]
      rw [htail, ih]
      constructor
      · rintro ⟨i, y, hy, hfail, hbefore⟩
        refine ⟨i + 1, y, hy, hfail, ?_⟩
        rintro (_ | j) hj z hz
        · cases hz
          exact ⟨b, hx⟩
        · exact hbefore j (Nat.lt_of_succ_lt_succ hj) z hz
      · rintro ⟨_ | i, y, hy, hfail, hbefore⟩
        · cases hy
          rw [hx] at hfail
          cases hfail
        · exact ⟨i, y, hy, hfail, fun j hj => hbefore (j + 1) (Nat.succ_lt_succ hj)⟩

/-- The head of a successful bind. -/
theorem bind_eq_ok_iff {x : Except ε α} {f : α → Except ε β} {b : β} :
    (x >>= f) = .ok b ↔ ∃ a, x = .ok a ∧ f a = .ok b := by
  cases x with
  | error e => simp [bind, Except.bind]
  | ok a => simp [bind, Except.bind]

/-- The argument of a successful map. -/
theorem map_eq_ok_iff {x : Except ε α} {f : α → β} {b : β} :
    x.map f = .ok b ↔ ∃ a, x = .ok a ∧ f a = b := by
  cases x with
  | error e => simp [Except.map]
  | ok a => simp [Except.map]

theorem map_isOk_iff {x : Except ε α} {f : α → β} :
    (∃ b, x.map f = .ok b) ↔ ∃ a, x = .ok a := by
  cases x with
  | error e => simp [Except.map]
  | ok a => simp [Except.map]

/-- **A successful fold, read through a projection**: if every step moves the projection as `g`
does, so does the fold. -/
theorem foldlM_proj {τ : Type} {f : σ → α → Except ε σ} {π : σ → τ} {g : τ → α → τ}
    (hstep : ∀ s a s', f s a = .ok s' → π s' = g (π s) a) {l : List α} {s s' : σ}
    (h : l.foldlM f s = .ok s') : π s' = l.foldl g (π s) := by
  induction l generalizing s with
  | nil =>
    simp only [List.foldlM_nil, pure, Except.pure, Except.ok.injEq] at h
    rw [h, List.foldl_nil]
  | cons a l ih =>
    rw [List.foldlM_cons, bind_eq_ok_iff] at h
    obtain ⟨t, ht, hl⟩ := h
    rw [ih hl, hstep s a t ht, List.foldl_cons]

/-- A fold succeeds if every step does from the states an invariant describes. -/
theorem foldlM_isOk {f : σ → α → Except ε σ} (inv : σ → Prop) {l : List α}
    (hstep : ∀ s, inv s → ∀ a ∈ l, ∃ s', f s a = .ok s' ∧ inv s') {s : σ} (hs : inv s) :
    ∃ s', l.foldlM f s = .ok s' ∧ inv s' := by
  induction l generalizing s with
  | nil => exact ⟨s, rfl, hs⟩
  | cons a l ih =>
    obtain ⟨t, ht, hinv⟩ := hstep s hs a List.mem_cons_self
    obtain ⟨s', hs', hinv'⟩ :=
      ih (fun s hs b hb => hstep s hs b (List.mem_cons_of_mem _ hb)) hinv
    exact ⟨s', by rw [List.foldlM_cons, ht]; exact hs', hinv'⟩

end Except
