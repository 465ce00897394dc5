import ChainLens.Library.Table
import Mathlib.Data.List.Induction

/-!
# Ledgers and the tables that show them

A ledger is a list of entries at distinct heights. It is extended at a free height, and cut back
above a height. A table shows the ledger when it holds what inserting the rows of the entries into
an empty table leaves, under the rule that the first row of a key stays. Inserting the rows of an
entry and deleting by height keep a table showing its ledger, so that its content depends on the
entries that are left and not on the way there.

## Main definitions

* `Ledger.Op`, `Ledger.apply`: extending and cutting
* `Ledger.table`: what an empty table holds after the rows of the entries
* `Ledger.Settled`: of the rows of one key the table holds the lowest

## Main results

* `Ledger.table_extend`, `Ledger.table_cut`: the table of an extended and of a cut ledger
* `Ledger.Settled.extend`, `Ledger.Settled.cut`: the condition stays
-/

namespace Ledger

inductive Op (β : Type) where
  | extend (entry : β)
  | cut (height : ℕ)

section Entries

variable {β : Type} (height : β → ℕ)

/-- An entry whose height is taken is not added. -/
def apply (ledger : List β) : Op β → List β
  | .extend entry => Table.insertIfAbsent height ledger entry
  | .cut a => ledger.filter (height · ≤ a)

@[simp] theorem apply_extend (ledger : List β) (entry : β) :
    apply height ledger (.extend entry) = Table.insertIfAbsent height ledger entry := rfl

@[simp] theorem apply_cut (ledger : List β) (a : ℕ) :
    apply height ledger (.cut a) = ledger.filter (height · ≤ a) := rfl

variable {height}

theorem nodup_apply {ledger : List β} (h : (ledger.map height).Nodup) (op : Op β) :
    ((apply height ledger op).map height).Nodup := by
  cases op with
  | extend entry => exact Table.nodup_insertIfAbsent h entry
  | cut a => exact h.sublist (List.filter_sublist.map height)

/-- No entry comes from elsewhere. -/
theorem mem_of_mem_apply {ledger : List β} {op : Op β} {entry : β}
    (h : entry ∈ apply height ledger op) : entry ∈ ledger ∨ op = .extend entry := by
  cases op with
  | extend new =>
    rcases Table.mem_of_mem_insertIfAbsent h with h | rfl
    · exact Or.inl h
    · exact Or.inr rfl
  | cut a => exact Or.inl (List.mem_of_mem_filter h)

end Entries

/-! ## Tables -/

variable {β ρ κ : Type} [DecidableEq κ] (rows : β → List ρ) (key : ρ → κ)

/-- What an empty table holds after the rows of the entries were inserted. -/
def table (ledger : List β) : List ρ := Table.insertAll key [] (ledger.flatMap rows)

theorem table_append (ledger ledger' : List β) : table rows key (ledger ++ ledger') =
    Table.insertAll key (table rows key ledger) (ledger'.flatMap rows) := by
  rw [table, List.flatMap_append]
  exact List.foldl_append

theorem mem_table {ledger : List β} {r : ρ} (h : r ∈ table rows key ledger) :
    ∃ entry ∈ ledger, r ∈ rows entry := by
  rcases Table.mem_of_mem_insertAll h with h | h
  · cases h
  · exact List.mem_flatMap.mp h

/-- With keys of their own all the rows stand in the table. -/
theorem table_of_nodup {ledger : List β} (h : ((ledger.flatMap rows).map key).Nodup) :
    table rows key ledger = ledger.flatMap rows := by
  rw [table, Table.insertAll_of_nodup h fun _ _ => List.not_mem_nil, List.nil_append]

variable (level : ρ → ℕ)

/-- Of the rows of one key, the table holds one that is not above the others. -/
def Settled (ledger : List β) : Prop :=
  ∀ entry ∈ ledger, ∀ r ∈ rows entry, ∀ r' ∈ table rows key ledger, key r' = key r →
    level r' ≤ level r

variable {rows key level}

/-- The rows of one key are all on one level. -/
theorem settled_of_key (h : ∀ r r' : ρ, key r' = key r → level r' = level r) (ledger : List β) :
    Settled rows key level ledger :=
  fun _ _ r _ r' _ hkey => Nat.le_of_eq (h r r' hkey)

/-- An insertion of all rows followed by one of the next. -/
theorem insertAll_concat (t rs : List ρ) (r : ρ) : Table.insertAll key t (rs ++ [r]) =
    Table.insertIfAbsent key (Table.insertAll key t rs) r := by
  unfold Table.insertAll
  rw [List.foldl_append, List.foldl_cons, List.foldl_nil]

/-- A selection of a fresh table is the table of the selected rows, when a row that is selected
is never represented by one that is not. -/
theorem filter_insertAll_nil {p : ρ → Bool} {rs : List ρ}
    (h : ∀ r ∈ rs, ∀ r' ∈ Table.insertAll key [] rs, key r' = key r → p r → p r') :
    (Table.insertAll key [] rs).filter p = Table.insertAll key [] (rs.filter p) := by
  induction rs using List.reverseRecOn with
  | nil => rfl
  | append_singleton rs r ih =>
    rw [insertAll_concat] at h ⊢
    have hrest := ih fun r₁ hr₁ r₂ hr₂ =>
      h r₁ (List.mem_append_left _ hr₁) r₂ (Table.mem_insertIfAbsent_of_mem hr₂)
    have hlast := h r (List.mem_append_right _ (List.mem_singleton_self r))
    rw [List.filter_append]
    by_cases hkey : key r ∈ (Table.insertAll key [] rs).map key
    · -- The key is present, so that the row changes neither table.
      rw [Table.insertIfAbsent_of_mem hkey] at hlast ⊢
      cases hr : p r with
      | false =>
        rw [List.filter_cons_of_neg (by simp [hr]), List.filter_nil, List.append_nil, hrest]
      | true =>
        rw [List.filter_cons_of_pos hr, List.filter_nil, insertAll_concat, ← hrest]
        obtain ⟨r', hr', hsame⟩ := List.mem_map.mp hkey
        refine (Table.insertIfAbsent_of_mem ?_).symm
        exact List.mem_map.mpr ⟨r', List.mem_filter.mpr ⟨hr', hlast r' hr' hsame hr⟩, hsame⟩
    · -- The key is new, so that the row comes last in both tables, or in neither.
      rw [Table.insertIfAbsent_of_notMem hkey, List.filter_append, hrest]
      cases hr : p r with
      | false =>
        rw [List.filter_cons_of_neg (by simp [hr]), List.filter_nil, List.append_nil,
          List.append_nil]
      | true =>
        rw [List.filter_cons_of_pos hr, List.filter_nil, insertAll_concat, ← hrest]
        refine (Table.insertIfAbsent_of_notMem fun hmem => hkey ?_).symm
        obtain ⟨r', hr', hsame⟩ := List.mem_map.mp hmem
        exact hsame ▸ List.mem_map_of_mem (List.mem_of_mem_filter hr')

/-! ### Extending -/

variable {height : β → ℕ} {ledger : List β} {entry : β}

/-- **The table of an extended ledger**: the rows of the new entry are inserted. At a taken height
nothing changes, provided that the keys of the rows are present. -/
theorem table_extend
    (h : height entry ∈ ledger.map height →
      ∀ r ∈ rows entry, key r ∈ (table rows key ledger).map key) :
    table rows key (apply height ledger (.extend entry)) =
      Table.insertAll key (table rows key ledger) (rows entry) := by
  by_cases hheight : height entry ∈ ledger.map height
  · rw [apply_extend, Table.insertIfAbsent_of_mem hheight]
    exact (Table.insertAll_eq_self_iff.mpr (h hheight)).symm
  · rw [apply_extend, Table.insertIfAbsent_of_notMem hheight, table_append,
      List.flatMap_singleton]

theorem Settled.extend (hsettled : Settled rows key level ledger)
    (habsent : height entry ∈ ledger.map height →
      ∀ r ∈ rows entry, key r ∈ (table rows key ledger).map key)
    (hlevel : ∀ r ∈ rows entry, level r = height entry)
    (hlow : height entry ∉ ledger.map height →
      ∀ r ∈ rows entry, ∀ r' ∈ table rows key ledger, key r' = key r → level r' ≤ level r) :
    Settled rows key level (apply height ledger (.extend entry)) := by
  by_cases hheight : height entry ∈ ledger.map height
  · rwa [apply_extend, Table.insertIfAbsent_of_mem hheight]
  · intro e he r hr r' hr' hkey
    rw [table_extend habsent] at hr'
    rw [apply_extend, Table.insertIfAbsent_of_notMem hheight, List.mem_append,
      List.mem_singleton] at he
    rcases he with he | rfl
    · -- A key of an earlier entry has its row already.
      obtain ⟨kept, hsub, heq, -, hnew⟩ := Table.insertAll_eq key (table rows key ledger)
        (rows entry)
      rw [heq] at hr'
      rcases List.mem_append.mp hr' with hr' | hr'
      · exact hsettled e he r hr r' hr' hkey
      · refine absurd ?_ (hnew r' hr')
        rw [hkey]
        exact Table.key_mem_insertAll (List.mem_flatMap.mpr ⟨e, he, hr⟩)
    · rcases Table.mem_of_mem_insertAll hr' with hr' | hr'
      · exact hlow hheight r hr r' hr' hkey
      · rw [hlevel r hr, hlevel r' hr']

/-! ### Cutting -/

/-- The rows of the entries that are left. -/
theorem flatMap_cut (hlevel : ∀ e ∈ ledger, ∀ r ∈ rows e, level r = height e) (a : ℕ) :
    (ledger.flatMap rows).filter (level · ≤ a) =
      (ledger.filter (height · ≤ a)).flatMap rows := by
  induction ledger with
  | nil => rfl
  | cons e ledger ih =>
    have hrest := ih fun e' he' => hlevel e' (List.mem_cons_of_mem _ he')
    have he := hlevel e List.mem_cons_self
    rw [List.flatMap_cons, List.filter_append, hrest]
    by_cases hcut : height e ≤ a
    · rw [List.filter_cons_of_pos (by simpa using hcut), List.flatMap_cons,
        List.filter_eq_self.mpr fun r hr => decide_eq_true (he r hr ▸ hcut)]
    · rw [List.filter_cons_of_neg (by simpa using hcut), List.filter_eq_nil_iff.mpr,
        List.nil_append]
      intro r hr
      rw [he r hr]
      simpa using hcut

/-- **The table of a cut ledger** is the part of the table up to the height. -/
theorem table_cut (hsettled : Settled rows key level ledger)
    (hlevel : ∀ e ∈ ledger, ∀ r ∈ rows e, level r = height e) (a : ℕ) :
    table rows key (apply height ledger (.cut a)) =
      (table rows key ledger).filter (level · ≤ a) := by
  rw [apply_cut, table, ← flatMap_cut hlevel]
  refine (filter_insertAll_nil fun r hr r' hr' hkey hr_le => ?_).symm
  obtain ⟨e, he, hr⟩ := List.mem_flatMap.mp hr
  have hbelow := hsettled e he r hr r' hr' hkey
  simp only [decide_eq_true_eq] at hr_le ⊢
  exact Nat.le_trans hbelow hr_le

theorem Settled.cut (hsettled : Settled rows key level ledger)
    (hlevel : ∀ e ∈ ledger, ∀ r ∈ rows e, level r = height e) (a : ℕ) :
    Settled rows key level (apply height ledger (.cut a)) := by
  intro e he r hr r' hr' hkey
  rw [table_cut hsettled hlevel] at hr'
  exact hsettled e (List.mem_of_mem_filter he) r hr r' (List.mem_of_mem_filter hr') hkey

end Ledger
