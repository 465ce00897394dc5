import Mathlib.Algebra.Order.Ring.Nat
import Mathlib.Data.List.Dedup
import Mathlib.Data.List.Sort
import Mathlib.Tactic.Common

/-!
# Groups of rows

Rows are grouped by a key, and of the groups the largest ones are taken. Groups of one size may
come in any order.

## Main definitions

* `Grouping.groups`: the rows of every key
* `Grouping.IsTop`, `Grouping.top`: the first rows in the order of a size, as a relation and as one
  choice
* `Grouping.latest`: the groups in the order of their keys

## Main results

* `nodup_groups`: every key has one group
* `isTop_top`: the choice is one
* `latest_eq_nil_iff`: some rows have some groups
-/

namespace Grouping

section Groups

variable {α κ : Type} [DecidableEq κ] {rows : List (κ × α)}

/-- The keys of the rows, each with what its rows hold. -/
def groups (rows : List (κ × α)) : List (κ × List α) :=
  (rows.map Prod.fst).dedup.map fun k => (k, (rows.filter (·.1 = k)).map Prod.snd)

theorem map_fst_groups : (groups rows).map Prod.fst = (rows.map Prod.fst).dedup := by
  simp [groups, Function.comp_def]

theorem nodup_groups : ((groups rows).map Prod.fst).Nodup := by
  rw [map_fst_groups]
  exact List.nodup_dedup _

theorem mem_groups {group : κ × List α} : group ∈ groups rows ↔
    group.1 ∈ rows.map Prod.fst ∧ group.2 = (rows.filter (·.1 = group.1)).map Prod.snd := by
  unfold groups
  rw [List.mem_map]
  constructor
  · rintro ⟨k, hk, rfl⟩
    exact ⟨List.mem_dedup.mp hk, rfl⟩
  · rintro ⟨hk, hrows⟩
    exact ⟨group.1, List.mem_dedup.mpr hk, by rw [← hrows]⟩

/-- A group has the rows of its key, and there are some. -/
theorem length_of_mem_groups {group : κ × List α} (h : group ∈ groups rows) :
    group.2.length = (rows.filter (·.1 = group.1)).length ∧ 0 < group.2.length := by
  obtain ⟨hkey, hrows⟩ := mem_groups.mp h
  obtain ⟨row, hrow, heq⟩ := List.mem_map.mp hkey
  have hmem : row ∈ rows.filter (·.1 = group.1) := List.mem_filter.mpr ⟨hrow, decide_eq_true heq⟩
  rw [hrows, List.length_map]
  exact ⟨rfl, List.length_pos_of_mem hmem⟩

/-- Only no rows have no groups. -/
theorem groups_eq_nil_iff : groups rows = [] ↔ rows = [] := by
  rw [← List.map_eq_nil_iff (f := Prod.fst), map_fst_groups, List.dedup_eq_nil,
    List.map_eq_nil_iff]

/-- **Counts of disjoint parts** add up to no more than the whole. -/
theorem sum_length_filter_le {ι : Type} {p : ι → α → Bool} {parts : List ι}
    (h : parts.Pairwise fun i j => ∀ x, p i x → ¬ p j x) (xs : List α) :
    (parts.map fun i => (xs.filter (p i)).length).sum ≤ xs.length := by
  induction parts generalizing xs with
  | nil => exact Nat.zero_le _
  | cons i parts ih =>
    obtain ⟨hi, hparts⟩ := List.pairwise_cons.mp h
    -- The other parts lie in the rest.
    have hrest : ∀ j ∈ parts, (xs.filter fun x => ¬ p i x).filter (p j) = xs.filter (p j) := by
      intro j hj
      rw [List.filter_filter]
      refine List.filter_congr fun x _ => ?_
      by_cases hx : p j x
      · have hnot : p i x = false := Bool.eq_false_iff.mpr fun hix => hi j hj x hix hx
        simp [hx, hnot]
      · simp [hx]
    have hsum := ih hparts (xs.filter fun x => ¬ p i x)
    rw [List.map_congr_left fun j hj => by rw [hrest j hj]] at hsum
    have hsplit := List.length_eq_length_filter_add (l := xs) (p i)
    rw [List.map_cons, List.sum_cons]
    simp only [Bool.not_eq_true, Bool.decide_eq_false] at hsum
    omega

end Groups

section Top

variable {α : Type} (size : α → Int) {n : ℕ} {rows page : List α}

/-- The page begins the rows in an order where no row is before a larger one. -/
def IsTop (n : ℕ) (rows page : List α) : Prop :=
  ∃ sorted : List α,
    sorted.Perm rows ∧ sorted.Pairwise (fun r r' => size r' ≤ size r) ∧ page = sorted.take n

/-- The first rows, where rows of one size stay in their order. -/
def top (n : ℕ) (rows : List α) : List α :=
  (rows.insertionSort fun r r' => size r' ≤ size r).take n

theorem isTop_top : IsTop size n rows (top size n rows) := by
  have : Std.Total fun r r' : α => size r' ≤ size r := ⟨fun r r' => le_total (size r') (size r)⟩
  have : IsTrans α fun r r' => size r' ≤ size r := ⟨fun _ _ _ h h' => h'.trans h⟩
  exact ⟨_, List.perm_insertionSort _ rows, List.pairwise_insertionSort _ rows, rfl⟩

variable {size}

theorem IsTop.mem (h : IsTop size n rows page) {row : α} (hrow : row ∈ page) : row ∈ rows := by
  obtain ⟨sorted, hperm, -, rfl⟩ := h
  exact hperm.mem_iff.mp (List.mem_of_mem_take hrow)

/-- A page has room for a row. -/
theorem IsTop.eq_nil_iff (h : IsTop size n rows page) (hn : 0 < n) : page = [] ↔ rows = [] := by
  obtain ⟨sorted, hperm, -, rfl⟩ := h
  have hne : n ≠ 0 := Nat.pos_iff_ne_zero.mp hn
  rw [List.take_eq_nil_iff, or_iff_right hne]
  exact ⟨fun h => (h ▸ hperm).nil_eq.symm, fun h => (h ▸ hperm).eq_nil⟩

theorem IsTop.nodup_map (h : IsTop size n rows page) {κ : Type} {f : α → κ}
    (hrows : (rows.map f).Nodup) : (page.map f).Nodup := by
  obtain ⟨sorted, hperm, -, rfl⟩ := h
  rw [List.map_take]
  exact ((hperm.map f).nodup_iff.mpr hrows).sublist (List.take_sublist _ _)

end Top

/-! ## Groups in the order of their keys -/

section Latest

variable {α κ τ : Type} [LinearOrder κ] {rows : List (κ × α)}

/-- The groups, largest key first. -/
def latest (rows : List (κ × α)) : List (κ × List α) :=
  (groups rows).insertionSort fun group group' => group'.1 ≤ group.1

/-- Only no rows have no groups. -/
theorem latest_eq_nil_iff : latest rows = [] ↔ rows = [] := by
  rw [latest, ← List.length_eq_zero_iff, List.length_insertionSort, List.length_eq_zero_iff,
    groups_eq_nil_iff]

/-- What is counted under a key by reports about groups. -/
def countAt (key : τ → κ) (count : τ → ℕ) (reports : List τ) (k : κ) : ℕ :=
  ((reports.find? fun report => key report = k).map count).getD 0

end Latest

end Grouping
