import Mathlib.Data.List.Sort
import Mathlib.Order.Basic
import Mathlib.Tactic.Common

/-!
# Keyset pagination

Rows are handed out in pages: the first rows below a bound, in an order that refines a key, and
the key of a page's last row is the next bound. Rows of one key may stand in any order, anew for
every page. The pages hand out every row once exactly when no page ends inside the rows of one
key.

## Main definitions

* `Paging.IsPage`: a page below a bound
* `Paging.Run`: pages one after the other; a run is complete when an empty page ends it
* `Paging.Apart`: the keys differ wherever a page ends
* `Paging.Stream`: pages one after the other, each of the rows of its own moment

## Main results

* `Run.length_le`: a run ends, with at most as many pages as there are rows before the empty one
* `run_perm_iff`: when every complete run hands out every row once, in order
* `Stream.pairwise`, `Stream.subperm`, `Stream.mem_or_cut`: what the pages of changing rows hand out
-/

namespace Paging

/-! ## Where pages end -/

/-- Wherever a page ends, the keys on both sides differ. -/
def Apart {K : Type} (limit : ℕ) (ks : List K) : Prop :=
  ∀ k, 0 < k → k * limit < ks.length → ks[k * limit - 1]? ≠ ks[k * limit]?

section Boundaries

variable {K : Type} {limit : ℕ} {ks : List K}

theorem apart_of_length_le (h : ks.length ≤ limit) : Apart limit ks := by
  intro k hk hlt
  have hle : 1 * limit ≤ k * limit := Nat.mul_le_mul_right limit hk
  omega

/-- The first page's end, and the ends of the pages after it. -/
theorem apart_iff_drop (hlimit : 0 < limit) (h : limit < ks.length) :
    Apart limit ks ↔ ks[limit - 1]? ≠ ks[limit]? ∧ Apart limit (ks.drop limit) := by
  constructor
  · intro hapart
    refine ⟨by simpa using hapart 1 Nat.one_pos (by omega), fun k hk hlt => ?_⟩
    rw [List.length_drop] at hlt
    have hsucc : (k + 1) * limit = limit + k * limit := by rw [Nat.succ_mul, Nat.add_comm]
    have hle : 1 * limit ≤ k * limit := Nat.mul_le_mul_right limit hk
    have hnext := hapart (k + 1) (Nat.succ_pos k) (by omega)
    rw [hsucc] at hnext
    rwa [List.getElem?_drop, List.getElem?_drop, ← Nat.add_sub_assoc (by omega)]
  · rintro ⟨hfirst, hdrop⟩ k hk hlt
    obtain ⟨j, rfl⟩ := Nat.exists_eq_succ_of_ne_zero (Nat.pos_iff_ne_zero.mp hk)
    have hsucc : (j + 1) * limit = limit + j * limit := by rw [Nat.succ_mul, Nat.add_comm]
    rw [Nat.succ_eq_add_one, hsucc] at hlt ⊢
    rcases Nat.eq_zero_or_pos j with rfl | hj
    · simpa using hfirst
    · have hle : 1 * limit ≤ j * limit := Nat.mul_le_mul_right limit hj
      have hnext := hdrop j hj (by rw [List.length_drop]; omega)
      rwa [List.getElem?_drop, List.getElem?_drop, ← Nat.add_sub_assoc (by omega)] at hnext

end Boundaries

/-! ## Pages -/

variable {α K : Type} [LinearOrder K] (κ : α → K) (r : α → α → Prop)

/-- The order of the rows refines that of their keys, the greatest first. -/
structure Descending : Prop where
  total : ∀ a b, r a b ∨ r b a
  trans : ∀ a b c, r a b → r b c → r a c
  key_le : ∀ a b, r a b → κ b ≤ κ a

/-- The rows below a bound. -/
def rowsBelow (rows : List α) (bound : K) : List α := rows.filter (κ · < bound)

/-- The page is the beginning of the rows below the bound, in some order that is sorted. -/
def IsPage (rows : List α) (limit : ℕ) (bound : K) (page : List α) : Prop :=
  ∃ sorted : List α,
    sorted.Perm (rowsBelow κ rows bound) ∧ sorted.Pairwise r ∧ page = sorted.take limit

/-- Pages one after the other, of which only the last can be empty. -/
inductive Run (rows : List α) (limit : ℕ) : K → List (List α) → Prop where
  | nil (bound : K) : Run rows limit bound []
  | finish {bound : K} (hpage : IsPage κ r rows limit bound []) : Run rows limit bound [[]]
  | next {bound : K} {page : List α} {last : α} {pages : List (List α)}
      (hpage : IsPage κ r rows limit bound page) (hlast : page.getLast? = some last)
      (hrest : Run rows limit (κ last) pages) : Run rows limit bound (page :: pages)

/-- The keys of the rows, the greatest first. -/
def keys (rows : List α) : List K := (rows.map κ).insertionSort (· ≥ ·)

section Pages

variable {κ r} {rows sorted page rest : List α} {pages : List (List α)} {limit : ℕ} {bound : K}
  {last : α}

theorem keys_perm (rows : List α) : (keys κ rows).Perm (rows.map κ) :=
  List.perm_insertionSort _ _

/-- However the rows are sorted, their keys come in one order. -/
theorem Descending.map_eq_keys (h : Descending κ r) (hperm : sorted.Perm rows)
    (hsorted : sorted.Pairwise r) : sorted.map κ = keys κ rows := by
  have hkeys : (sorted.map κ).Pairwise (· ≥ ·) :=
    List.pairwise_map.mpr (hsorted.imp fun hab => h.key_le _ _ hab)
  refine List.Perm.eq_of_pairwise' hkeys (List.pairwise_insertionSort _ _) ?_
  exact (hperm.map κ).trans (keys_perm rows).symm

theorem keys_congr {rows' : List α} (h : rows.Perm rows') : keys κ rows = keys κ rows' :=
  List.Perm.eq_of_pairwise' (List.pairwise_insertionSort _ _) (List.pairwise_insertionSort _ _)
    ((keys_perm rows).trans ((h.map κ).trans (keys_perm rows').symm))

/-- The last row of a page comes after all others. -/
theorem Descending.last_le (h : Descending κ r) (hsorted : page.Pairwise r)
    (hlast : page.getLast? = some last) : ∀ x ∈ page, κ last ≤ κ x := by
  obtain ⟨init, rfl⟩ := List.getLast?_eq_some_iff.mp hlast
  intro x hx
  rcases List.mem_append.mp hx with hx | hx
  · exact h.key_le _ _ ((List.pairwise_append.mp hsorted).2.2 x hx last List.mem_cons_self)
  · rw [List.mem_singleton.mp hx]

/-- **What the next page is taken from**: of the rows after this page, those below its end. -/
theorem Descending.below_last (h : Descending κ r)
    (hperm : (page ++ rest).Perm (rowsBelow κ rows bound))
    (hsorted : (page ++ rest).Pairwise r) (hlast : page.getLast? = some last) :
    (rowsBelow κ rows (κ last)).Perm (rowsBelow κ rest (κ last)) := by
  have hmem : last ∈ rowsBelow κ rows bound :=
    hperm.subset (List.mem_append_left _ (List.mem_of_getLast? hlast))
  have hbound : κ last < bound := of_decide_eq_true (List.mem_filter.mp hmem).2
  have hbelow : rowsBelow κ rows (κ last) = rowsBelow κ (rowsBelow κ rows bound) (κ last) := by
    unfold rowsBelow
    rw [List.filter_filter]
    refine List.filter_congr fun x _ => ?_
    rw [← Bool.decide_and]
    exact decide_eq_decide.mpr ⟨fun hx => ⟨hx, hx.trans hbound⟩, And.left⟩
  have hpage : rowsBelow κ page (κ last) = [] := by
    refine List.filter_eq_nil_iff.mpr fun x hx => ?_
    have hle := h.last_le (List.pairwise_append.mp hsorted).1 hlast x hx
    simpa using hle
  rw [hbelow]
  refine (hperm.symm.filter _).trans ?_
  rw [List.filter_append]
  unfold rowsBelow at hpage
  rw [hpage, List.nil_append]
  rfl

/-- If the key changes after the page, all the rows after it are below its end. -/
theorem Descending.below_rest (h : Descending κ r) (hrest : rest.Pairwise r)
    (hhead : ∀ x ∈ rest.head?, κ x < κ last) : rowsBelow κ rest (κ last) = rest := by
  cases rest with
  | nil => rfl
  | cons x rest =>
    have hx : κ x < κ last := hhead x rfl
    refine List.filter_eq_self.mpr fun y hy => decide_eq_true ?_
    rcases List.mem_cons.mp hy with rfl | hy
    · exact hx
    · exact lt_of_le_of_lt (h.key_le _ _ (List.rel_of_pairwise_cons hrest hy)) hx

/-- A page below a bound, with the rows after it. -/
theorem IsPage.split (h : IsPage κ r rows limit bound page) :
    ∃ rest, (page ++ rest).Perm (rowsBelow κ rows bound) ∧ (page ++ rest).Pairwise r ∧
      page.length ≤ limit ∧ (rest ≠ [] → page.length = limit) := by
  obtain ⟨sorted, hperm, hsorted, rfl⟩ := h
  refine ⟨sorted.drop limit, ?_, ?_, List.length_take_le _ _, fun hrest => ?_⟩
  · rwa [List.take_append_drop]
  · rwa [List.take_append_drop]
  · rw [List.length_take]
    rw [ne_eq, List.drop_eq_nil_iff] at hrest
    omega

/-- The rows can always be sorted. -/
theorem Descending.exists_page (h : Descending κ r) (rows : List α) (limit : ℕ) (bound : K) :
    ∃ page, IsPage κ r rows limit bound page := by
  classical
  have : Std.Total r := ⟨h.total⟩
  have : IsTrans α r := ⟨h.trans⟩
  exact ⟨_, _, List.perm_insertionSort r _, List.pairwise_insertionSort r _, rfl⟩

/-- No more rows are left for the next pages than come after this one. -/
theorem Descending.length_below_last (h : Descending κ r)
    (hperm : (page ++ rest).Perm (rowsBelow κ rows bound)) (hsorted : (page ++ rest).Pairwise r)
    (hlast : page.getLast? = some last) : (rowsBelow κ rows (κ last)).length ≤ rest.length := by
  rw [(h.below_last hperm hsorted hlast).length_eq]
  exact List.length_filter_le _ _

/-- Fewer rows are left after a page that is not empty. -/
theorem IsPage.length_below_last_lt (h : Descending κ r) (hpage : IsPage κ r rows limit bound page)
    (hlast : page.getLast? = some last) :
    page.length + (rowsBelow κ rows (κ last)).length ≤ (rowsBelow κ rows bound).length := by
  obtain ⟨rest, hperm, hsorted, -, -⟩ := hpage.split
  have hrest := h.length_below_last hperm hsorted hlast
  have hlength := hperm.length_eq
  rw [List.length_append] at hlength
  omega

/-- **A run ends**: there are at most as many pages as rows, and an empty one. -/
theorem Run.length_le (h : Descending κ r) (hrun : Run κ r rows limit bound pages) :
    pages.length ≤ (rowsBelow κ rows bound).length + 1 := by
  induction hrun with
  | nil => exact Nat.zero_le _
  | finish => exact Nat.succ_le_succ (Nat.zero_le _)
  | next hpage hlast _ ih =>
    have hlt := hpage.length_below_last_lt h hlast
    have hne := List.length_pos_of_mem (List.mem_of_getLast? hlast)
    rw [List.length_cons]
    omega

/-- A run hands out at most the rows below its bound. -/
theorem Run.length_flatten_le (h : Descending κ r) (hrun : Run κ r rows limit bound pages) :
    pages.flatten.length ≤ (rowsBelow κ rows bound).length := by
  induction hrun with
  | nil => exact Nat.zero_le _
  | finish => exact Nat.zero_le _
  | next hpage hlast _ ih =>
    have hle := hpage.length_below_last_lt h hlast
    rw [List.flatten_cons, List.length_append]
    omega

/-- The first page has no row only if none is left. -/
theorem IsPage.below_eq_nil (hlimit : 0 < limit) (hpage : IsPage κ r rows limit bound []) :
    rowsBelow κ rows bound = [] := by
  obtain ⟨rest, hperm, -, -, hfull⟩ := hpage.split
  have hrest : rest = [] := by
    by_contra hne
    have hzero := hfull hne
    rw [List.length_nil] at hzero
    omega
  rw [hrest] at hperm
  exact hperm.symm.eq_nil

/-- From every bound there is a complete run. -/
theorem Descending.exists_run (h : Descending κ r) (rows : List α) (limit : ℕ) (bound : K) :
    ∃ pages, Run κ r rows limit bound pages ∧ [] ∈ pages := by
  induction hn : (rowsBelow κ rows bound).length using Nat.strong_induction_on
    generalizing bound with
  | _ n ih =>
    obtain ⟨page, hpage⟩ := h.exists_page rows limit bound
    cases hlast : page.getLast? with
    | none =>
      obtain rfl := List.getLast?_eq_none_iff.mp hlast
      exact ⟨[[]], .finish hpage, List.mem_cons_self⟩
    | some last =>
      have hle := hpage.length_below_last_lt h hlast
      have hpos := List.length_pos_of_mem (List.mem_of_getLast? hlast)
      obtain ⟨pages, hrest, hcomplete⟩ := ih _ (by omega) (κ last) rfl
      exact ⟨page :: pages, .next hpage hlast hrest, List.mem_cons_of_mem page hcomplete⟩

/-- The end of the first page, and the ends of the pages of the rest. -/
theorem Descending.apart_page_iff (h : Descending κ r) (hlimit : 0 < limit)
    (hperm : (page ++ rest).Perm (rowsBelow κ rows bound)) (hsorted : (page ++ rest).Pairwise r)
    (hlast : page.getLast? = some last) (hle : page.length ≤ limit)
    (hfull : rest ≠ [] → page.length = limit) :
    Apart limit (keys κ (rowsBelow κ rows bound)) ↔
      (∀ x ∈ rest.head?, κ x < κ last) ∧ Apart limit (keys κ rest) := by
  have hkeys := h.map_eq_keys hperm hsorted
  have hrestKeys := h.map_eq_keys (List.Perm.refl rest) (List.pairwise_append.mp hsorted).2.1
  rw [← hkeys, ← hrestKeys, List.map_append]
  cases rest with
  | nil =>
    have hshort : Apart limit (page.map κ ++ [].map κ) := apart_of_length_le (by simpa using hle)
    have hnil : Apart limit ([].map κ) := apart_of_length_le (Nat.zero_le limit)
    exact iff_of_true hshort ⟨by simp, hnil⟩
  | cons x rest =>
    obtain rfl : page.length = limit := hfull (List.cons_ne_nil x rest)
    have hlength : (page.map κ).length = page.length := List.length_map κ
    rw [apart_iff_drop hlimit (by simp), ← hlength, List.drop_left]
    have hbefore : (page.map κ ++ (x :: rest).map κ)[(page.map κ).length - 1]? =
        some (κ last) := by
      rw [List.getElem?_append_left (by omega), ← List.getLast?_eq_getElem?, List.getLast?_map,
        hlast, Option.map_some]
    have hafter : (page.map κ ++ (x :: rest).map κ)[(page.map κ).length]? = some (κ x) := by
      rw [List.getElem?_append_right (Nat.le_refl _), Nat.sub_self]
      rfl
    rw [hbefore, hafter]
    -- The keys descend, so to differ is to be smaller.
    have hdescend : κ x ≤ κ last := h.key_le last x <| (List.pairwise_append.mp hsorted).2.2 last
      (List.mem_of_getLast? hlast) x List.mem_cons_self
    have hdiffer : some (κ last) ≠ some (κ x) ↔ ∀ y ∈ (x :: rest).head?, κ y < κ last := by
      simp only [ne_eq, Option.some.injEq, List.head?_cons, Option.mem_some, forall_eq']
      exact ⟨fun hne => lt_of_le_of_ne hdescend (Ne.symm hne), fun hlt => hlt.ne'⟩
    rw [hdiffer]

/-- Where no page ends inside the rows of one key, a complete run hands out the rows once, in
order. -/
theorem Run.perm_of_apart (h : Descending κ r) (hlimit : 0 < limit)
    (hrun : Run κ r rows limit bound pages) (hcomplete : [] ∈ pages)
    (hapart : Apart limit (keys κ (rowsBelow κ rows bound))) :
    pages.flatten.Perm (rowsBelow κ rows bound) ∧ pages.flatten.Pairwise r := by
  induction hrun with
  | nil => cases hcomplete
  | finish hpage =>
    rw [hpage.below_eq_nil hlimit]
    exact ⟨List.Perm.refl _, List.Pairwise.nil⟩
  | next hpage hlast _ ih =>
    -- A page with a last row is not the empty one.
    have hlater := (List.mem_cons.mp hcomplete).resolve_left fun hempty => by
      rw [← hempty] at hlast
      cases hlast
    obtain ⟨rest, hperm, hsorted, hle, hfull⟩ := hpage.split
    obtain ⟨hhead, hrestApart⟩ := (h.apart_page_iff hlimit hperm hsorted hlast hle hfull).mp hapart
    obtain ⟨hpageSorted, hrestSorted, hcross⟩ := List.pairwise_append.mp hsorted
    -- What is left for the next pages is what comes after this one.
    have hleft := h.below_last hperm hsorted hlast
    rw [h.below_rest hrestSorted hhead] at hleft
    rw [keys_congr hleft] at ih
    obtain ⟨hpages, hpagesSorted⟩ := ih hlater hrestApart
    have hflatten := hpages.trans hleft
    rw [List.flatten_cons]
    refine ⟨(hflatten.append_left _).trans hperm, List.pairwise_append.mpr ?_⟩
    exact ⟨hpageSorted, hpagesSorted, fun a ha b hb => hcross a ha b (hflatten.subset hb)⟩

/-- Where every run hands out all the rows, no page ends inside the rows of one key. -/
theorem Descending.apart_of_runs (h : Descending κ r) (hlimit : 0 < limit)
    (hruns : ∀ pages, Run κ r rows limit bound pages → [] ∈ pages →
      pages.flatten.Perm (rowsBelow κ rows bound)) :
    Apart limit (keys κ (rowsBelow κ rows bound)) := by
  induction hn : (rowsBelow κ rows bound).length using Nat.strong_induction_on
    generalizing bound with
  | _ n ih =>
    obtain ⟨page, hpage⟩ := h.exists_page rows limit bound
    cases hlast : page.getLast? with
    | none =>
      obtain rfl := List.getLast?_eq_none_iff.mp hlast
      rw [hpage.below_eq_nil hlimit]
      exact apart_of_length_le (Nat.zero_le limit)
    | some last =>
      obtain ⟨rest, hperm, hsorted, hle, hfull⟩ := hpage.split
      -- The runs from the next bound hand out the rest.
      have hrest : ∀ pages, Run κ r rows limit (κ last) pages → [] ∈ pages →
          pages.flatten.Perm rest := by
        intro pages hpages hcomplete
        have hall := hruns _ (.next hpage hlast hpages) (List.mem_cons_of_mem page hcomplete)
        rw [List.flatten_cons] at hall
        exact (List.perm_append_left_iff page).mp (hall.trans hperm.symm)
      have hleft := h.below_last hperm hsorted hlast
      have hhead : ∀ x ∈ rest.head?, κ x < κ last := by
        intro x hx
        obtain ⟨pages, hpages, hcomplete⟩ := h.exists_run rows limit (κ last)
        have hlength := hpages.length_flatten_le h
        rw [(hrest pages hpages hcomplete).length_eq, hleft.length_eq] at hlength
        -- No row of the rest is dropped, hence not its head.
        have hkept : rowsBelow κ rest (κ last) = rest :=
          List.filter_sublist.eq_of_length_le hlength
        exact of_decide_eq_true (List.filter_eq_self.mp hkept x (List.mem_of_head? hx))
      rw [h.below_rest (List.pairwise_append.mp hsorted).2.1 hhead] at hleft
      refine (h.apart_page_iff hlimit hperm hsorted hlast hle hfull).mpr ⟨hhead, ?_⟩
      rw [← keys_congr hleft]
      have hlt := hpage.length_below_last_lt h hlast
      have hpos := List.length_pos_of_mem (List.mem_of_getLast? hlast)
      exact ih _ (by omega)
        (fun pages hpages hcomplete => (hrest pages hpages hcomplete).trans hleft.symm) rfl

/-- **When every complete run hands out every row once, in order**: all the keys lie below the first
bound, and no page ends inside the rows of one key. -/
theorem Descending.run_perm_iff (h : Descending κ r) (hlimit : 0 < limit) (rows : List α)
    (bound : K) :
    (∀ pages, Run κ r rows limit bound pages → [] ∈ pages →
        pages.flatten.Perm rows ∧ pages.flatten.Pairwise r) ↔
      (∀ x ∈ rows, κ x < bound) ∧ Apart limit (keys κ rows) := by
  constructor
  · intro hruns
    obtain ⟨pages, hpages, hcomplete⟩ := h.exists_run rows limit bound
    have hlength := hpages.length_flatten_le h
    rw [(hruns pages hpages hcomplete).1.length_eq] at hlength
    have hall : rowsBelow κ rows bound = rows := List.filter_sublist.eq_of_length_le hlength
    refine ⟨fun x hx => of_decide_eq_true (List.filter_eq_self.mp hall x hx), ?_⟩
    rw [← hall]
    exact h.apart_of_runs hlimit fun pages hpages hcomplete =>
      hall.symm ▸ (hruns pages hpages hcomplete).1
  · rintro ⟨hbound, hapart⟩ pages hpages hcomplete
    have hall : rowsBelow κ rows bound = rows :=
      List.filter_eq_self.mpr fun x hx => decide_eq_true (hbound x hx)
    have hpages := hpages.perm_of_apart h hlimit hcomplete (hall.symm ▸ hapart)
    rwa [hall] at hpages

end Pages

/-! ## Pages of rows that change -/

/-- Pages one after the other, each of the rows of its moment. Only the last can be empty. -/
inductive Stream (limit : ℕ) : K → List (List α × List α) → Prop where
  | nil (bound : K) : Stream limit bound []
  | finish {bound : K} {rows : List α} (hpage : IsPage κ r rows limit bound []) :
      Stream limit bound [(rows, [])]
  | next {bound : K} {rows page : List α} {last : α} {replies : List (List α × List α)}
      (hpage : IsPage κ r rows limit bound page) (hlast : page.getLast? = some last)
      (hrest : Stream limit (κ last) replies) : Stream limit bound ((rows, page) :: replies)

/-- The pages alone. -/
def pages (replies : List (List α × List α)) : List (List α) := replies.map Prod.snd

section Changing

variable {κ r} {rows final page : List α} {replies : List (List α × List α)} {limit : ℕ} {bound : K}
  {last x : α}

theorem IsPage.lt_bound (h : IsPage κ r rows limit bound page) : ∀ x ∈ page, κ x < bound := by
  obtain ⟨rest, hperm, -, -, -⟩ := h.split
  intro x hx
  exact of_decide_eq_true (List.mem_filter.mp (hperm.subset (List.mem_append_left _ hx))).2

theorem IsPage.pairwise (h : IsPage κ r rows limit bound page) : page.Pairwise r := by
  obtain ⟨rest, -, hsorted, -, -⟩ := h.split
  exact (List.pairwise_append.mp hsorted).1

/-- The page is a part of the rows, however often each of them stands there. -/
theorem IsPage.subperm (h : IsPage κ r rows limit bound page) :
    page.Subperm (rowsBelow κ rows bound) := by
  obtain ⟨rest, hperm, -, -, -⟩ := h.split
  exact (List.sublist_append_left page rest).subperm.trans hperm.subperm

/-- **A row below the bound** is on the page, or the page is full and ends at its key or above. -/
theorem IsPage.mem_or_full (h : Descending κ r) (hpage : IsPage κ r rows limit bound page)
    (hx : x ∈ rows) (hbound : κ x < bound) :
    x ∈ page ∨ page.length = limit ∧ ∀ last ∈ page.getLast?, κ x ≤ κ last := by
  obtain ⟨rest, hperm, hsorted, -, hfull⟩ := hpage.split
  have hbelow : x ∈ rowsBelow κ rows bound := List.mem_filter.mpr ⟨hx, decide_eq_true hbound⟩
  rcases List.mem_append.mp (hperm.symm.subset hbelow) with hmem | hmem
  · exact Or.inl hmem
  · refine Or.inr ⟨hfull (List.ne_nil_of_mem hmem), fun last hlast => ?_⟩
    exact h.key_le _ _ <|
      (List.pairwise_append.mp hsorted).2.2 last (List.mem_of_getLast? hlast) x hmem

/-- Rows of different keys stand in one order. -/
theorem Descending.of_key_lt (h : Descending κ r) {a b : α} (hlt : κ b < κ a) : r a b :=
  (h.total a b).resolve_right fun hba => absurd (h.key_le b a hba) (not_le.mpr hlt)

/-- All that the pages hand out lies below the first bound. -/
theorem Stream.lt_bound (hstream : Stream κ r limit bound replies) :
    ∀ x ∈ (pages replies).flatten, κ x < bound := by
  induction hstream with
  | nil => exact fun _ hx => absurd hx List.not_mem_nil
  | finish => exact fun _ hx => absurd hx List.not_mem_nil
  | next hpage hlast _ ih =>
    intro x hx
    rcases List.mem_append.mp hx with hx | hx
    · exact hpage.lt_bound x hx
    · exact (ih x hx).trans (hpage.lt_bound _ (List.mem_of_getLast? hlast))

/-- **In order**: the rows come in descending order over all the pages, whatever changed between
two pages. -/
theorem Stream.pairwise (h : Descending κ r) (hstream : Stream κ r limit bound replies) :
    (pages replies).flatten.Pairwise r := by
  induction hstream with
  | nil => exact .nil
  | finish => exact .nil
  | next hpage hlast hrest ih =>
    refine List.pairwise_append.mpr ⟨hpage.pairwise, ih, fun a ha b hb => h.of_key_lt ?_⟩
    exact (hrest.lt_bound b hb).trans_le (h.last_le hpage.pairwise hlast a ha)

/-- **Nothing twice**: where rows are only added, the pages together are a part of the rows of the
end. -/
theorem Stream.subperm (h : Descending κ r) (hstream : Stream κ r limit bound replies)
    (hgrow : ∀ reply ∈ replies, reply.1.Sublist final) :
    (pages replies).flatten.Subperm (rowsBelow κ final bound) := by
  induction hstream with
  | nil => exact List.nil_subperm
  | finish => exact List.nil_subperm
  | @next bound rows page last replies hpage hlast _ ih =>
    obtain ⟨hrows, hgrow⟩ := List.forall_mem_cons.mp hgrow
    have hrest := ih hgrow
    -- The rows below the bound fall apart at the end of the page.
    have hbound := hpage.lt_bound last (List.mem_of_getLast? hlast)
    have hapart : ((rowsBelow κ final bound).filter (fun x => κ last ≤ κ x) ++
        rowsBelow κ final (κ last)).Perm (rowsBelow κ final bound) := by
      have hbelow : rowsBelow κ final (κ last) =
          (rowsBelow κ final bound).filter (fun x => !decide (κ last ≤ κ x)) := by
        unfold rowsBelow
        rw [List.filter_filter]
        refine List.filter_congr fun x _ => ?_
        rw [← decide_not, ← Bool.decide_and]
        refine decide_eq_decide.mpr ⟨fun hx => ⟨not_le.mpr hx, hx.trans hbound⟩, fun hx => ?_⟩
        exact not_le.mp hx.1
      rw [hbelow]
      exact List.filter_append_perm _ _
    have hpagePart : page.Subperm ((rowsBelow κ final bound).filter fun x => κ last ≤ κ x) := by
      have hall : page.filter (fun x => κ last ≤ κ x) = page :=
        List.filter_eq_self.mpr fun x hx => decide_eq_true (h.last_le hpage.pairwise hlast x hx)
      rw [← hall]
      refine (hpage.subperm.filter _).trans ?_
      exact ((hrows.filter _).filter _).subperm
    have hpagePart := (List.subperm_append_right (pages replies).flatten).mpr hpagePart
    exact hpagePart.trans (((List.subperm_append_left _).mpr hrest).trans hapart.subperm)

/-- The pages come to an end: there are at most as many as rows of the end, and an empty one. -/
theorem Stream.length_le (hstream : Stream κ r limit bound replies) :
    replies.length ≤ (pages replies).flatten.length + 1 := by
  induction hstream with
  | nil => exact Nat.zero_le _
  | finish => exact Nat.le_refl _
  | @next bound rows page last replies _ hlast _ ih =>
    have hpos := List.length_pos_of_mem (List.mem_of_getLast? hlast)
    have hflatten : (pages ((rows, page) :: replies)).flatten.length =
        page.length + (pages replies).flatten.length := List.length_append
    rw [hflatten, List.length_cons]
    omega

/-- **What can be missed**: a row that was there all the time is handed out once an empty page
came, unless a full page ends inside the rows of its key. -/
theorem Stream.mem_or_cut (h : Descending κ r) (hlimit : 0 < limit)
    (hstream : Stream κ r limit bound replies) (hcomplete : [] ∈ pages replies)
    (hx : ∀ reply ∈ replies, x ∈ reply.1) (hbound : κ x < bound) :
    x ∈ (pages replies).flatten ∨
      ∃ page ∈ pages replies, page.length = limit ∧ ∃ last ∈ page.getLast?, κ last = κ x := by
  induction hstream with
  | nil => cases hcomplete
  | finish hpage =>
    have hmem := hx _ List.mem_cons_self
    rcases hpage.mem_or_full h hmem hbound with hnone | ⟨hfull, -⟩
    · cases hnone
    · rw [List.length_nil] at hfull
      omega
  | @next bound rows page last replies hpage hlast _ ih =>
    obtain ⟨hmem, hx⟩ := List.forall_mem_cons.mp hx
    have hlater : [] ∈ pages replies := (List.mem_cons.mp hcomplete).resolve_left fun hempty => by
      obtain rfl : [] = page := hempty
      cases hlast
    rcases hpage.mem_or_full h hmem hbound with hpageMem | ⟨hfull, hle⟩
    · exact Or.inl (List.mem_append_left _ hpageMem)
    · rcases (hle last hlast).lt_or_eq with hlt | heq
      · rcases ih hlater hx hlt with hrest | ⟨page', hpage', hcut⟩
        · exact Or.inl (List.mem_append_right _ hrest)
        · exact Or.inr ⟨page', List.mem_cons_of_mem page hpage', hcut⟩
      · exact Or.inr ⟨page, List.mem_cons_self, hfull, last, hlast, heq.symm⟩

end Changing

end Paging
