import ChainLens.Library.Grouping

/-!
# Cutting rows of one size

The first rows in the order of a size can end inside the rows of one size, and rows of one size come
in any order. Which keys the first rows have is then open, and a key that several rows carry can
come more than once.

## Main definitions

* `Grouping.above`, `Grouping.level`: the rows of a larger size, and of a size
* `Grouping.Determined`: the first rows have the same keys, each once, in every order
* `Grouping.Firm`: any choice of so many rows has the same keys, each once

## Main results

* `Grouping.IsTop.level_eq`, `Grouping.exists_isTop`: the rows of a size among the first ones
* `Grouping.firm_iff`, `Grouping.determined_iff`: when the keys are determined
* `Grouping.Determined.complete`: then all keys are there, if there are no more than rows taken
-/

namespace Grouping

/-! ## Choosing rows -/

section Firm

variable {α κ : Type} (key : α → κ) {m : ℕ} {xs : List α}

/-- Any `m` of the rows have distinct keys, and the same keys as any other `m` of them. -/
structure Firm (m : ℕ) (xs : List α) : Prop where
  once : ∀ ys : List α, ys.Perm xs → ((ys.take m).map key).Nodup
  same : ∀ ys zs : List α, ys.Perm xs → zs.Perm xs →
    ∀ k ∈ (ys.take m).map key, k ∈ (zs.take m).map key

variable {key}

/-- With two rows chosen out of more, some row that is left out shares its key with a chosen one,
and could have been chosen beside it. -/
theorem Firm.length_le (h : Firm key (m + 2) xs) : xs.length ≤ m + 2 := by
  by_contra hlong
  have hdrop : xs.drop (m + 2) ≠ [] := by
    rw [Ne, List.drop_eq_nil_iff]
    omega
  obtain ⟨x, rest, hrest⟩ := List.exists_cons_of_ne_nil hdrop
  have hx : xs.Perm (x :: (xs.take (m + 2) ++ rest)) := by
    have hsplit := List.take_append_drop (m + 2) xs
    rw [hrest] at hsplit
    exact (List.Perm.of_eq hsplit.symm).trans List.perm_middle
  have hkey : key x ∈ (xs.take (m + 2)).map key :=
    h.same _ _ hx.symm (.refl xs) (key x) (by simp)
  obtain ⟨y, hy, hyx⟩ := List.mem_map.mp hkey
  obtain ⟨before, after, hchosen⟩ := List.append_of_mem hy
  have hboth : (y :: x :: (before ++ after ++ rest)).Perm xs := by
    refine (List.Perm.swap x y _).trans (List.Perm.trans (.cons x ?_) hx.symm)
    rw [hchosen, List.append_assoc, List.append_assoc, List.cons_append]
    exact List.perm_middle.symm
  have hnodup := h.once _ hboth
  simp [hyx] at hnodup

theorem firm_iff : Firm key m xs ↔ m = 0 ∨ (xs.map key).Nodup ∧ xs.length ≤ m ∨
    m = 1 ∧ ∀ x ∈ xs, ∀ y ∈ xs, key x = key y := by
  constructor
  · intro h
    match m, h with
    | 0, _ => exact .inl rfl
    | 1, h =>
      refine .inr (.inr ⟨rfl, ?_⟩)
      have hfirst : ∀ x ∈ xs, ∀ k ∈ (xs.take 1).map key, k = key x := by
        intro x hx k hk
        obtain ⟨before, after, rfl⟩ := List.append_of_mem hx
        have hmem := h.same _ (x :: (before ++ after)) (.refl _) List.perm_middle.symm k hk
        simpa using hmem
      intro x hx y hy
      obtain ⟨a, rest, rfl⟩ := List.exists_cons_of_ne_nil (List.ne_nil_of_mem hx)
      rw [← hfirst x hx (key a) (by simp), ← hfirst y hy (key a) (by simp)]
    | m + 2, h =>
      -- All rows are chosen.
      have hlength := h.length_le
      refine .inr (.inl ⟨?_, hlength⟩)
      have hnodup := h.once xs (.refl xs)
      rwa [List.take_of_length_le hlength] at hnodup
  · rintro (rfl | ⟨hnodup, hlength⟩ | ⟨rfl, hsame⟩)
    · exact ⟨fun ys _ => by simp, fun ys zs _ _ k hk => by simp at hk⟩
    · have htake : ∀ ys : List α, ys.Perm xs → ys.take m = ys := fun ys hys =>
        List.take_of_length_le (hys.length_eq.trans_le hlength)
      constructor
      · intro ys hys
        rw [htake ys hys]
        exact (hys.map key).nodup_iff.mpr hnodup
      · intro ys zs hys hzs k hk
        rw [htake ys hys] at hk
        rw [htake zs hzs]
        exact ((hys.trans hzs.symm).map key).mem_iff.mp hk
    · constructor
      · intro ys _
        cases ys <;> simp
      · intro ys zs hys hzs k hk
        cases ys with
        | nil => simp at hk
        | cons y ys =>
          cases zs with
          | nil => exact absurd (hzs.trans hys.symm).length_eq (by simp)
          | cons z zs =>
            obtain rfl : k = key y := by simpa using hk
            have := hsame y (hys.mem_iff.mp List.mem_cons_self) z
              (hzs.mem_iff.mp List.mem_cons_self)
            simp [this]

end Firm

/-! ## The rows of a size -/

section Levels

variable {α : Type} (size : α → Int)

/-- The rows of a larger size. -/
def above (rows : List α) (v : Int) : List α := rows.filter (v < size ·)

/-- The rows of a size. -/
def level (rows : List α) (v : Int) : List α := rows.filter (size · = v)

/-- The rows of a smaller size. -/
def below (rows : List α) (v : Int) : List α := rows.filter (size · < v)

variable {size} {rows sorted page : List α} {n : ℕ} {v : Int}

theorem mem_above {row : α} : row ∈ above size rows v ↔ row ∈ rows ∧ v < size row := by
  simp [above]

theorem mem_level {row : α} : row ∈ level size rows v ↔ row ∈ rows ∧ size row = v := by
  simp [level]

theorem mem_below {row : α} : row ∈ below size rows v ↔ row ∈ rows ∧ size row < v := by
  simp [below]

/-- Rows in descending order are those of a larger size, those of the size, and the others. -/
theorem eq_above_level_below (hsorted : sorted.Pairwise fun r r' => size r' ≤ size r) (v : Int) :
    sorted = above size sorted v ++ (level size sorted v ++ below size sorted v) := by
  induction sorted with
  | nil => rfl
  | cons row sorted ih =>
    obtain ⟨hrow, hsorted⟩ := List.pairwise_cons.mp hsorted
    have ih := ih hsorted
    have habove : size row ≤ v → above size sorted v = [] := by
      intro hle
      refine List.filter_eq_nil_iff.mpr fun r hr => ?_
      have := hrow r hr
      simp only [decide_eq_true_eq]
      omega
    have hlevel : size row < v → level size sorted v = [] := by
      intro hlt
      refine List.filter_eq_nil_iff.mpr fun r hr => ?_
      have := hrow r hr
      simp only [decide_eq_true_eq]
      omega
    rcases lt_trichotomy (size row) v with hlt | heq | hgt
    -- After a row of a smaller size come only such rows, so that the first two lists are empty.
    · rw [show above size (row :: sorted) v = above size sorted v from
          List.filter_cons_of_neg (by simpa using hlt.le),
        show level size (row :: sorted) v = level size sorted v from
          List.filter_cons_of_neg (by simpa using hlt.ne),
        show below size (row :: sorted) v = row :: below size sorted v from
          List.filter_cons_of_pos (by simpa using hlt), habove hlt.le, hlevel hlt]
      rw [habove hlt.le, hlevel hlt] at ih
      exact congrArg (row :: ·) ih
    · rw [show above size (row :: sorted) v = above size sorted v from
          List.filter_cons_of_neg (by simpa using heq.le),
        show level size (row :: sorted) v = row :: level size sorted v from
          List.filter_cons_of_pos (by simpa using heq),
        show below size (row :: sorted) v = below size sorted v from
          List.filter_cons_of_neg (by simpa using heq.ge), habove heq.le]
      rw [habove heq.le] at ih
      exact congrArg (row :: ·) ih
    · rw [show above size (row :: sorted) v = row :: above size sorted v from
          List.filter_cons_of_pos (by simpa using hgt),
        show level size (row :: sorted) v = level size sorted v from
          List.filter_cons_of_neg (by simpa using hgt.ne'),
        show below size (row :: sorted) v = below size sorted v from
          List.filter_cons_of_neg (by simpa using hgt.le)]
      exact congrArg (row :: ·) ih

theorem level_take {hi mid lo : List α} (hhi : ∀ r ∈ hi, v < size r) (hmid : ∀ r ∈ mid, size r = v)
    (hlo : ∀ r ∈ lo, size r < v) (n : ℕ) :
    level size ((hi ++ (mid ++ lo)).take n) v = mid.take (n - hi.length) := by
  rw [List.take_append, List.take_append, level, List.filter_append, List.filter_append]
  have hfirst : (hi.take n).filter (size · = v) = [] := by
    refine List.filter_eq_nil_iff.mpr fun r hr => ?_
    have := hhi r (List.mem_of_mem_take hr)
    simp only [decide_eq_true_eq]
    omega
  have hlast (k : ℕ) : (lo.take k).filter (size · = v) = [] := by
    refine List.filter_eq_nil_iff.mpr fun r hr => ?_
    have := hlo r (List.mem_of_mem_take hr)
    simp only [decide_eq_true_eq]
    omega
  have hmiddle (k : ℕ) : (mid.take k).filter (size · = v) = mid.take k :=
    List.filter_eq_self.mpr fun r hr => decide_eq_true (hmid r (List.mem_of_mem_take hr))
  rw [hfirst, hlast, hmiddle, List.nil_append, List.append_nil]

/-- The rows of a size among the first ones are the first of them that still fit, in some order. -/
theorem IsTop.level_eq (h : IsTop size n rows page) (v : Int) : ∃ mid : List α,
    mid.Perm (level size rows v) ∧
      level size page v = mid.take (n - (above size rows v).length) := by
  obtain ⟨sorted, hperm, hsorted, rfl⟩ := h
  refine ⟨level size sorted v, hperm.filter _, ?_⟩
  have hlength : (above size sorted v).length = (above size rows v).length :=
    (hperm.filter _).length_eq
  rw [← hlength]
  conv_lhs => rw [eq_above_level_below hsorted v]
  exact level_take (fun r hr => (mem_above.mp hr).2) (fun r hr => (mem_level.mp hr).2)
    (fun r hr => (mem_below.mp hr).2) n

/-- The rows of a size may come in any order. -/
theorem exists_isTop (n : ℕ) (v : Int) {mid : List α} (hmid : mid.Perm (level size rows v)) :
    ∃ page, IsTop size n rows page ∧
      level size page v = mid.take (n - (above size rows v).length) := by
  obtain ⟨sorted, hperm, hsorted, -⟩ := @isTop_top α size 0 rows
  have hmid' : mid.Perm (level size sorted v) := hmid.trans (hperm.filter _).symm
  have hsize (r : α) (hr : r ∈ mid) : size r = v := (mem_level.mp (hmid.mem_iff.mp hr)).2
  have habove (r : α) (hr : r ∈ above size sorted v) : v < size r := (mem_above.mp hr).2
  have hbelow (r : α) (hr : r ∈ below size sorted v) : size r < v := (mem_below.mp hr).2
  -- In sorted rows, those of the size are replaced by the given arrangement of them.
  refine ⟨(above size sorted v ++ (mid ++ below size sorted v)).take n, ⟨_, ?_, ?_, rfl⟩, ?_⟩
  · refine List.Perm.trans ?_ hperm
    conv_rhs => rw [eq_above_level_below hsorted v]
    exact (hmid'.append_right _).append_left _
  · refine List.pairwise_append.mpr ⟨hsorted.filter _, List.pairwise_append.mpr
      ⟨List.pairwise_of_forall_mem_list ?_, hsorted.filter _, ?_⟩, ?_⟩
    · intro r hr r' hr'
      rw [hsize r hr, hsize r' hr']
    · intro r hr r' hr'
      rw [hsize r hr]
      exact (hbelow r' hr').le
    · intro r hr r' hr'
      have := habove r hr
      rcases List.mem_append.mp hr' with hr' | hr'
      · rw [hsize r' hr']
        exact this.le
      · exact ((hbelow r' hr').trans this).le
  · rw [level_take habove hsize hbelow,
      show (above size sorted v).length = (above size rows v).length from
        (hperm.filter _).length_eq]

end Levels

/-! ## The keys of the first rows -/

section Determined

variable {α κ : Type} (size : α → Int) (key : α → κ) {rows page : List α} {n : ℕ}

/-- The first rows have distinct keys, and the same keys in every order. -/
structure Determined (n : ℕ) (rows : List α) : Prop where
  once : ∀ page, IsTop size n rows page → (page.map key).Nodup
  same : ∀ page page', IsTop size n rows page → IsTop size n rows page' →
    ∀ k ∈ page.map key, k ∈ page'.map key

variable {size key}

/-- Rows that share a key share their size, so that no key comes twice if none does in one size. -/
theorem nodup_keys_iff (hkey : ∀ a ∈ rows, ∀ b ∈ rows, key a = key b → size a = size b) :
    (rows.map key).Nodup ↔ ∀ v, ((level size rows v).map key).Nodup := by
  refine ⟨fun h v => h.sublist (List.filter_sublist.map key), fun h => ?_⟩
  induction rows with
  | nil => exact List.nodup_nil
  | cons a rows ih =>
    rw [List.map_cons, List.nodup_cons]
    constructor
    · intro hmem
      obtain ⟨b, hb, hba⟩ := List.mem_map.mp hmem
      have hsize := hkey b (List.mem_cons_of_mem _ hb) a List.mem_cons_self hba
      have hlevel := h (size a)
      rw [show level size (a :: rows) (size a) = a :: level size rows (size a) from
        List.filter_cons_of_pos (by simp), List.map_cons, List.nodup_cons] at hlevel
      exact hlevel.1 (List.mem_map.mpr ⟨b, mem_level.mpr ⟨hb, hsize⟩, hba⟩)
    · apply ih fun b hb c hc => hkey b (List.mem_cons_of_mem _ hb) c (List.mem_cons_of_mem _ hc)
      intro v
      exact (h v).sublist (((List.sublist_cons_self a rows).filter _).map key)

/-- The keys are determined if they are in the rows of every size. -/
theorem determined_iff_firm (hkey : ∀ a ∈ rows, ∀ b ∈ rows, key a = key b → size a = size b) :
    Determined size key n rows ↔
      ∀ v, Firm key (n - (above size rows v).length) (level size rows v) := by
  constructor
  · intro h v
    constructor
    · intro ys hys
      obtain ⟨page, hpage, hlevel⟩ := exists_isTop n v hys
      rw [← hlevel]
      exact (h.once page hpage).sublist (List.filter_sublist.map key)
    · intro ys zs hys hzs k hk
      obtain ⟨page, hpage, hlevel⟩ := exists_isTop n v hys
      obtain ⟨page', hpage', hlevel'⟩ := exists_isTop n v hzs
      rw [← hlevel] at hk
      rw [← hlevel']
      obtain ⟨r, hr, rfl⟩ := List.mem_map.mp hk
      obtain ⟨hrpage, hrv⟩ := mem_level.mp hr
      obtain ⟨r', hr', hkeys⟩ := List.mem_map.mp
        (h.same page page' hpage hpage' _ (List.mem_map_of_mem hrpage))
      -- The row with the same key has the same size.
      have hsize := hkey r' (hpage'.mem hr') r (hpage.mem hrpage) hkeys
      exact List.mem_map.mpr ⟨r', mem_level.mpr ⟨hr', hsize.trans hrv⟩, hkeys⟩
  · intro h
    constructor
    · intro page hpage
      rw [nodup_keys_iff fun a ha b hb => hkey a (hpage.mem ha) b (hpage.mem hb)]
      intro v
      obtain ⟨mid, hmid, hlevel⟩ := hpage.level_eq v
      rw [hlevel]
      exact (h v).once mid hmid
    · intro page page' hpage hpage' k hk
      obtain ⟨r, hr, rfl⟩ := List.mem_map.mp hk
      obtain ⟨mid, hmid, hlevel⟩ := hpage.level_eq (size r)
      obtain ⟨mid', hmid', hlevel'⟩ := hpage'.level_eq (size r)
      have hchosen : key r ∈ (mid.take (n - (above size rows (size r)).length)).map key := by
        rw [← hlevel]
        exact List.mem_map_of_mem (mem_level.mpr ⟨hr, rfl⟩)
      have hother := (h (size r)).same mid mid' hmid hmid' _ hchosen
      rw [← hlevel'] at hother
      exact List.map_subset key (List.filter_subset_self _) hother

/-- **When the keys of the first rows are determined**: every size they reach fits with all its
rows, whose keys are distinct, or has one key and one row among them. -/
theorem determined_iff (hkey : ∀ a ∈ rows, ∀ b ∈ rows, key a = key b → size a = size b) :
    Determined size key n rows ↔ ∀ v, (above size rows v).length < n →
      ((level size rows v).map key).Nodup ∧
          (above size rows v).length + (level size rows v).length ≤ n ∨
        n = (above size rows v).length + 1 ∧
          ∀ a ∈ level size rows v, ∀ b ∈ level size rows v, key a = key b := by
  rw [determined_iff_firm hkey]
  refine forall_congr' fun v => ?_
  rw [firm_iff]
  constructor
  · rintro (hzero | ⟨hnodup, hfits⟩ | ⟨hone, hsame⟩) hreached
    · omega
    · exact .inl ⟨hnodup, by omega⟩
    · exact .inr ⟨by omega, hsame⟩
  · intro h
    by_cases hreached : (above size rows v).length < n
    · rcases h hreached with ⟨hnodup, hfits⟩ | ⟨hone, hsame⟩
      · exact .inr (.inl ⟨hnodup, by omega⟩)
      · exact .inr (.inr ⟨by omega, hsame⟩)
    · exact .inl (by omega)

/-- If the first rows have distinct keys, then all keys when these are no more than the rows
taken. -/
theorem Determined.complete (h : Determined size key n rows) {keys : List κ}
    (hkeys : ∀ row ∈ rows, key row ∈ keys) (hle : keys.length ≤ n)
    (hpage : IsTop size n rows page) {row : α} (hrow : row ∈ rows) : key row ∈ page.map key := by
  by_contra hmissing
  have hnodup : (key row :: page.map key).Nodup :=
    List.nodup_cons.mpr ⟨hmissing, h.once page hpage⟩
  have hsubset : key row :: page.map key ⊆ keys := by
    rintro k hk
    rcases List.mem_cons.mp hk with rfl | hk
    · exact hkeys row hrow
    · obtain ⟨r, hr, rfl⟩ := List.mem_map.mp hk
      exact hkeys r (hpage.mem hr)
  have hlength := (List.subperm_of_subset hnodup hsubset).length_le
  obtain ⟨sorted, hperm, -, rfl⟩ := hpage
  rw [List.length_cons, List.length_map, List.length_take] at hlength
  -- The page is all rows, among them the missing one.
  have hall : sorted.length ≤ n := by omega
  rw [List.take_of_length_le hall] at hmissing
  exact hmissing (List.mem_map_of_mem (hperm.mem_iff.mpr hrow))

end Determined

end Grouping
