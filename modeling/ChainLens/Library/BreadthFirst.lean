import Mathlib.Data.List.Nodup
import Mathlib.Data.List.Infix
import Mathlib.Data.Nat.Find
import Mathlib.Tactic.Common

/-!
# Bounded breadth-first search

Every vertex has a list of rows, and the key of a row is a neighbour. A search keeps a queue of
vertices with their distances. It expands the first one, where every row whose key is new is
found and its key queued, and stops at the first vertex that is too far away, or as soon as as many
rows are found as the limit allows. What it finds is the beginning of the order of discovery, which
lists the vertices in reach by their distance.

## Main definitions

* `Walk`, `IsDist`: walks along rows, and distances
* `discovery`: the rows through which the vertices up to a distance are discovered, in order
* `search`: the search, with a limit or without
* `expansions`: how many vertices a search expands

## Main results

* `mem_discovery`, `nodup_order`, `order_sorted`: what the order of discovery lists, and how
* `Inv.expand`: a step of the search keeps its invariant
* `search_finished`: a search ends, and what it has found, expanded and left in the queue
-/

namespace BreadthFirst

variable {α β : Type}

/-! ## Rows with new keys -/

section Fresh

variable [DecidableEq α] (key : β → α)

/-- The rows whose keys are new, each with the first row that has it. -/
def fresh (seen : List α) : List β → List β
  | [] => []
  | row :: rows => if key row ∈ seen then fresh seen rows else row :: fresh (key row :: seen) rows

variable {key} {seen : List α} {row : β} {rows : List β}

theorem fresh_cons_of_mem (h : key row ∈ seen) :
    fresh key seen (row :: rows) = fresh key seen rows := if_pos h

theorem fresh_cons_of_notMem (h : key row ∉ seen) :
    fresh key seen (row :: rows) = row :: fresh key (key row :: seen) rows := if_neg h

theorem mem_map_fresh {a : α} :
    a ∈ (fresh key seen rows).map key ↔ a ∈ rows.map key ∧ a ∉ seen := by
  induction rows generalizing seen with
  | nil => simp [fresh]
  | cons row rows ih =>
    by_cases hrow : key row ∈ seen
    · rw [fresh_cons_of_mem hrow, ih, List.map_cons, List.mem_cons]
      refine and_congr_left fun ha => ?_
      have hne : a ≠ key row := fun h => ha (h ▸ hrow)
      simp [hne]
    · rw [fresh_cons_of_notMem hrow, List.map_cons, List.mem_cons, ih, List.map_cons,
        List.mem_cons, List.mem_cons, not_or]
      by_cases ha : a = key row
      · subst ha
        simp [hrow]
      · simp [ha]

theorem nodup_map_fresh : ((fresh key seen rows).map key).Nodup := by
  induction rows generalizing seen with
  | nil => simp [fresh]
  | cons row rows ih =>
    by_cases hrow : key row ∈ seen
    · rw [fresh_cons_of_mem hrow]
      exact ih
    · rw [fresh_cons_of_notMem hrow, List.map_cons, List.nodup_cons]
      exact ⟨fun h => (mem_map_fresh.mp h).2 List.mem_cons_self, ih⟩

theorem mem_of_mem_fresh (h : row ∈ fresh key seen rows) : row ∈ rows ∧ key row ∉ seen := by
  induction rows generalizing seen with
  | nil => cases h
  | cons row' rows ih =>
    by_cases hrow : key row' ∈ seen
    · rw [fresh_cons_of_mem hrow] at h
      exact (ih h).imp_left (List.mem_cons_of_mem _)
    · rw [fresh_cons_of_notMem hrow, List.mem_cons] at h
      rcases h with rfl | h
      · exact ⟨List.mem_cons_self, hrow⟩
      · exact ⟨List.mem_cons_of_mem _ (ih h).1, fun h' => (ih h).2 (List.mem_cons_of_mem _ h')⟩

theorem fresh_congr {seen' : List α} (h : ∀ a, a ∈ seen ↔ a ∈ seen') :
    fresh key seen rows = fresh key seen' rows := by
  induction rows generalizing seen seen' with
  | nil => rfl
  | cons row rows ih =>
    by_cases hrow : key row ∈ seen
    · rw [fresh_cons_of_mem hrow, fresh_cons_of_mem ((h _).mp hrow), ih h]
    · have hcons : ∀ a, a ∈ key row :: seen ↔ a ∈ key row :: seen' := fun a => by simp [h a]
      rw [fresh_cons_of_notMem hrow, fresh_cons_of_notMem (fun h' => hrow ((h _).mpr h')), ih hcons]

theorem fresh_append {rows' : List β} :
    fresh key seen (rows ++ rows') =
      fresh key seen rows ++ fresh key (seen ++ (fresh key seen rows).map key) rows' := by
  induction rows generalizing seen with
  | nil => simp [fresh]
  | cons row rows ih =>
    rw [List.cons_append]
    by_cases hrow : key row ∈ seen
    · rw [fresh_cons_of_mem hrow, fresh_cons_of_mem hrow, ih]
    · rw [fresh_cons_of_notMem hrow, fresh_cons_of_notMem hrow, ih, List.cons_append]
      congr 2
      refine fresh_congr fun a => ?_
      simp only [List.map_cons, List.mem_append, List.mem_cons]
      tauto

theorem fresh_prefix {rows' : List β} (h : rows <+: rows') :
    fresh key seen rows <+: fresh key seen rows' := by
  obtain ⟨rest, rfl⟩ := h
  rw [fresh_append]
  exact List.prefix_append _ _

end Fresh

/-! ## Walks and distances -/

section Walk

variable (key : β → α) (next : α → List β)

/-- A number of rows lead from one vertex to another. -/
inductive Walk : ℕ → α → α → Prop where
  | refl (a : α) : Walk 0 a a
  | step {n : ℕ} {a b : α} {row : β} (h : Walk n a b) (hrow : row ∈ next b) :
      Walk (n + 1) a (key row)

/-- The length of a shortest walk. -/
structure IsDist (c : α) (n : ℕ) (a : α) : Prop where
  walk : Walk key next n c a
  le : ∀ m, Walk key next m c a → n ≤ m

variable {key next} {c a : α} {n : ℕ}

theorem IsDist.unique {m : ℕ} (h : IsDist key next c n a) (h' : IsDist key next c m a) : n = m :=
  Nat.le_antisymm (h.le m h'.walk) (h'.le n h.walk)

theorem Walk.exists_isDist (h : Walk key next n c a) : ∃ m ≤ n, IsDist key next c m a := by
  classical
  have hex : ∃ m, Walk key next m c a := ⟨n, h⟩
  exact ⟨Nat.find hex, Nat.find_min' hex h, Nat.find_spec hex, fun m hm => Nat.find_min' hex hm⟩

theorem isDist_zero_iff : IsDist key next c 0 a ↔ a = c := by
  constructor
  · rintro ⟨⟨⟩, -⟩
    rfl
  · rintro rfl
    exact ⟨.refl a, fun m _ => Nat.zero_le m⟩

end Walk

/-! ## The order of discovery -/

section Discovery

variable [DecidableEq α] (key : β → α) (next : α → List β)

/-- The rows through which the vertices up to a distance are discovered: what is new among the rows
of the centre and of the vertices found before the last round, one after the other. -/
def discovery (c : α) : ℕ → List β
  | 0 => []
  | d + 1 => fresh key [c] ((c :: (discovery c d).map key).flatMap next)

/-- The vertices up to a distance, the centre first. -/
def order (c : α) (d : ℕ) : List α := c :: (discovery key next c d).map key

variable {key next} {c a : α} {d : ℕ}

theorem discovery_succ : discovery key next c (d + 1) =
    fresh key [c] ((order key next c d).flatMap next) := rfl

/-- Nothing is discovered from a centre without rows. -/
theorem discovery_eq_nil (h : next c = []) : discovery key next c d = [] := by
  induction d with
  | zero => rfl
  | succ d ih =>
    rw [discovery_succ, order, ih]
    simp [h, fresh]

theorem mem_order : a ∈ order key next c d ↔ ∃ n ≤ d, Walk key next n c a := by
  induction d generalizing a with
  | zero =>
    constructor
    · intro h
      rw [List.mem_singleton.mp h]
      exact ⟨0, le_rfl, .refl c⟩
    · rintro ⟨n, hn, hwalk⟩
      obtain rfl := Nat.le_zero.mp hn
      cases hwalk
      exact List.mem_cons_self
  | succ d ih =>
    unfold order
    rw [List.mem_cons, discovery_succ, mem_map_fresh, List.mem_singleton]
    constructor
    · rintro (rfl | ⟨h, -⟩)
      · exact ⟨0, Nat.zero_le _, .refl a⟩
      · obtain ⟨row, hrow, rfl⟩ := List.mem_map.mp h
        obtain ⟨b, hb, hrow⟩ := List.mem_flatMap.mp hrow
        -- A row of an address within `d` steps leads one step further.
        obtain ⟨n, hn, hwalk⟩ := ih.mp hb
        exact ⟨n + 1, Nat.succ_le_succ hn, hwalk.step hrow⟩
    · rintro ⟨n, hn, hwalk⟩
      by_cases hc : a = c
      · exact Or.inl hc
      · cases hwalk with
        | refl => exact absurd rfl hc
        | step hwalk hrow =>
          have hb := ih.mpr ⟨_, Nat.le_of_succ_le_succ hn, hwalk⟩
          exact Or.inr ⟨List.mem_map_of_mem (List.mem_flatMap_of_mem hb hrow), hc⟩

theorem nodup_order : (order key next c d).Nodup := by
  unfold order
  rw [List.nodup_cons]
  cases d with
  | zero => exact ⟨List.not_mem_nil, List.nodup_nil⟩
  | succ d =>
    rw [discovery_succ]
    exact ⟨fun h => (mem_map_fresh.mp h).2 List.mem_cons_self, nodup_map_fresh⟩

/-- **What is discovered**: the vertices at the distances from one up to the bound. -/
theorem mem_discovery : a ∈ (discovery key next c d).map key ↔
    ∃ n, 1 ≤ n ∧ n ≤ d ∧ IsDist key next c n a := by
  have hc : c ∉ (discovery key next c d).map key := (List.nodup_cons.mp nodup_order).1
  constructor
  · intro h
    obtain ⟨n, hn, hwalk⟩ := mem_order.mp (List.mem_cons_of_mem c h)
    obtain ⟨m, hm, hdist⟩ := hwalk.exists_isDist
    refine ⟨m, Nat.one_le_iff_ne_zero.mpr ?_, hm.trans hn, hdist⟩
    rintro rfl
    exact hc (isDist_zero_iff.mp hdist ▸ h)
  · rintro ⟨n, hn, hd, hdist⟩
    refine (List.mem_cons.mp (mem_order.mpr ⟨n, hd, hdist.walk⟩)).resolve_left fun h => ?_
    have hzero := hdist.unique (isDist_zero_iff.mpr h)
    omega

theorem exists_of_mem_discovery {row : β} (h : row ∈ discovery key next c d) :
    ∃ a, row ∈ next a := by
  cases d with
  | zero => cases h
  | succ d =>
    obtain ⟨a, -, hrow⟩ := List.mem_flatMap.mp (mem_of_mem_fresh h).1
    exact ⟨a, hrow⟩

theorem discovery_isPrefix_succ : discovery key next c d <+: discovery key next c (d + 1) := by
  induction d with
  | zero => exact List.nil_prefix
  | succ d ih =>
    obtain ⟨rest, hrest⟩ := ih
    rw [discovery_succ, discovery_succ]
    refine fresh_prefix ?_
    unfold order
    rw [← hrest, List.map_append, ← List.cons_append, List.flatMap_append]
    exact List.prefix_append _ _

theorem discovery_isPrefix {d' : ℕ} (h : d ≤ d') :
    discovery key next c d <+: discovery key next c d' := by
  induction d', h using Nat.le_induction with
  | base => exact List.prefix_rfl
  | succ d' _ ih => exact ih.trans discovery_isPrefix_succ

theorem order_isPrefix {d' : ℕ} (h : d ≤ d') : order key next c d <+: order key next c d' := by
  obtain ⟨rest, hrest⟩ := @discovery_isPrefix _ _ _ key next c _ _ h
  unfold order
  rw [← hrest, List.map_append, ← List.cons_append]
  exact List.prefix_append _ _

/-- **The order of discovery** is one by distance. -/
theorem order_sorted : (order key next c d).Pairwise fun a b =>
    ∀ m n, IsDist key next c m a → IsDist key next c n b → m ≤ n := by
  induction d with
  | zero => exact List.pairwise_singleton _ _
  | succ d ih =>
    obtain ⟨rest, hrest⟩ := @order_isPrefix _ _ _ key next c _ _ (Nat.le_succ d)
    have hnodup := @nodup_order _ _ _ key next c (d + 1)
    rw [← hrest, List.nodup_append] at hnodup
    -- What the last round adds is at the last distance.
    have hlast : ∀ b ∈ rest, ∀ n, IsDist key next c n b → n = d + 1 := by
      intro b hb n hdist
      obtain ⟨m, hm, hwalk⟩ := mem_order.mp (hrest ▸ List.mem_append_right _ hb)
      have hle := hdist.le m hwalk
      have hfar : ¬ n ≤ d := fun hn =>
        hnodup.2.2 b (mem_order.mpr ⟨n, hn, hdist.walk⟩) b hb rfl
      omega
    rw [← hrest, List.pairwise_append]
    refine ⟨ih, ?_, ?_⟩
    · refine List.pairwise_of_forall_mem_list fun a ha b hb m n hm hn => ?_
      rw [hlast a ha m hm, hlast b hb n hn]
    · intro a ha b hb m n hm hn
      obtain ⟨k, hk, hwalk⟩ := mem_order.mp ha
      rw [hlast b hb n hn]
      exact (hm.le k hwalk).trans (hk.trans (Nat.le_succ d))

/-- The vertex that a row belongs to is not discovered through a later row. -/
theorem discovery_pairwise {parent : β → α} (hparent : ∀ a, ∀ row ∈ next a, parent row = a) :
    (discovery key next c d).Pairwise fun row row' => key row' ≠ parent row := by
  induction d with
  | zero => exact List.Pairwise.nil
  | succ d ih =>
    obtain ⟨rest, hrest⟩ := @discovery_isPrefix_succ _ _ _ key next c d
    have horder : ∀ row ∈ discovery key next c (d + 1), parent row ∈ order key next c d := by
      intro row hrow
      rw [discovery_succ] at hrow
      obtain ⟨a, ha, hmem⟩ := List.mem_flatMap.mp (mem_of_mem_fresh hrow).1
      exact hparent a row hmem ▸ ha
    have hnodup := @nodup_order _ _ _ key next c (d + 1)
    unfold order at hnodup horder
    rw [← hrest] at hnodup horder ⊢
    rw [List.map_append, ← List.cons_append, List.nodup_append] at hnodup
    -- What the last round discovers was not known before it.
    have hnew : ∀ row ∈ discovery key next c d ++ rest, ∀ row' ∈ rest, key row' ≠ parent row :=
      fun row hrow row' hrow' heq => hnodup.2.2 _ (horder row hrow) _ (List.mem_map_of_mem hrow')
        heq.symm
    refine List.pairwise_append.mpr ⟨ih, ?_, ?_⟩
    · exact List.pairwise_of_forall_mem_list fun row hrow row' hrow' =>
        hnew row (List.mem_append_right _ hrow) row' hrow'
    · exact fun row hrow row' hrow' => hnew row (List.mem_append_left _ hrow) row' hrow'

/-- After a round without discoveries there are none. -/
theorem discovery_eq_of_order_eq {k : ℕ} (h : order key next c (k + 1) = order key next c k)
    (hk : k + 1 ≤ d) : discovery key next c d = discovery key next c (k + 1) := by
  induction d, hk using Nat.le_induction with
  | base => rfl
  | succ d _ ih =>
    have horder : order key next c d = order key next c (k + 1) := by rw [order, order, ih]
    rw [discovery_succ, horder, h, ← discovery_succ]

end Discovery

/-! ## Limits -/

section Limit

/-- Whether one more fits beside `n`. -/
def Room (limit : Option ℕ) (n : ℕ) : Prop := ∀ l ∈ limit, n < l

instance (limit : Option ℕ) (n : ℕ) : Decidable (Room limit n) := by
  unfold Room
  infer_instance

/-- As many rows as the limit allows. -/
def cut (limit : Option ℕ) (rows : List β) : List β := limit.elim rows rows.take

@[simp] theorem room_some {l n : ℕ} : Room (some l) n ↔ n < l := by
  simp [Room]

theorem room_none (n : ℕ) : Room none n := fun _ hl => nomatch hl

variable {limit : Option ℕ} {rows rows' : List β}

@[simp] theorem cut_nil : cut limit ([] : List β) = [] := by
  cases limit <;> simp [cut]

theorem cut_prefix : cut limit rows <+: rows := by
  cases limit with
  | none => exact List.prefix_rfl
  | some l => exact List.take_prefix l rows

theorem length_cut_le (h : rows.length ≤ rows'.length) :
    (cut limit rows).length ≤ (cut limit rows').length := by
  cases limit with
  | none => exact h
  | some l =>
    show (rows.take l).length ≤ (rows'.take l).length
    rw [List.length_take, List.length_take]
    omega

theorem cut_of_room {n : ℕ} (h : Room limit n) (hlength : rows.length ≤ n + 1) :
    cut limit rows = rows := by
  cases limit with
  | none => rfl
  | some l =>
    have hl := h l rfl
    exact List.take_of_length_le (by omega)

theorem eq_of_room_cut (h : Room limit (cut limit rows).length) : cut limit rows = rows := by
  cases limit with
  | none => rfl
  | some l =>
    have hl : (rows.take l).length < l := h l rfl
    rw [List.length_take] at hl
    exact List.take_of_length_le (by omega)

/-- Nothing is added to a full list. -/
theorem cut_of_isPrefix (h : rows <+: rows') (hfull : ¬ Room limit (cut limit rows).length) :
    cut limit rows' = cut limit rows := by
  cases limit with
  | none => exact absurd (room_none _) hfull
  | some l =>
    have hl : ¬ (rows.take l).length < l := fun hl => hfull fun l' hl' => by cases hl'; exact hl
    rw [List.length_take] at hl
    obtain ⟨rest, rfl⟩ := h
    exact List.take_append_of_le_length (by omega)

theorem room_of_le {m n : ℕ} (h : Room limit n) (hle : m ≤ n) : Room limit m :=
  fun l hl => lt_of_le_of_lt hle (h l hl)

end Limit

/-! ## The search -/

/-- The queue with the distances, the rows through which vertices were found, and the vertices that
were expanded. -/
structure State (α β : Type) where
  queue : List (α × ℕ)
  found : List β
  expanded : List α

section Search

variable [DecidableEq α] (key : β → α) (next : α → List β) (limit : Option ℕ) (depth : ℕ) (c : α)

/-- One row of a vertex that is expanded. -/
def offer (d : ℕ) (s : State α β) (row : β) : State α β :=
  if key row ∈ c :: s.found.map key ∨ ¬ Room limit s.found.length then s
  else { s with queue := s.queue ++ [(key row, d)], found := s.found ++ [row] }

def expand (a : α) (d : ℕ) (s : State α β) : State α β :=
  (next a).foldl (offer key limit c (d + 1)) { s with expanded := s.expanded ++ [a] }

/-- The search from a state on, with as many rounds as `fuel` allows. -/
def search : ℕ → State α β → Option (State α β)
  | 0, _ => none
  | fuel + 1, s =>
    match s.queue with
    | [] => some s
    | (a, d) :: rest =>
      if depth ≤ d ∨ ¬ Room limit s.found.length then some { s with queue := rest }
      else search fuel (expand key next limit c a d { s with queue := rest })

def start : State α β := ⟨[(c, 0)], [], []⟩

/-! ## How many vertices are expanded -/

/-- The rows with the neighbours of the first vertices in the order of discovery. -/
def known (i : ℕ) : List β := fresh key [c] (((order key next c depth).take i).flatMap next)

/-- The vertex with an index is near enough, and the limit is not reached before it. -/
def Expands (i : ℕ) : Prop :=
  (0 < depth ∧ i < (order key next c (depth - 1)).length) ∧
    Room limit (known key next depth c i).length

instance (i : ℕ) : Decidable (Expands key next limit depth c i) := by
  unfold Expands
  infer_instance

theorem exists_not_expands : ∃ i, ¬ Expands key next limit depth c i :=
  ⟨(order key next c (depth - 1)).length, fun h => lt_irrefl _ h.1.2⟩

/-- How many vertices are expanded. -/
def expansions : ℕ := Nat.find (exists_not_expands key next limit depth c)

variable {key next limit depth c} {s : State α β} {a : α} {d : ℕ} {rest : List (α × ℕ)}

/-- The centre is expanded unless nothing may be. -/
theorem expansions_pos_iff :
    0 < expansions key next limit depth c ↔ 0 < depth ∧ Room limit 0 := by
  have hzero : Expands key next limit depth c 0 ↔ 0 < depth ∧ Room limit 0 := by
    simp [Expands, known, order, fresh]
  rw [expansions, Nat.find_pos, not_not, hzero]

theorem offer_of_new {row : β} (hnew : key row ∉ c :: s.found.map key)
    (hroom : Room limit s.found.length) : offer key limit c d s row =
      { s with queue := s.queue ++ [(key row, d)], found := s.found ++ [row] } :=
  if_neg (not_or.mpr ⟨hnew, not_not_intro hroom⟩)

theorem offer_of_skip {row : β}
    (h : key row ∈ c :: s.found.map key ∨ ¬ Room limit s.found.length) :
    offer key limit c d s row = s := if_pos h

/-- **One expansion** finds the new rows that the limit allows, and queues their keys. -/
theorem foldl_offer {rows : List β} (h : cut limit s.found = s.found) :
    ∃ new, s.found ++ new = cut limit (s.found ++ fresh key (c :: s.found.map key) rows) ∧
      rows.foldl (offer key limit c d) s =
        { s with queue := s.queue ++ new.map (key ·, d), found := s.found ++ new } := by
  induction rows generalizing s with
  | nil => exact ⟨[], by simp [fresh, h], by simp⟩
  | cons row rows ih =>
    rw [List.foldl_cons]
    by_cases hseen : key row ∈ c :: s.found.map key
    · rw [fresh_cons_of_mem hseen, offer_of_skip (Or.inl hseen)]
      exact ih h
    · -- A new row is found while there is room.
      rw [fresh_cons_of_notMem hseen]
      by_cases hroom : Room limit s.found.length
      · obtain ⟨new, hnew, hfold⟩ := @ih { s with
            queue := s.queue ++ [(key row, d)], found := s.found ++ [row] }
          (cut_of_room hroom (by simp))
        refine ⟨row :: new, ?_, ?_⟩
        · -- The key of the row is among the seen ones from here on.
          have hcongr : fresh key (key row :: c :: s.found.map key) rows =
              fresh key (c :: (s.found ++ [row]).map key) rows :=
            fresh_congr fun a => by simp only [List.map_append, List.mem_cons, List.mem_append,
              List.map_cons, List.map_nil, List.not_mem_nil, or_false]; tauto
          rw [hcongr]
          simpa using hnew
        · rw [offer_of_new hseen hroom, hfold]
          simp
      · -- The list is full, so neither this row nor a later one is found.
        have hfull := fun rows' =>
          @cut_of_isPrefix _ limit s.found _ (List.prefix_append s.found rows') (by rwa [h])
        obtain ⟨new, hnew, hfold⟩ := @ih s h
        refine ⟨new, ?_, ?_⟩
        · rw [hnew, hfull, hfull]
        · rw [offer_of_skip (Or.inr hroom), hfold]

theorem expanded_expand : (expand key next limit c a d s).expanded = s.expanded ++ [a] := by
  have hfold : ∀ (rows : List β) (s : State α β),
      (rows.foldl (offer key limit c (d + 1)) s).expanded = s.expanded := by
    intro rows
    induction rows with
    | nil => exact fun s => rfl
    | cons row rows ih =>
      intro s
      rw [List.foldl_cons, ih, offer]
      split <;> rfl
  exact hfold _ _

theorem found_prefix_offer (row : β) : s.found <+: (offer key limit c d s row).found := by
  unfold offer
  split
  · exact List.prefix_rfl
  · exact List.prefix_append _ _

theorem found_prefix_foldl (rows : List β) :
    s.found <+: (rows.foldl (offer key limit c d) s).found := by
  induction rows generalizing s with
  | nil => exact List.prefix_rfl
  | cons row rows ih => exact (found_prefix_offer row).trans ih

variable {fuel : ℕ}

theorem search_of_nil (hqueue : s.queue = []) :
    search key next limit depth c (fuel + 1) s = some s := by
  simp only [search, hqueue]

theorem search_of_stop (hqueue : s.queue = (a, d) :: rest)
    (hstop : depth ≤ d ∨ ¬ Room limit s.found.length) :
    search key next limit depth c (fuel + 1) s = some { s with queue := rest } := by
  simp only [search, hqueue, if_pos hstop]

theorem search_of_expand (hqueue : s.queue = (a, d) :: rest)
    (hstop : ¬ (depth ≤ d ∨ ¬ Room limit s.found.length)) :
    search key next limit depth c (fuel + 1) s =
      search key next limit depth c fuel
        (expand key next limit c a d { s with queue := rest }) := by
  simp only [search, hqueue, if_neg hstop]

/-- What was found stays found. -/
theorem found_prefix_search {s' : State α β}
    (h : search key next limit depth c fuel s = some s') : s.found <+: s'.found := by
  induction fuel generalizing s with
  | zero => cases h
  | succ fuel ih =>
    cases hqueue : s.queue with
    | nil =>
      rw [search_of_nil hqueue] at h
      cases h
      exact List.prefix_rfl
    | cons p rest =>
      obtain ⟨a, d⟩ := p
      by_cases hstop : depth ≤ d ∨ ¬ Room limit s.found.length
      · rw [search_of_stop hqueue hstop] at h
        cases h
        exact List.prefix_rfl
      · rw [search_of_expand hqueue hstop] at h
        exact (@found_prefix_foldl _ _ _ key limit c
          { s with queue := rest, expanded := s.expanded ++ [a] } (d + 1) (next a)).trans (ih h)

/-! ## The invariant -/

variable (key next limit depth c) in
/-- What holds of the states of a search. -/
structure Inv (s : State α β) : Prop where
  keys : c :: s.found.map key = s.expanded ++ s.queue.map Prod.fst
  known : s.found = cut limit (fresh key [c] (s.expanded.flatMap next))
  /-- Vertices of two distances are queued, and those of the first complete its round. -/
  level : ∃ (k : ℕ) (todo below : List α),
    s.queue = todo.map (·, k) ++ below.map (·, k + 1) ∧
      order key next c k = s.expanded ++ todo ∧ (s.expanded = [] ∧ k = 0 ∨ k < depth)
  label : ∀ p ∈ s.queue, IsDist key next c p.2 p.1
  expands : ∀ i < s.expanded.length, Expands key next limit depth c i

namespace Inv

theorem start : Inv key next limit depth c (start c) where
  keys := rfl
  known := cut_nil.symm
  level := ⟨0, [c], [], rfl, rfl, Or.inl ⟨rfl, rfl⟩⟩
  label p hp := by
    rw [List.mem_singleton.mp hp]
    exact isDist_zero_iff.mpr rfl
  expands i hi := absurd hi (Nat.not_lt_zero i)

variable (h : Inv key next limit depth c s)
include h

theorem expanded_prefix : s.expanded <+: order key next c depth := by
  obtain ⟨k, todo, below, -, horder, hk⟩ := h.level
  have hle : k ≤ depth := by omega
  exact (horder ▸ List.prefix_append _ _ : s.expanded <+: order key next c k).trans
    (order_isPrefix hle)

theorem known_eq : BreadthFirst.known key next depth c s.expanded.length =
    fresh key [c] (s.expanded.flatMap next) := by
  rw [BreadthFirst.known, ← List.prefix_iff_eq_take.mp h.expanded_prefix]

theorem found_of_room (hroom : Room limit s.found.length) :
    s.found = fresh key [c] (s.expanded.flatMap next) := by
  rw [h.known] at hroom ⊢
  exact eq_of_room_cut hroom

/-- The first vertex of the queue is the next one in the order of discovery. -/
theorem head (hqueue : s.queue = (a, d) :: rest) (hroom : Room limit s.found.length) :
    ∃ todo below : List α, rest = todo.map (·, d) ++ below.map (·, d + 1) ∧
      order key next c d = s.expanded ++ a :: todo := by
  obtain ⟨k, todo, below, hlevel, horder, -⟩ := h.level
  rw [hqueue] at hlevel
  cases todo with
  | cons b todo =>
    obtain ⟨hhead, rfl⟩ := List.cons.inj hlevel
    cases hhead
    exact ⟨todo, below, rfl, horder⟩
  | nil =>
    -- The round is over, and what it has found is the next one.
    cases below with
    | nil => cases hlevel
    | cons b below =>
      obtain ⟨hhead, rfl⟩ := List.cons.inj hlevel
      cases hhead
      refine ⟨below, [], by simp, ?_⟩
      have hfound := h.found_of_room hroom
      rw [List.append_nil] at horder
      rw [← horder, ← discovery_succ] at hfound
      have hkeys := h.keys
      rw [hqueue, hfound] at hkeys
      simpa [order, Function.comp_def] using hkeys

/-- **One step** keeps the invariant. -/
theorem expand (hqueue : s.queue = (a, d) :: rest) (hd : d < depth)
    (hroom : Room limit s.found.length) :
    Inv key next limit depth c (expand key next limit c a d { s with queue := rest }) := by
  obtain ⟨todo, below, rfl, horder⟩ := h.head hqueue hroom
  have hkeys := h.keys
  rw [hqueue, List.map_cons] at hkeys
  have hfound := h.found_of_room hroom
  obtain ⟨new, hnew, hfold⟩ := @foldl_offer _ _ _ key limit c
    { s with queue := todo.map (·, d) ++ below.map (·, d + 1), expanded := s.expanded ++ [a] }
    (d + 1) (next a) (cut_of_room hroom (Nat.le_succ _))
  -- What is new is a row of the vertex, and its key none of a vertex found before.
  have hfresh : ∀ row ∈ new, row ∈ next a ∧ key row ∉ c :: s.found.map key := by
    intro row hrow
    have hpre : s.found ++ new <+: s.found ++ fresh key (c :: s.found.map key) (next a) :=
      hnew ▸ cut_prefix
    exact mem_of_mem_fresh (((List.prefix_append_right_inj _).mp hpre).subset hrow)
  rw [BreadthFirst.expand, hfold]
  refine ⟨?_, ?_, ?_, ?_, ?_⟩
  · show c :: (s.found ++ new).map key = _
    rw [List.map_append, ← List.cons_append, hkeys]
    simp
  · show s.found ++ new = _
    rw [hnew, List.flatMap_append, fresh_append, ← hfound]
    simp
  · exact ⟨d, todo, below ++ new.map key, by simp, by simpa using horder, Or.inr hd⟩
  · intro p hp
    rcases List.mem_append.mp hp with hp | hp
    · exact h.label p (hqueue ▸ List.mem_cons_of_mem _ hp)
    · obtain ⟨row, hrow, rfl⟩ := List.mem_map.mp hp
      have ha := h.label (a, d) (hqueue ▸ List.mem_cons_self)
      refine ⟨ha.walk.step (hfresh row hrow).1, fun m hm => ?_⟩
      -- A vertex with a shorter walk is found by the end of its round.
      by_contra hlt
      have hmem : key row ∈ order key next c d := mem_order.mpr ⟨m, by omega, hm⟩
      refine (hfresh row hrow).2 ?_
      rw [hkeys]
      rw [horder] at hmem
      rcases List.mem_append.mp hmem with hmem | hmem
      · exact List.mem_append_left _ hmem
      · refine List.mem_append_right _ ((List.mem_cons.mp hmem).elim
          (fun h => h ▸ List.mem_cons_self) fun hmem => List.mem_cons_of_mem _ ?_)
        simp [hmem]
  · intro i hi
    have hi : i < s.expanded.length + 1 := by simpa using hi
    rcases Nat.lt_succ_iff_lt_or_eq.mp hi with hi | rfl
    · exact h.expands i hi
    · have hlength := congrArg List.length horder
      have hle := (@order_isPrefix _ _ _ key next c d (depth - 1) (by omega)).length_le
      rw [List.length_append, List.length_cons] at hlength
      refine ⟨⟨by omega, by omega⟩, ?_⟩
      rw [h.known_eq, ← hfound]
      exact hroom

/-! ## The end of a search -/

/-- What is known from the vertices expanded is discovered within the depth. -/
theorem fresh_isPrefix_discovery :
    fresh key [c] (s.expanded.flatMap next) <+: discovery key next c depth := by
  obtain ⟨k, todo, below, -, horder, ⟨hnil, -⟩ | hk⟩ := h.level
  · rw [hnil]
    exact List.nil_prefix
  · refine List.IsPrefix.trans ?_ (discovery_isPrefix hk)
    rw [discovery_succ, horder, List.flatMap_append]
    exact fresh_prefix (List.prefix_append _ _)

theorem length_expanded_le :
    s.expanded.length ≤ (cut limit (discovery key next c depth)).length + 1 := by
  have hkeys := congrArg List.length h.keys
  have hle := @length_cut_le _ limit _ _ h.fresh_isPrefix_discovery.length_le
  rw [← h.known] at hle
  simp only [List.length_cons, List.length_map, List.length_append] at hkeys
  omega

variable (hstop : ∀ a d rest, s.queue = (a, d) :: rest → depth ≤ d ∨ ¬ Room limit s.found.length)
include hstop

/-- **What is found** when the search stops. -/
theorem found_eq : s.found = cut limit (discovery key next c depth) := by
  by_cases hroom : Room limit s.found.length
  · have hfound := h.found_of_room hroom
    obtain ⟨k, todo, below, hlevel, horder, hk⟩ := h.level
    have hall : discovery key next c depth = s.found := by
      cases todo with
      | cons b todo =>
        -- The centre is still queued, and the depth is zero.
        have hdepth := (hstop _ _ _ hlevel).resolve_right (not_not_intro hroom)
        obtain ⟨hnil, rfl⟩ := hk.resolve_right (by omega)
        obtain rfl := Nat.le_zero.mp hdepth
        rw [hfound, hnil]
        rfl
      | nil =>
        rw [List.append_nil] at horder
        have hk : k < depth := hk.resolve_left fun hnil => by
          rw [hnil.1] at horder
          cases horder
        rw [← horder, ← discovery_succ] at hfound
        cases below with
        | nil =>
          have hkeys := h.keys
          rw [hlevel, hfound] at hkeys
          rw [hfound]
          refine discovery_eq_of_order_eq ?_ hk
          rw [horder]
          simpa [order] using hkeys
        | cons b below =>
          have hdepth := (hstop _ _ _ hlevel).resolve_right (not_not_intro hroom)
          rw [hfound, Nat.le_antisymm hdepth hk]
    rw [hall, hfound]
    exact hfound ▸ h.known
  · rw [h.known] at hroom ⊢
    exact (cut_of_isPrefix h.fresh_isPrefix_discovery hroom).symm

theorem not_expands : ¬ Expands key next limit depth c s.expanded.length := by
  rintro ⟨⟨hpos, hi⟩, hroom⟩
  rw [h.known_eq] at hroom
  have hroom : Room limit s.found.length := room_of_le hroom (by
    rw [h.known]
    exact cut_prefix.length_le)
  cases hqueue : s.queue with
  | nil =>
    -- Every vertex in reach has been expanded.
    have hfound := h.found_eq hstop
    rw [hfound] at hroom
    rw [eq_of_room_cut hroom] at hfound
    have hkeys := h.keys
    rw [hqueue, hfound, List.map_nil, List.append_nil] at hkeys
    have hle := (@order_isPrefix _ _ _ key next c _ _ (Nat.sub_le depth 1)).length_le
    rw [← hkeys] at hi
    exact absurd hi (Nat.not_lt.mpr hle)
  | cons p rest =>
    obtain ⟨a, d⟩ := p
    have hd := (hstop a d rest hqueue).resolve_right (not_not_intro hroom)
    obtain ⟨todo, -, -, horder⟩ := h.head hqueue hroom
    -- The next vertex would be nearer than it is.
    have hpre := @order_isPrefix _ _ _ key next c (depth - 1) d (by omega)
    have hget := hpre.getElem hi
    simp only [horder, List.getElem_append_right (Nat.le_refl _), Nat.sub_self,
      List.getElem_cons_zero] at hget
    obtain ⟨n, hn, hwalk⟩ := mem_order.mp (hget ▸ List.getElem_mem hi)
    have hle := (h.label (a, d) (hqueue ▸ List.mem_cons_self)).le n hwalk
    have hle : d ≤ n := hle
    omega

theorem length_expanded : s.expanded.length = expansions key next limit depth c :=
  ((Nat.find_eq_iff _).mpr ⟨h.not_expands hstop, fun i hi => not_not_intro (h.expands i hi)⟩).symm

end Inv

variable (key next limit depth c) in
/-- What a search has found, expanded and left in the queue. -/
structure Finished (s : State α β) : Prop where
  found : s.found = cut limit (discovery key next c depth)
  found_known : s.found =
    cut limit (known key next depth c (expansions key next limit depth c))
  expanded : s.expanded =
    (order key next c depth).take (expansions key next limit depth c)
  expanded_prefix : s.expanded <+: c :: s.found.map key
  queue : s.queue.map Prod.fst =
    (c :: s.found.map key).drop (expansions key next limit depth c + 1)
  label : ∀ p ∈ s.queue, IsDist key next c p.2 p.1

theorem Inv.finished (h : Inv key next limit depth c s)
    (hstop : ∀ a d rest, s.queue = (a, d) :: rest → depth ≤ d ∨ ¬ Room limit s.found.length) :
    Finished key next limit depth c { s with queue := s.queue.tail } := by
  have hlength := h.length_expanded hstop
  refine ⟨h.found_eq hstop, ?_, ?_, ?_, ?_, fun p hp => h.label p (List.mem_of_mem_tail hp)⟩
  · rw [← hlength, h.known_eq]
    exact h.known
  · rw [← hlength]
    exact List.prefix_iff_eq_take.mp h.expanded_prefix
  · show s.expanded <+: c :: s.found.map key
    rw [h.keys]
    exact List.prefix_append _ _
  · show s.queue.tail.map Prod.fst = (c :: s.found.map key).drop _
    rw [h.keys, ← hlength, ← List.drop_drop, List.drop_left, List.drop_one, List.map_tail]

theorem Inv.search (h : Inv key next limit depth c s)
    (hfuel : (cut limit (discovery key next c depth)).length + 2 ≤ fuel + s.expanded.length) :
    ∃ s', search key next limit depth c fuel s = some s' ∧
      Finished key next limit depth c s' := by
  induction fuel generalizing s with
  | zero =>
    have hle := h.length_expanded_le
    omega
  | succ fuel ih =>
    cases hqueue : s.queue with
    | nil =>
      refine ⟨_, search_of_nil hqueue, ?_⟩
      have hfinished := h.finished fun a d rest hcons => by
        rw [hqueue] at hcons
        cases hcons
      rwa [hqueue, List.tail_nil, ← hqueue] at hfinished
    | cons p rest =>
      obtain ⟨a, d⟩ := p
      by_cases hstop : depth ≤ d ∨ ¬ Room limit s.found.length
      · refine ⟨_, search_of_stop hqueue hstop, ?_⟩
        have hfinished := h.finished fun a' d' rest' hcons => by
          rw [hqueue] at hcons
          cases hcons
          exact hstop
        rwa [hqueue] at hfinished
      · -- An expansion costs one unit of fuel, and expands one more address.
        rw [search_of_expand hqueue hstop]
        rw [not_or, not_not, Nat.not_le] at hstop
        refine ih (h.expand hqueue hstop.1 hstop.2) ?_
        rw [expanded_expand, List.length_append, List.length_singleton]
        show _ ≤ fuel + (s.expanded.length + 1)
        omega

/-- **A search ends**, with the beginning of the order of discovery found. -/
theorem search_finished
    (hfuel : (cut limit (discovery key next c depth)).length + 2 ≤ fuel) :
    ∃ s, search key next limit depth c fuel (start c) = some s ∧
      Finished key next limit depth c s :=
  Inv.start.search hfuel

namespace Finished

variable (h : Finished key next limit depth c s)
include h

theorem length_queue :
    s.queue.length = s.found.length - expansions key next limit depth c := by
  have hlength := congrArg List.length h.queue
  simp only [List.length_map, List.length_drop, List.length_cons] at hlength
  omega

theorem map_found_prefix : c :: s.found.map key <+: order key next c depth := by
  obtain ⟨rest, hrest⟩ : s.found <+: discovery key next c depth := h.found ▸ cut_prefix
  unfold order
  rw [← hrest, List.map_append, ← List.cons_append]
  exact List.prefix_append _ _

/-- The last vertex in the queue is the last one found, and none is farther away. -/
theorem getLast {p : α × ℕ} (hp : s.queue.getLast? = some p) :
    p.1 ∈ s.found.map key ∧ IsDist key next c p.2 p.1 ∧ p.2 ≤ depth ∧
      ∀ a ∈ s.found.map key, ∀ n, IsDist key next c n a → n ≤ p.2 := by
  have hdist := h.label p (List.mem_of_getLast? hp)
  have hpos : expansions key next limit depth c < s.found.length := by
    have hne : s.queue.length ≠ 0 := fun hzero => by
      rw [List.length_eq_zero_iff.mp hzero] at hp
      cases hp
    have hlength := h.length_queue
    omega
  -- The queue ends as the list of the vertices found does.
  obtain ⟨front, hfront⟩ : ∃ front, s.found.map key = front ++ [p.1] := by
    have hlast := congrArg List.getLast? h.queue
    rw [List.getLast?_map, hp, List.drop_succ_cons, List.getLast?_drop,
      if_neg (by simpa using hpos)] at hlast
    exact List.getLast?_eq_some_iff.mp hlast.symm
  have hmem : p.1 ∈ s.found.map key := hfront ▸ List.mem_append_right _ List.mem_cons_self
  have hsorted := order_sorted.sublist h.map_found_prefix.sublist
  rw [hfront, ← List.cons_append, List.pairwise_append] at hsorted
  refine ⟨hmem, hdist, ?_, fun a ha n hn => ?_⟩
  · obtain ⟨n, hn, hwalk⟩ := mem_order.mp
      (h.map_found_prefix.subset (List.mem_cons_of_mem c hmem))
    exact (hdist.le n hwalk).trans hn
  · rw [hfront] at ha
    rcases List.mem_append.mp ha with ha | ha
    · exact hsorted.2.2 a (List.mem_cons_of_mem c ha) p.1 List.mem_cons_self n p.2 hn hdist
    · rw [List.mem_singleton.mp ha] at hn
      exact (hn.unique hdist).le

end Finished

end Search

end BreadthFirst
