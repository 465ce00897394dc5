import ChainLens.Indexer.Main

/-!
# The scheduler

`next_block` says which height follows a cursor. The loop of `main` does not ask it: it takes a
range from its cursor on. The two agree, and cover the heights still to be indexed, exactly when
the cursor lies just below the configured start and the head above it, or nothing is left to do.

## Main definitions

* `nextBlock`, `schedule`: the scheduler, and the first heights of its iteration
* `Iterates`: the whole iteration, until it returns nothing
* `Config.heightsToIndex`: the heights from the start, or from after the stored cursor

## Main results

* `iterates_eq`: what the iteration enumerates
* `dispatch_refines_iff`: when main's dispatch is the scheduler's
-/

namespace ChainLens

structure ChainHead where
  latest : ℕ
  safe : ℕ
  finalized : ℕ

def nextBlock (cursor : ℕ) (head : ChainHead) (backfillFrom : ℕ) : Option ℕ :=
  if cursor < backfillFrom then some backfillFrom
  else if cursor < head.finalized then some (cursor + 1)
  else if cursor < head.latest then some (cursor + 1)
  else none

/-- The first `k` heights of the iteration from a cursor. -/
def schedule (head : ChainHead) (backfillFrom : ℕ) : ℕ → ℕ → List ℕ
  | 0, _ => []
  | k + 1, cursor =>
    match nextBlock cursor head backfillFrom with
    | none => []
    | some n => n :: schedule head backfillFrom k n

/-- From the cursor on the iteration returns these heights, and then nothing. -/
inductive Iterates (head : ChainHead) (backfillFrom : ℕ) : ℕ → List ℕ → Prop where
  | stop {cursor : ℕ} (h : nextBlock cursor head backfillFrom = none) :
      Iterates head backfillFrom cursor []
  | next {cursor n : ℕ} {ns : List ℕ} (h : nextBlock cursor head backfillFrom = some n)
      (hrest : Iterates head backfillFrom n ns) : Iterates head backfillFrom cursor (n :: ns)

/-- The heights still to be indexed: from the configured start on, or from after the stored
cursor. -/
def Config.heightsToIndex (cfg : Config) (stored : Option ℕ) (latest : ℕ) : List ℕ :=
  let first := match stored with
    | none => cfg.backfillFrom
    | some n => n + 1
  List.range' first (latest + 1 - first)

section Iteration

variable {head : ChainHead} {backfillFrom cursor : ℕ} {ns ms : List ℕ}

theorem schedule_eq_take (h : Iterates head backfillFrom cursor ns) (k : ℕ) :
    schedule head backfillFrom k cursor = ns.take k := by
  induction h generalizing k with
  | stop h =>
    cases k with
    | zero => rfl
    | succ k => simp [schedule, h]
  | next h _ ih =>
    cases k with
    | zero => rfl
    | succ k => simp [schedule, h, ih]

theorem Iterates.unique (h : Iterates head backfillFrom cursor ns)
    (h' : Iterates head backfillFrom cursor ms) : ns = ms := by
  induction h generalizing ms with
  | stop hnone =>
    cases h' with
    | stop => rfl
    | next hsome => simp [hnone] at hsome
  | next hsome _ ih =>
    cases h' with
    | stop hnone => simp [hsome] at hnone
    | next hsome' hrest =>
      obtain rfl := Option.some.inj (hsome.symm.trans hsome')
      rw [ih hrest]

/-- From the start on the iteration counts up to the larger of the two heads. -/
theorem iterates_range (hcursor : backfillFrom ≤ cursor) :
    Iterates head backfillFrom cursor
      (List.range' (cursor + 1) (max head.finalized head.latest - cursor)) := by
  induction hn : max head.finalized head.latest - cursor generalizing cursor with
  | zero =>
    refine .stop ?_
    unfold nextBlock
    rw [if_neg (by omega), if_neg (by omega), if_neg (by omega)]
  | succ k ih =>
    rw [List.range'_succ]
    refine .next ?_ (ih (by omega) (by omega))
    unfold nextBlock
    rw [if_neg (by omega)]
    split
    · rfl
    · exact if_pos (by omega)

/-- **What the iteration enumerates**: below the start it goes to it, whatever the head. -/
theorem iterates_eq : Iterates head backfillFrom cursor
    (if cursor < backfillFrom then
      backfillFrom :: List.range' (backfillFrom + 1) (max head.finalized head.latest - backfillFrom)
    else List.range' (cursor + 1) (max head.finalized head.latest - cursor)) := by
  split
  next hlow => exact .next (if_pos hlow) (iterates_range (Nat.le_refl _))
  next hlow => exact iterates_range (by omega)

end Iteration

/-- Where the iteration from a cursor begins. -/
theorem Iterates.head?_eq {head : ChainHead} {backfillFrom cursor : ℕ} {ns : List ℕ}
    (h : Iterates head backfillFrom cursor ns) : ns.head? = nextBlock cursor head backfillFrom := by
  cases h with
  | stop h => rw [h, List.head?_nil]
  | next h => rw [h, List.head?_cons]

theorem head?_heightsThrough (first latest : ℕ) :
    (List.range' first (latest + 1 - first)).head? =
      if first ≤ latest then some first else none := by
  split
  next h => rw [Nat.sub_add_comm h, List.range'_succ, List.head?_cons]
  next h => rw [Nat.sub_eq_zero_of_le (by omega), List.range'_zero, List.head?_nil]

namespace Config

variable (cfg : Config) (stored : Option ℕ) (head : ChainHead)

/-- Below the start, main and the scheduler begin at the start. -/
theorem dispatch_refines_of_below (hcursor : stored.getD cfg.initialCursor + 1 = cfg.backfillFrom)
    (hlatest : cfg.backfillFrom ≤ head.latest) (hfinal : head.finalized ≤ head.latest) :
    let cursor := stored.getD cfg.initialCursor
    cfg.blocksToFetch cursor head.latest = (cfg.heightsToIndex stored head.latest).take
        (cfg.fetchQueueDepth * 2) ∧
      Iterates head cfg.backfillFrom cursor (cfg.heightsToIndex stored head.latest) := by
  intro cursor
  have hheights : cfg.heightsToIndex stored head.latest =
      List.range' cfg.backfillFrom (head.latest + 1 - cfg.backfillFrom) := by
    cases stored with
    | none => rfl
    | some n =>
      have hfirst : n + 1 = cfg.backfillFrom := hcursor
      simp [heightsToIndex, hfirst]
  rw [hheights]
  constructor
  · have hstart : max cursor cfg.backfillFrom = cfg.backfillFrom := max_eq_right (by omega)
    simp [blocksToFetch, hstart]
  · have hiterates := @iterates_eq head cfg.backfillFrom cursor
    rw [if_pos (by omega), max_eq_right hfinal] at hiterates
    rwa [Nat.sub_add_comm hlatest, List.range'_succ]

/-- Above both heads, neither has anything to do. -/
theorem dispatch_refines_of_above (hstart : cfg.backfillFrom ≤ stored.getD cfg.initialCursor)
    (hlatest : head.latest < stored.getD cfg.initialCursor)
    (hfinal : head.finalized ≤ stored.getD cfg.initialCursor) :
    let cursor := stored.getD cfg.initialCursor
    cfg.blocksToFetch cursor head.latest = (cfg.heightsToIndex stored head.latest).take
        (cfg.fetchQueueDepth * 2) ∧
      Iterates head cfg.backfillFrom cursor (cfg.heightsToIndex stored head.latest) := by
  intro cursor
  have hheights : cfg.heightsToIndex stored head.latest = [] := by
    cases stored with
    | none =>
      have hlatest : head.latest < cfg.backfillFrom - 1 := hlatest
      have hstart : cfg.backfillFrom ≤ cfg.backfillFrom - 1 := hstart
      omega
    | some n =>
      have hlatest : head.latest < n := hlatest
      simp [heightsToIndex]
      omega
  have hstart' : max cursor cfg.backfillFrom = cursor := max_eq_left hstart
  rw [hheights]
  constructor
  · simp [blocksToFetch, hstart']
    omega
  · refine .stop ?_
    unfold nextBlock
    rw [if_neg (by omega), if_neg (by omega), if_neg (by omega)]

end Config

/-- **When main's dispatch is the scheduler's**: main takes the first heights of the iteration from
its cursor, and the iteration is of the heights still to be indexed. -/
theorem dispatch_refines_iff (cfg : Config) (stored : Option ℕ) (head : ChainHead) :
    let cursor := stored.getD cfg.initialCursor
    (cfg.blocksToFetch cursor head.latest =
        schedule head cfg.backfillFrom (cfg.fetchQueueDepth * 2) cursor ∧
      Iterates head cfg.backfillFrom cursor (cfg.heightsToIndex stored head.latest)) ↔
    (cursor + 1 = cfg.backfillFrom ∧ cfg.backfillFrom ≤ head.latest ∧
        head.finalized ≤ head.latest) ∨
      (cfg.backfillFrom ≤ cursor ∧ head.latest < cursor ∧ head.finalized ≤ cursor) := by
  intro cursor
  constructor
  · rintro ⟨hdispatch, hheights⟩
    have hdepth : cfg.fetchQueueDepth * 2 ≠ 0 := by
      have := cfg.fetchQueueDepth_pos
      omega
    rw [schedule_eq_take hheights] at hdispatch
    -- Both lists begin alike, which leaves the two cases.
    have hbegin := congrArg List.head? hdispatch
    unfold Config.blocksToFetch at hbegin
    rw [List.head?_take, List.head?_take, if_neg hdepth, if_neg hdepth] at hbegin
    have hnext := hheights.head?_eq
    have hlength := congrArg List.length (hheights.unique iterates_eq)
    obtain ⟨first, hfirst, hfirst'⟩ : ∃ first, cfg.heightsToIndex stored head.latest =
        List.range' first (head.latest + 1 - first) ∧
        (first = cfg.backfillFrom ∧ cursor = cfg.backfillFrom - 1 ∨ first = cursor + 1) := by
      cases stored with
      | none => exact ⟨_, rfl, .inl ⟨rfl, rfl⟩⟩
      | some n => exact ⟨_, rfl, .inr rfl⟩
    rw [hfirst] at hbegin hnext hlength
    rw [head?_heightsThrough] at hbegin hnext
    rw [head?_heightsThrough] at hbegin
    unfold nextBlock at hnext
    -- Below the configured start the iteration begins there, and above it behind the cursor.
    by_cases hlow : cursor < cfg.backfillFrom
    · left
      rw [if_pos hlow] at hlength hnext
      rw [List.length_range', List.length_cons, List.length_range'] at hlength
      split at hnext
      · obtain rfl := Option.some.inj hnext
        omega
      · cases hnext
    · right
      rw [if_neg hlow] at hnext
      rw [max_eq_left (by omega)] at hbegin
      split at hnext
      · rw [if_pos (by omega)] at hbegin
        split at hnext <;> grind
      · grind
  · rintro (⟨hcursor, hlatest, hfinal⟩ | ⟨hstart, hlatest, hfinal⟩)
    · obtain ⟨hdispatch, hheights⟩ :=
        cfg.dispatch_refines_of_below stored head hcursor hlatest hfinal
      exact ⟨by rw [hdispatch, schedule_eq_take hheights], hheights⟩
    · obtain ⟨hdispatch, hheights⟩ :=
        cfg.dispatch_refines_of_above stored head hstart hlatest hfinal
      exact ⟨by rw [hdispatch, schedule_eq_take hheights], hheights⟩

/-- With height 5 indexed and 8 the head, main dispatches 5 again. -/
theorem dispatch_again :
    ¬ ∀ (cfg : Config) (stored : Option ℕ) (head : ChainHead),
      let cursor := stored.getD cfg.initialCursor
      cfg.blocksToFetch cursor head.latest =
          schedule head cfg.backfillFrom (cfg.fetchQueueDepth * 2) cursor ∧
        Iterates head cfg.backfillFrom cursor (cfg.heightsToIndex stored head.latest) := by
  intro hrefines
  have hdispatch := (hrefines
    { backfillFrom := 0, maxReorgDepth := 64, workerCount := 1, fetchQueueDepth := 2,
      fetchQueueDepth_pos := by decide, fetchQueueDepth_le := by decide }
    (some 5) { latest := 8, safe := 6, finalized := 5 }).1
  revert hdispatch
  decide

end ChainLens
