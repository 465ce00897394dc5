import Mathlib.Data.List.Basic
import Mathlib.Data.List.Range
import Mathlib.Tactic.Common

/-!
# Elements with their neighbours

A scan looks at each element of a list that has one before and one after it.

## Main definitions

* `Neighbours`: an element with its neighbours
* `Neighbours.around`, `Neighbours.all`: those of an index, and of all indices in order

## Main results

* `Neighbours.filterMap_around`: a loop over the indices visits all of them, in order
* `Neighbours.map_filter_eq_iff`: when two scans keep the same elements
-/

@[ext] structure Neighbours (α : Type) where
  prev : α
  curr : α
  next : α

namespace Neighbours

variable {α β : Type}

/-- The element at an index, if it has both neighbours. -/
def around (l : List α) (i : ℕ) : Option (Neighbours α) := do
  return ⟨← l[i - 1]?, ← l[i]?, ← l[i + 1]?⟩

/-- Every element that has both neighbours. -/
def all : List α → List (Neighbours α)
  | prev :: curr :: next :: rest => ⟨prev, curr, next⟩ :: all (curr :: next :: rest)
  | _ => []

theorem length_all (l : List α) : (all l).length = l.length - 2 := by
  fun_induction all l with
  | case1 prev curr next rest ih =>
    rw [List.length_cons, ih]
    simp
  | case2 l h =>
    match l, h with
    | [], _ | [_], _ | [_, _], _ => rfl
    | _ :: _ :: _ :: _, h => exact absurd rfl (h _ _ _ _)

theorem getElem?_all (l : List α) (i : ℕ) : (all l)[i]? = around l (i + 1) := by
  fun_induction all l generalizing i with
  | case1 prev curr next rest ih =>
    cases i with
    | zero => rfl
    | succ i => exact ih i
  | case2 l h =>
    match l, h with
    | [], _ | [_], _ => simp [around]
    | [_, _], _ => cases i <;> simp [around]
    | _ :: _ :: _ :: _, h => exact absurd rfl (h _ _ _ _)

/-- **The loop** over the indices between the first and the last one visits every element that has
both neighbours. -/
theorem filterMap_around (l : List α) (f : Neighbours α → Option β) :
    (List.range' 1 (l.length - 2)).filterMap (fun i => (around l i).bind f) =
      (all l).filterMap f := by
  have hindices : (List.range' 1 (l.length - 2)).map (around l) = (all l).map some := by
    apply List.ext_getElem?
    intro i
    rcases lt_or_ge i (l.length - 2) with hi | hi
    · have hsome : i < (all l).length := by rwa [length_all]
      rw [List.getElem?_map, List.getElem?_range' hi, List.getElem?_map, Option.map_some,
        Nat.one_mul, Nat.add_comm, ← getElem?_all, List.getElem?_eq_getElem hsome,
        Option.map_some]
    -- Both lists end before the last element.
    · rw [List.getElem?_eq_none (by simpa using hi),
        List.getElem?_eq_none (by simpa [length_all] using hi)]
  calc (List.range' 1 (l.length - 2)).filterMap (fun i => (around l i).bind f)
      = ((List.range' 1 (l.length - 2)).map (around l)).filterMap (·.bind f) := by
        rw [List.filterMap_map]
        rfl
    _ = (all l).filterMap f := by
        rw [hindices, List.filterMap_map]
        rfl

/-- **Two scans**, one of which keeps all that the other keeps, report the same exactly if they keep
the same. -/
theorem map_filter_eq_iff {p q : α → Prop} [DecidablePred p] [DecidablePred q] {l : List α}
    (h : ∀ x ∈ l, q x → p x) (f : α → β) :
    (l.filter p).map f = (l.filter q).map f ↔ ∀ x ∈ l, p x → q x := by
  constructor
  · intro heq x hx hp
    have hlength : (l.filter p).length = (l.filter q).length := by
      simpa using congrArg List.length heq
    -- What the second scan keeps is a part of what the first one keeps, and as long.
    have hfilter : (l.filter p).filter (fun x => decide (q x)) = l.filter q := by
      rw [List.filter_filter]
      refine List.filter_congr fun x hx => ?_
      by_cases hq : q x
      · simp [hq, h x hx hq]
      · simp [hq]
    rw [← hfilter, eq_comm, List.length_filter_eq_length_iff] at hlength
    exact of_decide_eq_true (hlength x (List.mem_filter.mpr ⟨hx, decide_eq_true hp⟩))
  · intro hall
    rw [List.filter_congr fun x hx => decide_eq_decide.mpr ⟨hall x hx, h x hx⟩]

end Neighbours
