import Mathlib.Order.Bounds.Basic
import Mathlib.Data.List.Basic
import Mathlib.Data.List.Range
import Mathlib.Logic.Function.Basic
import Mathlib.Tactic.Common

/-!
# Restoring an order

Numbered elements arrive in any order, with gaps and more than once, and are released by number,
one after the other from a first number on. An element that is released is the last one that arrived
with its number until then.

## Main definitions

* `Reorder.Event`, `Reorder.arrivals`, `Reorder.releases`: arrivals and releases in their order
* `Reorder.latest`: the last arrival of a number
* `Reorder.Ordered`: a trace that releases last arrivals by number
* `Reorder.Holds`: the elements that wait are the last arrivals of the numbers to come

## Main results

* `Ordered.arrived`, `Ordered.released`, `Holds.arrived`, `Holds.released`: what one event keeps
* `Ordered.next_le`: no release gets past a number that never arrived
* `Ordered.isLeast_next`: without an element to release, the next number is the first missing one
-/

namespace Reorder

variable {α : Type}

inductive Event (α : Type) where
  | arrived (x : α)
  | released (x : α)
deriving DecidableEq

namespace Event

def arrival : Event α → Option α
  | arrived x => some x
  | released _ => none

def release : Event α → Option α
  | arrived _ => none
  | released x => some x

end Event

/-! ## Traces -/

section Traces

variable (trace trace' : List (Event α)) (x : α)

def arrivals : List α := trace.filterMap Event.arrival

def releases : List α := trace.filterMap Event.release

@[simp] theorem arrivals_append : arrivals (trace ++ trace') = arrivals trace ++ arrivals trace' :=
  List.filterMap_append

@[simp] theorem releases_append : releases (trace ++ trace') = releases trace ++ releases trace' :=
  List.filterMap_append

@[simp] theorem arrivals_arrived : arrivals [.arrived x] = [x] := rfl

@[simp] theorem arrivals_released : arrivals [.released x] = [] := rfl

@[simp] theorem releases_arrived : releases [.arrived x] = [] := rfl

@[simp] theorem releases_released : releases [.released x] = [x] := rfl

variable {trace}

/-- An event of a longer trace is its last one, or stands in the trace before. -/
theorem split_of_snoc {event e : Event α} {before after : List (Event α)}
    (h : trace ++ [event] = before ++ e :: after) :
    (trace = before ∧ event = e) ∨ ∃ after', trace = before ++ e :: after' := by
  rcases List.eq_nil_or_concat after with rfl | ⟨after, last, rfl⟩
  · obtain ⟨htrace, hevent⟩ := List.append_inj' h rfl
    exact .inl ⟨htrace, (List.cons.inj hevent).1⟩
  · rw [List.concat_eq_append, ← List.cons_append, ← List.append_assoc] at h
    exact .inr ⟨after, (List.append_inj' h rfl).1⟩

end Traces

/-! ## Last arrivals -/

section Latest

variable (number : α → ℕ) {xs : List α} {n : ℕ}

/-- The last element with a number. -/
def latest (xs : List α) (n : ℕ) : Option α := (xs.filter (number · = n)).getLast?

theorem latest_snoc (xs : List α) (x : α) :
    latest number (xs ++ [x]) = Function.update (latest number xs) (number x) (some x) := by
  funext n
  rw [latest, List.filter_append, Function.update_apply]
  by_cases h : number x = n
  · simp [h]
  · simp [h, Ne.symm h, latest]

variable {number}

theorem latest_eq_none_iff : latest number xs n = none ↔ ∀ x ∈ xs, number x ≠ n := by
  rw [latest, List.getLast?_eq_none_iff, List.filter_eq_nil_iff]
  simp

theorem latest_eq_some_iff {x : α} : latest number xs n = some x ↔
    number x = n ∧ ∃ before after, xs = before ++ x :: after ∧ ∀ y ∈ after, number y ≠ n := by
  constructor
  · intro h
    obtain ⟨kept, hkept⟩ := List.getLast?_eq_some_iff.mp h
    obtain ⟨before, rest, rfl, hbefore, hrest⟩ := List.filter_eq_append_iff.mp hkept
    obtain ⟨skipped, after, rfl, -, hx, hafter⟩ := List.filter_eq_cons_iff.mp hrest
    refine ⟨of_decide_eq_true hx, before ++ skipped, after, by simp, ?_⟩
    simpa [List.filter_eq_nil_iff] using hafter
  · rintro ⟨hx, before, after, rfl, hafter⟩
    have hnone : after.filter (number · = n) = [] := by
      simpa [List.filter_eq_nil_iff] using hafter
    simp [latest, hx, hnone]

theorem number_eq_of_latest {x : α} (h : latest number xs n = some x) : number x = n :=
  (latest_eq_some_iff.mp h).1

theorem mem_of_latest {x : α} (h : latest number xs n = some x) : x ∈ xs := by
  obtain ⟨-, before, after, rfl, -⟩ := latest_eq_some_iff.mp h
  simp

end Latest

/-! ## Order -/

section Order

variable (number : α → ℕ) (start : ℕ) (trace : List (Event α))

/-- The number to be released next. -/
def next : ℕ := start + (releases trace).length

/-- The releases have ascending numbers without gaps, and each is the last arrival of its number
until then. -/
structure Ordered : Prop where
  numbers : (releases trace).map number = List.range' start (releases trace).length
  latest : ∀ before x after, trace = before ++ .released x :: after →
    latest number (arrivals before) (number x) = some x

/-- What waits under the numbers to come is the last arrival of each. -/
def Holds (waiting : ℕ → Option α) : Prop :=
  ∀ n, next start trace ≤ n → waiting n = latest number (arrivals trace) n

variable {number start trace} {waiting : ℕ → Option α} {x : α}

@[simp] theorem next_arrived : next start (trace ++ [.arrived x]) = next start trace := by
  simp [next]

@[simp] theorem next_released : next start (trace ++ [.released x]) = next start trace + 1 := by
  simp [next, Nat.add_assoc]

theorem Ordered.nil : Ordered number start [] := ⟨rfl, by simp⟩

theorem Holds.nil : Holds number start [] fun _ => none := fun _ _ => rfl

/-- An element may arrive at any time. -/
theorem Ordered.arrived (h : Ordered number start trace) (x : α) :
    Ordered number start (trace ++ [.arrived x]) where
  numbers := by simpa using h.numbers
  latest before y after hsplit := by
    rcases split_of_snoc hsplit with ⟨-, hevent⟩ | ⟨after, htrace⟩
    · cases hevent
    · exact h.latest before y after htrace

/-- The last arrival replaces the one that waits. -/
theorem Holds.arrived (h : Holds number start trace waiting) (x : α) :
    Holds number start (trace ++ [.arrived x]) (Function.update waiting (number x) (some x)) := by
  intro n hn
  rw [next_arrived] at hn
  rw [arrivals_append, arrivals_arrived, latest_snoc, Function.update_apply, Function.update_apply,
    h n hn]

/-- The element that waits under the next number can be released. -/
theorem Ordered.released (h : Ordered number start trace)
    (hholds : Holds number start trace waiting) (hx : waiting (next start trace) = some x) :
    Ordered number start (trace ++ [.released x]) where
  numbers := by
    rw [hholds _ (Nat.le_refl _)] at hx
    have hnumber := number_eq_of_latest hx
    simp [h.numbers, List.range'_concat, hnumber, next]
  latest before y after hsplit := by
    rcases split_of_snoc hsplit with ⟨rfl, hevent⟩ | ⟨after, htrace⟩
    · cases hevent
      rw [hholds _ (Nat.le_refl _)] at hx
      rwa [number_eq_of_latest hx]
    · exact h.latest before y after htrace

/-- What waits under the other numbers stays, whatever becomes of the released one. -/
theorem Holds.released (h : Holds number start trace waiting) (x : α) (y : Option α) :
    Holds number start (trace ++ [.released x])
      (Function.update waiting (next start trace) y) := by
  intro n hn
  rw [next_released] at hn
  rw [Function.update_of_ne (by omega), h n (by omega), arrivals_append, arrivals_released,
    List.append_nil]

/-- Every number before the next one arrived. -/
theorem Ordered.exists_arrival (h : Ordered number start trace) {n : ℕ} (hstart : start ≤ n)
    (hn : n < next start trace) : ∃ x ∈ arrivals trace, number x = n := by
  have hmem : n ∈ (releases trace).map number := by
    rw [h.numbers, List.mem_range'_1]
    exact ⟨hstart, hn⟩
  obtain ⟨x, hx, rfl⟩ := List.mem_map.mp hmem
  obtain ⟨event, hevent, hrelease⟩ := List.mem_filterMap.mp hx
  cases event with
  | arrived y => cases hrelease
  | released y =>
    cases hrelease
    obtain ⟨before, after, rfl⟩ := List.append_of_mem hevent
    have hmem := mem_of_latest (h.latest before x after rfl)
    exact ⟨x, by simp [hmem], rfl⟩

/-- No release gets past a number that never arrived. -/
theorem Ordered.next_le (h : Ordered number start trace) {m : ℕ} (hstart : start ≤ m)
    (hmissing : ∀ x ∈ arrivals trace, number x ≠ m) : next start trace ≤ m := by
  by_contra hlt
  obtain ⟨x, hx, hnumber⟩ := h.exists_arrival hstart (Nat.lt_of_not_le hlt)
  exact hmissing x hx hnumber

/-- **Where nothing waits under the next number**, it is the first one that never arrived. -/
theorem Ordered.isLeast_next (h : Ordered number start trace)
    (hholds : Holds number start trace waiting) (hnone : waiting (next start trace) = none) :
    IsLeast {m | start ≤ m ∧ ∀ x ∈ arrivals trace, number x ≠ m} (next start trace) := by
  constructor
  · refine ⟨Nat.le_add_right _ _, ?_⟩
    rw [hholds _ (Nat.le_refl _)] at hnone
    exact latest_eq_none_iff.mp hnone
  · rintro m ⟨hstart, hmissing⟩
    exact h.next_le hstart hmissing

end Order

end Reorder
