import Mathlib.Logic.Relation
import Mathlib.Tactic.Common

/-!
# Runs of transition systems

A labelled step relation `step s e s'` and its finite runs, recorded move by move; and, for
unlabelled steps, runs that must end. An invariant may depend on what each move was allowed to
do: the rule takes a condition on moves and asks preservation only for moves that meet it.

## Main definitions

* `Transition.Move`, `Transition.Run`: moves and the runs they make up

## Main results

* `Run.invariant`: an invariant kept by the allowed moves holds at the end
* `Run.invariant_before`: it holds before each move as well
* `Run.project`: a run seen through a function of its states is a run of what is seen
* `Run.determined`: in a deterministic system the events decide a run
* `exists_terminal`: a measure that every step decreases leads to a state without steps
-/

namespace Transition

variable {σ ε : Type}

/-- One step of a run, with the states around it. -/
structure Move (σ ε : Type) where
  before : σ
  event : ε
  after : σ

/-- The finite runs of a labelled step relation, as the list of their moves. -/
inductive Run (step : σ → ε → σ → Prop) : σ → List (Move σ ε) → σ → Prop where
  | nil (s : σ) : Run step s [] s
  | cons {s t u : σ} {e : ε} {moves : List (Move σ ε)} :
      step s e t → Run step t moves u → Run step s (⟨s, e, t⟩ :: moves) u

namespace Run

variable {step : σ → ε → σ → Prop} {s t u : σ} {moves moves' : List (Move σ ε)}

theorem append (h : Run step s moves t) (h' : Run step t moves' u) :
    Run step s (moves ++ moves') u := by
  induction h with
  | nil => exact h'
  | cons hstep _ ih => exact .cons hstep (ih h')

/-- A run splits wherever its list of moves does. -/
theorem split (h : Run step s (moves ++ moves') u) :
    ∃ t, Run step s moves t ∧ Run step t moves' u := by
  induction moves generalizing s with
  | nil => exact ⟨s, .nil s, h⟩
  | cons move moves ih =>
    cases h with
    | cons hstep hrest =>
      obtain ⟨t, h₁, h₂⟩ := ih hrest
      exact ⟨t, .cons hstep h₁, h₂⟩

/-- Every move of a run is a step. -/
theorem step_of_mem (h : Run step s moves u) {move : Move σ ε} (hmove : move ∈ moves) :
    step move.before move.event move.after := by
  induction h with
  | nil => cases hmove
  | cons hstep _ ih =>
    rcases List.mem_cons.mp hmove with rfl | hmove
    · exact hstep
    · exact ih hmove

/-- **The invariant rule**: an invariant kept by every step that meets `allowed` holds at the end
of a run all of whose moves meet it. -/
theorem invariant {inv : σ → Prop} {allowed : Move σ ε → Prop}
    (hkeep : ∀ s e t, step s e t → allowed ⟨s, e, t⟩ → inv s → inv t)
    (h : Run step s moves u) (hallowed : ∀ move ∈ moves, allowed move) (hs : inv s) : inv u := by
  induction h with
  | nil => exact hs
  | cons hstep _ ih =>
    -- The first move hands the invariant to the rest of the run.
    exact ih (fun move hmove => hallowed move (List.mem_cons_of_mem _ hmove))
      (hkeep _ _ _ hstep (hallowed _ List.mem_cons_self) hs)

/-- The invariant holds before every move of the run. -/
theorem invariant_before {inv : σ → Prop} {allowed : Move σ ε → Prop}
    (hkeep : ∀ s e t, step s e t → allowed ⟨s, e, t⟩ → inv s → inv t)
    (h : Run step s moves u) (hallowed : ∀ move ∈ moves, allowed move) (hs : inv s)
    {move : Move σ ε} (hmove : move ∈ moves) : inv move.before := by
  induction h with
  | nil => cases hmove
  | cons hstep _ ih =>
    rcases List.mem_cons.mp hmove with rfl | hmove
    · exact hs
    · exact ih (fun move hmove => hallowed move (List.mem_cons_of_mem _ hmove))
        (hkeep _ _ _ hstep (hallowed _ List.mem_cons_self) hs) hmove

/-- A run in one system is one in another that has its steps. -/
theorem map {τ δ : Type} {step' : τ → δ → τ → Prop} (f : σ → τ) (g : ε → δ)
    (hstep : ∀ s e t, step s e t → step' (f s) (g e) (f t)) (h : Run step s moves u) :
    Run step' (f s) (moves.map fun move => ⟨f move.before, g move.event, f move.after⟩) (f u) := by
  induction h with
  | nil s => exact .nil (f s)
  | cons hfirst _ ih => exact .cons (hstep _ _ _ hfirst) ih

/-- A run whose events meet a condition can be taken with events that meet another, if every step
can. -/
theorem relabel {P Q : ε → Prop} (hstep : ∀ s e t, step s e t → P e → ∃ e', step s e' t ∧ Q e')
    (h : Run step s moves u) (hP : ∀ move ∈ moves, P move.event) :
    ∃ moves', Run step s moves' u ∧ ∀ move ∈ moves', Q move.event := by
  induction h with
  | nil s => exact ⟨[], .nil s, fun _ hmove => absurd hmove List.not_mem_nil⟩
  | @cons s t u e moves hfirst _ ih =>
    obtain ⟨hhead, htail⟩ := List.forall_mem_cons.mp hP
    obtain ⟨e', hfirst', hQ⟩ := hstep s e t hfirst hhead
    obtain ⟨moves', hrest, hall⟩ := ih htail
    exact ⟨_, .cons hfirst' hrest, List.forall_mem_cons.mpr ⟨hQ, hall⟩⟩

/-- **Projection**: when every step from a state with the invariant, seen through `f`, is a step of
another system with the event seen of it, or nothing at all where no event is seen, a run seen
through `f` is a run of that system. -/
theorem project {τ δ : Type} {seen : τ → δ → τ → Prop} (f : σ → τ) (obs : ε → Option δ)
    {inv : σ → Prop} (hkeep : ∀ s e t, step s e t → inv s → inv t)
    (hseen : ∀ s e t, step s e t → inv s → ∀ d ∈ obs e, seen (f s) d (f t))
    (hunseen : ∀ s e t, step s e t → inv s → obs e = none → f t = f s) (h : Run step s moves u)
    (hs : inv s) :
    Run seen (f s)
      (moves.filterMap fun move => (obs move.event).map fun d => ⟨f move.before, d, f move.after⟩)
      (f u) := by
  induction h with
  | nil s => exact .nil (f s)
  | @cons s t u e moves hstep _ ih =>
    have hrest := ih (hkeep s e t hstep hs)
    cases hobs : obs e with
    | none =>
      have hsame := hunseen s e t hstep hs hobs
      rw [hsame] at hrest
      simpa only [List.filterMap_cons, hobs, Option.map_none] using hrest
    | some d =>
      simp only [List.filterMap_cons, hobs, Option.map_some]
      exact .cons (hseen s e t hstep hs d hobs) hrest

/-- **Determinism**: runs from one state with the same events are the same. -/
theorem determined (hdet : ∀ s e t t', step s e t → step s e t' → t = t') {u' : σ}
    (h : Run step s moves u) (h' : Run step s moves' u')
    (hevents : moves.map (·.event) = moves'.map (·.event)) : moves = moves' ∧ u = u' := by
  induction h generalizing moves' with
  | nil s =>
    cases h' with
    | nil => exact ⟨rfl, rfl⟩
    | cons => cases hevents
  | @cons s t u e moves hstep _ ih =>
    cases h' with
    | nil => cases hevents
    | @cons _ t' _ e' rest hstep' hrest =>
      rw [List.map_cons, List.map_cons, List.cons.injEq] at hevents
      obtain ⟨rfl, hevents⟩ := hevents
      obtain rfl := hdet s e t t' hstep hstep'
      obtain ⟨rfl, rfl⟩ := ih hrest hevents
      exact ⟨rfl, rfl⟩

end Run

/-! ## Runs that end -/

variable {step : σ → σ → Prop}

/-- **A run that must end**: along a decreasing measure some state without steps is reached. -/
theorem exists_terminal (μ : σ → ℕ) (hμ : ∀ s t, step s t → μ t < μ s) (s : σ) :
    ∃ t, Relation.ReflTransGen step s t ∧ ∀ u, ¬ step t u := by
  induction hn : μ s using Nat.strongRecOn generalizing s with
  | ind n ih =>
    -- Either the state has no step, or one to a state of smaller measure.
    by_cases hstep : ∃ t, step s t
    · obtain ⟨t, ht⟩ := hstep
      obtain ⟨u, hu, hterm⟩ := ih (μ t) (hn ▸ hμ s t ht) t rfl
      exact ⟨u, hu.head ht, hterm⟩
    · exact ⟨s, .refl, not_exists.mp hstep⟩

end Transition
