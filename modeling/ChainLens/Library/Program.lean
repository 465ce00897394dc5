import Mathlib.Logic.Basic
import Mathlib.Tactic.Common

/-!
# Programs over a shared store

A program is a tree of queries, each of which returns the snapshot of the store it sees or an
error, and of statements, each of which changes the store in one step. It can be run on its own,
or step by step while others change the store in between. What it does in the second case follows
from two predicates on the tree, relative to an assertion that every snapshot satisfies: the
assertion grows by what a query has seen, since later snapshots come after it.

## Main definitions

* `Prog`, `Prog.run`, `Prog.step`: programs, their runs, and one step of a run
* `Prog.Every`: what every statement does, on any store
* `Prog.Always`: every statement is good, and so is every result
* `Prog.ReadsOnly`: no statement, and no answer after an error
* `Prog.Answers`: the results of a program whose queries are answered

## Main results

* `Prog.Every.bind`, `Prog.Every.step`, `Prog.Every.run`: composition, one step and whole runs
* `Prog.Always.bind`, `Prog.Always.step`: composition and one step
-/

/-- Programs over stores `σ` with snapshots `δ`, errors `ε` and results `α`. -/
inductive Prog (σ δ ε α : Type) : Type where
  | done (a : α)
  | panic (message : String)
  | query (next : Except ε δ → Prog σ δ ε α)
  | exec (stmt : σ → Except ε Unit × σ) (next : Except ε Unit → Prog σ δ ε α)

namespace Prog

variable {σ δ ε α β : Type}

def bind : Prog σ δ ε α → (α → Prog σ δ ε β) → Prog σ δ ε β
  | .done a, f => f a
  | .panic message, _ => .panic message
  | .query next, f => .query fun r => (next r).bind f
  | .exec stmt next, f => .exec stmt fun r => (next r).bind f

instance : Monad (Prog σ δ ε) where
  pure := .done
  bind := .bind

@[simp] theorem pure_eq (a : α) : (pure a : Prog σ δ ε α) = .done a := rfl

@[simp] theorem bind_eq (p : Prog σ δ ε α) (f : α → Prog σ δ ε β) : p >>= f = p.bind f := rfl

@[simp] theorem done_bind (a : α) (f : α → Prog σ δ ε β) : (done a).bind f = f a := rfl

/-! ## Running -/

section Run

variable (fetch : σ → Except ε δ × σ)

/-- The run of a program on its own. -/
def run : Prog σ δ ε α → σ → Except String α × σ
  | .done a, s => (.ok a, s)
  | .panic message, s => (.error message, s)
  | .query next, s => (next (fetch s).1).run (fetch s).2
  | .exec stmt next, s => (next (stmt s).1).run (stmt s).2

/-- One step, unless the program has ended. -/
def step : Prog σ δ ε α → σ → Option (Prog σ δ ε α × σ)
  | .done _, _ => none
  | .panic _, _ => none
  | .query next, s => some (next (fetch s).1, (fetch s).2)
  | .exec stmt next, s => some (next (stmt s).1, (stmt s).2)

variable {fetch}

theorem run_bind (p : Prog σ δ ε α) (f : α → Prog σ δ ε β) (s : σ) :
    (p.bind f).run fetch s =
      match p.run fetch s with
      | (.ok a, s) => (f a).run fetch s
      | (.error message, s) => (.error message, s) := by
  induction p generalizing s with
  | done a => rfl
  | panic message => rfl
  | query next ih => exact ih _ _
  | exec stmt next ih => exact ih _ _

end Run

/-! ## What every statement does -/

section Every

variable {R R' : σ → σ → Prop} {post post' : α → Prop} {p : Prog σ δ ε α}

/-- On any store and after any answers every statement does `R`, and every result satisfies the
postcondition. -/
def Every (R : σ → σ → Prop) (post : α → Prop) : Prog σ δ ε α → Prop
  | .done a => post a
  | .panic _ => True
  | .query next => ∀ r, Every R post (next r)
  | .exec stmt next => (∀ s, R s (stmt s).2) ∧ ∀ r, Every R post (next r)

theorem Every.mono (h : p.Every R post) (hR : ∀ s t, R s t → R' s t)
    (hpost : ∀ a, post a → post' a) : p.Every R' post' := by
  induction p with
  | done a => exact hpost a h
  | panic message => trivial
  | query next ih => exact fun r => ih r (h r)
  | exec stmt next ih => exact ⟨fun s => hR s _ (h.1 s), fun r => ih r (h.2 r)⟩

theorem Every.bind {f : α → Prog σ δ ε β} {post : β → Prop}
    (h : p.Every R fun a => (f a).Every R post) : (p.bind f).Every R post := by
  induction p with
  | done a => exact h
  | panic message => trivial
  | query next ih => exact fun r => ih r (h r)
  | exec stmt next ih => exact ⟨h.1, fun r => ih r (h.2 r)⟩

variable {fetch : σ → Except ε δ × σ}

theorem Every.step (h : p.Every R post) (hfetch : ∀ s, R s (fetch s).2) {p' : Prog σ δ ε α}
    {s s' : σ} (hstep : p.step fetch s = some (p', s')) : R s s' ∧ p'.Every R post := by
  cases p with
  | done a => cases hstep
  | panic message => cases hstep
  | query next =>
    cases hstep
    exact ⟨hfetch s, h _⟩
  | exec stmt next =>
    cases hstep
    exact ⟨h.1 s, h.2 _⟩

theorem Every.run (h : p.Every R post) (hfetch : ∀ s, R s (fetch s).2) (hrefl : ∀ s, R s s)
    (htrans : ∀ s t u, R s t → R t u → R s u) (s : σ) : R s (p.run fetch s).2 := by
  induction p generalizing s with
  | done a => exact hrefl s
  | panic message => exact hrefl s
  | query next ih => exact htrans _ _ _ (hfetch s) (ih _ (h _) _)
  | exec stmt next ih => exact htrans _ _ _ (h.1 s) (ih _ (h.2 _) _)

/-- The result of a run satisfies the postcondition. -/
theorem Every.result (h : p.Every R post) {a : α} {s s' : σ}
    (hrun : p.run fetch s = (.ok a, s')) : post a := by
  induction p generalizing s with
  | done b =>
    cases hrun
    exact h
  | panic message => cases hrun
  | query next ih => exact ih _ (h _) hrun
  | exec stmt next ih => exact ih _ (h.2 _) hrun

end Every

/-! ## What a program always does -/

section Always

variable (snap : σ → δ) (later : δ → δ → Prop) (good : σ → σ → Prop)

/-- Whatever the queries return, as long as snapshots satisfy the assertion and come one after the
other: every statement does something good, and every result satisfies the postcondition. Both may
use what has been seen. -/
def Always (post : (δ → Prop) → α → Prop) : (δ → Prop) → Prog σ δ ε α → Prop
  | inv, .done a => post inv a
  | _, .panic _ => True
  | inv, .query next => (∀ e, Always post inv (next (.error e))) ∧
      ∀ d, inv d → Always post (fun d' => inv d' ∧ later d d') (next (.ok d))
  | inv, .exec stmt next => (∀ s, inv (snap s) → good s (stmt s).2) ∧
      ∀ r, Always post inv (next r)

variable {snap later good} {post post' : (δ → Prop) → α → Prop} {inv inv' : δ → Prop}
  {p : Prog σ δ ε α}

/-- A stronger assertion does. -/
theorem Always.strengthen (h : p.Always snap later good post inv) (hinv : ∀ d, inv' d → inv d)
    (hpost : ∀ i i' a, (∀ d, i' d → i d) → post i a → post i' a) :
    p.Always snap later good post inv' := by
  induction p generalizing inv inv' with
  | done a => exact hpost _ _ a hinv h
  | panic message => trivial
  | query next ih =>
    refine ⟨fun e => ih _ (h.1 e) hinv, fun d hd => ih _ (h.2 d (hinv d hd)) fun d' hd' => ?_⟩
    exact ⟨hinv d' hd'.1, hd'.2⟩
  | exec stmt next ih =>
    exact ⟨fun s hs => h.1 s (hinv _ hs), fun r => ih _ (h.2 r) hinv⟩

/-- A weaker postcondition does; it may use that the assertion only grew. -/
theorem Always.weaken (h : p.Always snap later good post inv)
    (hpost : ∀ i a, (∀ d, i d → inv d) → post i a → post' i a) :
    p.Always snap later good post' inv := by
  induction p generalizing inv with
  | done a => exact hpost _ a (fun _ hd => hd) h
  | panic message => trivial
  | query next ih =>
    exact ⟨fun e => ih _ (h.1 e) hpost,
      fun d hd => ih _ (h.2 d hd) fun i a hi => hpost i a fun d' hd' => (hi d' hd').1⟩
  | exec stmt next ih => exact ⟨h.1, fun r => ih _ (h.2 r) hpost⟩

/-- **Composition**: the second part runs under what the first has seen. -/
theorem Always.bind {f : α → Prog σ δ ε β} {post : (δ → Prop) → β → Prop}
    (h : p.Always snap later good (fun inv a => (f a).Always snap later good post inv) inv) :
    (p.bind f).Always snap later good post inv := by
  induction p generalizing inv with
  | done a => exact h
  | panic message => trivial
  | query next ih => exact ⟨fun e => ih _ (h.1 e), fun d hd => ih _ (h.2 d hd)⟩
  | exec stmt next ih => exact ⟨h.1, fun r => ih _ (h.2 r)⟩

/-- What every statement does, it always does. -/
theorem Every.always {post : α → Prop} (h : p.Every good post) :
    p.Always snap later good (fun _ a => post a) inv := by
  induction p generalizing inv with
  | done a => exact h
  | panic message => trivial
  | query next ih => exact ⟨fun e => ih _ (h _), fun d _ => ih _ (h _)⟩
  | exec stmt next ih => exact ⟨fun s _ => h.1 s, fun r => ih r (h.2 r)⟩

variable {fetch : σ → Except ε δ × σ} {s s' : σ}

/-- **One step** from a store that satisfies the assertion, if answers are snapshots. -/
theorem Always.step (hanswer : ∀ s d, (fetch s).1 = .ok d → d = snap s)
    (hfetch : ∀ s, good s (fetch s).2) {p' : Prog σ δ ε α}
    (h : p.Always snap later good post inv) (hs : inv (snap s))
    (hstep : p.step fetch s = some (p', s')) :
    good s s' ∧ (p'.Always snap later good post inv ∨
      p'.Always snap later good post fun d => inv d ∧ later (snap s) d) := by
  cases p with
  | done a => cases hstep
  | panic message => cases hstep
  | query next =>
    cases hstep
    refine ⟨hfetch s, ?_⟩
    cases hfetched : (fetch s).1 with
    | error e => exact Or.inl (h.1 e)
    | ok d =>
      obtain rfl := hanswer s d hfetched
      exact Or.inr (h.2 _ hs)
  | exec stmt next =>
    cases hstep
    exact ⟨h.1 s hs, Or.inl (h.2 _)⟩

end Always

/-! ## What a program answers -/

section Answers

variable (later : δ → δ → Prop)

/-- The results of a program whose queries are answered. -/
def Answers (post : (δ → Prop) → α → Prop) : (δ → Prop) → Prog σ δ ε α → Prop
  | inv, .done a => post inv a
  | _, .panic _ => True
  | inv, .query next =>
    ∀ d, inv d → Answers post (fun d' => inv d' ∧ later d d') (next (.ok d))
  | inv, .exec _ next => ∀ r, Answers post inv (next r)

variable {later} {snap : σ → δ} {good : σ → σ → Prop} {post : (δ → Prop) → α → Prop}
  {inv : δ → Prop} {p : Prog σ δ ε α}

/-- What holds whatever the queries return holds of their answers. -/
theorem Always.answers (h : p.Always snap later good post inv) : p.Answers later post inv := by
  induction p generalizing inv with
  | done a => exact h
  | panic message => trivial
  | query next ih => exact fun d hd => ih _ (h.2 d hd)
  | exec stmt next ih => exact fun r => ih _ (h.2 r)

theorem Answers.bind {f : α → Prog σ δ ε β} {post : (δ → Prop) → β → Prop}
    (h : p.Answers later (fun i a => (f a).Answers later post i) inv) :
    (p.bind f).Answers later post inv := by
  induction p generalizing inv with
  | done a => exact h
  | panic message => trivial
  | query next ih => exact fun d hd => ih _ (h d hd)
  | exec stmt next ih => exact fun r => ih _ (h r)

theorem Answers.weaken {post' : (δ → Prop) → α → Prop} (h : p.Answers later post inv)
    (hpost : ∀ i a, (∀ d, i d → inv d) → post i a → post' i a) : p.Answers later post' inv := by
  induction p generalizing inv with
  | done a => exact hpost _ a (fun _ hd => hd) h
  | panic message => trivial
  | query next ih =>
    exact fun d hd => ih _ (h d hd) fun i a hi => hpost i a fun d' hd' => (hi d' hd').1
  | exec stmt next ih => exact fun r => ih _ (h r) hpost

/-! ## Programs without statements -/

/-- No statement, and the first error is the end. -/
def ReadsOnly (failed : α → Prop) : Prog σ δ ε α → Prop
  | .done _ => True
  | .panic _ => True
  | .query next => (∀ e, ∃ a, next (.error e) = .done a ∧ failed a) ∧
      ∀ d, ReadsOnly failed (next (.ok d))
  | .exec _ _ => False

/-- What holds of the answers always holds if it holds of failures. -/
theorem ReadsOnly.always {failed : α → Prop} (h : p.ReadsOnly failed)
    (hanswers : p.Answers later post inv) (hfailed : ∀ i a, failed a → post i a) :
    p.Always snap later good post inv := by
  induction p generalizing inv with
  | done a => exact hanswers
  | panic message => trivial
  | query next ih =>
    refine ⟨fun e => ?_, fun d hd => ih _ (h.2 d) (hanswers d hd)⟩
    obtain ⟨a, heq, ha⟩ := h.1 e
    rw [heq]
    exact hfailed inv a ha
  | exec stmt next => exact h.elim

theorem ReadsOnly.bind {failed : α → Prop} {failed' : β → Prop} {f : α → Prog σ δ ε β}
    (h : p.ReadsOnly failed) (hf : ∀ a, (f a).ReadsOnly failed')
    (hfailed : ∀ a, failed a → ∃ b, f a = done b ∧ failed' b) :
    (p.bind f).ReadsOnly failed' := by
  induction p with
  | done a => exact hf a
  | panic message => trivial
  | query next ih =>
    refine ⟨fun e => ?_, fun d => ih _ (h.2 d)⟩
    obtain ⟨a, heq, ha⟩ := h.1 e
    obtain ⟨b, hb, hb'⟩ := hfailed a ha
    refine ⟨b, ?_, hb'⟩
    show (next (.error e)).bind f = done b
    rw [heq]
    exact hb
  | exec stmt next => exact h.elim

theorem ReadsOnly.every {failed : α → Prop} (h : p.ReadsOnly failed) (R : σ → σ → Prop) :
    p.Every R fun _ => True := by
  induction p with
  | done a => trivial
  | panic message => trivial
  | query next ih =>
    intro r
    cases r with
    | error e =>
      obtain ⟨a, heq, -⟩ := h.1 e
      rw [heq]
      trivial
    | ok d => exact ih _ (h.2 d)
  | exec stmt next => exact h.elim

end Answers

end Prog
