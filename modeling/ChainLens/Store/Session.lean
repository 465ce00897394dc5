import ChainLens.Library.Program
import ChainLens.Store.Postgres

/-!
# Sessions on the pool

What the intelligence layer does with the pool is a sequence of queries and statements, none of
them in a common transaction, so that other writers come in between. A session is such a sequence
as a program. It is written once and can be run on its own, or one call at a time.

## Main definitions

* `QueryError`, `Session`: the errors a session returns, and its calls
* `Session.query`, `Session.exec`: one query, and one statement
* `Session.refused`: a query that the server refuses when it prepares it
* `Session.handle`, `Session.ignore`, `Session.forEach`: calls whose errors are only logged, and
  loops of them
* `Session.Reads`, `Session.Fails`: a session without statements, and one that never succeeds
* `Session.runOn`: the run of a session with nobody else at work

## Main results

* `Session.every_bind`, `Session.always_bind` and their siblings: the rules for what a session does,
  one for each construct
* `Session.runOn_bind`, `Session.runOn_exec`: the runs of calls
-/

namespace ChainLens

/-- The errors of the analyses: a row that is missing or a text that is no hash, and the errors of
the database. -/
inductive QueryError where
  | rowNotFound
  | sql (e : SqlError)
deriving DecidableEq

/-- The answer to a query is the database as it is at that moment; any failure is an error. -/
def PgPool.snapshot (pool : PgPool) : Except SqlError Db × PgPool :=
  let (fate, pool) := pool.draw
  match fate with
  | .served => (.ok pool.db, pool)
  | _ => (.error .io, pool)

/-- What the server's settings and the build decide: the text of a timestamp, the order of texts,
and whether an overflow panics. -/
structure Setup where
  timestampText : ℕ → String
  minText : List String → Option String
  maxText : List String → Option String
  overflowChecks : Bool

/-- A statement of its own, as the persist functions issue them. -/
abbrev Statement := PgPool → Except SqlError Unit × PgPool

/-- A sequence of calls on the pool. -/
abbrev Session (α : Type) := ExceptT QueryError (Prog PgPool Db SqlError) α

/-- What is left of a call without a result. -/
abbrev Program := Prog PgPool Db SqlError (Except QueryError Unit)

namespace Session

variable {α β : Type}

/-- One `SELECT`. -/
def query (select : Db → α) : Session α :=
  .mk (.query fun r =>
    match r with
    | .ok db => .done (.ok (select db))
    | .error e => .done (.error (.sql e)))

/-- One statement. -/
def exec (stmt : Statement) : Session Unit :=
  .mk (.exec stmt fun r =>
    match r with
    | .ok () => .done (.ok ())
    | .error e => .done (.error (.sql e)))

/-- A `SELECT` that is refused when it is prepared: no row is ever returned. -/
def refused (e : SqlError) : Session α := do
  query fun _ => ()
  throw (.sql e)

def panic (message : String) : Session α := .mk (.panic message)

/-- A step without calls. -/
def lift (r : Except (Fault QueryError) α) : Session α :=
  match r with
  | .ok a => pure a
  | .error (.error e) => throw e
  | .error (.panic message) => panic message

/-- `match p { Ok(a) => f(a), Err(e) => … }` where the error is only logged. -/
def handle (p : Session α) (f : α → Session Unit) : Session Unit :=
  .mk (Prog.bind p.run fun r =>
    match r with
    | .ok a => (f a).run
    | .error _ => .done (.ok ()))

/-- `let _ = p`. -/
def ignore (p : Session α) : Session Unit := .mk (Prog.bind p.run fun _ => .done (.ok ()))

/-- `for x in xs { … }`. -/
def forEach (xs : List α) (body : α → Session Unit) : Session Unit :=
  match xs with
  | [] => pure ()
  | x :: xs => do
    body x
    forEach xs body

/-- The run of a session while nobody else uses the pool. -/
def runOn (p : Session α) (pool : PgPool) : Except (Fault QueryError) α × PgPool :=
  match Prog.run PgPool.snapshot p.run pool with
  | (.ok (.ok a), pool) => (.ok a, pool)
  | (.ok (.error e), pool) => (.error (.error e), pool)
  | (.error message, pool) => (.error (.panic message), pool)

theorem run_bind (p : Session α) (f : α → Session β) :
    (p >>= f).run = p.run.bind fun r =>
      match r with
      | .ok a => (f a).run
      | .error e => .done (.error e) := by
  show Prog.bind p.run _ = Prog.bind p.run _
  congr 1
  funext r
  cases r <;> rfl

/-! ## Sessions that only read -/

/-- No statement, and an error of a query is passed on. -/
def Reads (p : Session α) : Prop := p.run.ReadsOnly fun r => ∃ e, r = .error e

theorem reads_pure (a : α) : (pure a : Session α).Reads := trivial

theorem reads_query (select : Db → α) : (query select).Reads :=
  ⟨fun _ => ⟨_, rfl, _, rfl⟩, fun _ => trivial⟩

theorem reads_lift (r : Except (Fault QueryError) α) : (lift r).Reads := by
  cases r with
  | ok a => trivial
  | error fault => cases fault <;> trivial

theorem reads_bind {p : Session α} {f : α → Session β} (hp : p.Reads) (hf : ∀ a, (f a).Reads) :
    (p >>= f).Reads := by
  unfold Reads
  rw [run_bind]
  refine Prog.ReadsOnly.bind hp (fun r => ?_) ?_
  · cases r with
    | ok a => exact hf a
    | error e => trivial
  · rintro _ ⟨e, rfl⟩
    exact ⟨_, rfl, e, rfl⟩

/-! ## What every statement does -/

section Every

variable {R : PgPool → PgPool → Prop}

theorem every_bind {p : Session α} {f : α → Session β} {post : Except QueryError β → Prop}
    (h : p.run.Every R fun r =>
      match r with
      | .ok a => (f a).run.Every R post
      | .error e => post (.error e)) :
    (p >>= f).run.Every R post := by
  rw [run_bind]
  refine Prog.Every.bind (h.mono (fun _ _ h => h) fun r hr => ?_)
  cases r with
  | ok a => exact hr
  | error e => exact hr

theorem every_exec {stmt : Statement} (h : ∀ pool, R pool (stmt pool).2) :
    (exec stmt).run.Every R fun _ => True := by
  refine ⟨h, fun r => ?_⟩
  cases r with
  | ok _ => trivial
  | error e => trivial

theorem every_handle {p : Session α} {f : α → Session Unit}
    (hp : p.run.Every R fun _ => True) (hf : ∀ a, (f a).run.Every R (· = .ok ())) :
    (handle p f).run.Every R (· = .ok ()) := by
  refine Prog.Every.bind (hp.mono (fun _ _ h => h) fun r _ => ?_)
  cases r with
  | ok a => exact hf a
  | error e => rfl

theorem every_ignore {p : Session α} (hp : p.run.Every R fun _ => True) :
    (ignore p).run.Every R (· = .ok ()) :=
  Prog.Every.bind (hp.mono (fun _ _ h => h) fun _ _ => rfl)

theorem every_forEach {xs : List α} {body : α → Session Unit}
    (h : ∀ x, (body x).run.Every R (· = .ok ())) :
    (forEach xs body).run.Every R (· = .ok ()) := by
  induction xs with
  | nil => rfl
  | cons x xs ih =>
    refine every_bind ((h x).mono (fun _ _ h => h) fun r hr => ?_)
    subst hr
    exact ih

/-- A selection and the loop over what it found. -/
theorem every_selection {select : Db → List α} {body : α → Session Unit}
    (h : ∀ x, (body x).run.Every R (· = .ok ())) :
    (query select >>= fun found => forEach found body).run.Every R fun _ => True := by
  refine every_bind fun r => ?_
  cases r with
  | ok db => exact (every_forEach h).mono (fun _ _ h => h) fun _ _ => trivial
  | error e => trivial

theorem every_then {p q : Session Unit} (hp : p.run.Every R fun _ => True)
    (hq : q.run.Every R fun _ => True) : (p >>= fun _ => q).run.Every R fun _ => True := by
  refine every_bind (hp.mono (fun _ _ h => h) fun r _ => ?_)
  cases r with
  | ok _ => exact hq
  | error e => trivial

end Every

/-! ## Sessions that fail -/

/-- No statement, and every result is an error. -/
def Fails (p : Session α) : Prop := p.run.Every (fun _ _ => False) fun r => ∃ e, r = .error e

theorem fails_refused (e : SqlError) : (refused e : Session α).Fails := by
  intro r
  cases r with
  | ok db => exact ⟨_, rfl⟩
  | error e => exact ⟨_, rfl⟩

theorem fails_bind_left {p : Session α} {f : α → Session β} (hp : p.Fails) : (p >>= f).Fails := by
  refine every_bind (hp.mono (fun _ _ h => h) fun r hr => ?_)
  obtain ⟨e, rfl⟩ := hr
  exact ⟨e, rfl⟩

theorem fails_bind_right {p : Session α} {f : α → Session β} (hp : p.Reads)
    (hf : ∀ a, (f a).Fails) : (p >>= f).Fails := by
  refine every_bind ((hp.every _).mono (fun _ _ h => h) fun r _ => ?_)
  cases r with
  | ok a => exact hf a
  | error e => exact ⟨e, rfl⟩

/-- Nothing is made of what a failing session returns. -/
theorem every_handle_fails {R : PgPool → PgPool → Prop} {p : Session α} {f : α → Session Unit}
    (hp : p.Fails) : (handle p f).run.Every R (· = .ok ()) := by
  refine Prog.Every.bind (hp.mono (fun _ _ => False.elim) fun r hr => ?_)
  obtain ⟨e, rfl⟩ := hr
  rfl

/-! ## What a session does beside other writers -/

section Rules

variable {later : Db → Db → Prop} {good hit : PgPool → PgPool → Prop}
  {post : (Db → Prop) → Except QueryError β → Prop} {inv : Db → Prop}

/-- What follows a call: its continuation, or nothing after an error. -/
theorem always_bind {p : Session α} {f : α → Session β}
    (h : p.run.Always PgPool.db later good (fun i r =>
      match r with
      | .ok a => (f a).run.Always PgPool.db later good post i
      | .error e => post i (.error e)) inv) :
    (p >>= f).run.Always PgPool.db later good post inv := by
  rw [run_bind]
  refine Prog.Always.bind (h.weaken fun i r _ hr => ?_)
  cases r with
  | ok a => exact hr
  | error e => exact hr

/-- A call that always succeeds, if it returns. -/
theorem always_bind_ok {p : Session Unit} {f : Unit → Session β}
    (hp : p.run.Always PgPool.db later good (fun _ r => r = .ok ()) inv)
    (hf : ∀ i, (∀ db, i db → inv db) → (f ()).run.Always PgPool.db later good post i) :
    (p >>= f).run.Always PgPool.db later good post inv := by
  refine always_bind (hp.weaken fun i r hi hr => ?_)
  subst hr
  exact hf i hi

theorem always_query {select : Db → α} {f : α → Session β}
    (herror : ∀ e, post inv (.error (.sql e)))
    (h : ∀ db, inv db → (f (select db)).run.Always PgPool.db later good post
      fun db' => inv db' ∧ later db db') :
    (query select >>= f).run.Always PgPool.db later good post inv :=
  ⟨herror, h⟩

theorem always_handle {p : Session α} {f : α → Session Unit}
    (h : p.run.Always PgPool.db later good (fun i r => ∀ a, r = .ok a →
      (f a).run.Always PgPool.db later good (fun _ r => r = .ok ()) i) inv) :
    (handle p f).run.Always PgPool.db later good (fun _ r => r = .ok ()) inv := by
  refine Prog.Always.bind (h.weaken fun i r _ hr => ?_)
  cases r with
  | ok a => exact hr a rfl
  | error e => rfl

theorem always_forEach {xs : List α} {body : α → Session Unit}
    (h : ∀ x ∈ xs, ∀ i, (∀ db, i db → inv db) → (body x).run.Always PgPool.db later good
      (fun _ r => r = .ok ()) i) :
    (forEach xs body).run.Always PgPool.db later good (fun _ r => r = .ok ()) inv := by
  induction xs generalizing inv with
  | nil => rfl
  | cons x xs ih =>
    refine always_bind_ok (h x List.mem_cons_self inv fun _ h => h) fun i hi => ih ?_
    exact fun y hy j hj => h y (List.mem_cons_of_mem _ hy) j fun db h => hi db (hj db h)

/-- A selection and the loop over what it found. -/
theorem always_selection {select : Db → List α} {body : α → Session Unit}
    (h : ∀ db, inv db → ∀ x ∈ select db, ∀ i, (∀ db, i db → inv db) →
      (body x).run.Always PgPool.db later good (fun _ r => r = .ok ()) i) :
    (query select >>= fun found => forEach found body).run.Always PgPool.db later good
      (fun _ _ => True) inv := by
  refine always_query (fun _ => trivial) fun db hdb => ?_
  refine (always_forEach fun x hx i hi => h db hdb x hx i ?_).weaken fun _ _ _ _ => trivial
  exact fun db' hdb' => (hi db' hdb').1

/-- One call after the other, where the first may return an error. -/
theorem always_then {p q : Session Unit}
    (hp : p.run.Always PgPool.db later good (fun _ _ => True) inv)
    (hq : ∀ i, (∀ db, i db → inv db) →
      q.run.Always PgPool.db later good (fun _ _ => True) i) :
    (p >>= fun _ => q).run.Always PgPool.db later good (fun _ _ => True) inv := by
  refine always_bind (hp.weaken fun i r hi _ => ?_)
  cases r with
  | ok _ => exact hq i hi
  | error e => trivial

end Rules

/-! ## What a session answers -/

section Answers

variable {later : Db → Db → Prop} {post : (Db → Prop) → Except QueryError β → Prop}
  {inv : Db → Prop}

theorem answers_query {select : Db → α} {f : α → Session β}
    (h : ∀ db, inv db → (f (select db)).run.Answers later post fun db' => inv db' ∧ later db db') :
    (query select >>= f).run.Answers later post inv := h

theorem answers_lift {r : Except (Fault QueryError) α} {f : α → Session β}
    (herror : ∀ e, post inv (.error e))
    (h : ∀ a, r = .ok a → (f a).run.Answers later post inv) :
    (lift r >>= f).run.Answers later post inv := by
  cases r with
  | ok a => exact h a rfl
  | error fault =>
    cases fault with
    | error e => exact herror e
    | panic message => trivial

/-- A call that cannot fail. -/
theorem answers_of_every {R : PgPool → PgPool → Prop} {p : Session Unit}
    (h : p.run.Every R (· = .ok ())) : p.run.Answers later (fun _ r => r = .ok ()) inv :=
  (@Prog.Every.always _ _ _ _ PgPool.db _ R _ _ _ h).answers

/-- A selection whose query is answered, and a loop that cannot fail. -/
theorem answers_selection {R : PgPool → PgPool → Prop} {select : Db → List α}
    {body : α → Session Unit} (h : ∀ x, (body x).run.Every R (· = .ok ())) :
    (query select >>= fun found => forEach found body).run.Answers later
      (fun _ r => r = .ok ()) inv :=
  fun _ _ => answers_of_every (every_forEach h)

/-- One call after the other, where the first succeeds if its queries are answered. -/
theorem answers_then {p : Session Unit} {q : Session β}
    (hp : p.run.Answers later (fun _ r => r = .ok ()) inv)
    (hq : ∀ i, (∀ db, i db → inv db) → q.run.Answers later post i) :
    (p >>= fun _ => q).run.Answers later post inv := by
  rw [run_bind]
  refine Prog.Answers.bind (hp.weaken fun i r hi hr => ?_)
  subst hr
  exact hq i hi

end Answers

end Session

/-! ## Runs on a pool -/

section Run

variable {α β : Type} {pool : PgPool}

theorem PgPool.snapshot_ok {db : Db} (h : pool.snapshot.1 = .ok db) : db = pool.db := by
  unfold PgPool.snapshot at h
  cases hfate : pool.draw.1 with
  | served =>
    simp only [hfate, Except.ok.injEq] at h
    exact h.symm
  | refused =>
    simp only [hfate] at h
    cases h
  | unacknowledged =>
    simp only [hfate] at h
    cases h

@[simp] theorem PgPool.snapshot_db : pool.snapshot.2.db = pool.db := by
  unfold PgPool.snapshot
  cases hfate : pool.draw.1 <;> simp [hfate]

namespace Session

theorem runOn_bind (p : Session α) (f : α → Session β) (pool : PgPool) :
    (p >>= f).runOn pool =
      match p.runOn pool with
      | (.ok a, pool) => (f a).runOn pool
      | (.error fault, pool) => (.error fault, pool) := by
  unfold runOn
  rw [run_bind, Prog.run_bind]
  cases hrun : Prog.run PgPool.snapshot p.run pool with
  | mk result pool' =>
    cases result with
    | error message => rfl
    | ok r => cases r <;> rfl

@[simp] theorem runOn_pure (a : α) : (pure a : Session α).runOn pool = (.ok a, pool) := rfl

@[simp] theorem runOn_lift (r : Except (Fault QueryError) α) :
    (lift r).runOn pool = (r, pool) := by
  cases r with
  | ok a => rfl
  | error fault => cases fault <;> rfl

/-- A query whose call is served. -/
@[simp] theorem runOn_query {db : Db} {now : ℕ} (select : Db → α) :
    (query select).runOn ⟨db, [], now⟩ = (.ok (select db), ⟨db, [], now⟩) := rfl

theorem runOn_exec (stmt : Statement) :
    (exec stmt).runOn pool =
      ((stmt pool).1.mapError fun e => .error (.sql e), (stmt pool).2) := by
  unfold runOn exec
  rw [ExceptT.run_mk, Prog.run]
  cases (stmt pool).1 <;> rfl

theorem runOn_bind_ok {p : Session α} {f : α → Session β} {b : β} {pool' : PgPool}
    (h : (p >>= f).runOn pool = (.ok b, pool')) :
    ∃ a pool₁, p.runOn pool = (.ok a, pool₁) ∧ (f a).runOn pool₁ = (.ok b, pool') := by
  rw [runOn_bind] at h
  split at h
  next a pool₁ hp => exact ⟨a, pool₁, hp, h⟩
  next => cases h

theorem runOn_bind_error {p : Session α} {f : α → Session β} {fault : Fault QueryError}
    (h : ((p >>= f).runOn pool).1 = .error fault) :
    (p.runOn pool).1 = .error fault ∨
      ∃ a pool₁, p.runOn pool = (.ok a, pool₁) ∧ ((f a).runOn pool₁).1 = .error fault := by
  rw [runOn_bind] at h
  split at h
  next a pool₁ hp => exact Or.inr ⟨a, pool₁, hp, h⟩
  next fault' pool₁ hp =>
    cases h
    exact Or.inl (congrArg Prod.fst hp)

/-- A session that fails returns nothing, whatever happens to its calls. -/
theorem runOn_ne_ok {p : Session α} (h : p.Fails) (a : α) (pool' : PgPool) :
    p.runOn pool ≠ (.ok a, pool') := by
  intro hok
  unfold runOn at hok
  split at hok
  next b _ hrun =>
    obtain ⟨e, he⟩ := Prog.Every.result h hrun
    cases he
  next => cases hok
  next => cases hok

theorem runOn_query_ok {select : Db → α} {a : α} {pool' : PgPool}
    (h : (query select).runOn pool = (.ok a, pool')) : a = select pool.db ∧ pool'.db = pool.db := by
  have hpool : (query select).runOn pool =
      match pool.snapshot with
      | (.ok db, pool) => (.ok (select db), pool)
      | (.error e, pool) => (.error (.error (.sql e)), pool) := by
    unfold runOn query
    rw [ExceptT.run_mk, Prog.run]
    cases hsnap : pool.snapshot with
    | mk result pool₁ => cases result <;> rfl
  rw [hpool] at h
  have hdb := @PgPool.snapshot_db pool
  split at h
  next db pool₁ hsnap =>
    cases h
    rw [PgPool.snapshot_ok (congrArg Prod.fst hsnap), ← hdb, hsnap]
    exact ⟨rfl, rfl⟩
  next => cases h

/-- A query does not panic. -/
theorem runOn_query_error {select : Db → α} {message : String} :
    ((query select).runOn pool).1 ≠ .error (.panic message) := by
  unfold runOn query
  rw [ExceptT.run_mk, Prog.run]
  cases pool.snapshot.1 <;> nofun

/-- What a run leaves, however it ends. -/
theorem runOn_snd (p : Session α) (pool : PgPool) :
    (p.runOn pool).2 = (Prog.run PgPool.snapshot p.run pool).2 := by
  unfold runOn
  cases Prog.run PgPool.snapshot p.run pool with
  | mk result pool' =>
    cases result with
    | error message => rfl
    | ok r => cases r <;> rfl

/-- A call whose errors are dropped panics where it does. -/
theorem runOn_ignore_error {p : Session α} {fault : Fault QueryError}
    (h : ((ignore p).runOn pool).1 = .error fault) :
    ∃ message, fault = .panic message ∧ (p.runOn pool).1 = .error (.panic message) := by
  unfold runOn ignore at h
  rw [ExceptT.run_mk, Prog.run_bind] at h
  unfold runOn
  cases hrun : Prog.run PgPool.snapshot p.run pool with
  | mk result pool' =>
    rw [hrun] at h
    cases result with
    | ok r => cases h
    | error message =>
      cases h
      exact ⟨message, rfl, rfl⟩

theorem runOn_handle_error {p : Session α} {f : α → Session Unit} {fault : Fault QueryError}
    (h : ((handle p f).runOn pool).1 = .error fault) :
    (∃ message, fault = .panic message ∧ (p.runOn pool).1 = .error (.panic message)) ∨
      ∃ a pool₁, p.runOn pool = (.ok a, pool₁) ∧ ((f a).runOn pool₁).1 = .error fault := by
  unfold runOn handle at h
  rw [ExceptT.run_mk, Prog.run_bind] at h
  unfold runOn
  cases hrun : Prog.run PgPool.snapshot p.run pool with
  | mk result pool' =>
    rw [hrun] at h
    cases result with
    | error message =>
      cases h
      exact Or.inl ⟨message, rfl, rfl⟩
    | ok r =>
      cases r with
      | error e => cases h
      | ok a => exact Or.inr ⟨a, pool', rfl, h⟩

theorem runOn_ignore_snd (p : Session α) (pool : PgPool) :
    ((ignore p).runOn pool).2 = (p.runOn pool).2 := by
  rw [runOn_snd, runOn_snd, ignore, ExceptT.run_mk, Prog.run_bind]
  cases Prog.run PgPool.snapshot p.run pool with
  | mk result pool' => cases result <;> rfl

end Session

end Run

end ChainLens
