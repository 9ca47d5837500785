import ProjectReview.Fault
import ProjectReview.Journal

set_option autoImplicit false

/-! # Actions on a state

An `Action σ α` is a computation that may change a state of type `σ`, such as a file tree or a
session. It gives its journal and outcome together with the state it leaves, which is kept also when
the computation fails: what was assigned before a failure stays assigned. -/

namespace ProjectReview

/-- A computation on a state. -/
def Action (σ α : Type) : Type := σ → Journaled Fault α × σ

namespace Action

variable {σ α β : Type}

/-- A value; the state stays as it is. -/
protected def pure (a : α) : Action σ α := fun state => (pure a, state)

/-- One action after another; a failure of the first is the failure of both. -/
protected def bind (x : Action σ α) (f : α → Action σ β) : Action σ β := fun state =>
  match x state with
  | (⟨events, .ok a⟩, next) =>
    let (rest, last) := f a next
    (⟨events ++ rest.events, rest.outcome⟩, last)
  | (⟨events, .error fault⟩, next) => (⟨events, .error fault⟩, next)

instance : Monad (Action σ) where
  pure := Action.pure
  bind := Action.bind

/-- A computation that only looks at the state. -/
def look (f : σ → Journaled Fault α) : Action σ α := fun state => (f state, state)

/-- A computation that does not need the state. -/
def lift (x : Journaled Fault α) : Action σ α := fun state => (x, state)

/-- Puts another state in the place of the present one. -/
def assign (f : σ → σ) : Action σ Unit := fun state => (pure (), f state)

/-- The outcome of an action, without its failures. -/
def attempt (x : Action σ α) : Action σ (Except Fault α) := fun state =>
  let (journaled, next) := x state
  (⟨journaled.events, .ok journaled.outcome⟩, next)

/-- What an action comes to, apart from its journal: the outcome and the state it leaves. -/
def result (x : Action σ α) (state : σ) : Except Fault α × σ :=
  ((x state).1.outcome, (x state).2)

@[simp] theorem result_pure (a : α) (state : σ) :
    (pure a : Action σ α).result state = (.ok a, state) := rfl

@[simp] theorem result_look (f : σ → Journaled Fault α) (state : σ) :
    (look f).result state = ((f state).outcome, state) := rfl

@[simp] theorem result_lift (x : Journaled Fault α) (state : σ) :
    (lift x : Action σ α).result state = (x.outcome, state) := rfl

@[simp] theorem result_assign (f : σ → σ) (state : σ) :
    (assign f).result state = (.ok (), f state) := rfl

@[simp] theorem result_attempt (x : Action σ α) (state : σ) :
    x.attempt.result state = (.ok (x.result state).1, (x.result state).2) := rfl

/-- The result of two actions depends on their results alone. -/
theorem result_bind (x : Action σ α) (f : α → Action σ β) (state : σ) :
    (x >>= f).result state = match x.result state with
      | (.ok a, next) => (f a).result next
      | (.error fault, next) => (.error fault, next) := by
  show (Action.bind x f).result state = _
  unfold result Action.bind
  rcases x state with ⟨⟨events, outcome⟩, next⟩
  cases outcome <;> rfl

/-- The events of two actions follow each other. -/
theorem events_bind {x : Action σ α} {state next : σ} {a : α} (h : x.result state = (.ok a, next))
    (f : α → Action σ β) :
    ((x >>= f) state).1.events = (x state).1.events ++ (f a next).1.events := by
  show (Action.bind x f state).1.events = _
  unfold Action.bind
  rcases hx : x state with ⟨⟨events, outcome⟩, left⟩
  rw [result, hx] at h
  obtain ⟨rfl, rfl⟩ := Prod.mk.inj h
  rfl

end Action

end ProjectReview
