/-!
Actions on a state. An action answers or fails, leaves the state it reached in either case, and
reports events on the way. An action that fails keeps what it had already done.
-/

namespace DemandPaging

/-- Why a call has no defined answer at all. -/
inductive Crash where
  | outOfBounds
  | overflow
  | lengthMismatch
  | noRoom
  | brokenText
  | policy
deriving DecidableEq, Repr

/-- Why there is no answer: an error of the domain, or a crash. -/
inductive Failure (ε : Type) where
  | error (e : ε)
  | crash (c : Crash)
deriving DecidableEq, Repr

def Failure.map {ε ε' : Type} (f : ε → ε') : Failure ε → Failure ε'
  | .error e => .error (f e)
  | .crash c => .crash c

structure Outcome (ω ε σ α : Type) where
  answer : Except ε α
  state : σ
  events : List ω

def Action (ω ε σ α : Type) := σ → Outcome ω ε σ α

namespace Action

variable {ω ω' ε ε' σ τ α β : Type}

def run (x : Action ω ε σ α) (s : σ) : Outcome ω ε σ α := x s

protected def pure (a : α) : Action ω ε σ α := fun s => ⟨.ok a, s, []⟩

protected def bind (x : Action ω ε σ α) (f : α → Action ω ε σ β) : Action ω ε σ β := fun s =>
  match x s with
  | ⟨.ok a, t, e⟩ =>
    match f a t with
    | ⟨b, u, e'⟩ => ⟨b, u, e ++ e'⟩
  | ⟨.error r, t, e⟩ => ⟨.error r, t, e⟩

instance : Monad (Action ω ε σ) where
  pure := Action.pure
  bind := Action.bind

def get : Action ω ε σ σ := fun s => ⟨.ok s, s, []⟩

def modify (f : σ → σ) : Action ω ε σ Unit := fun s => ⟨.ok (), f s, []⟩

def fail (r : ε) : Action ω ε σ α := fun s => ⟨.error r, s, []⟩

def report (e : ω) : Action ω ε σ Unit := fun s => ⟨.ok (), s, [e]⟩

def reportAll (es : List ω) : Action ω ε σ Unit := fun s => ⟨.ok (), s, es⟩

def ofOption (r : ε) : Option α → Action ω ε σ α
  | some a => Action.pure a
  | none => fail r

def update (r : ε) (f : σ → Option σ) : Action ω ε σ Unit := fun s =>
  match f s with
  | some t => ⟨.ok (), t, []⟩
  | none => ⟨.error r, s, []⟩

def within (view : σ → τ) (place : τ → σ → σ) (event : ω' → ω) (failure : ε' → ε)
    (x : Action ω' ε' τ α) : Action ω ε σ α := fun s =>
  match x (view s) with
  | ⟨a, t, e⟩ => ⟨a.mapError failure, place t s, e.map event⟩

/-- Runs an action for each element in order, stopping at the first failure. -/
def each (f : β → Action ω ε σ Unit) : List β → Action ω ε σ Unit
  | [] => Action.pure ()
  | b :: bs => Action.bind (f b) fun _ => each f bs

end Action

end DemandPaging
