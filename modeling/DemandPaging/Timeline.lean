/-!
Simulated time: a clock that only moves forward, and the queue of those who wait for a tick.
Waiters of one tick are released together, in the order in which they were scheduled.
-/

namespace DemandPaging

structure VirtualClock where
  now : Nat := 0
deriving DecidableEq, Repr

def VirtualClock.advance? (c : VirtualClock) (tick : Nat) : Option VirtualClock :=
  if tick < c.now then none else some ⟨tick⟩

/-- Waiters by tick, ticks ascending. -/
structure EventQueue (α : Type) where
  pending : List (Nat × List α) := []

namespace EventQueue

variable {α : Type}

/-- Adds a waiter behind those of its tick. -/
def insert (tick : Nat) (a : α) : List (Nat × List α) → List (Nat × List α)
  | [] => [(tick, [a])]
  | (t, as) :: rest =>
    if tick < t then (tick, [a]) :: (t, as) :: rest
    else if tick = t then (t, as ++ [a]) :: rest
    else (t, as) :: insert tick a rest

def schedule (q : EventQueue α) (tick : Nat) (a : α) : EventQueue α := ⟨insert tick a q.pending⟩

def nextTick? (q : EventQueue α) : Option Nat := q.pending.head?.map Prod.fst

def pop? (q : EventQueue α) : Option ((Nat × List α) × EventQueue α) :=
  match q.pending with
  | [] => none
  | due :: rest => some (due, ⟨rest⟩)

def isEmpty (q : EventQueue α) : Bool := q.pending.isEmpty

def size (q : EventQueue α) : Nat := (q.pending.flatMap Prod.snd).length

end EventQueue

end DemandPaging
