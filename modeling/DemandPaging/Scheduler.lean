import DemandPaging.Number
import DemandPaging.Outcome
/-!
Scheduling policies. A policy hears of every scheduling event and picks the process that a CPU
runs next. Its calls are made one at a time.
-/

namespace DemandPaging

/-- A call into a policy with state `S`. -/
abbrev Policy (S : Type) := Action Empty Crash S

class Scheduler (S : Type) where
  started (pid : ProcessId) : Policy S Unit
  quantumExpired (pid : ProcessId) (cpu ticks : Nat) : Policy S Unit
  /-- Picks the next process to run on `cpu`, if any. -/
  schedule (cpu : Nat) : Policy S (Option ProcessId)
  exited (pid : ProcessId) : Policy S Unit
  blocked (pid : ProcessId) (cpu ticks : Nat) : Policy S Unit
  unblocked (pid : ProcessId) : Policy S Unit

/-- First come, first served. -/
structure RoundRobin where
  ready : List ProcessId := []
deriving DecidableEq, Repr

namespace RoundRobin

def push (r : RoundRobin) (pid : ProcessId) : RoundRobin := ⟨r.ready ++ [pid]⟩

def pop (r : RoundRobin) : Option ProcessId × RoundRobin := (r.ready.head?, ⟨r.ready.tail⟩)

def remove (r : RoundRobin) (pid : ProcessId) : RoundRobin := ⟨r.ready.filter (· ≠ pid)⟩

instance : Scheduler RoundRobin where
  started pid := Action.modify fun r => r.push pid
  quantumExpired pid _ _ := Action.modify fun r => r.push pid
  schedule _ := fun r => ⟨.ok r.pop.1, r.pop.2, []⟩
  exited pid := Action.modify fun r => r.remove pid
  blocked _ _ _ := Action.pure ()
  unblocked pid := Action.modify fun r => r.push pid

end RoundRobin

end DemandPaging
