import DemandPaging.Scheduler
/-!
A policy that keeps a record of the calls made to it.
-/

namespace DemandPaging

inductive PolicyCall where
  | started (pid : ProcessId)
  | quantumExpired (pid : ProcessId) (cpu ticks : Nat)
  | schedule (cpu : Nat) (picked : Option ProcessId)
  | exited (pid : ProcessId)
  | blocked (pid : ProcessId) (cpu ticks : Nat)
  | unblocked (pid : ProcessId)
deriving DecidableEq, Repr

structure Recorded (S : Type) where
  policy : S
  calls : Array PolicyCall := #[]

namespace Recorded

variable {S : Type}

def note (c : PolicyCall) : Policy (Recorded S) Unit :=
  Action.modify fun r => { r with calls := r.calls.push c }

def pass {α : Type} (x : Policy S α) : Policy (Recorded S) α :=
  Action.within Recorded.policy (fun s r => { r with policy := s }) id id x

instance [Scheduler S] : Scheduler (Recorded S) where
  started pid := do
    note (.started pid)
    pass (Scheduler.started pid)
  quantumExpired pid cpu ticks := do
    note (.quantumExpired pid cpu ticks)
    pass (Scheduler.quantumExpired pid cpu ticks)
  schedule cpu := do
    let picked ← pass (Scheduler.schedule cpu)
    note (.schedule cpu picked)
    return picked
  exited pid := do
    note (.exited pid)
    pass (Scheduler.exited pid)
  blocked pid cpu ticks := do
    note (.blocked pid cpu ticks)
    pass (Scheduler.blocked pid cpu ticks)
  unblocked pid := do
    note (.unblocked pid)
    pass (Scheduler.unblocked pid)

end Recorded

end DemandPaging
