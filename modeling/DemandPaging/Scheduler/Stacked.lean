import DemandPaging.Scheduler
/-!
Policies that serve arrivals from a stack before they turn to a round robin, and variations of
them. Some break the promises of a policy: they lose processes, pick one that cannot run, or give
up. A machine must answer those with an error.
-/

namespace DemandPaging

/-- How a stacked policy differs from serving the last arrival first. -/
inductive Manner where
  | lastFirst
  | restack
  | drop
  | oneCpu (cpu : Nat)
  | cling
  | idle
  | insist (pid : ProcessId)
  | failStarted
  | failSchedule
  | failUnblocked
deriving DecidableEq, Repr

structure Stacked where
  manner : Manner
  stack : List ProcessId := []
  rest : RoundRobin := {}
deriving DecidableEq, Repr

namespace Stacked

open DemandPaging.Action

def push (pid : ProcessId) : Policy Stacked Unit :=
  modify fun s => { s with stack := pid :: s.stack }

def pass {α : Type} (x : Policy RoundRobin α) : Policy Stacked α :=
  within Stacked.rest (fun r s => { s with rest := r }) id id x

/-- Takes the top of the stack, or asks the round robin if it is empty. -/
def pop (cpu : Nat) : Policy Stacked (Option ProcessId) := do
  match (← get).stack with
  | pid :: stack =>
    modify fun s => { s with stack }
    return some pid
  | [] => pass (Scheduler.schedule cpu)

def pick (cpu : Nat) : Policy Stacked (Option ProcessId) := do
  let s ← get
  match s.manner with
  | .oneCpu c => if cpu = c then pop cpu else return none
  | .cling => return s.stack.getLast?
  | .idle => return none
  | .insist pid => return some pid
  | .failSchedule => fail .policy
  | _ => pop cpu

instance : Scheduler Stacked where
  started pid := do
    if (← get).manner = .failStarted then fail .policy
    push pid
  quantumExpired pid cpu ticks := do
    match (← get).manner with
    | .restack => push pid
    | .drop | .cling => return ()
    | _ => pass (Scheduler.quantumExpired pid cpu ticks)
  schedule := pick
  exited pid := do
    if (← get).manner ≠ .cling then
      modify fun s => { s with stack := s.stack.filter (· ≠ pid) }
    pass (Scheduler.exited pid)
  blocked pid cpu ticks := pass (Scheduler.blocked pid cpu ticks)
  unblocked pid := do
    match (← get).manner with
    | .failUnblocked => fail .policy
    | .restack => push pid
    | .drop => return ()
    | _ => pass (Scheduler.unblocked pid)

end Stacked

end DemandPaging
