import DemandPaging.Machine
/-!
Moving the clock. With every CPU parked, the clock goes to the earliest tick that somebody waits
for: arriving processes start, blocked ones are ready again, waiting CPUs get a turn, and so does
every idle CPU, in ascending order. The run is over once no process is alive.
-/

namespace DemandPaging.Machine

open DemandPaging.Action

variable {g : Geometry} {S : Type} [Scheduler S]

/-- A process whose text does not fit never starts. -/
def refuse (pid : ProcessId) (textPages : Nat) : Running g S Unit := do
  let now ← time
  report (.notStarted (← process pid).id textPages)
  setStatus pid .exited
  changeAccount pid fun a => { a with completedAt := some now }
  onPager (Pager.release pid)
  modify fun m => { m with live := m.live - 1 }

def start (pid : ProcessId) : Running g S Unit := do
  let now ← time
  modify fun m => { m with pager := m.pager.createSpace pid }
  let p ← process pid
  let textPages := g.pagesForBytes p.trace.textBytes
  if ← onPager (Pager.allocate pid 0 textPages) then
    changeProcess pid fun p =>
      { p with
        textPages
        dataBase := g.pageStart textPages
        saved := {}
        status := .ready
        account := { p.account with startedAt := some now } }
    report (.started p.id now)
    onPolicy (Scheduler.started pid)
  else refuse pid textPages

def wake (pid : ProcessId) : Running g S Unit := do
  let p ← process pid
  if p.isStarted then
    report (.unblocked p.id (← time))
    setStatus pid .ready
    onPolicy (Scheduler.unblocked pid)
  else start pid

def wakeWaiter : Waiter → Running g S Unit
  | .cpu _ => Action.pure ()
  | .process pid => wake pid

def Waiter.cpu? : Waiter → Option Nat
  | .cpu c => some c
  | .process _ => none

/-- Gives turns to the CPUs that waited for this tick and to all idle ones. -/
def releaseCpus (m : Machine g S) (due : List Waiter) : Machine g S :=
  let released := (due.filterMap Waiter.cpu? ++ m.idle).mergeSort (· ≤ ·)
  { m with
    idle := []
    parked := m.parked - released.length
    turns := m.turns ++ released }

def advance : Running g S Unit := do
  let m ← get
  if m.live = 0 then modify fun m => { m with status := .finished }
  else
    let now ← time
    let ((tick, due), rest) ←
      ofOption (.error (.stalled now m.cpus.size m.live)) m.queue.pop?
    modify fun m => { m with queue := rest }
    let clock ← ofOption (.error (.timeWarp now tick)) (m.clock.advance? tick)
    modify fun m => { m with clock }
    each wakeWaiter due
    modify fun m => m.releaseCpus due

end DemandPaging.Machine
