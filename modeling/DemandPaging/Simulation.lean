import DemandPaging.Config
import DemandPaging.Machine.Run
import DemandPaging.Summary
/-!
Running a configuration to its end.
-/

namespace DemandPaging

/-- How a run ended: its summary or the error that stopped it, the records it logged, and the
policy's last state. -/
structure Ended (S : Type) where
  result : Except (Failure RunError) RunSummary
  records : List Log.Record
  scheduler : S

namespace Simulation

/-- Traces shorter than this are logged when a machine is built. -/
def loggedTraceLimit : Nat := 100

def openingEvents (c : Config) : List Machine.Event :=
  .geometry c.geometry ::
    (c.processes.zipIdx.filter fun p => p.1.trace.size < loggedTraceLimit).map fun (s, pid) =>
      .loaded ⟨s.name, pid⟩ s.trace

variable {S : Type}

def machine (c : Config) (scheduler : S) : Machine c.geometry S :=
  Machine.new c.geometry c.cpus c.useTlb scheduler c.processes

def hasRoom (c : Config) : Bool := c.cpus ≤ Machine.maxCpus

def summary {g : Geometry} (m : Machine g S) : RunSummary :=
  { finishedAt := m.clock.now
    useTlb := m.useTlb
    cpus := m.pager.translators.toList.map fun u => (u.cpu, u.counts)
    processes := m.processes.toList.map fun p => (p.id, p.account)
    outstandingSwaps := m.pager.swap.size
    output := m.output }

def conclude {g : Geometry} (m : Machine g S) :
    Option (Except (Failure RunError) RunSummary × List Log.Record) :=
  match m.status with
  | .running => none
  | .aborted e => some (.error (.error e), [])
  | .finished =>
    let left := (Pager.checkSwaps.run m.pager).events
    some (.ok (summary m), left.flatMap Paging.Event.records ++ (summary m).records)

/-- Runs a configuration for at most `fuel` steps; none if it is still running then. -/
def run [Scheduler S] (fuel : Nat) (c : Config) (scheduler : S) : Option (Ended S) :=
  let opening := openingEvents c
  if hasRoom c then
    match (machine c scheduler).runFor fuel opening.toArray with
    | (m, events) =>
      (conclude m).map fun (result, closing) =>
        { result
          records := events.toList.flatMap Machine.Event.records ++ closing
          scheduler := m.scheduler }
  else
    some
      { result := .error (.crash .noRoom)
        records := opening.flatMap Machine.Event.records
        scheduler }

end Simulation

end DemandPaging
