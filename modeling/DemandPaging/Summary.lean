import DemandPaging.Log
import DemandPaging.Process
import DemandPaging.Translator
/-!
The results of a run: when it ended, what each process did, and the counters of each CPU.
-/

namespace DemandPaging

structure RunSummary where
  finishedAt : Nat
  useTlb : Bool
  cpus : List (Nat × TranslatorCounts) := []
  processes : List (ProcessName × Account) := []
  outstandingSwaps : Nat := 0
  output : Array String := #[]

namespace RunSummary

/-- The counters summed over all CPUs, undefined where a sum leaves its range. -/
def totals? (s : RunSummary) : Option TranslatorCounts :=
  let sum := (s.cpus.map Prod.snd).foldl TranslatorCounts.add {}
  if sum.fits then some sum else none

def find? (s : RunSummary) (name : String) : Option (ProcessName × Account) :=
  s.processes.find? fun p => p.1.name == name

def processMessage (id : ProcessName) (a : Account) : String :=
  match a.startedAt, a.completedAt with
  | some b, some e =>
    s!"{id.text}: started at {b}, completed at {e}, {a.executedTicks} ticks, " ++
      s!"{a.dispatches} dispatches, {a.instructionFaults} instruction faults, " ++
      s!"{a.dataFaults} data faults"
  | _, _ => s!"{id.text} never ran"

def cpuMessages (useTlb : Bool) (cpu : Nat) (s : TranslatorCounts) : List String :=
  [s!"Statistics for CPU {cpu}",
    if useTlb then
      s!"     Hits: {s.hits}. Load Cleans: {s.loadCleans}. Load Steals: {s.loadSteals}. " ++
        s!"Faults: {s.faults}. Invalidates: {s.invalidates}."
    else s!"     Hits: {s.hits}. Faults: {s.faults}. Invalidates: {s.invalidates}."]

def records (s : RunSummary) : List Log.Record :=
  (s!"Finished at time {s.finishedAt}" ::
    (s.processes.map fun (id, a) => processMessage id a) ++
    s.cpus.flatMap fun (c, t) => cpuMessages s.useTlb c t).map fun m => ⟨.info, m⟩

end RunSummary

end DemandPaging
