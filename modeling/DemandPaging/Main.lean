import DemandPaging.CommandLine
/-!
The command: reads the files a configuration names, then runs it and writes each step's log as
the step is taken.
-/

open DemandPaging

def readContents (path : String) : IO Contents := do
  match ← (IO.FS.Handle.mk path .read).toBaseIO with
  | .error _ => return .missing
  | .ok file =>
    match ← file.readBinToEnd.toBaseIO with
    | .error _ => return .directory
    | .ok bytes => return .file bytes

/-- What each path leads to; a path that was not read counts as missing. -/
def readAll (paths : List String) : IO (List (String × Contents)) :=
  paths.mapM fun p => do return (p, ← readContents p)

def contentsIn (table : List (String × Contents)) (path : String) : Contents :=
  (table.lookup path).getD .missing

def writeRecords (filter : Log.Filter) (records : List Log.Record) : IO Unit := do
  for line in Log.lines filter records do
    IO.println line

partial def runMachine {g : Geometry} (filter : Log.Filter) (m : Machine g RoundRobin) :
    IO (Machine g RoundRobin) := do
  if m.isRunning then
    let (next, events) := m.step
    writeRecords filter (events.flatMap Machine.Event.records)
    runMachine filter next
  else
    return m

def runConfig (filter : Log.Filter) (c : Config) : IO Nat := do
  writeRecords filter ((Simulation.openingEvents c).flatMap Machine.Event.records)
  if !Simulation.hasRoom c then return CommandLine.crashed
  let m ← runMachine filter (Simulation.machine c ({} : RoundRobin))
  match Simulation.conclude m with
  | none => return CommandLine.failed
  | some (result, records) =>
    writeRecords filter (records ++ CommandLine.resultRecords result)
    return CommandLine.resultStatus result

def main (args : List String) : IO UInt32 := do
  match CommandLine.parse args with
  | .error r =>
    IO.eprintln "usage: [-v...] [-t] [--cpus N] CONFIG"
    return r.status.toUInt32
  | .ok (options, path) =>
    let config ← readAll [Path.withUsualExtension path]
    let traces ← readAll (Config.tracePaths (contentsIn config) path)
    let (config, records) := CommandLine.prepare (contentsIn (config ++ traces)) options path
    writeRecords options.filter records
    match config with
    | .error status => return status.toUInt32
    | .ok c => return (← runConfig options.filter c).toUInt32
