import DemandPaging.FileTree
import DemandPaging.Outcome
import DemandPaging.Log
import DemandPaging.Process
import DemandPaging.Trace.Expansion
/-!
Configurations: a properties file that names the geometry, the number of CPUs and the processes,
each process with its trace. Trace paths are seen from the directory of the configuration file.
What the paths lead to is a parameter throughout.
-/

namespace DemandPaging

inductive ConfigError where
  | io (path : String)
  | malformed (e : PropertiesError)
  | missing (key : String)
  | invalid (key value : String)
  | noProcesses
  | geometry (e : GeometryError)
  | trace (e : TraceError)
deriving DecidableEq, Repr

def ConfigError.message : ConfigError → String
  | .io p => s!"unable to read configuration file {p}"
  | .malformed _ => "malformed configuration properties"
  | .missing k => s!"configuration is missing the {k} property"
  | .invalid k v => s!"configuration property {k} has invalid value '{v}'"
  | .noProcesses => "configuration lists no processes"
  | .geometry e => e.message
  | .trace e => e.message

def Trace.load (read : String → Contents) (path : String) : Except (Failure TraceError) Trace :=
  let path := Path.withUsualExtension path
  match read path with
  | .missing => .error (.error (.io path))
  | .directory => .error (.error (.malformed path Properties.unreadable))
  | .file bytes =>
    match Properties.ofBytes bytes with
    | .error r => .error (r.map (.malformed path))
    | .ok p => (Trace.ofProperties p path).mapError .error

structure Config where
  geometry : Geometry
  cpus : Nat := 1
  useTlb : Bool := false
  processes : List ProcessSpec := []

namespace Config

inductive Event where
  | usingFile (path : String)
  | parameter (key : String) (value : Nat)
  | cpus (n : Nat)
  | processes (names : String)
deriving DecidableEq, Repr

def Event.record : Event → Log.Record
  | .usingFile p => ⟨.info, s!"Simulator using config file {p}"⟩
  | .parameter k v => ⟨.info, s!"{k}: {v}"⟩
  | .cpus n => ⟨.info, s!"CPUs: {n}"⟩
  | .processes s => ⟨.info, s!"Processes: {s}"⟩

open DemandPaging.Action

abbrev Loading := Action Event (Failure ConfigError) Unit

/-- The numbers below this bound can be parameters of a geometry, or quanta. -/
def parameterBound : Nat := UInt32.size

def required (p : Properties) (key : String) : Loading String := do
  return Text.trim (← ofOption (.error (.missing key)) (p.get? key))

def natural (key value : String) (bound : Nat) : Loading Nat :=
  ofOption (.error (.invalid key (Text.trim value))) (Text.naturalBelow? bound value)

def optional (p : Properties) (key : String) (bound default : Nat) : Loading Nat :=
  match p.get? key with
  | none => Action.pure default
  | some v => natural key v bound

def log2 (p : Properties) (key : String) : Loading Nat := do
  let n ← natural key (← required p key) parameterBound
  report (.parameter key n)
  return n

def positive (key : String) (n : Nat) : Loading Unit := do
  if n = 0 then fail (.error (.invalid key "0"))

def ofExcept {ε α : Type} (f : ε → ConfigError) : Except (Failure ε) α → Loading α
  | .ok a => Action.pure a
  | .error r => fail (r.map f)

def processKey (name field : String) : String := s!"Process.{name}.{field}"

def spec (read : String → Contents) (base : String) (p : Properties) (name : String) :
    Loading ProcessSpec := do
  let path ← required p (processKey name "trace")
  let trace ← ofExcept .trace (Trace.load read (Path.join base path))
  let start ← optional p (processKey name "start") wordBound 0
  let quantum ← optional p (processKey name "quantum") parameterBound defaultQuantum
  positive (processKey name "quantum") quantum
  return { name, trace, start, quantum }

def specs (read : String → Contents) (base : String) (p : Properties) :
    List String → Loading (List ProcessSpec)
  | [] => Action.pure []
  | name :: names => do
    let first ← spec read base p name
    return first :: (← specs read base p names)

def ofProperties (read : String → Contents) (base : String) (p : Properties) :
    Loading Config := do
  let pageSize ← log2 p "PageBytesLog2"
  let frameCount ← log2 p "FrameCountLog2"
  let pageCount ← log2 p "PageCountLog2"
  let level1 ← log2 p "LevelOnePTEntryCountLog2"
  let tlb ← log2 p "TLBEntryCountLog2"
  let geometry ← ofExcept .geometry
    ((Geometry.ofLog2 pageSize frameCount pageCount level1 tlb).mapError .error)
  let cpus ← optional p "CPUs" wordBound 1
  positive "CPUs" cpus
  report (.cpus cpus)
  let names ← required p "Processes"
  report (.processes names)
  let processes ← specs read base p (Text.words names)
  if processes.isEmpty then fail (.error .noProcesses)
  return { geometry, cpus, processes }

/-- Reads a configuration text; trace paths are seen from `base`. -/
def ofText (read : String → Contents) (base text : String) : Loading Config := do
  ofProperties read base (← ofExcept .malformed (Properties.ofText text))

def load (read : String → Contents) (path : String) : Loading Config := do
  let path := Path.withUsualExtension path
  report (.usingFile path)
  match read path with
  | .file bytes =>
    let text ← ofOption (.error (.io path)) (String.fromUTF8? bytes)
    ofText read (Path.parent path) text
  | _ => fail (.error (.io path))

def tracePaths (read : String → Contents) (path : String) : List String :=
  let path := Path.withUsualExtension path
  match read path with
  | .file bytes =>
    match Properties.ofBytes bytes with
    | .ok p =>
      (Text.words ((p.get? "Processes").getD "")).filterMap fun name =>
        (p.get? (processKey name "trace")).map fun t =>
          Path.withUsualExtension (Path.join (Path.parent path) (Text.trim t))
    | .error _ => []
  | _ => []

end Config

end DemandPaging
