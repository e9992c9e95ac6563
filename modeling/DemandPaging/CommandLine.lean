import DemandPaging.Simulation
/-!
The command line: options, then a configuration file. Flags of one letter can share a dash, and
after `--` everything is an operand. The command loads the configuration, runs it, and logs on
the way as much as it was asked to.
-/

namespace DemandPaging.CommandLine

structure Options where
  verbose : Nat := 0
  useTlb : Bool := false
  cpus : Option Nat := none
  config : Option String := none
deriving DecidableEq, Repr

inductive Refusal where
  | help | usage
deriving DecidableEq, Repr

abbrev Parsed := Except Refusal Options

def addFlag (o : Options) : Char → Parsed
  | 'v' => .ok { o with verbose := o.verbose + 1 }
  | 't' => if o.useTlb then .error .usage else .ok { o with useTlb := true }
  | 'h' => .error .help
  | _ => .error .usage

def addCpus (o : Options) (value : String) : Parsed :=
  match o.cpus, Text.unsigned? 10 value.toList with
  | none, some n => if n < wordBound then .ok { o with cpus := some n } else .error .usage
  | _, _ => .error .usage

def addOperand (o : Options) (path : String) : Parsed :=
  if o.config.isSome || path.isEmpty then .error .usage else .ok { o with config := some path }

def addLong (o : Options) (name : String) (value : Option String) : Parsed :=
  match name, value with
  | "verbose", none => addFlag o 'v'
  | "tlb", none => addFlag o 't'
  | "help", none => addFlag o 'h'
  | "cpus", some v => addCpus o v
  | _, _ => .error .usage

/-- A long option's name and the value after its equals sign, if it has one. -/
def cutValue (cs : List Char) : String × Option String :=
  match cs.dropWhile (· ≠ '=') with
  | [] => (String.ofList cs, none)
  | _ :: value => (String.ofList (cs.takeWhile (· ≠ '=')), some (String.ofList value))

def parseFrom (o : Options) : List String → Parsed
  | [] => .ok o
  | arg :: args =>
    match arg.toList, args with
    | ['-', '-'], args => args.foldlM addOperand o
    | '-' :: '-' :: long, args =>
      match cutValue long, args with
      | ("cpus", none), value :: args => (addCpus o value).bind fun o => parseFrom o args
      | (name, value), args => (addLong o name value).bind fun o => parseFrom o args
    | '-' :: c :: cs, args => ((c :: cs).foldlM addFlag o).bind fun o => parseFrom o args
    | _, args => (addOperand o arg).bind fun o => parseFrom o args
termination_by args => args.length

def parse (args : List String) : Except Refusal (Options × String) :=
  match parseFrom {} args with
  | .error r => .error r
  | .ok o =>
    match o.config with
    | none => .error .usage
    | some path => .ok (o, path)

def Refusal.status : Refusal → Nat
  | .help => 0
  | .usage => 2

def failed : Nat := 1

def crashed : Nat := 101

def failureStatus {ε : Type} : Failure ε → Nat
  | .error _ => failed
  | .crash _ => crashed

/-- What is logged at the end of a command that has no answer: its error; nothing of a crash. -/
def failureRecords {ε : Type} (message : ε → String) : Failure ε → List Log.Record
  | .error e => [⟨.error, message e⟩]
  | .crash _ => []

def Options.filter (o : Options) : Log.Filter :=
  match o.verbose with
  | 0 => .upTo .info
  | 1 => .upTo .debug
  | _ => .upTo .trace

def Options.configure? (o : Options) (c : Config) : Option Config :=
  match o.cpus with
  | some 0 => none
  | some n => some { c with cpus := n, useTlb := o.useTlb }
  | none => some { c with useTlb := o.useTlb }

/-- Loads the configuration of a command, or gives the status to end with; what is logged comes
along. -/
def prepare (read : String → Contents) (o : Options) (path : String) :
    Except Nat Config × List Log.Record :=
  match (Config.load read path).run () with
  | ⟨.ok c, _, events⟩ =>
    ((o.configure? c).elim (.error failed) .ok, events.map Config.Event.record)
  | ⟨.error r, _, events⟩ =>
    (.error (failureStatus r),
      events.map Config.Event.record ++ failureRecords ConfigError.message r)

def resultStatus : Except (Failure RunError) RunSummary → Nat
  | .ok _ => 0
  | .error r => failureStatus r

/-- An error that stopped a run is logged once more at the end. -/
def resultRecords : Except (Failure RunError) RunSummary → List Log.Record
  | .ok _ => []
  | .error r => failureRecords RunError.message r

/-- Runs a command: its status and the lines it writes; none if the run takes more than `fuel`
steps. -/
def run (fuel : Nat) (read : String → Contents) (args : List String) :
    Option (Nat × List String) :=
  match parse args with
  | .error r => some (r.status, [])
  | .ok (o, path) =>
    match prepare read o path with
    | (.error status, records) => some (status, Log.lines o.filter records)
    | (.ok c, records) =>
      (Simulation.run fuel c ({} : RoundRobin)).map fun e =>
        (resultStatus e.result,
          Log.lines o.filter (records ++ e.records ++ resultRecords e.result))

end DemandPaging.CommandLine
