/-!
Log records and the console that writes them. A console writes a record when the record's level
passes its filter: the level in brackets, padded to five characters, then the message and an end
of line.
-/

namespace DemandPaging.Log

inductive Level where
  | error | warn | info | debug | trace
deriving DecidableEq, Repr

def Level.rank : Level → Nat
  | .error => 1
  | .warn => 2
  | .info => 3
  | .debug => 4
  | .trace => 5

def Level.name : Level → String
  | .error => "ERROR"
  | .warn => "WARN"
  | .info => "INFO"
  | .debug => "DEBUG"
  | .trace => "TRACE"

def Level.ofName? (s : String) : Option Level :=
  [.error, .warn, .info, .debug, .trace].find? fun l => l.name == s

theorem Level.ofName?_name (l : Level) : ofName? l.name = some l := by cases l <;> rfl

/-- The level in the five columns a console gives it. -/
def Level.column : Level → String
  | .error => "ERROR"
  | .warn => "WARN "
  | .info => "INFO "
  | .debug => "DEBUG"
  | .trace => "TRACE"

/-- The least severe level that is written; `off` writes nothing. -/
inductive Filter where
  | off
  | upTo (level : Level)
deriving DecidableEq, Repr

def Filter.name : Filter → String
  | .off => "OFF"
  | .upTo l => l.name

def Filter.allows : Filter → Level → Bool
  | .off, _ => false
  | .upTo most, l => l.rank ≤ most.rank

structure Record where
  level : Level
  message : String
deriving DecidableEq, Repr

def Record.text (r : Record) : String :=
  "[" ++ r.level.column ++ "] " ++ r.message ++ "\n"

/-- A console: its filter, the texts of the writers it was detached from, the text of the
present one. -/
structure Console where
  filter : Filter
  detached : List String := []
  text : String := ""
deriving DecidableEq, Repr

namespace Console

def enabled (c : Console) (l : Level) : Bool := c.filter.allows l

def write (c : Console) (r : Record) : Console :=
  if c.enabled r.level then { c with text := c.text ++ r.text } else c

def attach (c : Console) : Console :=
  { c with detached := c.detached ++ [c.text], text := "" }

def texts (c : Console) : List String := c.detached ++ [c.text]

end Console

/-- The lines a console with this filter shows for the records. A message that holds an end of
line takes several. -/
def lines (f : Filter) (rs : List Record) : List String :=
  (rs.filter fun r => f.allows r.level).flatMap fun r =>
    ("[" ++ r.level.column ++ "] " ++ r.message).splitOn "\n"

end DemandPaging.Log
