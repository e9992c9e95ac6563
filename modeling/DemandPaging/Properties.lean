import Std.Data.HashMap
import DemandPaging.Outcome
import DemandPaging.Properties.Line
import DemandPaging.Text.Charset
/-!
Properties: keys with their values, read from a file of entries. Where a key is defined more than
once, the last definition counts.
-/

namespace DemandPaging

structure PropertiesError where
  cause : String
  line : Option Nat
deriving DecidableEq, Repr

def PropertiesError.message (e : PropertiesError) : String :=
  match e.line with
  | some n => e.cause ++ " (line_number = " ++ Text.decimal n ++ ")"
  | none => e.cause

structure Properties where
  entries : Std.HashMap String String := {}

namespace Properties

def get? (p : Properties) (key : String) : Option String := p.entries[key]?

def insert (p : Properties) (key value : String) : Properties := ⟨p.entries.insert key value⟩

def size (p : Properties) : Nat := p.entries.size

def isEmpty (p : Properties) : Bool := p.entries.isEmpty

def addLine (p : Properties) (l : LogicalLine) : Except PropertiesError Properties :=
  match l.content with
  | .error e => .error ⟨e.message, some l.number⟩
  | .ok (.entry key value) => .ok (p.insert key value)
  | .ok _ => .ok p

def ofLines (lines : List (List Char)) : Except PropertiesError Properties :=
  (logicalLines lines).foldlM addLine {}

/-- Reads a decoded text. One that is broken off has no last line, and errors in the lines before
are all it can answer. -/
def ofDecoded (t : Text.Decoded) : Except (Failure PropertiesError) Properties :=
  let lines := naturalLines t.chars
  if t.broken then
    match ofLines lines.dropLast with
    | .error e => .error (.error e)
    | .ok _ => .error (.crash .brokenText)
  else (ofLines lines).mapError .error

def ofBytes (bytes : ByteArray) : Except (Failure PropertiesError) Properties :=
  ofDecoded (Text.decodeBytes bytes.toList)

def ofText (s : String) : Except (Failure PropertiesError) Properties := ofBytes s.toUTF8

def unreadable : PropertiesError := ⟨"I/O error", some 1⟩

theorem get?_insert (p : Properties) (key value k : String) :
    (p.insert key value).get? k = if key = k then some value else p.get? k := by
  simp [insert, get?, Std.HashMap.getElem?_insert]

end Properties

end DemandPaging
