import DemandPaging.Properties
import DemandPaging.Text.Integer
import DemandPaging.Trace
/-!
Expanding a trace from properties. The sequence of a tag is a list of elements parted by
semicolons: instructions, and references to other tags, which begin with an underscore. A tag
stands for its sequence, repeated as often as the tag asks. An element that begins with `#` ends
its sequence.
-/

namespace DemandPaging

inductive TraceError where
  | io (path : String)
  | malformed (source : String) (e : PropertiesError)
  | missingTag (source tag : String)
  | invalidReps (source tag value : String)
  | tooDeep (source tag : String)
  | tooLong (source : String)
deriving DecidableEq, Repr

namespace Trace

def maxDepth : Nat := 64

def maxInstructions : Nat := 1 <<< 20

end Trace

def TraceError.message : TraceError → String
  | .io p => s!"unable to read trace file {p}"
  | .malformed s _ => s!"trace input {s} is not a valid properties file"
  | .missingTag s t => s!"trace input {s} is missing the {t}.TR property"
  | .invalidReps s t v => s!"trace input {s} has invalid repetition count '{v}' for {t}"
  | .tooDeep s t =>
    s!"trace input {s} nests tags deeper than {Trace.maxDepth} levels at {t}"
  | .tooLong s => s!"trace input {s} expands to more than {Trace.maxInstructions} instructions"

namespace Trace

def consElement (c : Char) : List (List Char) → List (List Char)
  | [] => if c = ';' then [[], []] else [[c]]
  | e :: es => if c = ';' then [] :: e :: es else (c :: e) :: es

def cutElements (cs : List Char) : List (List Char) := cs.foldr consElement [[]]

/-- The elements of a sequence that count. -/
def elements (sequence : String) : List (List Char) :=
  (((cutElements sequence.toList).map Text.trimChars).filter fun e => !e.isEmpty).takeWhile
    fun e => e.head? ≠ some '#'

def isReference (e : List Char) : Bool := e.head? = some '_'

abbrev Expanded := Except TraceError (Array String)

def repeated (n : Nat) (body : Array String) : Array String :=
  Array.ofFn fun i : Fin (n * body.size) =>
    have : i.val % body.size < body.size :=
      Nat.mod_lt _ (Nat.pos_of_mul_pos_left (Nat.zero_lt_of_lt i.isLt))
    body[i.val % body.size]

theorem size_repeated (n : Nat) (body : Array String) :
    (repeated n body).size = n * body.size := by
  simp [repeated]

/-- A body as often as asked, if there is room for it. -/
def repeatWithin (source : String) (room n : Nat) (body : Array String) : Expanded :=
  if n * body.size ≤ room then .ok (repeated n body) else .error (.tooLong source)

def reps (p : Properties) (source tag : String) : Except TraceError Nat :=
  match p.get? (tag ++ ".REPS") with
  | none => .ok 1
  | some v =>
    match Text.naturalBelow? wordBound v with
    | some n => .ok n
    | none => .error (.invalidReps source tag v)

/-- The expansion of a tag into at most `room` instructions; `levels` more levels of nesting are
allowed. The body of a tag that is not repeated at all is not looked at. -/
def expandTag (p : Properties) (source : String) :
    (levels : Nat) → (room : Nat) → (tag : String) → Expanded
  | 0, _, tag => .error (.tooDeep source tag)
  | levels + 1, room, tag =>
    match p.get? (tag ++ ".TR") with
    | none => .error (.missingTag source tag)
    | some sequence =>
      match reps p source tag with
      | .error e => .error e
      | .ok 0 => .ok #[]
      | .ok n => do
        let body ← (elements sequence).foldlM
          (fun out e => do
            let left := room - out.size
            let text := String.ofList e
            let piece ←
              if isReference e then expandTag p source levels left text
              else repeatWithin source left 1 #[text]
            return out ++ piece)
          #[]
        repeatWithin source room n body

def ofProperties (p : Properties) (source : String) : Except TraceError Trace :=
  (expandTag p source (maxDepth + 1) maxInstructions "ROOT").map fun out => ⟨out⟩

end Trace

end DemandPaging
