import DemandPaging.Text.Integer
/-!
The lines of a properties file. A natural line ends at LF, CR or CR LF. A natural line that ends
in an odd number of backslashes goes on, without the last of them, in the next one, whose leading
blanks do not count; comments never go on. A logical line is blank, a comment, or an entry.
-/

namespace DemandPaging.Properties

inductive LineError where
  | notEnoughDigits | notHex | invalidCharacter
deriving DecidableEq, Repr

def LineError.message : LineError → String
  | .notEnoughDigits => "Malformed \\uxxxx encoding: not enough digits."
  | .notHex => "Malformed \\uxxxx encoding: not hex."
  | .invalidCharacter => "Malformed \\uxxxx encoding: invalid character."

/-- The blanks of this format, fewer than Unicode's. -/
def isGap (c : Char) : Bool :=
  c == ' ' || c == '\t' || c == '\r' || c == '\n' || c == '\x0c'

/-- Natural lines in the making, last character first: the lines after this place, and whether
the next character is the LF that may end a CR LF. -/
structure NaturalLines where
  current : List Char := []
  later : List (List Char) := []
  beforeLf : Bool := false

def NaturalLines.add (c : Char) (n : NaturalLines) : NaturalLines :=
  if c = '\r' ∧ n.beforeLf then { n with beforeLf := false }
  else if c = '\n' ∨ c = '\r' then
    { current := [], later := n.current :: n.later, beforeLf := c = '\n' }
  else { n with current := c :: n.current, beforeLf := false }

def naturalLines (cs : List Char) : List (List Char) :=
  let n := cs.foldr NaturalLines.add {}
  n.current :: n.later

structure LogicalLine where
  number : Nat
  text : List Char
deriving DecidableEq, Repr

def isCommentStart (c : Char) : Bool := c == '#' || c == '!'

def isComment (line : List Char) : Bool := (line.dropWhile isGap).head?.any isCommentStart

def goesOn (line : List Char) : Bool := (line.reverse.takeWhile (· == '\\')).length % 2 == 1

/-- Adds a natural line to the logical line it continues, if it continues one. Logical lines are
collected last first. -/
def joinLine (state : List LogicalLine × Option LogicalLine) (line : List Char × Nat) :
    List LogicalLine × Option LogicalLine :=
  let (done, begun) := state
  let (text, i) := line
  let part : LogicalLine :=
    match begun with
    | none => ⟨i + 1, text⟩
    | some b => ⟨b.number, b.text ++ Text.trimStart text⟩
  if begun.isNone && isComment text then (part :: done, none)
  else if goesOn text then (done, some ⟨part.number, part.text.dropLast⟩)
  else (part :: done, none)

/-- The logical lines that natural lines make. One that does not come to its end is dropped. -/
def logicalLines (lines : List (List Char)) : List LogicalLine :=
  (lines.zipIdx.foldl joinLine ([], none)).1.reverse

def unicodeEscape (digits : List Char) : Except LineError Char :=
  match Text.unsigned? 16 digits with
  | none => .error .notHex
  | some n => if 0xD800 ≤ n ∧ n < 0xE000 then .error .invalidCharacter else .ok (Char.ofNat n)

def escaped : Char → Char
  | 't' => '\t'
  | 'n' => '\n'
  | 'f' => '\x0c'
  | 'r' => '\r'
  | c => c

/-- Replaces escapes, after the characters in `done`, which come last first. A backslash at the
very end stands for the character zero. -/
def unescapeFrom (done : List Char) : List Char → Except LineError (List Char)
  | [] => .ok done.reverse
  | ['\\'] => .ok ('\x00' :: done).reverse
  | '\\' :: 'u' :: a :: b :: c :: d :: rest =>
    match unicodeEscape [a, b, c, d] with
    | .ok x => unescapeFrom (x :: done) rest
    | .error e => .error e
  | '\\' :: 'u' :: _ => .error .notEnoughDigits
  | '\\' :: c :: rest => unescapeFrom (escaped c :: done) rest
  | c :: rest => unescapeFrom (c :: done) rest

def unescape (cs : List Char) : Except LineError String :=
  (unescapeFrom [] cs).map String.ofList

/-- Cuts a line behind its key: escapes in pairs, and other characters up to a separator. -/
def cutKeyFrom (key : List Char) : List Char → List Char × List Char
  | [] => (key.reverse, [])
  | ['\\'] => (key.reverse, ['\\'])
  | '\\' :: c :: rest => cutKeyFrom (c :: '\\' :: key) rest
  | c :: rest =>
    if c == ':' || c == '=' || isGap c then (key.reverse, c :: rest)
    else cutKeyFrom (c :: key) rest

/-- Skips the blanks behind a key and, among them, at most one colon or equals sign. -/
def skipSeparator (cs : List Char) : List Char :=
  match cs.dropWhile isGap with
  | ':' :: rest => rest.dropWhile isGap
  | '=' :: rest => rest.dropWhile isGap
  | rest => rest

def commentText (cs : List Char) : List Char := (cs.reverse.dropWhile isGap).reverse

inductive Content where
  | blank
  | comment
  | entry (key value : String)
deriving DecidableEq, Repr

/-- Reads a logical line. Escapes are read in comments too. -/
def LogicalLine.content (l : LogicalLine) : Except LineError Content := do
  let text := l.text.dropWhile isGap
  match text with
  | [] => return .blank
  | c :: rest =>
    if isCommentStart c then
      let _ ← unescape (commentText rest)
      return .comment
    else
      let (key, value) := cutKeyFrom [] text
      let key ← unescape key
      let value ← unescape (skipSeparator value)
      return .entry key value

end DemandPaging.Properties
