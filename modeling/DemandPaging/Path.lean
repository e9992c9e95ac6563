/-!
Path texts: components parted by slashes. Empty components, and single dots that are not in
front, name nothing. A file without an extension gets the usual one.
-/

namespace DemandPaging.Path

def usualExtension : String := "properties"

/-- Skips components that name nothing, reading from the end of a path. -/
def skipEmpty : List Char → List Char
  | '/' :: rest => skipEmpty rest
  | '.' :: '/' :: rest => skipEmpty rest
  | rest => rest

/-- What stands before the last component, and that component. What follows the component and
names nothing is left out. -/
def cutLast (cs : List Char) : List Char × List Char :=
  let rev := skipEmpty cs.reverse
  ((rev.dropWhile (· ≠ '/')).reverse, (rev.takeWhile (· ≠ '/')).reverse)

def fileName? (cs : List Char) : Option (List Char) :=
  match (cutLast cs).2 with
  | [] => none
  | ['.'] => none
  | ['.', '.'] => none
  | name => some name

/-- Whether a file name has an extension: a dot that is not its first character. -/
def hasExtension (name : List Char) : Bool := name.tail.contains '.'

/-- Gives a path the usual extension if its file name has none; what follows the file name is
then dropped. A path without a file name stays as it is. -/
def withUsualExtension (path : String) : String :=
  match fileName? path.toList with
  | none => path
  | some name =>
    if hasExtension name then path
    else String.ofList ((cutLast path.toList).1 ++ name) ++ "." ++ usualExtension

def trimmed (cs : List Char) : List Char :=
  match cutLast cs with
  | ([], []) => cs.take 1
  | (before, last) => before ++ last

def parent (path : String) : String := String.ofList (trimmed (cutLast path.toList).1)

/-- A path seen from a directory. An absolute path stays as it is. -/
def join (base path : String) : String :=
  if path.toList.head? = some '/' then path
  else if base.isEmpty || base.toList.getLast? = some '/' then base ++ path
  else base ++ "/" ++ path

def consComponent (c : Char) : List (List Char) → List (List Char)
  | [] => if c = '/' then [[], []] else [[c]]
  | d :: ds => if c = '/' then [] :: d :: ds else (c :: d) :: ds

/-- All components of a path, those that name nothing included. -/
def components (path : String) : List (List Char) := path.toList.foldr consComponent [[]]

example : withUsualExtension "d.x/t/." = "d.x/t.properties" := by decide +kernel

example : withUsualExtension ".t" = ".t.properties" ∧ withUsualExtension "t." = "t." ∧
    withUsualExtension "d/.." = "d/.." := by decide +kernel

example : parent "c/d/s.cfg" = "c/d" ∧ parent "s.cfg" = "" ∧ parent "./s" = "." := by
  decide +kernel

end DemandPaging.Path
