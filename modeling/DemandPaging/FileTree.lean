import DemandPaging.Path
/-!
What stands under a path, and a tree of files in which paths can be followed from a working
directory.
-/

namespace DemandPaging

inductive Contents where
  | missing
  | directory
  | file (bytes : ByteArray)

structure File where
  path : String
  bytes : ByteArray

/-- Files by their paths from the working directory. -/
structure FileTree where
  files : List File

/-- A place in a tree: the components that lead to it from the working directory, last first. -/
abbrev Place := List (List Char)

def File.place (f : File) : Place :=
  ((Path.components f.path).filter fun c => !c.isEmpty).reverse

def staysAbove (c : List Char) : Bool := c = [] || c = ['.'] || c = ['.', '.']

namespace FileTree

def contentsAt (t : FileTree) (p : Place) : Contents :=
  match t.files.find? fun f => f.place == p with
  | some f => .file f.bytes
  | none =>
    if p.isEmpty || t.files.any fun f => p.isSuffixOf f.place then .directory
    else .missing

/-- Follows components. Nothing is below a file, not even the file itself; what lies above the
working directory is known to be directories and no more. -/
def follow (t : FileTree) (p : Place) : List (List Char) → Contents
  | [] => t.contentsAt p
  | c :: cs =>
    match t.contentsAt p with
    | .directory =>
      if c = [] ∨ c = ['.'] then follow t p cs
      else if c = ['.', '.'] then
        match p with
        | _ :: q => follow t q cs
        | [] =>
          if cs.all staysAbove then .directory else .missing
      else follow t (c :: p) cs
    | _ => .missing

/-- What a path leads to. The empty path leads nowhere. -/
def lookup (t : FileTree) (path : String) : Contents :=
  match path.toList with
  | [] => .missing
  | '/' :: _ =>
    if (Path.components path).all staysAbove then .directory else .missing
  | _ => t.follow [] (Path.components path)

end FileTree

end DemandPaging
