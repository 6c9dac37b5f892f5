import Pegwork.Hitting.Error

/-!
# File trees

A picture of a directory and what is in it, for programs that only read files. Paths are followed
component by component from the directory; nothing outside of it can be read.
-/

namespace Pegwork

open Hitting (FileError)

/-- What stands at a path. -/
inductive FileNode where
  /-- A file with the given bytes. -/
  | file (bytes : List UInt8)
  /-- A directory. -/
  | directory
  deriving DecidableEq, Repr

/-- The files and directories of a tree by the components of their paths. -/
abbrev FileTree := List (List String × FileNode)

namespace FileTree

/-- The components of a path. -/
def components (path : String) : List String := path.splitOn "/"

/-- The greatest number of bytes of a component of a path. -/
def nameLimit : Nat := 255

/-- The greatest number of bytes of a path. -/
def pathLimit : Nat := 4095

/-! ## Building -/

/-- Follows one component of a path that need not exist, from the path in front of it. Paths are kept with
the last component first. -/
def extend (path : List String) (component : String) : List String :=
  if component = "" || component = "." then path
  else if component = ".." then path.tail
  else component :: path

/-- The directories that lead to a path. -/
def ancestors : List String → List (List String)
  | [] | [_] => []
  | _ :: parent => parent :: ancestors parent

/-- A tree with one more file or directory in it, and with the directories that lead to it. -/
def add (tree : FileTree) (path : String) (node : FileNode) : FileTree :=
  let place := (components path).foldl extend []
  (place.reverse, node) :: tree ++ (ancestors place).map fun p => (p.reverse, .directory)

/-! ## Reading -/

/-- Where following a path has come to. -/
inductive Place where
  /-- A directory of the tree, by the components of its path, the last first. -/
  | inside (path : List String)
  /-- A directory outside of the tree. -/
  | outside
  /-- A file. -/
  | atFile (bytes : List UInt8)

/-- Follows one component of a path. -/
def step (tree : FileTree) (place : Place) (component : String) : Except FileError Place :=
  match place with
  | .atFile _ => .error .notDirectory
  | .outside =>
    if component = "" || component = "." || component = ".." then .ok .outside
    else if nameLimit < component.utf8ByteSize then .error .nameTooLong
    else .error .notFound
  | .inside path =>
    if component = "" || component = "." then .ok (.inside path)
    else if component = ".." then
      match path with
      | [] => .ok .outside
      | _ :: parent => .ok (.inside parent)
    else if nameLimit < component.utf8ByteSize then .error .nameTooLong
    else
      match tree.lookup (component :: path).reverse with
      | some (.file bytes) => .ok (.atFile bytes)
      | some .directory => .ok (.inside (component :: path))
      | none => .error .notFound

/-- The bytes of the file at a path. -/
def read (tree : FileTree) (path : String) : Except FileError (List UInt8) := do
  if path.contains '\x00' then throw .nulInName
  if path = "" then throw .notFound
  if pathLimit < path.utf8ByteSize then throw .nameTooLong
  let start := if path.startsWith "/" then .outside else Place.inside []
  match ← (components path).foldlM tree.step start with
  | .atFile bytes => return bytes
  | .inside _ | .outside => throw .isDirectory

end FileTree

end Pegwork
