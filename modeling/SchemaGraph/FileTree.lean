/-!
# File trees

The files that settings are kept in: a tree of directories with files as leaves. That nothing lies
below a file, and that the way to a file leads through directories, is in the type.

* `FileTree.get?`: what is at a path.
* `FileTree.write?`: put a file at a path; the directories on the way are made where they are
  missing. It is refused below a file and in the place of a directory, and then nothing is made.
* `FileTree.makeDirectory?`, `FileTree.delete?`: make a directory, take a file away.
* `FileTree.put?`: put a file into a directory that must be there.
-/

namespace SchemaGraph

/-- The names on the way to a file, from the root. -/
abbrev Path := List String

/-- The path that a text with slashes stands for. -/
def Path.ofString (text : String) : Path :=
  (text.splitOn "/").filter fun name => name != "" && name != "."

/-- A file, or a directory with the names of what it holds. -/
inductive FileTree where
  | file (content : ByteArray)
  | directory (entries : List (String × FileTree))

namespace FileTree

def empty : FileTree := .directory []

/-- What is at a path. -/
def get? : Path → FileTree → Option FileTree
  | [], tree => some tree
  | name :: path, .directory entries => (entries.lookup name).bind (get? path)
  | _ :: _, .file _ => none

/-- Put a tree in the place of the one with a name, or behind the others. -/
def replace (name : String) (tree : FileTree) :
    List (String × FileTree) → List (String × FileTree)
  | [] => [(name, tree)]
  | (other, old) :: rest =>
    if other = name then (name, tree) :: rest else (other, old) :: replace name tree rest

/-- Change what is at a path, given what is there; the directories on the way are made where they
are missing. -/
def update? (change : Option FileTree → Option FileTree) :
    Path → Option FileTree → Option FileTree
  | [], there => change there
  | _ :: _, some (.file _) => none
  | name :: path, some (.directory entries) =>
    (update? change path (entries.lookup name)).map fun tree =>
      .directory (replace name tree entries)
  | name :: path, none =>
    (update? change path none).map fun tree => .directory [(name, tree)]

/-- Put a file at a path. -/
def write? (path : Path) (content : ByteArray) (tree : FileTree) : Option FileTree :=
  update?
    (fun
      | some (.directory _) => none
      | _ => some (.file content))
    path (some tree)

/-- Make a directory at a path, unless there is one. -/
def makeDirectory? (path : Path) (tree : FileTree) : Option FileTree :=
  update?
    (fun
      | none => some (.directory [])
      | some (.directory entries) => some (.directory entries)
      | some (.file _) => none)
    path (some tree)

/-- Take the file at a path away. -/
def delete? : Path → FileTree → Option FileTree
  | [], _ => none
  | _ :: _, .file _ => none
  | [name], .directory entries =>
    match entries.lookup name with
    | some (.file _) => some (.directory (entries.filter fun entry => entry.1 != name))
    | _ => none
  | name :: path, .directory entries => do
    let tree ← delete? path (← entries.lookup name)
    return .directory (replace name tree entries)

/-- The content of the file at a path. -/
def content? (path : Path) (tree : FileTree) : Option ByteArray :=
  match get? path tree with
  | some (.file content) => some content
  | _ => none

/-- The content of the file at a path, if it is UTF-8. -/
def text? (path : Path) (tree : FileTree) : Option String :=
  (content? path tree).bind String.fromUTF8?

def isDirectory (path : Path) (tree : FileTree) : Bool :=
  match tree.get? path with
  | some (.directory _) => true
  | _ => false

/-- Put a file at a path, into a directory that is there. -/
def put? (path : Path) (content : ByteArray) (tree : FileTree) : Option FileTree :=
  if path.isEmpty || tree.isDirectory path.dropLast then tree.write? path content else none

end FileTree

end SchemaGraph
