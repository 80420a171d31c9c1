import AskSql.Keyed

/-! Paths and what is found at them.  A path is text: joined to a directory, a path that begins with
a slash stands on its own, and any other is appended after a slash.  A tree of files answers for the
paths under its root by following their parts: a dot stays, two dots go to the parent, and every
part but the last must be a directory.

Of what lies outside of the root nothing is known.  A path that leaves the root by two dots comes to
a directory there, and whatever it names from there on is missing.  A file system would lead it back
below the root where it names the root again, as `../data/shared` does in a directory `data`, and
would stay at its own root where there is no parent, as `/..` does; the tree does not. -/

namespace AskSql.Storage

/-- What is found at a path. -/
inductive PathState
  | missing
  | directory
  | unreadable
  | file (content : String)
deriving Repr, DecidableEq

/-- What is found at every path. -/
abbrev Files := String → PathState

/-- The path `part` seen from the directory `base`. -/
def join (base part : String) : String :=
  if part.toList.head? = some '/' then part
  else if base.isEmpty || base.toList.getLast? = some '/' then base ++ part
  else base ++ "/" ++ part

/-- A tree of files: what is found at each path below its root, a path being given by its parts.  A
directory is listed with everything above it. -/
structure FileTree where
  nodes : List (List String × PathState)
deriving Repr

namespace FileTree

/-- The parts of a path that name something. -/
def parts (path : String) : List String :=
  ((path.toList.splitOn '/').map String.ofList).filter (!·.isEmpty)

/-- The directories that lead to a path, the path itself left out. -/
def parents (path : List String) : List (List String) :=
  (List.range path.length).map (path.take ·)

/-- The tree of files with their contents and of directories, both by their paths below the root. -/
def ofPaths (files : List (String × String)) (directories : List String) : FileTree :=
  let files := files.map fun (path, content) => (parts path, PathState.file content)
  let directories := directories.map fun path => (parts path, PathState.directory)
  let given := files ++ directories
  ⟨given ++ (given.flatMap fun (path, _) => parents path).map (·, PathState.directory) ++
    [([], .directory)]⟩

/-- What is found at a path given by its parts. -/
def node (tree : FileTree) (path : List String) : PathState :=
  (tree.nodes.lookup path).getD .missing

/-- A place that a walk has reached: below the root, or a directory outside, of which nothing is
known. -/
inductive Place
  | inside (path : List String)
  | outside
deriving Repr, DecidableEq

/-- What is found at a place. -/
def state (tree : FileTree) : Place → PathState
  | .inside path => tree.node path
  | .outside => .directory

/-- The place that a part of a path leads to.  Nothing can be reached from what is no directory. -/
def step (tree : FileTree) (place : Place) (part : List Char) : Option Place :=
  if tree.state place ≠ .directory then none
  else if part = [] ∨ part = ['.'] then some place
  else if part = ['.', '.'] then
    match place with
    | .inside [] | .outside => some .outside
    | .inside path => some (.inside path.dropLast)
  else
    match place with
    | .inside path =>
      let path := path ++ [String.ofList part]
      if tree.node path = .missing then none else some (.inside path)
    | .outside => none

/-- What is found when the parts of a path are followed from a place. -/
def walk (tree : FileTree) (place : Place) (path : List Char) : PathState :=
  match (path.splitOn '/').foldlM (tree.step ·) place with
  | some place => tree.state place
  | none => .missing

/-- What is found at a path, where `root` is the path of the root of the tree. -/
def files (tree : FileTree) (root : String) : Files := fun path =>
  match root.toList.isPrefixOf? path.toList with
  | some [] => .directory
  | some ('/' :: rest) => tree.walk (.inside []) rest
  | _ => tree.walk .outside path.toList

end FileTree

end AskSql.Storage
