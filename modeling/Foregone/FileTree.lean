/-! # Files and directories

A path is a list of names. Walking a directory yields the source files below it, in
the order of their paths, except for those in directories that are never looked
into. -/

namespace Foregone

/-- What stands under a name. Reading a file or another thing may fail for the given
reason. -/
inductive FileTree where
  | file (content : Except String (List UInt8))
  /-- neither a file nor a directory -/
  | other (reason : String)
  | dir (entries : List (String × FileTree))

namespace Path

/-- The root a path begins with. Exactly two slashes are a root of their own. -/
def root? (path : String) : Option String :=
  match path.toList.takeWhile (· == '/') with
  | [] => none
  | ['/', '/'] => some "//"
  | _ => some "/"

/-- The parts of a path: neither empty ones nor those that stay in place, and the root
as a part of its own. -/
def parts (path : String) : List String :=
  (root? path).toList ++ (path.splitOn "/").filter fun name => name ≠ "" ∧ name ≠ "."

def isRoot (part : String) : Bool := part == "/" || part == "//"

def text : List String → String
  | [] => "."
  | part :: names =>
    if isRoot part then part ++ "/".intercalate names else "/".intercalate (part :: names)

/-- Paths are ordered part by part. -/
def le : List String → List String → Bool
  | [], _ => true
  | _ :: _, [] => false
  | a :: as, b :: bs => a < b || (a == b && le as bs)

/-- The ending of a file name: from the last point on, which must neither begin nor
end the name. -/
def suffix (name : String) : String :=
  let reversed := name.toList.reverse
  let ending := reversed.takeWhile (· != '.')
  let stem := reversed.drop (ending.length + 1)
  if ending.isEmpty || stem.isEmpty then "" else "." ++ String.ofList ending.reverse

/-- The endings of source files. -/
def sourceSuffixes : List String := [".py", ".pyi"]

def isSourceName (name : String) : Bool := sourceSuffixes.contains (suffix name)

/-- Directories that hold no sources of their own. -/
def excludedNames : List String := [
  ".git", ".hg", ".svn", ".tox", ".nox", ".venv", "venv", "__pycache__", ".mypy_cache",
  ".pytest_cache", ".ruff_cache", "build", "dist"]

/-- No directory on the way is an excluded one; the last name may be anything. -/
def isIncluded (names : List String) : Bool :=
  names.dropLast.all fun name => !excludedNames.contains name

end Path

namespace FileTree

mutual

/-- Everything below a tree, with its path from there. -/
def descendants : FileTree → List (List String × FileTree)
  | .file _ => []
  | .other _ => []
  | .dir entries => descendantsOf entries

/-- Everything in a list of entries. -/
def descendantsOf : List (String × FileTree) → List (List String × FileTree)
  | [] => []
  | (name, tree) :: rest =>
    ([name], tree) :: (descendants tree).map (fun e => (name :: e.1, e.2)) ++ descendantsOf rest

end

/-- Everything below a tree in the order of paths. -/
def sorted (tree : FileTree) : List (List String × FileTree) :=
  tree.descendants.mergeSort fun a b => Path.le a.1 b.1

/-- The source files below a tree in the order of paths. -/
def sources (tree : FileTree) : List (List String × Except String (List UInt8)) :=
  tree.sorted.filterMap fun e =>
    match e.2 with
    | .file content =>
      if Path.isIncluded e.1 && (e.1.getLast?.any Path.isSourceName) then some (e.1, content)
      else none
    | _ => none

/-- What stands at a path given by its names, seen from the directories `above`,
innermost first. Only a directory can be entered or left. -/
def resolve (tree : FileTree) (above : List FileTree) : List String → Option FileTree
  | [] => some tree
  | name :: rest =>
    match tree with
    | .dir entries =>
      if name = "" ∨ name = "." then resolve tree above rest
      else if name = ".." then
        match above with
        | outer :: further => resolve outer further rest
        | [] => none
      else match entries.lookup name with
        | some inner => resolve inner (tree :: above) rest
        | none => none
    | _ => none

/-- What stands at a path below the tree, to which a path from the root does not lead. -/
def at? (tree : FileTree) (path : String) : Option FileTree :=
  if path = "" ∨ path.startsWith "/" then none else resolve tree [] (path.splitOn "/")

end FileTree

/-- A source that was named or found: its path as it is shown, and its content. -/
structure SourceFile where
  path : String
  content : Except String (List UInt8)

namespace SourceFile

/-- The sources a path stands for: those below a directory, and anything else as it is. -/
def ofPath (path : String) (tree : FileTree) : List SourceFile :=
  match tree with
  | .dir _ => tree.sources.map fun e => ⟨Path.text (Path.parts path ++ e.1), e.2⟩
  | .file content => [⟨Path.text (Path.parts path), content⟩]
  | .other reason => [⟨Path.text (Path.parts path), .error reason⟩]

/-- The sources of several paths, one path after the other. -/
def ofPaths (paths : List (String × FileTree)) : List SourceFile :=
  paths.flatMap fun p => ofPath p.1 p.2

end SourceFile
end Foregone
