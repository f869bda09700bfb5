import HybridStep.Text.Path

/-! # Trees of files

The files of a directory and of all directories inside it, each at the names on its path. A path is
followed name by name, and only from a directory; a directory is walked in the order of names, each
subdirectory in its place. -/

namespace HybridStep

/-- Files with their contents, each at the names on its path. -/
structure FileTree where
  files : List (List String × String)

namespace FileTree

/-- The names between the slashes of a path. -/
def names (path : String) : List String := Path.names '/' path

/-- Whether a name leads nowhere. -/
def isIdle (name : String) : Bool := name = "" || name = "."

/-- The tree of files given by their paths. -/
def ofList (l : List (String × String)) : FileTree :=
  ⟨l.map fun (path, contents) => ((names path).filter fun n => !isIdle n, contents)⟩

/-- The contents of the file at a place. -/
def contents? (t : FileTree) (place : List String) : Option String := t.files.lookup place

/-- Whether a place is a directory. -/
def isDirectory (t : FileTree) (place : List String) : Bool :=
  place.isEmpty || t.files.any fun f => place.isPrefixOf f.1 && f.1 ≠ place

/-- The place that a name leads to from a place. -/
def follow? (t : FileTree) (place : List String) (name : String) : Option (List String) :=
  if !t.isDirectory place then none
  else if isIdle name then some place
  else if name = ".." then if place.isEmpty then none else some place.dropLast
  else some (place ++ [name])

/-- The place that several names lead to from a place. -/
def followAll? (t : FileTree) (place : List String) : List String → Option (List String)
  | [] => some place
  | name :: rest => (t.follow? place name).bind (t.followAll? · rest)

/-- The place that a path leads to. -/
def place? (t : FileTree) (path : String) : Option (List String) :=
  if path.startsWith "/" then none else t.followAll? [] (names path)

/-! ### Model files -/

/-- Whether the part of a file name after its last point is `json`. A point at the start does not
count. -/
def isModelName (name : String) : Bool :=
  let cs := name.toList
  ".json".toList.isSuffixOf cs && cs.length > 5

/-- The model files inside a directory with their names from there on, in the order of a walk. -/
def modelsBelow (t : FileTree) (place : List String) : List (List String × String) :=
  let inside := t.files.filterMap fun f =>
    if place.isPrefixOf f.1 && f.1 ≠ place then some (f.1.drop place.length, f.2) else none
  (inside.filter fun f => isModelName (f.1.getLastD "")).mergeSort fun a b => !(b.1 < a.1)

/-- A path with further names behind it. -/
def extend (path : String) (rest : List String) : String :=
  (if path.endsWith "/" then path else path ++ "/") ++ "/".intercalate rest

/-- The model files that a path names, with their paths and contents: the file itself, or those
inside the directory. -/
def modelsAt? (t : FileTree) (path : String) : Option (List (String × String)) := do
  let place ← t.place? path
  match t.contents? place with
  | some contents => some [(path, contents)]
  | none =>
    if t.isDirectory place then
      some ((t.modelsBelow place).map fun (rest, contents) => (extend path rest, contents))
    else none

end FileTree

end HybridStep
