import LangId.Gitignore.Filter

/-!
# Scanning a tree

The files below a directory, first its own in order of their names, then those of its directories
in the same way. Links are passed over, as are directories of version control.
-/
namespace LangId

namespace Tree

/-- Puts items with names in order of these. -/
def byName {α : Type} (items : List (String × α)) : List (String × α) :=
  items.mergeSort fun a b => Text.notAfter a.1 b.1

/-- Joins the files of a directory and those of its directories, both with names. -/
def arranged (own : List String) (below : List (String × List Place)) : List Place :=
  (Text.sorted own).map (fun name => [name]) ++
    (byName below).flatMap fun (name, found) => found.map (name :: ·)

/-- The names of the files among some entries. -/
def fileNames (entries : List (String × Tree)) : List String :=
  entries.filterMap fun (name, e) =>
    match e with
    | .file _ => some name
    | _ => none

mutual

/-- The places of the files below a directory, seen from it. -/
def files : Tree → List Place
  | .directory entries => arranged (fileNames entries) (filesBelow entries)
  | _ => []

/-- The files below each of the directories among some entries. -/
def filesBelow : List (String × Tree) → List (String × List Place)
  | [] => []
  | (name, .directory entries) :: rest =>
    if Gitignore.metadataNames.contains name then filesBelow rest
    else (name, files (.directory entries)) :: filesBelow rest
  | _ :: rest => filesBelow rest

end

end Tree

/-- A scanner of the files below a directory. -/
structure Scanner where
  /-- The directory, in which no link stands. -/
  root : Tree.Place
  filter : Gitignore.Filter
  respectGitignore : Bool
  deriving Repr, DecidableEq

namespace Scanner

/-- Why files cannot be scanned. -/
inductive Error where
  | fault (f : Tree.Fault)
  | filter (e : Gitignore.Filter.Error)
  deriving Repr, DecidableEq

/-- A scanner of the directory that a way leads to. -/
def ofTree (t : Tree) (way : List String) (respectGitignore : Bool := true) :
    Except Error Scanner := do
  match t.resolve way with
  | .error f => throw (.fault f)
  | .ok root =>
    match Gitignore.Filter.ofTree t root with
    | .error e => throw (.filter e)
    | .ok filter => return ⟨root, filter, respectGitignore⟩

/-- The path that a place below the root is reported with. -/
def pathOf (p : Tree.Place) : String := Path.canonical (Path.mk .relative p).toString

/-- Whether a file is passed over. -/
def isIgnored (s : Scanner) (t : Tree) (path : String) : Except Tree.Fault Bool :=
  if s.respectGitignore then s.filter.ignores t (Path.ofString path) else .ok false

/-- The paths of the files below the root that are not ignored. -/
def paths (s : Scanner) (t : Tree) : Except Tree.Fault (List String) :=
  let found := match t.at? s.root with
    | some d => d.files.map pathOf
    | none => []
  found.filterM fun path => (s.isIgnored t path).map (!·)

end Scanner

end LangId
