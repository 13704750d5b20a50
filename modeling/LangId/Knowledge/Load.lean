import LangId.Knowledge.Build
import LangId.Knowledge.Schema
import LangId.Yaml.Document

/-!
# Loading definitions

Definitions are read from the files of a directory, each of which holds one part of them. Only the
file with the languages has to be there.
-/
namespace LangId

open Data

/-- Why definitions cannot be loaded. -/
inductive Payload.LoadError where
  /-- There is no file with languages; the path that was looked at. -/
  | noLanguages (path : String)
  | fault (f : Yaml.ReadFault)
  | undecodable
  /-- A file is no document. -/
  | malformed (path : String) (fault : Yaml.Fault)
  /-- A file holds a value that does not exist, with the words for why. -/
  | noSuchValue (reason : String)
  | badShape (issues : List Issue)
  | build (e : BuildError)
  deriving Repr

namespace Payload.LoadError

/-- What a message says; of a fault in a document or in a tree, its own words come behind. -/
def message : LoadError → String
  | noLanguages path => s!"Language definitions not found: {path}"
  | malformed _ _ => "Invalid YAML: "
  | noSuchValue reason => reason
  | build (.definition e) => e.message
  | _ => ""

end Payload.LoadError

namespace Payload

/-- The parts of definitions, each in a file of its own. -/
def parts : List String :=
  ["languages", "heuristics", "vendor", "documentation", "generated", "classifier", "samples"]

/-- The file that holds a part. -/
def fileOf (directory : Path) (part : String) : Path := directory.join ⟨.relative, [part ++ ".yml"]⟩

/-- What the file of a part says; absent if there is no file, or nothing in it. -/
def readPart (t : Tree) (directory : Path) (part : String) :
    Except LoadError (Option (Value × Value)) :=
  let file := fileOf directory part
  if t.reaches file.parts then
    match t.read file.parts with
    | .error f => .error (.fault (.tree f))
    | .ok bytes =>
      match Yaml.readFile bytes with
      | .ok .null => .ok none
      | .ok v => .ok (some (.text part, v))
      | .error .undecodable => .error .undecodable
      | .error (.yaml (.malformed fault)) => .error (.malformed file.toString fault)
      | .error (.yaml (.noSuchValue reason)) => .error (.noSuchValue reason)
      | .error (.yaml (.oversight o)) => .error (.fault (.oversight o))
  else .ok none

/-- Reads the definitions in a directory, given by an absolute path. -/
def load (t : Tree) (directory : Path) : Except LoadError Payload := do
  let languages := fileOf directory "languages"
  if !t.reaches languages.parts then throw (.noLanguages languages.toString)
  let found ← parts.mapM (readPart t directory)
  match schema (.map (found.filterMap id)) with
  | .ok p => return p
  | .bad issues => throw (.badShape issues)

end Payload

/-- Builds a knowledge base from definitions that may not have the right shape. -/
def KnowledgeBase.ofValue (v : Value) (bound : Nat := Token.defaultBound) :
    Except BuildError KnowledgeBase :=
  match Payload.schema v with
  | .ok p => p.build bound
  | .bad issues => .error (.definition (.badShape issues))

/-- Builds a knowledge base from the definitions in a directory. -/
def KnowledgeBase.load (t : Tree) (directory : Path) (bound : Nat := Token.defaultBound) :
    Except Payload.LoadError KnowledgeBase := do
  let p ← Payload.load t directory
  (p.build bound).mapError .build

end LangId
