import LangId.Config.Environment
import LangId.Yaml.Document

/-!
# Loading settings

Settings are read from a file in a directory tree and from the environment; without a file the
environment alone speaks.
-/
namespace LangId.Settings

open Data

/-- The homes of users, by their names. -/
abbrev Homes := List (String × Path)

/-- Replaces `~` at the beginning of a path by the own home, and `~` with a name by that of a user;
none if it is not known. A name that cannot be that of a user stays. -/
def expandHome? (homes : Homes) (home p : Path) : Option Path :=
  match p.anchoring, p.parts with
  | .relative, first :: rest =>
    match first.toList with
    | ['~'] => some (home.join ⟨.relative, rest⟩)
    | '~' :: user =>
      if user.contains '\x00' then some p
      else (homes.lookup (String.ofList user)).map (·.join ⟨.relative, rest⟩)
    | _ => some p
  | _, _ => some p

/-- Looks up the text of a directory in a tree: paths without a home begin at the one that is looked
at from, and links are replaced. -/
def locatorIn (t : Tree) (homes : Homes) (home here : Path) : Locator := fun s =>
  match expandHome? homes home (Path.ofString s) with
  | none => .error .noHome
  | some p =>
    let full := here.join p
    if holdsNul s then .ok full.toString
    else
      match t.resolve full.parts with
      | .ok place => .ok (Tree.placeText place)
      | .error _ => .error .linkCircle

/-- Why settings cannot be loaded. -/
inductive LoadError where
  | noFile (path : String)
  | fault (f : Yaml.ReadFault)
  | undecodable
  /-- The file is no document. -/
  | malformed (fault : Yaml.Fault)
  /-- The file holds a value that does not exist, with the words for why. -/
  | noSuchValue (reason : String)
  /-- The document is no map but something else. -/
  | notMap (kind : String)
  /-- A section is named by something that is no text. -/
  | badKey
  | refused (path : String) (r : Refusal)
  deriving Repr

/-- What a message says; of a fault in a document and of refused settings, their own words come
behind. -/
def LoadError.message : LoadError → String
  | noFile path => s!"Config file not found: {path}"
  | malformed _ => "Invalid YAML in config file: "
  | noSuchValue reason => reason
  | notMap kind => s!"YAML root must be a mapping, not {kind}"
  | refused path _ => s!"Invalid configuration in {path}: "
  | _ => ""

/-- Whether a key is a text. -/
def isTextKey : Value → Bool
  | .text _ => true
  | _ => false

/-- The entries that a file holds; none if it is empty. -/
def entriesOf (bytes : List UInt8) : Except LoadError (List (Value × Value)) :=
  match Yaml.readFile bytes with
  | .ok .null => .ok []
  | .ok (.map entries) =>
    if entries.all fun e => isTextKey e.1 then .ok entries else .error .badKey
  | .ok v => .error (.notMap v.kindName)
  | .error .undecodable => .error .undecodable
  | .error (.yaml (.malformed fault)) => .error (.malformed fault)
  | .error (.yaml (.noSuchValue reason)) => .error (.noSuchValue reason)
  | .error (.yaml (.oversight o)) => .error (.fault (.oversight o))

/-- Loads settings. `way` says where the file is, and `path` how messages name it. -/
def load (t : Tree) (locate : Locator) (environment : Environment.Variables) (way : List String)
    (path : String) : Except LoadError Settings :=
  if t.reaches way then
    match t.read way with
    | .error f => .error (.fault (.tree f))
    | .ok bytes => do
      let entries ← entriesOf bytes
      (read locate environment entries).mapError (.refused path)
  else .error (.noFile path)

end LangId.Settings
