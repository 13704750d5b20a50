import LangId.Config.Schema
import LangId.Data.Json
import LangId.Text.Lower
import LangId.Text.Lines

/-!
# Settings from the environment

Variables whose names begin with `CODELINGO_` hold settings: `CODELINGO_SECTION` a whole section in
JSON, and `CODELINGO_SECTION__FIELD` one field of it, which goes before the section. What is given
otherwise goes before the environment, field by field.
-/
namespace LangId.Environment

open Data Text

/-- Variables with their values. -/
abbrev Variables := List (String × String)

/-- What the names of variables begin with, in lower case. -/
def namePrefix : String := "codelingo_"

/-- Why settings cannot be taken from the environment: a section holds something unreadable. -/
structure Unreadable where
  sectionName : String
  deriving Repr, DecidableEq

/-- Cuts the name of a variable at each pair of underscores. -/
def parts (s : List Char) : List (List Char) := go [] s
where
  /-- Goes on behind some characters of a part, the latest first. -/
  go (part : List Char) : List Char → List (List Char)
    | '_' :: '_' :: rest => part.reverse :: go [] rest
    | c :: rest => go (c :: part) rest
    | [] => [part.reverse]

/-- Puts entries over others; entries that are maps on both sides are joined in turn. The depth of
the maps bounds the steps. -/
def overlay : Nat → List (Value × Value) → List (Value × Value) → List (Value × Value)
  | 0, _, above => above
  | depth + 1, below, above =>
    above.foldl (fun found (k, v) =>
      let joined := match found.find? (fun e => e.1.sameKey k), v with
        | some (_, .map b), .map a => .map (overlay depth b a)
        | _, _ => v
      Value.insertEntry k joined found) below

/-- How deep maps are joined. -/
def maxDepth : Nat := 64

/-- Sets a value behind a path of keys, making maps on the way. A key that holds something else
stays as it is. -/
def setAt : List String → Value → List (Value × Value) → List (Value × Value)
  | [], _, found => found
  | [key], v, found => Value.insertEntry (.text key) v found
  | key :: rest, v, found =>
    match Value.field? key found with
    | some (.map inner) => Value.insertEntry (.text key) (.map (setAt rest v inner)) found
    | some _ => found
    | none => Value.insertEntry (.text key) (.map (setAt rest v [])) found

/-- The fields of a section whose variables hold JSON. -/
def isList (sectionName field : String) : Bool :=
  sectionName == "filter" && (field == "extra_rules" || field == "exclude_kinds")

/-- The value of the variable of a field. -/
def fieldValue (sectionName : String) (keys : List String) (text : String) :
    Except Unreadable Value :=
  match keys with
  | [field] =>
    if isList sectionName field && !text.isEmpty then
      match Json.read? text.toList with
      | some v => .ok v
      | none => .error ⟨sectionName⟩
    else .ok (.text text)
  | _ => .ok (.text text)

/-- The fields of a section that have variables of their own. -/
def fieldsOf (sectionName : String) (environment : Variables) :
    Except Unreadable (List (Value × Value)) :=
  let start := (namePrefix ++ sectionName ++ "__").toList
  environment.foldlM (fun found (name, text) =>
    let chars := name.toList
    if start.isPrefixOf chars then
      let keys := (parts (chars.drop start.length)).map String.ofList
      (fieldValue sectionName keys text).map fun v => setAt keys v found
    else .ok found) []

/-- Writes the names of known fields in lower case. -/
def knownNames (fields : List String) (entries : List (Value × Value)) : List (Value × Value) :=
  Value.ofEntries (entries.map fun (k, v) =>
    match k with
    | .text name => if fields.contains (lower name) then (.text (lower name), v) else (k, v)
    | _ => (k, v))

/-- What the environment says about a section. -/
def sectionValue (sectionName : String) (fields : List String) (environment : Variables) :
    Except Unreadable (Option Value) := do
  let own ← fieldsOf sectionName environment
  match environment.lookup (namePrefix ++ sectionName) with
  | none => return if own.isEmpty then none else some (.map (knownNames fields own))
  | some text =>
    match Json.read? text.toList with
    | none => throw ⟨sectionName⟩
    | some .null => return none
    | some (.map entries) => return some (.map (knownNames fields (overlay maxDepth entries own)))
    | some v => return some v

/-- What the environment says about all sections. -/
def values (environment : Variables) : Except Unreadable (List (Value × Value)) := do
  let environment := environment.map fun (name, text) => (lower name, text)
  let found ← Settings.sections.mapM fun (name, fields) => do
    return (← sectionValue name fields environment).map fun v => (Value.text name, v)
  return found.filterMap id

/-- Writes the names of sections in lower case. -/
def knownSections (data : List (Value × Value)) : List (Value × Value) :=
  knownNames (Settings.sections.map (·.1)) data

end LangId.Environment

namespace LangId.Settings

open Data

/-- Why settings cannot be read. -/
inductive Refusal where
  | invalid (issues : List Issue)
  | environment (e : Environment.Unreadable)
  | directory (f : DirectoryFault)
  deriving Repr, DecidableEq

/-- Data over what the environment says. -/
def merged (found data : List (Value × Value)) : List (Value × Value) :=
  Environment.overlay Environment.maxDepth found (Environment.knownSections data)

/-- Reads settings from data and from the environment. The directory of definitions is the first
thing that is looked at. -/
def read (locate : Locator) (environment : Environment.Variables) (data : List (Value × Value)) :
    Except Refusal Settings :=
  match Environment.values environment with
  | .error e => .error (.environment e)
  | .ok found =>
    match directoryFault? locate (merged found data) with
    | some f => .error (.directory f)
    | none =>
      match schema locate.resolver (.map (merged found data)) with
      | .ok s => .ok s
      | .bad issues => .error (.invalid issues)

end LangId.Settings
