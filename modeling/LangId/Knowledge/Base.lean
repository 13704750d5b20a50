import LangId.Candidates
import LangId.Classifier.Model
import LangId.Exclusion.Rule
import LangId.Heuristic
import LangId.Knowledge.Error
import LangId.Text.Lower

/-!
# Knowledge bases

The languages that can be told, indexed by everything that a file is recognised by. A key may lead
to several languages. Names, extensions and modes are found whatever their case, file names and
interpreters only as they are declared.
-/
namespace LangId

open Text

/-- Languages by a key. -/
abbrev Index := List (String × List Language)

namespace Index

/-- Adds a language under a key. -/
def add (key : String) (l : Language) : Index → Index
  | [] => [(key, [l])]
  | (k, ls) :: rest => if k == key then (k, ls ++ [l]) :: rest else (k, ls) :: add key l rest

/-- The languages under each of their keys. -/
def ofLanguages (keys : Language → List String) (languages : List Language) : Index :=
  languages.foldl (fun index l => (keys l).foldl (fun index key => index.add key l) index) []

/-- The languages under a key. -/
def find (index : Index) (key : String) : Candidates :=
  Candidates.ofList ((index.lookup key).getD [])

end Index

/-- Everything known about languages. -/
structure KnowledgeBase where
  /-- The languages in order of their names. -/
  languages : List Language
  /-- The languages by their names in lower case, as declared. -/
  byName : List (String × Language)
  extensionIndex : Index
  filenameIndex : Index
  interpreterIndex : Index
  modeIndex : Index
  /-- The rules of each extension. -/
  heuristics : List (String × List HeuristicRule)
  /-- The rules that confirm each language, by its name in lower case. -/
  attached : List (String × List HeuristicRule)
  /-- Rules on paths that come with the definitions. -/
  exclusionRules : List ExclusionRule
  /-- Models by the names of their languages in lower case. -/
  models : List (String × Model)
  /-- The number of different tokens in all models. -/
  vocabulary : Nat

namespace KnowledgeBase

/-- Puts a value under a key; one that is there already keeps its place. -/
def put {α : Type} (key : String) (value : α) : List (String × α) → List (String × α)
  | [] => [(key, value)]
  | (k, v) :: rest => if k == key then (k, value) :: rest else (k, v) :: put key value rest

/-- Puts all values under their keys. -/
def putAll {α : Type} (entries : List (String × α)) : List (String × α) :=
  entries.foldl (fun found (k, v) => put k v found) []

/-- The languages by their names in lower case; refused if two have the same. -/
def declared (languages : List Language) : Except DefinitionError (List (String × Language)) :=
  (languages.foldlM add []).map List.reverse
where
  /-- Adds one language in front. -/
  add (found : List (String × Language)) (l : Language) :
      Except DefinitionError (List (String × Language)) :=
    if (found.lookup (lower l.name)).isSome then .error (.duplicateLanguage l.name)
    else .ok ((lower l.name, l) :: found)

/-- Whether a language is among those declared. -/
def isDeclared (byName : List (String × Language)) (name : String) : Bool :=
  (byName.lookup (lower name)).isSome

/-- The first language that a block confirms without being declared, with the extension told. -/
def undeclaredConfirmed? (byName : List (String × Language)) (block : HeuristicBlock) :
    Option DefinitionError := do
  let extension ← block.extensions.head?
  let name ← (block.rules.flatMap (·.languages)).find? fun name => !isDeclared byName name
  return .undeclaredConfirmed extension name

/-- The rules of the blocks by extension in lower case. -/
def rulesByExtension (blocks : List HeuristicBlock) : List (String × List HeuristicRule) :=
  putAll (blocks.flatMap fun b => b.extensions.map fun e => (lower e, b.rules))

/-- The rules that name a language, as often as they name it. Blocks without extensions do not
count. -/
def rulesNaming (key : String) (blocks : List HeuristicBlock) : List HeuristicRule :=
  (blocks.filter (!·.extensions.isEmpty)).flatMap fun b => b.rules.flatMap fun r =>
    (r.languages.filter fun name => lower name == key).map fun _ => r

/-- The number of different tokens of some models. -/
def vocabularyOf (models : List (String × Model)) : Nat :=
  (sortedSet (models.flatMap fun m => m.2.counts.map (·.1))).length

/-- Builds a knowledge base. -/
def make (languages : List Language) (blocks : List HeuristicBlock)
    (rules : List ExclusionRule) (models : List (String × Model)) :
    Except DefinitionError KnowledgeBase := do
  let byName ← declared languages
  match blocks.findSome? (undeclaredConfirmed? byName) with
  | some e => throw e
  | none => pure ()
  match models.find? fun m => !isDeclared byName m.1 with
  | some m => throw (.undeclaredModel m.1)
  | none => pure ()
  let models := putAll (models.map fun m => (lower m.1, m.2))
  let all := byName.map (·.2)
  return {
    languages := all.mergeSort Candidates.byName
    byName
    extensionIndex := Index.ofLanguages (fun l => sortedSet (l.extensions.map lower)) all
    filenameIndex := Index.ofLanguages (·.filenames) all
    interpreterIndex := Index.ofLanguages (·.interpreters) all
    modeIndex := Index.ofLanguages (fun l => sortedSet (l.modes.map lower)) all
    heuristics := rulesByExtension blocks
    attached := byName.map fun l => (l.1, rulesNaming l.1 blocks)
    exclusionRules := rules
    models
    vocabulary := vocabularyOf models }

variable (kb : KnowledgeBase)

/-- The number of languages. -/
def size : Nat := kb.languages.length

/-- All languages. -/
def all : Candidates := Candidates.ofList kb.languages true

/-- The language of a name. -/
def language? (name : String) : Option Language := kb.byName.lookup (lower name)

/-- Whether there is a language of a name. -/
def contains (name : String) : Bool := (kb.language? name).isSome

/-- The languages of an extension. -/
def byExtension (extension : String) : Candidates := kb.extensionIndex.find (lower extension)

/-- The languages of a file name. -/
def byFilename (basename : String) : Candidates := kb.filenameIndex.find basename

/-- The languages of an interpreter. -/
def byInterpreter (interpreter : String) : Candidates := kb.interpreterIndex.find interpreter

/-- The languages of a mode. -/
def byMode (mode : String) : Candidates := kb.modeIndex.find (lower mode)

/-- The languages of a category. -/
def byCategory (c : Category) : Candidates :=
  Candidates.ofList (kb.languages.filter (·.category == c))

/-- The rules of an extension. -/
def rulesFor (extension : String) : List HeuristicRule :=
  (kb.heuristics.lookup (lower extension)).getD []

/-- The rules that confirm a language. -/
def rulesOf (language : String) : List HeuristicRule :=
  (kb.attached.lookup (lower language)).getD []

/-- The model of a language. -/
def model? (language : String) : Option Model := kb.models.lookup (lower language)

/-- Whether any language has a model. -/
def hasModels : Bool := !kb.models.isEmpty

end KnowledgeBase

end LangId
