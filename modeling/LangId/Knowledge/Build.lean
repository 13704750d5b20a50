import LangId.Knowledge.Base
import LangId.Knowledge.Dialect
import LangId.Knowledge.Payload

/-!
# Building a knowledge base

Definitions are checked against each other part by part: languages, heuristics, path patterns,
training data. The first thing wrong is reported, and a base is built only if nothing is.
-/
namespace LangId

open Text

namespace Build

/-- Reports what is wrong with definitions. -/
def refuse {α : Type} (e : DefinitionError) : Except BuildError α := .error (.definition e)

/-- Whether an extension has the right form: a dot and at least one character. -/
def isExtension (extension : String) : Bool :=
  match extension.toList with
  | '.' :: _ :: _ => true
  | _ => false

/-- The modes of a language: its aliases and modelines, its name, and its name with dashes for
spaces, all in lower case. -/
def modesOf (name : String) (e : LanguageEntry) : List String :=
  let own := lowerChars name.toList
  [String.ofList own, String.ofList (own.map fun c => if c == ' ' then '-' else c)]
    ++ (e.aliases ++ e.modelines).map lower

/-- Builds a language. -/
def language (name : String) (e : LanguageEntry) : Except BuildError Language :=
  match Category.ofName? (lower e.category) with
  | none => refuse (.unknownCategory e.category name)
  | some category =>
    match e.extensions.find? fun extension => !isExtension extension with
    | some extension => refuse (.badExtension extension name)
    | none =>
      let keyless : Language :=
        { name, category, aliases := e.aliases, color := e.color, group := e.group }
      .ok (keyless.withKeys (e.extensions.map lower) e.filenames e.interpreters (modesOf name e))

/-- Names as they are declared, by their lower-case form. Of two with the same, the later stays. -/
abbrev Declared := List (String × String)

/-- The declared names of some languages. -/
def declaredNames (languages : List Language) : Declared :=
  KnowledgeBase.putAll (languages.map fun l => (lower l.name, l.name))

/-- The declared form of a name. -/
def Declared.find? (d : Declared) (name : String) : Option String := d.lookup (lower name)

/-- Compiles a pattern that may be absent. -/
def clause (source : String) (negated : Bool) :
    Option OneOrMany → Except BuildError (List Clause)
  | none => .ok []
  | some value => (Dialect.compile value source).map fun p => [⟨p, negated⟩]

/-- The clauses of an entry: its pattern, its negative pattern, and its named pattern. -/
def clauses (named : List (String × Regex.Pattern)) (source : String) (e : ClauseEntry) :
    Except BuildError (List Clause) := do
  let positive ← clause source false e.pattern
  let negative ← clause source true e.negativePattern
  match e.namedPattern with
  | none => return positive ++ negative
  | some name =>
    match named.lookup name with
    | some p => return positive ++ negative ++ [⟨p, false⟩]
    | none => refuse (.unknownPattern name source)

/-- The declared form of a name in a rule. -/
def ruleLanguage (declared : Declared) (source name : String) : Except BuildError String :=
  match declared.find? name with
  | some found => .ok found
  | none => refuse (.undeclaredInRule name source)

/-- Builds a rule. -/
def rule (declared : Declared) (named : List (String × Regex.Pattern)) (source : String)
    (extensions : List String) (e : RuleEntry) (order : Nat) : Except BuildError HeuristicRule := do
  let languages ← e.languages.toList.mapM (ruleLanguage declared source)
  let own ← clauses named source e.clause
  let further ← e.further.mapM (clauses named source)
  return ⟨order, extensions, languages, own ++ further.flatten⟩

/-- The first extension of a block that is taken, by another block or by the block itself. -/
def takenExtension? : List String → List String → Option String
  | _, [] => none
  | taken, e :: rest => if taken.contains e then some e else takenExtension? (e :: taken) rest

/-- Builds a block, behind others with the extensions that are taken. -/
def block (declared : Declared) (named : List (String × Regex.Pattern))
    (found : List HeuristicBlock × List String) (e : BlockEntry) :
    Except BuildError (List HeuristicBlock × List String) := do
  let extensions := e.extensions.map lower
  let source := "heuristics[" ++ ", ".intercalate extensions ++ "]"
  let rules ← e.rules.zipIdx.mapM fun (r, i) => rule declared named source extensions r i
  match takenExtension? found.2 extensions with
  | some extension => refuse (.repeatedExtension extension source)
  | none => return (⟨extensions, rules⟩ :: found.1, extensions ++ found.2)

/-- Builds the heuristics. -/
def heuristics (declared : Declared) (e : HeuristicsEntry) :
    Except BuildError (List HeuristicBlock) := do
  let named ← e.named.mapM fun (name, value) => do
    return (name, ← Dialect.compile value ("named_patterns." ++ name))
  let (blocks, _) ← e.blocks.foldlM (block declared named) ([], [])
  return blocks.reverse

/-- Builds a rule on paths. -/
def exclusionRule (kind : ExclusionKind) (pattern : String) : Except BuildError ExclusionRule :=
  match ExclusionRule.ofRegex kind (Dialect.adapt pattern) with
  | .ok r => .ok r
  | .error (.malformed fault) => refuse (.badPathPattern kind pattern fault)
  | .error e => .error (.pattern e)

/-- Builds the rules on paths. -/
def exclusionRules (p : Payload) : Except BuildError (List ExclusionRule) := do
  let vendor ← p.vendor.mapM (exclusionRule .vendor)
  let generated ← p.generated.mapM (exclusionRule .generated)
  let documentation ← p.documentation.mapM (exclusionRule .documentation)
  return vendor ++ generated ++ documentation

/-- Tallies by the declared names of languages. -/
abbrev Tallies := List (String × Tally String)

/-- Changes the tally of a language, which begins empty. -/
def Tallies.modify (name : String) (f : Tally String → Tally String) : Tallies → Tallies
  | [] => [(name, f [])]
  | (n, t) :: rest => if n == name then (n, f t) :: rest else (n, t) :: Tallies.modify name f rest

/-- Takes in a table of counts. -/
def addCounts (declared : Declared) (found : Tallies) (entry : String × List (String × Int)) :
    Except BuildError Tallies :=
  match declared.find? entry.1 with
  | none => refuse (.undeclaredCounts entry.1)
  | some name =>
    if entry.2.any fun c => decide (c.2 < 0) then refuse (.negativeCount entry.1)
    else .ok (found.modify name (·.addAll entry.2))

/-- Takes in training texts. -/
def addSamples (declared : Declared) (bound : Nat) (found : Tallies)
    (entry : String × List String) : Except BuildError Tallies :=
  match declared.find? entry.1 with
  | none => refuse (.undeclaredSamples entry.1)
  | some name =>
    .ok (found.modify name fun t => Model.train bound t (entry.2.map (·.toList)))

/-- Builds the models: first from tables of counts, then from training texts. A language without
tokens has none. -/
def models (declared : Declared) (bound : Nat) (p : Payload) :
    Except BuildError (List (String × Model)) := do
  let counted ← p.counts.foldlM (addCounts declared) []
  let tallies ← p.samples.foldlM (addSamples declared bound) counted
  (tallies.filter fun t => !t.2.isEmpty).mapM fun (name, tally) =>
    match Model.ofCounts name tally with
    | .ok m => .ok (name, m)
    | .error _ => refuse (.negativeCount name)

end Build

/-- Builds a knowledge base from definitions. Of each training text no more tokens are read than the
bound. -/
def Payload.build (p : Payload) (bound : Nat := Token.defaultBound) :
    Except BuildError KnowledgeBase := do
  let languages ← p.languages.mapM fun (name, e) => Build.language name e
  let declared := Build.declaredNames languages
  let blocks ← Build.heuristics declared p.heuristics
  let rules ← Build.exclusionRules p
  let models ← Build.models declared bound p
  match KnowledgeBase.make languages blocks rules models with
  | .ok kb => return kb
  | .error e => throw (.definition e)

end LangId
