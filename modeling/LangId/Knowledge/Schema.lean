import LangId.Data.Schema
import LangId.Knowledge.Payload

/-!
# The shape of definitions

How a payload is read from data. Languages and blocks may hold entries that are not known here;
rules and their patterns may not, since a misspelt condition would change what a rule says.
-/
namespace LangId

open Data Schema

/-- Reads a list of texts. -/
def texts : Schema (List String) := list text

/-- Reads a text or a list of texts. -/
def OneOrMany.schema : Schema OneOrMany :=
  either "str" (fun v => (text v).map .one) "list[str]" (fun v => (texts v).map .many)

/-- Reads the declaration of a language. -/
def LanguageEntry.schema : Schema LanguageEntry := record fun found =>
  LanguageEntry.mk <$> required "type" text found
    <*> optional "extensions" texts [] found
    <*> optional "filenames" texts [] found
    <*> optional "interpreters" texts [] found
    <*> optional "aliases" texts [] found
    <*> optional "modelines" texts [] found
    <*> optional "color" (nullable text) none found
    <*> optional "group" (nullable text) none found

/-- The fields of a clause. -/
def ClauseEntry.fields : List String := ["pattern", "negative_pattern", "named_pattern"]

/-- Reads the fields of a clause. -/
def ClauseEntry.ofFields (found : List (Value × Value)) : Checked ClauseEntry :=
  ClauseEntry.mk <$> optional "pattern" (nullable OneOrMany.schema) none found
    <*> optional "negative_pattern" (nullable OneOrMany.schema) none found
    <*> optional "named_pattern" (nullable text) none found

/-- Reads a clause. -/
def ClauseEntry.schema : Schema ClauseEntry := strictRecord (fun _ => fields) ofFields

/-- The name of the field that holds further clauses: `and`, or its long form if that is absent. -/
def RuleEntry.furtherField (found : List (Value × Value)) : String :=
  if (Value.field? "and" found).isNone && (Value.field? "and_clauses" found).isSome then
    "and_clauses"
  else "and"

/-- Reads a rule. -/
def RuleEntry.schema : Schema RuleEntry :=
  strictRecord (fun found => furtherField found :: "language" :: ClauseEntry.fields) fun found =>
    RuleEntry.mk <$> ClauseEntry.ofFields found
      <*> required "language" OneOrMany.schema found
      <*> optional (furtherField found) (list ClauseEntry.schema) [] found

/-- Reads a block. -/
def BlockEntry.schema : Schema BlockEntry := record fun found =>
  BlockEntry.mk <$> required "extensions" texts found
    <*> required "rules" (list RuleEntry.schema) found

/-- Reads the heuristics. -/
def HeuristicsEntry.schema : Schema HeuristicsEntry := record fun found =>
  HeuristicsEntry.mk <$> optional "disambiguations" (list BlockEntry.schema) [] found
    <*> optional "named_patterns" (textMap OneOrMany.schema) [] found

/-- Reads definitions. -/
def Payload.schema : Schema Payload := record fun found =>
  Payload.mk <$> optional "languages" (textMap LanguageEntry.schema) [] found
    <*> optional "heuristics" HeuristicsEntry.schema {} found
    <*> optional "vendor" texts [] found
    <*> optional "documentation" texts [] found
    <*> optional "generated" texts [] found
    <*> optional "classifier" (textMap (textMap integer)) [] found
    <*> optional "samples" (textMap texts) [] found

end LangId
