import LangId.Config.Settings
import LangId.Data.Schema
import LangId.Path

/-!
# The shape of settings

How settings are read from data. Sections may hold entries that are not known here; sections that
are not known are refused.
-/
namespace LangId

open Data Schema

/-- How the text of a directory becomes a path that does not depend on the place it is looked at
from. -/
abbrev Resolver := String → String

/-- Reads a path. -/
def pathText : Schema String
  | .text s => .ok (Path.ofString s).toString
  | _ => .problem .notPath

/-- Whether a text holds the character with which texts of the file system end. -/
def holdsNul (s : String) : Bool := s.toList.contains '\x00'

/-- Reads the path of a directory, which is resolved. -/
def directoryText (resolve : Resolver) : Schema String
  | .text s => if holdsNul s then .problem .nulInPath else .ok (resolve s)
  | _ => .problem .notPath

/-- Why the directory of definitions cannot be made out. None of this is an issue of the data: it
breaks off whatever reads them. -/
inductive DirectoryFault where
  /-- What stands for it is neither a text nor null. -/
  | notText
  /-- It is below the home of a user whose home is not known. -/
  | noHome
  /-- The links on the way go round in a circle. -/
  | linkCircle
  deriving Repr, DecidableEq

/-- How the text of a directory is looked up. -/
abbrev Locator := String → Except DirectoryFault String

/-- The path that a text is resolved to, where it can be. -/
def Locator.resolver (locate : Locator) : Resolver := fun s => (locate s).toOption.getD s

/-- Reads the section on definitions. -/
def DefinitionSettings.schema (resolve : Resolver) : Schema DefinitionSettings :=
  record fun found =>
    DefinitionSettings.mk
      <$> optional "directory" (nullable (directoryText resolve)) none found

/-- Reads a natural number between two bounds. -/
def naturalIn (low high : Nat) : Schema Nat := fun v => (integerIn low high v).map Int.toNat

/-- Reads the section on sampling. -/
def SamplingSettings.schema : Schema SamplingSettings := record fun found =>
  SamplingSettings.mk <$> optional "max_bytes" (naturalIn 1024 10485760) 51200 found

/-- Reads the section on the classifier. -/
def ClassifierSettings.schema : Schema ClassifierSettings := record fun found =>
  ClassifierSettings.mk <$> optional "enabled" truth true found
    <*> optional "smoothing" (numberIn 0.0 10.0) 1.0 found
    <*> optional "max_tokens" (naturalIn 100 1000000) Token.defaultBound found

/-- Reads an extra rule. -/
def ExtraRule.schema : Schema ExtraRule := record fun found =>
  ExtraRule.mk <$> required "pattern" someText found
    <*> optional "kind" (member ExclusionKind.ofName?) .vendor found
    <*> optional "syntax" (member RuleForm.ofName?) .gitignore found
    <*> optional "excluded" truth true found

/-- Reads a set of kinds. -/
def kindSet : Schema (List ExclusionKind) := fun v =>
  (set (member ExclusionKind.ofName?) v).map fun found =>
    ExclusionKind.all.filter found.contains

/-- Reads the section on exclusion. -/
def FilterSettings.schema : Schema FilterSettings := record fun found =>
  FilterSettings.mk <$> optional "extra_rules" (list ExtraRule.schema) [] found
    <*> optional "exclude_kinds" kindSet ExclusionKind.all found
    <*> optional "respect_gitignore" truth true found

/-- Reads the section on analysis. -/
def AnalysisSettings.schema : Schema AnalysisSettings := record fun found =>
  AnalysisSettings.mk <$> optional "max_workers" (naturalIn 1 64) 4 found
    <*> optional "identify_excluded" truth false found
    <*> optional "include_files" truth false found
    <*> optional "fail_on_unreadable" truth false found

/-- Reads the section on logging. -/
def LoggingSettings.schema : Schema LoggingSettings := record fun found =>
  LoggingSettings.mk
    <$> optional "level" (literal ["DEBUG", "INFO", "WARNING", "ERROR"]) "WARNING" found
    <*> optional "format" (literal ["console", "json"]) "console" found
    <*> optional "file" (nullable pathText) none found
    <*> optional "rotation" text "10 MB" found
    <*> optional "retention" text "7 days" found

namespace Settings

/-- The sections with their fields. -/
def sections : List (String × List String) := [
  ("definitions", ["directory"]),
  ("sampling", ["max_bytes"]),
  ("classifier", ["enabled", "smoothing", "max_tokens"]),
  ("filter", ["extra_rules", "exclude_kinds", "respect_gitignore"]),
  ("analysis", ["max_workers", "identify_excluded", "include_files", "fail_on_unreadable"]),
  ("logging", ["level", "format", "file", "rotation", "retention"])]

/-- What is wrong with the directory of definitions beyond all issues. -/
def directoryFault? (locate : Locator) (data : List (Value × Value)) : Option DirectoryFault :=
  match Value.field? "definitions" data with
  | some (.map fields) =>
    match Value.field? "directory" fields with
    | none | some .null => none
    | some (.text s) =>
      match locate s with
      | .ok _ => none
      | .error f => some f
    | some _ => some .notText
  | _ => none

/-- Reads all settings. -/
def schema (resolve : Resolver) : Schema Settings :=
  strictRecord (fun _ => sections.map (·.1)) fun found =>
    Settings.mk <$> optional "definitions" (DefinitionSettings.schema resolve) {} found
      <*> optional "sampling" SamplingSettings.schema {} found
      <*> optional "classifier" ClassifierSettings.schema {} found
      <*> optional "filter" FilterSettings.schema {} found
      <*> optional "analysis" AnalysisSettings.schema {} found
      <*> optional "logging" LoggingSettings.schema {} found

end Settings

end LangId
