/-!
# What can be wrong with a YAML text

Three kinds of failure, since callers treat them differently: a text that is no YAML document, a
document that spells a value which does not exist, such as the thirteenth month, and a document that
says something for which there is no check at all.
-/
namespace LangId.Yaml

/-- Why a text is no YAML document. -/
inductive Fault where
  | unprintable
  | cannotStartToken
  | missingColon
  | keyNotAllowed
  | valueNotAllowed
  | entryNotAllowed
  | badDirective
  | badName
  | badTag
  | badEscape
  | badBlockHeader
  | openQuote
  | separatorInQuote
  | missingNode
  | openCollection
  | missingComma
  | missingDocumentStart
  | severalDocuments
  | badVersion
  | duplicateDirective
  | unknownHandle
  | unknownAnchor
  | duplicateAnchor
  | unknownTag
  | wrongKind
  | badKey
  | badMerge
  | badPair
  | badBase64
  | tooDeep
  deriving Repr, DecidableEq

/-- What is not looked for before a value is made. -/
inductive Oversight where
  /-- A word that is no truth word, tagged as one. -/
  | word
  /-- A number without characters, tagged as one. -/
  | emptyNumber
  /-- A text that is no day or moment, tagged as one. -/
  | stamp
  /-- A map, tagged as a day or moment. -/
  | stampMap
  /-- An escape for a code point that is not even a machine integer. -/
  | codePoint
  deriving Repr, DecidableEq

/-- Why a text cannot be read. -/
inductive Error where
  | malformed (fault : Fault)
  /-- A value that does not exist, with the words for why. -/
  | noSuchValue (reason : String)
  /-- A failure that no caller expects. -/
  | oversight (o : Oversight)
  deriving Repr, DecidableEq

end LangId.Yaml
