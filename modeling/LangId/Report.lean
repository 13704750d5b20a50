import LangId.Cascade
import LangId.Classifier.Model
import LangId.Exclusion.Rule
import LangId.Number.Decimal

/-!
# Reports

The bytes and files of each language over many files, beside those of files whose language is
unknown or that are kept out, and the paths that could not be read.
-/
namespace LangId

/-- How much there is of something. -/
structure Totals where
  bytes : Int := 0
  files : Nat := 0
  deriving Repr, DecidableEq

/-- Counts one more file. -/
def Totals.add (t : Totals) (size : Int) : Totals := ⟨t.bytes + size, t.files + 1⟩

/-- What is told about a single file. -/
structure FileReport where
  path : String
  size : Int
  excludedAs : Option ExclusionKind := none
  result : Option Identification := none
  deriving Repr, DecidableEq

/-- Statistics over many files. Languages stand in the order in which they first came up. -/
structure Report where
  languages : List (String × Totals) := []
  unknown : Totals := {}
  excluded : Totals := {}
  unreadable : List String := []
  files : List FileReport := []
  deriving Repr, DecidableEq

namespace Report

/-- Counts one more file under a language. -/
def addTo (language : String) (size : Int) : List (String × Totals) → List (String × Totals)
  | [] => [(language, Totals.add {} size)]
  | (l, t) :: rest =>
    if l == language then (l, t.add size) :: rest else (l, t) :: addTo language size rest

/-- Counts one more file of a language. -/
def addLanguage (r : Report) (language : String) (size : Int) : Report :=
  { r with languages := addTo language size r.languages }

/-- The bytes of all languages. -/
def totalBytes (r : Report) : Int := (r.languages.map fun l => l.2.bytes).foldl (· + ·) 0

/-- Whether a language does not stand behind another one: by bytes, the most first, then by name. -/
def notBehind (a b : String × Totals) : Bool :=
  if a.2.bytes == b.2.bytes then Text.notAfter a.1 b.1 else decide (b.2.bytes < a.2.bytes)

/-- The languages, those with the most bytes first. -/
def ranked (r : Report) : List (String × Totals) := r.languages.mergeSort notBehind

/-- The language with the most bytes. -/
def primary? (r : Report) : Option String := r.ranked.head?.map (·.1)

/-- A part of a whole, in hundredths. -/
def share (part whole : Int) : Except ScoreError Float := do
  let bytes ← Scale.double.ofInt part
  let total ← Scale.double.ofInt whole
  return bytes * 100.0 / total

/-- The share of each language in the bytes of all, in hundredths, those with the most bytes first.
If there are no bytes, there are no shares. -/
def shares (r : Report) : Except ScoreError (List (String × Float)) :=
  if r.totalBytes == 0 then .ok []
  else r.ranked.mapM fun (name, t) => do return (name, ← share t.bytes r.totalBytes)

/-- The text of a share, with two decimal places. -/
def shareText (x : Float) : String := Number.fixed 2 x

end Report

end LangId
