import LangId.Regex.Build

/-!
# Modelines

Comments in which an editor is told the mode of a file. They stand in the first or last lines and
come in two forms: `-*- mode: ruby -*-`, and `vim: set ft=ruby:`.
-/
namespace LangId.Modeline

open Regex Regex.Node

/-- How many lines are searched at each end of a content. -/
def searchedLines : Nat := 5

/-- Letters in modelines are compared without regard to case. -/
def folding : Folding := .unicode

/-- White space, any amount. -/
def blanks : Node := many (ofCategory .blank)

/-- The form `-*- mode: name -*-`, in which the name may stand alone, and other settings may
stand around it between semicolons. The name is the first group. -/
def starred : Node := .seqAll [
  text folding "-*-",
  blanks,
  optional (.seqAll [
    optional (.seqAll [
      few (.one .anyInLine),
      oneOf folding [.char 59, .category .blank false]]),
    text folding "mode", blanks, char folding ':', blanks]),
  .group 1 (some (noneOf folding [.char 58, .char 59, .category .blank false])),
  .ahead false (.alt (oneOf folding [.category .blank false, .char 59]) (text folding "-*-")),
  few (.one .anyInLine),
  text folding "-*-"]

/-- The form `vim: set ft=name:`, also with `vi` and `ex`, with a version, and without `set`. The
name is the first group. -/
def colon : Node := .seqAll [
  .alt (.anchor .lineStart) (ofCategory .blank),
  .altAll [text folding "vi", text folding "vim", text folding "ex"],
  optional (.seqAll [
    optional (oneOf folding [.char 60, .char 61, .char 62]),
    some (ofCategory .digit)]),
  char folding ':',
  blanks,
  optional (.seqAll [
    text folding "se", optional (char folding 't'), some (ofCategory .blank)]),
  optional (.seqAll [
    few (noneOf folding [.char 58, .char 10]), ofCategory .blank]),
  .altAll [text folding "ft", text folding "filetype", text folding "syntax"],
  blanks,
  char folding '=',
  blanks,
  .group 1 (some (oneOf folding [.category .word false, .char 43, .char 45]))]

/-- The mode that a line declares; of the two forms the starred one goes first. -/
def ofLine? (line : List Char) : Option (List Char) :=
  ((starred.search line).orElse fun _ => colon.search line).bind (·.group? 1)

/-- The lines that are searched: all, if there are few. -/
def window (lines : List (List Char)) : List (List Char) :=
  if lines.length ≤ 2 * searchedLines then lines
  else lines.take searchedLines ++ lines.drop (lines.length - searchedLines)

/-- The mode that the first modeline declares. -/
def find? (lines : List (List Char)) : Option String :=
  ((window lines).findSome? ofLine?).map String.ofList

end LangId.Modeline
