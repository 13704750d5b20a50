import LangId.Proofs.Shebang.Env
import Mathlib.Data.List.Forall2

/-!
# What the interpreter of a script depends on

Of a content only the first line and what the first lines hand over to are looked at, the latter only for
shells. A carriage return at the end of a line is white space behind all that counts. What is found is
part of a word of the first line, or a word that is handed over to, and a version with a dot behind
`python` is cut off.

**Results.**
* `interpreter?_withReturns`: carriage returns before line feeds do not count.
* `not_versioned_majorVersion`: versions with a dot are cut off.
* `isInterpreter_of_interpreter?`: what an interpreter looks like.
* `interpreter_local`: contents with the same interpreter, and what an interpreter looks like.
-/
namespace LangId

open Text

/-- The name that a path ends in is part of the path, within its last slashes. -/
theorem Path.mem_nameOf {s : String} {c : Char} (h : c ∈ (nameOf s).toList) :
    c ∈ s.toList ∧ c ≠ '/' := by
  have hname : nameOf s = "" ∨ nameOf s ∈ components s.toList := by
    change (components s.toList).getLastD "" = "" ∨ (components s.toList).getLastD "" ∈ _
    cases hlast : components s.toList with
    | nil => exact .inl rfl
    | cons first more =>
      rw [List.getLastD_cons]
      exact .inr (List.getLastD_mem_cons ..)
  rcases hname with hempty | hname
  · rw [hempty] at h
    cases h
  · obtain ⟨piece, hpiece, hofList⟩ := List.mem_map.1 hname
    rw [← hofList, String.toList_ofList] at h
    have hsplit := (List.mem_filter.1 hpiece).1
    exact ⟨mem_of_mem_splitOn hsplit h, fun heq => (mem_splitOn_iff.1 hsplit).1 (heq ▸ h)⟩

namespace Shebang

/-- A text with a carriage return before each line feed. -/
def withReturns (s : List Char) : List Char :=
  s.flatMap fun c => if c == '\n' then ['\r', '\n'] else [c]

/-- A name begins with `python` and a version: digits, perhaps none, a dot and a digit. -/
def Versioned (name : List Char) : Prop :=
  ∃ digits d rest, name = "python".toList ++ (digits ++ '.' :: d :: rest) ∧
    (∀ x ∈ digits, isDecimal x = true) ∧ isDecimal d = true

/-- A name that an interpreter can be looked up by. -/
structure IsInterpreter (name : String) : Prop where
  nonempty : name ≠ ""
  unbroken : ∀ c ∈ name.toList, isBlank c = false
  no_slash : '/' ∉ name.toList
  unversioned : ¬Versioned name.toList

variable {s line found i : List Char} {args ws lines lines' : List (List Char)}
  {handed : Option (List Char)} {name : String} {c : Char}

/-! ## Commands and what is handed over -/

/-- What is found is the command or what is handed over to, without the version. -/
theorem found?_eq_some (h : found? handed found args = some name) :
    ∃ i, (i = found ∨ handed = some i) ∧ name = String.ofList (majorVersion i) ∧
      majorVersion i ≠ [] := by
  simp only [found?] at h
  generalize hi : (if found == "sh".toList then handed.getD found else found) = i at h
  have hsource : i = found ∨ handed = some i := by
    rw [← hi]
    split
    · cases handed with
      | none => exact .inl rfl
      | some i => exact .inr rfl
    · exact .inl rfl
  split at h
  · cases h
  split at h
  · cases h
  · rename_i hne
    exact ⟨i, hsource, (Option.some.inj h).symm, by simpa using hne⟩

/-- Other commands than shells are found without looking at what is handed over. -/
theorem found?_of_ne (h : found ≠ "sh".toList) (handed other : Option (List Char))
    (args : List (List Char)) : found? handed found args = found? other found args := by
  simp only [found?, beq_false_of_ne h, Bool.false_eq_true, if_false]

/-! ## Carriage returns -/

/-- A line with or without a carriage return behind it. -/
def Returned (line line' : List Char) : Prop := line' = line ∨ line' = line ++ ['\r']

theorem after?_concat {text : List Char} (h : c ∉ text) (s : List Char) :
    after? text (s ++ [c]) = (after? text s).map (· ++ [c]) := by
  induction text generalizing s with
  | nil => rfl
  | cons x text ih =>
    obtain ⟨hc, htext⟩ := not_or.1 (List.mem_cons.not.1 h)
    cases s with
    | nil =>
      rw [List.nil_append, after?, if_neg (by simpa using Ne.symm hc)]
      rfl
    | cons y s =>
      rw [List.cons_append, after?, after?]
      split
      · exact ih htext s
      · rfl

theorem withoutReturns_concat (s : List Char) :
    withoutReturns (s ++ ['\r']) = withoutReturns s := by
  simp [withoutReturns]

/-- The first line is read without the carriage return. -/
theorem asked?_of_returned {line' : List Char} (h : Returned line line') :
    asked? line' = asked? line := by
  rcases h with rfl | rfl
  · rfl
  · rw [asked?, asked?, after?_concat (by decide)]
    cases after? "#!".toList line with
    | none => rfl
    | some body => simp only [Option.map_some, Option.bind_some, withoutReturns_concat]

theorem handOver?_of_returned {line' : List Char} (h : Returned line line') :
    handOver? line' = handOver? line := by
  rcases h with rfl | rfl
  · rfl
  · exact handOver?_concat (by decide) line

theorem handedOver?_congr (h : List.Forall₂ Returned lines lines') :
    handedOver? lines' = handedOver? lines := by
  have htake := List.forall₂_take searchedLines h
  rw [handedOver?, handedOver?]
  generalize lines.take searchedLines = lines, lines'.take searchedLines = lines' at htake
  induction htake with
  | nil => rfl
  | cons hline _ ih => rw [List.findSome?_cons, List.findSome?_cons, handOver?_of_returned hline, ih]

theorem forall₂_consFirst (c : Char) (h : List.Forall₂ Returned lines lines') :
    List.Forall₂ Returned (consFirst c lines) (consFirst c lines') := by
  cases h with
  | nil => exact .cons (.inl rfl) .nil
  | cons hline hrest =>
    refine .cons (hline.imp (fun heq => ?_) fun heq => ?_) hrest
    · rw [heq]
    · rw [heq, List.cons_append]

/-- Line by line, a carriage return comes behind all lines but the last one. -/
theorem forall₂_withReturns (s : List Char) :
    List.Forall₂ Returned (splitOn '\n' s) (splitOn '\n' (withReturns s)) := by
  induction s with
  | nil => exact .cons (.inl rfl) .nil
  | cons c s ih =>
    by_cases hc : c = '\n'
    · subst hc
      exact .cons (.inr rfl) ih
    · have hkeep : withReturns (c :: s) = c :: withReturns s := by
        rw [withReturns, List.flatMap_cons, if_neg (by simpa using hc)]
        rfl
      have hsplit (t : List Char) : splitOn '\n' (c :: t) = consFirst c (splitOn '\n' t) := by
        rw [splitOn, List.foldr_cons, if_neg (by simpa using hc)]
        rfl
      rw [hkeep, hsplit, hsplit]
      exact forall₂_consFirst c ih

theorem returned_upTo (s : List Char) :
    Returned (upTo '\n' s) (upTo '\n' (withReturns s)) := by
  obtain ⟨more, hsplit⟩ := exists_splitOn_eq '\n' s
  obtain ⟨more', hsplit'⟩ := exists_splitOn_eq '\n' (withReturns s)
  have hlines := forall₂_withReturns s
  rw [hsplit, hsplit'] at hlines
  cases hlines with
  | cons hline _ => exact hline

/-- **Line ends.** Carriage returns before line feeds do not count. -/
theorem interpreter?_withReturns (s : List Char) : interpreter? (withReturns s) = interpreter? s := by
  rw [interpreter?_eq_asked, interpreter?_eq_asked, asked?_of_returned (returned_upTo s),
    handedOver?_congr (forall₂_withReturns s)]

/-! ## What is found -/

theorem exists_word_of_command? (h : command? ws = some (found, args)) :
    ∃ w ∈ ws, found = commandName w := by
  cases ws with
  | nil => cases h
  | cons first rest =>
    rw [command?] at h
    split at h
    · cases hrest : rest.dropWhile isForEnv with
      | nil =>
        rw [hrest] at h
        cases h
      | cons w more =>
        rw [hrest] at h
        obtain ⟨rfl, -⟩ := Prod.mk.inj (Option.some.inj h)
        have hmem : w ∈ rest.dropWhile isForEnv := hrest ▸ List.mem_cons_self
        exact ⟨w, List.mem_cons_of_mem first ((List.dropWhile_suffix _).subset hmem), rfl⟩
    · obtain ⟨rfl, -⟩ := Prod.mk.inj (Option.some.inj h)
      exact ⟨first, List.mem_cons_self, rfl⟩

/-- The command of a first line has neither white space nor slashes. -/
theorem unbroken_of_asked? (h : asked? line = some (found, args)) :
    ∀ c ∈ found, isBlank c = false ∧ c ≠ '/' := by
  obtain ⟨body, -, hcommand⟩ := Option.bind_eq_some_iff.1 h
  obtain ⟨w, hw, rfl⟩ := exists_word_of_command? hcommand
  intro c hc
  obtain ⟨hword, hslash⟩ := Path.mem_nameOf hc
  rw [String.toList_ofList] at hword
  exact ⟨(solid_of_mem_words hw).unbroken c hword, hslash⟩

/-- What is handed over to has neither of them. -/
theorem unbroken_of_handedOver? (h : handedOver? lines = some i) :
    ∀ c ∈ i, isBlank c = false ∧ c ≠ '/' := by
  obtain ⟨line, -, hline⟩ := List.exists_of_findSome?_eq_some h
  have hslash : isWord '/' = false := by decide
  intro c hc
  have hword := (isRun_of_handOver? hline).2 c hc
  refine ⟨isBlank_of_isWord hword, fun heq => ?_⟩
  rw [heq, hslash] at hword
  cases hword

/-- A version with a dot is cut off behind its first number; everything else stays as it is. -/
theorem majorVersion_cases (i : List Char) : majorVersion i = i ∧ ¬Versioned i ∨
    ∃ digits rest, i = "python".toList ++ (digits ++ rest) ∧ (∀ x ∈ digits, isDecimal x = true) ∧
      majorVersion i = "python".toList ++ digits := by
  have hdot : isDecimal '.' = false := by decide
  -- behind `python` a version is read off what its digits leave
  have hdrop {rest : List Char} (h : Versioned ("python".toList ++ rest)) :
      ∃ d more, rest.dropWhile isDecimal = '.' :: d :: more ∧ isDecimal d = true := by
    obtain ⟨digits, d, more, heq, hdigits, hd⟩ := h
    refine ⟨d, more, ?_, hd⟩
    rw [List.append_cancel_left heq, List.dropWhile_append_of_pos hdigits,
      List.dropWhile_cons_of_neg (by simp [hdot])]
  unfold majorVersion
  split
  · rename_i hnone
    refine .inl ⟨rfl, fun ⟨digits, d, rest, heq, _⟩ => ?_⟩
    rw [after?_eq_some.2 heq] at hnone
    cases hnone
  · rename_i rest hrest
    obtain rfl := after?_eq_some.1 hrest
    split
    · rename_i d more hbehind
      split
      · exact .inr ⟨rest.takeWhile isDecimal, rest.dropWhile isDecimal,
          by rw [List.takeWhile_append_dropWhile], fun x => List.mem_takeWhile_imp, rfl⟩
      · rename_i hd
        refine .inl ⟨rfl, fun h => ?_⟩
        obtain ⟨_, _, hcut, hdecimal⟩ := hdrop h
        rw [hbehind] at hcut
        cases hcut
        exact hd hdecimal
    · rename_i hno
      refine .inl ⟨rfl, fun h => ?_⟩
      obtain ⟨d, more, hcut, -⟩ := hdrop h
      exact hno d more hcut

theorem majorVersion_subset (i : List Char) : majorVersion i ⊆ i := by
  obtain ⟨hsame, -⟩ | ⟨digits, rest, hi, -, hcut⟩ := majorVersion_cases i
  · rw [hsame]
    exact List.Subset.refl i
  · rw [hcut, hi, ← List.append_assoc]
    exact List.subset_append_left _ rest

/-- **Versions** with a dot are cut off. -/
theorem not_versioned_majorVersion (i : List Char) : ¬Versioned (majorVersion i) := by
  obtain ⟨hsame, hno⟩ | ⟨digits, rest, -, hdigits, hcut⟩ := majorVersion_cases i
  · rwa [hsame]
  · rintro ⟨digits', d, more, heq, -⟩
    rw [hcut] at heq
    have hdot : '.' ∈ digits := by simp [List.append_cancel_left heq]
    exact absurd (hdigits '.' hdot) (by decide)

/-- **Names.** What is found is a name that an interpreter can be looked up by. -/
theorem isInterpreter_of_interpreter? {content : List Char} (h : interpreter? content = some name) :
    IsInterpreter name := by
  rw [interpreter?_eq_asked] at h
  obtain ⟨⟨found, args⟩, hasked, hfound⟩ := Option.bind_eq_some_iff.1 h
  obtain ⟨i, hi, rfl, hne⟩ := found?_eq_some hfound
  have hclean : ∀ c ∈ majorVersion i, isBlank c = false ∧ c ≠ '/' := by
    intro c hc
    rcases hi with rfl | hi
    · exact unbroken_of_asked? hasked c (majorVersion_subset i hc)
    · exact unbroken_of_handedOver? hi c (majorVersion_subset i hc)
  refine ⟨fun hempty => hne (String.ofList_injective hempty), ?_, ?_, ?_⟩
  all_goals rw [String.toList_ofList]
  · exact fun c hc => (hclean c hc).1
  · exact fun hslash => (hclean '/' hslash).2 rfl
  · exact not_versioned_majorVersion i

/-- **Locality.** Contents with the same five first lines have the same interpreter, and so have those
with the same first line, unless it asks for a shell; carriage returns before line feeds do not count.
An interpreter that is found is a name without white space and slashes, and without a version behind
`python` that has a dot. -/
theorem interpreter_local (content : List Char) :
    (∀ other, (splitOn '\n' other).take 5 = (splitOn '\n' content).take 5 →
      interpreter? other = interpreter? content) ∧
    ((∀ args, asked? (upTo '\n' content) ≠ some ("sh".toList, args)) →
      ∀ other, upTo '\n' other = upTo '\n' content →
        interpreter? other = interpreter? content) ∧
    interpreter? (withReturns content) = interpreter? content ∧
    ∀ name, interpreter? content = some name → IsInterpreter name := by
  refine ⟨fun other hlines => ?_, fun hshell other hline => ?_, interpreter?_withReturns content,
    fun name => isInterpreter_of_interpreter?⟩
  · obtain ⟨more, hsplit⟩ := exists_splitOn_eq '\n' content
    obtain ⟨more', hsplit'⟩ := exists_splitOn_eq '\n' other
    have hfirst : upTo '\n' other = upTo '\n' content := by
      rw [hsplit, hsplit', List.take_succ_cons, List.take_succ_cons] at hlines
      exact (List.cons.inj hlines).1
    rw [interpreter?_eq_asked, interpreter?_eq_asked, hfirst, handedOver?, handedOver?, searchedLines,
      hlines]
  · rw [interpreter?_eq_asked, interpreter?_eq_asked, hline]
    cases hasked : asked? (upTo '\n' content) with
    | none => rfl
    | some p =>
      have hne : p.1 ≠ "sh".toList := fun heq => hshell p.2 (by rw [hasked, ← heq])
      exact found?_of_ne hne _ _ p.2

/-- A shell script behind `env` that hands over in its fifth line, with two sixth lines, and a script
for a version of an interpreter, with two bodies. -/
theorem interpreter_local_scripts :
    let shell := "#!/usr/bin/env -i sh\n\n\n\nexec perl \"$0\" \"$@\"\n".toList
    let versioned := "#! /opt/python3.11 -u\n".toList
    ((splitOn '\n' (shell ++ "exec ruby \"$0\" \"$@\"".toList)).take 5 = (splitOn '\n' shell).take 5 ∧
      interpreter? (shell ++ "exec ruby \"$0\" \"$@\"".toList) = interpreter? shell) ∧
    ((∀ args, asked? (upTo '\n' versioned) ≠ some ("sh".toList, args)) ∧
      upTo '\n' (versioned ++ "exec ruby \"$0\" \"$@\"".toList) = upTo '\n' versioned ∧
      interpreter? (versioned ++ "exec ruby \"$0\" \"$@\"".toList) = interpreter? versioned) ∧
    interpreter? (withReturns shell) = interpreter? shell ∧ interpreter? shell = some "perl" ∧
    interpreter? versioned = some "python3" ∧ IsInterpreter "python3" := by
  intro shell versioned
  have hlines : (splitOn '\n' (shell ++ "exec ruby \"$0\" \"$@\"".toList)).take 5 =
      (splitOn '\n' shell).take 5 := by decide +kernel
  have hasked : asked? (upTo '\n' versioned) = some ("python3.11".toList, ["-u".toList]) := by
    decide +kernel
  have hshell : ∀ args, asked? (upTo '\n' versioned) ≠ some ("sh".toList, args) := by
    intro args h
    rw [hasked] at h
    exact absurd (Prod.mk.inj (Option.some.inj h)).1 (by decide)
  have hline : upTo '\n' (versioned ++ "exec ruby \"$0\" \"$@\"".toList) = upTo '\n' versioned := by
    decide +kernel
  have hfound : interpreter? versioned = some "python3" := by decide +kernel
  obtain ⟨hfirst, -, hreturns, -⟩ := interpreter_local shell
  obtain ⟨-, hone, -, hname⟩ := interpreter_local versioned
  exact ⟨⟨hlines, hfirst _ hlines⟩, ⟨hshell, hline, hone hshell _ hline⟩, hreturns, by decide +kernel,
    hfound, hname "python3" hfound⟩

end Shebang

end LangId
