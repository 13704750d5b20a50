import LangId.Proofs.Gitignore.Metadata
import LangId.Proofs.Gitignore.Trimming

/-!
# Reading `.gitignore` files

The patterns of a filter are read from the lines of the files without the white space around them.

**Results.**
* `collect_iff`: the files whose patterns are those of their lines as they stand there.
* `lines_faithful_iff`: the filters that have the patterns of the lines as they stand, and how they decide
  about paths.
* `escapedSpace_refused`, `indentation_lost`: two lines that are not such lines, and what is made of
  them.
-/
namespace LangId.Gitignore

open Text
open LangId.Tree (Place)

variable {lines : List (List Char)} {patterns : List Pattern}

/-- The lines of a file as they stand there. -/
def fileLines (text : List Char) : List (List Char) := splitOn '\n' (unifyEnds text)

/-- The patterns that some lines are read to, one line after the other. -/
def collect {α : Type} (read : α → Except Error (Option Pattern)) (lines : List α) :
    Except Error (List Pattern) :=
  (lines.mapM read).map fun found => found.filterMap id

theorem ofLines_eq_collect (lines : List String) : ofLines lines = collect Pattern.ofLine lines := rfl

theorem collect_cons {α : Type} (read : α → Except Error (Option Pattern)) (line : α)
    (lines : List α) : collect read (line :: lines) =
      read line >>= fun o => (collect read lines).map fun patterns => o.toList ++ patterns := by
  rw [collect, collect, List.mapM_cons]
  cases read line with
  | error e => rfl
  | ok o => cases lines.mapM read <;> cases o <;> rfl

theorem collect_cons_eq_ok {α : Type} {read : α → Except Error (Option Pattern)} {line : α}
    {lines : List α} : collect read (line :: lines) = .ok patterns ↔ ∃ o rest,
      read line = .ok o ∧ collect read lines = .ok rest ∧ patterns = o.toList ++ rest := by
  simp only [collect_cons, bind_eq_ok, map_eq_ok, eq_comm (a := patterns)]
  grind

/-- The lines of a file are read one by one. -/
theorem ofLines_effectiveLines (text : List Char) :
    ofLines (effectiveLines text) = collect readLine (fileLines text) := by
  have hcounts (line : List Char) :
      (!(trim line).isEmpty && (trim line).head? != some '#') = true ↔ Counts line := by
    simp [Counts]
  rw [effectiveLines, ← fileLines]
  generalize fileLines text = lines
  rw [ofLines_eq_collect]
  induction lines with
  | nil => rfl
  | cons line lines ih =>
    rw [List.map_cons, List.filter_cons, collect_cons, readLine]
    by_cases h : Counts line
    · rw [if_pos ((hcounts line).2 h), if_pos h, List.map_cons, collect_cons, ih]
    · rw [if_neg fun hkept => h ((hcounts line).1 hkept), if_neg h, ih]
      cases collect readLine lines <;> rfl

/-- Where all lines of a file say the same without the white space around them, its patterns are those
of its lines as they stand there. -/
theorem collect_of_trimmable (h : ∀ line ∈ lines, Trimmable line)
    (hlines : collect Pattern.ofLine (lines.map String.ofList) = .ok patterns) :
    collect readLine lines = .ok patterns := by
  induction lines generalizing patterns with
  | nil => exact hlines
  | cons line lines ih =>
    obtain ⟨hline, hmore⟩ := List.forall_mem_cons.1 h
    obtain ⟨o, rest, ho, hrest, rfl⟩ := collect_cons_eq_ok.1 hlines
    exact collect_cons_eq_ok.2 ⟨o, rest, (readLine_of_trimmable hline).2 ho, ih hmore hrest, rfl⟩

/-- What some patterns weigh, and one more for each of them. -/
def patternsWeight (patterns : List Pattern) : Nat :=
  (patterns.map fun p => 1 + p.node.weight).sum

theorem patternsWeight_append (o : Option Pattern) (patterns : List Pattern) :
    patternsWeight (o.toList ++ patterns) = lineWeight o + patternsWeight patterns := by
  cases o with
  | none => exact (Nat.zero_add _).symm
  | some p => exact List.sum_cons

/-- The patterns that are read never weigh more than those of the lines as they stand there, and weigh
less if some line says something else without the white space around it. -/
theorem patternsWeight_collect {found : List Pattern}
    (hlines : collect Pattern.ofLine (lines.map String.ofList) = .ok patterns)
    (hfound : collect readLine lines = .ok found) : patternsWeight found ≤ patternsWeight patterns ∧
      (patternsWeight found = patternsWeight patterns → ∀ line ∈ lines, Trimmable line) := by
  induction lines generalizing patterns found with
  | nil =>
    obtain rfl := Except.ok.inj (hfound.symm.trans hlines)
    exact ⟨Nat.le_refl _, fun _ => List.forall_mem_nil _⟩
  | cons line lines ih =>
    obtain ⟨o, rest, ho, hrest, rfl⟩ := collect_cons_eq_ok.1 hlines
    obtain ⟨o', rest', ho', hrest', rfl⟩ := collect_cons_eq_ok.1 hfound
    obtain ⟨hle, hsame⟩ := ih hrest hrest'
    rw [patternsWeight_append, patternsWeight_append, List.forall_mem_cons]
    by_cases hline : Trimmable line
    · obtain rfl := Except.ok.inj (ho'.symm.trans ((readLine_of_trimmable hline).2 ho))
      exact ⟨by omega, fun heq => ⟨hline, hsame (by omega)⟩⟩
    · have hlt := lineWeight_lt hline ho ho'
      exact ⟨by omega, fun heq => by omega⟩

/-- **Files.** The patterns that are read are those of the lines as they stand there exactly if all
lines say the same without the white space around them. -/
theorem collect_iff (hlines : ofLines (lines.map String.ofList) = .ok patterns) :
    collect readLine lines = .ok patterns ↔ ∀ line ∈ lines, Trimmable line :=
  ⟨fun h => (patternsWeight_collect hlines h).2 rfl, fun h => collect_of_trimmable h hlines⟩

namespace Filter

variable {t : Tree} {root b : Place} {text : List Char}

/-- The text of the `.gitignore` file in a directory; where there is no such file, it is as if it were
empty. -/
inductive HasText (t : Tree) (b : Place) : List Char → Prop
  | file {bytes : List UInt8} {text : List Char} (hread : t.read (b ++ [".gitignore"]) = .ok bytes)
      (htext : Utf8.decode? bytes = some text) : HasText t b text
  | missing (h : t.reaches (b ++ [".gitignore"]) = false) : HasText t b []

theorem linesIn_of_hasText (h : HasText t b text) : linesIn t b = .ok (effectiveLines text) := by
  cases h with
  | @file bytes _ hread htext =>
    have hreaches : t.reaches (b ++ [".gitignore"]) = true := by
      obtain ⟨found, hfound, -⟩ := bind_eq_ok.1 hread
      rw [Tree.reaches, hfound]
    rw [linesIn, if_pos hreaches, hread]
    dsimp only
    rw [htext]
  | missing h =>
    rw [linesIn, if_neg (by simp [h])]
    rfl

/-- The patterns of the lines of a file as they stand there, behind those for version control. -/
def Unmodified (text : List Char) (patterns : List Pattern) : Prop :=
  ofLines (builtinLines ++ (fileLines text).map String.ofList) = .ok patterns

instance (text : List Char) (patterns : List Pattern) : Decidable (Unmodified text patterns) :=
  inferInstanceAs (Decidable (_ = _))

/-- The patterns of the lines of a file are there if all lines can be read. -/
theorem exists_unmodified_iff : (∃ patterns, Unmodified text patterns) ↔
    ∀ line ∈ fileLines text, ∃ o, Pattern.ofLine (String.ofList line) = .ok o := by
  have hbuiltin : ∀ l ∈ builtinLines, ∃ o, Pattern.ofLine l = .ok o :=
    mapM_eq_ok.1 (exists_map_iff.1 ⟨_, ofLines_builtinLines⟩)
  simp only [Unmodified, ofLines, exists_map_iff, mapM_eq_ok, List.forall_mem_append,
    List.forall_mem_map, and_iff_right hbuiltin]

theorem base_iff {text : List Char} (htext : HasText t b text) (h : Unmodified text patterns) :
    base t b = .ok (b, patterns) ↔ ∀ line ∈ fileLines text, Trimmable line := by
  obtain ⟨builtin, own, hbuiltin, hown, rfl⟩ := ofLines_append.1 h
  rw [← collect_iff hown, ← ofLines_effectiveLines, base_eq_ok]
  constructor
  · rintro ⟨_, _, hsame, ⟨lines, hlines, hread⟩, heq⟩
    obtain rfl := Except.ok.inj (hbuiltin.symm.trans hsame)
    obtain rfl := Except.ok.inj (hlines.symm.trans (linesIn_of_hasText htext))
    rw [List.append_cancel_left (Prod.mk.inj heq).2]
    exact hread
  · intro hread
    exact ⟨builtin, own, hbuiltin, ⟨_, linesIn_of_hasText htext, hread⟩, rfl⟩

/-- What patterns for some directories say about a place: whether some directory lies above it whose
patterns ignore it. -/
def ignoredBy (directories : List Place) (patterns : Place → List Pattern) (p : Place) : Bool :=
  directories.any fun b => b.isPrefixOf p && Gitignore.ignores (patterns b) (seen (p.drop b.length))

theorem ignoresPlace_of_bases (directories : List Place) (patterns : Place → List Pattern)
    (root p : Place) :
    (⟨root, directories.map fun b => (b, patterns b)⟩ : Filter).ignoresPlace p =
      ignoredBy directories patterns p := by
  rw [ignoresPlace, List.any_map]
  rfl

/-- **Reading.** Where all lines of the files can be read as they stand there, there are patterns of
these lines, behind those for version control.

* The filter is made, and has these patterns, exactly if all lines say the same without the white space
  around them.
* If they do, every path is decided as these patterns say. Otherwise no filter is made, or a pattern is
  another one or missing. Then a path may be decided otherwise (`indentation_lost`), but need not be:
  where the last line is `*`, all paths are ignored, whatever stands in front. -/
theorem lines_faithful_iff {texts : Place → List Char}
    (htexts : ∀ b ∈ directories t root, HasText t b (texts b))
    (haccepted : ∀ b ∈ directories t root, ∀ line ∈ fileLines (texts b),
      ∃ o, Pattern.ofLine (String.ofList line) = .ok o) :
    ∃ patterns : Place → List Pattern,
      (∀ b ∈ directories t root, Unmodified (texts b) (patterns b)) ∧
      (ofTree t root = .ok ⟨root, (directories t root).map fun b => (b, patterns b)⟩ ↔
        ∀ b ∈ directories t root, ∀ line ∈ fileLines (texts b), Trimmable line) ∧
      ((∀ b ∈ directories t root, ∀ line ∈ fileLines (texts b), Trimmable line) →
        ∃ f, ofTree t root = .ok f ∧ ∀ path, f.ignores t path =
          (t.resolve (f.wayOf path)).map (ignoredBy (directories t root) patterns)) := by
  have hunmodified := fun b hb => exists_unmodified_iff.2 (haccepted b hb)
  choose! patterns hpatterns using hunmodified
  have hmade : ofTree t root = .ok ⟨root, (directories t root).map fun b => (b, patterns b)⟩ ↔
      ∀ b ∈ directories t root, ∀ line ∈ fileLines (texts b), Trimmable line := by
    rw [ofTree_eq_ok, and_iff_right rfl, mapM_eq_ok_map]
    exact forall₂_congr fun b hb => base_iff (htexts b hb) (hpatterns b hb)
  refine ⟨patterns, hpatterns, hmade, fun htrimmable => ⟨_, hmade.2 htrimmable, fun path => ?_⟩⟩
  rw [ignores_eq]
  congr 1
  funext p
  exact ignoresPlace_of_bases (directories t root) patterns root p

/-- A directory with nothing but a `.gitignore` file. -/
def ignoring (text : String) : Tree := .directory [(".gitignore", .file (Utf8.encode text.toList))]

/-- A comment, a blank line, and patterns with white space behind them. -/
theorem lines_faithful_logs : ∃ patterns, Unmodified "# logs\n*.log \n \n/build\t\n".toList patterns ∧
    ofTree (ignoring "# logs\n*.log \n \n/build\t\n") [] = .ok ⟨[], [([], patterns)]⟩ ∧
    ∃ f, ofTree (ignoring "# logs\n*.log \n \n/build\t\n") [] = .ok f ∧
      f.ignores (ignoring "# logs\n*.log \n \n/build\t\n") (Path.ofString "a/b.log") = .ok true ∧
      f.ignores (ignoring "# logs\n*.log \n \n/build\t\n") (Path.ofString "a/build") = .ok false := by
  let text := "# logs\n*.log \n \n/build\t\n"
  have hdirectories : directories (ignoring text) [] = [[]] := by decide +kernel
  have htexts : ∀ b ∈ directories (ignoring text) [], HasText (ignoring text) b text.toList := by
    rw [hdirectories, List.forall_mem_singleton]
    exact .file (by rfl) (by decide +kernel)
  have haccepted : ∀ line ∈ fileLines text.toList,
      ∃ o, Pattern.ofLine (String.ofList line) = .ok o :=
    exists_unmodified_iff.1 ⟨((ofLines (builtinLines ++ (fileLines text.toList).map
      String.ofList)).toOption).getD [], by decide +kernel⟩
  have htrimmable : ∀ line ∈ fileLines text.toList, Trimmable line := by decide +kernel
  obtain ⟨patterns, hpatterns, hfilter, hdecides⟩ := lines_faithful_iff htexts fun _ _ => haccepted
  have hmade := hfilter.2 fun _ _ => htrimmable
  obtain ⟨f, hf, hdecided⟩ := hdecides fun _ _ => htrimmable
  obtain rfl := Except.ok.inj (hmade.symm.trans hf)
  simp only [hdirectories] at hpatterns hmade hdecided
  have hread := hpatterns [] (List.mem_singleton_self [])
  have hverdicts : ignoredBy [[]] patterns = fun p => Gitignore.ignores (((ofLines (builtinLines ++
      (fileLines text.toList).map String.ofList)).toOption).getD []) (seen p) := by
    funext p
    rw [hread]
    simp [ignoredBy, Except.toOption]
  simp only [hverdicts, wayOf] at hdecided
  refine ⟨patterns [], hread, hmade, _, hmade, (hdecided _).trans ?_, (hdecided _).trans ?_⟩
  · decide +kernel
  · decide +kernel

/-- **Counterexample.** Of the pattern for a name that ends in a space, the space is lost, and the line
is refused. -/
theorem escapedSpace_refused : (∃ patterns, Unmodified "a\\ \n".toList patterns ∧
      Gitignore.ignores patterns "a ".toList = true ∧ Gitignore.ignores patterns "b".toList = false) ∧
    ofTree (ignoring "a\\ \n") [] = .error (.pattern (.invalid "a\\")) := by
  refine ⟨⟨((ofLines (builtinLines ++ ["a\\ ", ""])).toOption).getD [], ?_⟩, by decide +kernel⟩
  decide +kernel

/-- A pattern for a name that begins with a space is read as one for the name without it. -/
theorem indentation_lost : (∃ patterns, Unmodified " a\n".toList patterns ∧
      Gitignore.ignores patterns "a".toList = false ∧ Gitignore.ignores patterns " a".toList = true) ∧
    ∃ f, ofTree (ignoring " a\n") [] = .ok f ∧
      f.ignores (ignoring " a\n") (Path.ofString "a") = .ok true ∧
      f.ignores (ignoring " a\n") (Path.ofString " a") = .ok false := by
  refine ⟨⟨((ofLines (builtinLines ++ [" a", ""])).toOption).getD [], ?_⟩,
    ((ofTree (ignoring " a\n") []).toOption).getD ⟨[], []⟩, ?_⟩
  · decide +kernel
  · decide +kernel

end Filter

end LangId.Gitignore
