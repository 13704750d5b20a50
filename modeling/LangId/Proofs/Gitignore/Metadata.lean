import LangId.Proofs.Gitignore.Bases
import LangId.Proofs.Gitignore.Names
import LangId.Proofs.Tree.Ways

/-!
# Metadata of version control

Each list of patterns of a filter begins with those for the directories of version control. They
match what is below such a directory, unless a line feed stands in a name on the way to it
(`accepts_below`). They are the first patterns and not the last ones, so what a `.gitignore` file says
about a path goes before what they say.

**Results.**
* `metadata_ignored_iff`: where a path below a directory of version control is ignored.
* `negation_uncovers`, `lineFeed_uncovers`: two files that are not.
-/
namespace LangId.Gitignore

open Regex Text
open LangId.Tree (Place ValidName spelt)

variable {text s : List Char} {name : String} {q dirs inner : Place} {own : List Pattern}

/-! ## The pattern for what is below a directory -/

/-- What the pattern for what is below directories of one name consists of. -/
def belowNodes (text : List Char) : List Node :=
  .anchor .textStart
    :: Node.optional (.seq (Node.some (.one .anyInLine)) (Node.char .none '/'))
    :: (text.map (Node.char .none) ++ [Node.char .none '/'])

/-- The pattern for what is below directories of one name. -/
def below (text : List Char) : Node := .seqAll (belowNodes text)

/-- The patterns that go before those of every file. -/
def builtinPatterns : List Pattern := metadataNames.map fun name => ⟨true, below name.toList⟩

theorem ofLines_builtinLines : ofLines builtinLines = .ok builtinPatterns := by decide +kernel

/-- **Search.** The texts in which the pattern is found. -/
theorem isSome_search_below : ((below text).search s).isSome = true ↔
    ∃ way rest, way ++ (text ++ '/' :: rest) = s ∧ IsWay way := by
  have hpasses := passes_seqAll_cons (passes_anchor .textStart) (passes_seqAll_cons passes_way
    (passes_text text (passes_seqAll_singleton (passes_char '/'))))
  rw [below, belowNodes, isSome_search_of_passes hpasses]
  constructor
  · rintro ⟨more, _, rest, rfl, _, _, rfl, ⟨rfl, hstart⟩, way, _, rfl, hway, _, rfl, rfl⟩
    obtain rfl : more = [] := by simpa [Anchor.holds] using hstart
    exact ⟨way, rest, by simp, hway⟩
  · rintro ⟨way, rest, rfl, hway⟩
    exact ⟨[], way ++ (text ++ ['/']), rest, by simp, [], _, rfl, ⟨rfl, rfl⟩, way, _, rfl, hway,
      ['/'], rfl, rfl⟩

/-! ## Places below a directory -/

/-- A place below a directory of one name, to which some directories lead. -/
def Under (dirs : Place) (name : String) (q : Place) : Prop :=
  ∃ inner, inner ≠ [] ∧ q = dirs ++ name :: inner

/-- None of some names has a line feed in it. -/
def InLine (dirs : Place) : Prop := ∀ dir ∈ dirs, '\n' ∉ dir.toList

instance (dirs : Place) : Decidable (InLine dirs) := inferInstanceAs (Decidable (∀ dir ∈ dirs, _))

theorem isWay_spelt (h : InLine dirs) (hnames : ∀ dir ∈ dirs, ValidName dir) (hne : dirs ≠ []) :
    IsWay (spelt dirs ++ ['/']) := by
  refine .inr ⟨spelt dirs, fun hnil => ?_, Tree.notMem_spelt (by decide) h, rfl⟩
  have hsplit := Tree.splitOn_spelt hne hnames
  obtain ⟨first, more, rfl⟩ := List.exists_cons_of_ne_nil hne
  rw [hnil] at hsplit
  exact (hnames first List.mem_cons_self).ne_empty
    (String.toList_inj.1 (List.cons.inj hsplit).1.symm)

/-- Where the pieces of a spelling hold a name, the place does. -/
theorem exists_of_map_eq {front back : List (List Char)}
    (h : q.map String.toList = front ++ name.toList :: back) :
    ∃ dirs inner, q = dirs ++ name :: inner ∧ dirs.map String.toList = front ∧
      inner.map String.toList = back := by
  obtain ⟨dirs, behind, rfl, hdirs, hbehind⟩ := List.map_eq_append_iff.1 h
  obtain ⟨first, inner, rfl, hfirst, hinner⟩ := List.map_eq_cons_iff.1 hbehind
  rw [String.toList_inj.1 hfirst]
  exact ⟨dirs, inner, rfl, hdirs, hinner⟩

/-- A name with a slash behind it stands in the spelling of a place below a directory of that name. -/
theorem exists_way_iff (hq : ∀ name ∈ q, ValidName name) (hname : ValidName name) :
    (∃ way rest, way ++ (name.toList ++ '/' :: rest) = spelt q ∧ IsWay way) ↔
      ∃ dirs, Under dirs name q ∧ InLine dirs := by
  constructor
  · rintro ⟨way, rest, heq, hway⟩
    have hne : q ≠ [] := by
      rintro rfl
      simp [spelt] at heq
    have hbehind : splitOn '/' (name.toList ++ '/' :: rest) = name.toList :: splitOn '/' rest := by
      rw [splitOn_append_cons, splitOn_of_notMem hname.no_slash, List.singleton_append]
    have hfront : ∃ front, splitOn '/' (spelt q) = front ++ name.toList :: splitOn '/' rest ∧
        ∀ piece ∈ front, '\n' ∉ piece := by
      rcases hway with rfl | ⟨front, -, hline, rfl⟩
      · exact ⟨[], by rw [← heq, List.nil_append, hbehind, List.nil_append], List.forall_mem_nil _⟩
      · refine ⟨splitOn '/' front, ?_, fun piece hpiece hmem =>
          hline (mem_of_mem_splitOn hpiece hmem)⟩
        rw [← heq, List.append_assoc, List.singleton_append, splitOn_append_cons, hbehind]
    obtain ⟨front, hsplit, hline⟩ := hfront
    rw [Tree.splitOn_spelt hne hq] at hsplit
    obtain ⟨dirs, inner, rfl, rfl, hinner⟩ := exists_of_map_eq hsplit
    refine ⟨dirs, ⟨inner, ?_, rfl⟩, fun dir hdir => hline _ (List.mem_map_of_mem hdir)⟩
    rintro rfl
    exact splitOn_ne_nil '/' rest hinner.symm
  · rintro ⟨dirs, ⟨inner, hne, rfl⟩, hline⟩
    have hbehind : spelt (name :: inner) = name.toList ++ '/' :: spelt inner := Tree.spelt_cons hne
    by_cases hdirs : dirs = []
    · subst hdirs
      exact ⟨[], spelt inner, hbehind.symm, .inl rfl⟩
    · have hnames : ∀ dir ∈ dirs, ValidName dir := fun dir h => hq dir (List.mem_append_left _ h)
      refine ⟨spelt dirs ++ ['/'], spelt inner, ?_, isWay_spelt hline hnames hdirs⟩
      rw [Tree.spelt_append hdirs (List.cons_ne_nil name inner), hbehind, List.append_assoc,
        List.singleton_append]

theorem seenPath_spelt (hne : q ≠ []) (hq : ∀ name ∈ q, ValidName name) :
    seenPath (spelt q) = spelt q := by
  unfold seenPath
  split
  · rename_i heq
    exact absurd heq (Tree.spelt_ne hne hq _).1
  · rename_i heq
    exact absurd heq (Tree.spelt_ne hne hq _).2
  · rfl

/-- **Places.** The pattern matches what is below a directory of its name, if no line feed stands in
the names that lead there. -/
theorem accepts_below (hne : q ≠ []) (hq : ∀ name ∈ q, ValidName name) (hname : ValidName name) :
    Pattern.accepts ⟨true, below name.toList⟩ (spelt q) = true ↔
      ∃ dirs, Under dirs name q ∧ InLine dirs := by
  rw [Pattern.accepts, seenPath_spelt hne hq, isSome_search_below, exists_way_iff hq hname]

/-! ## What is ignored -/

/-- A place below a directory of version control, to which some directories lead. -/
def UnderMetadata (dirs q : Place) : Prop := ∃ name ∈ metadataNames, Under dirs name q

theorem verdict?_builtinPatterns (hne : q ≠ []) (hq : ∀ name ∈ q, ValidName name) :
    verdict? builtinPatterns (spelt q) = some true ↔ ∃ dirs, UnderMetadata dirs q ∧ InLine dirs := by
  have hnames : ∀ name ∈ metadataNames, ValidName name := by decide
  have hall : ∀ p ∈ builtinPatterns, p.ignores = true := by
    intro p hp
    obtain ⟨name, -, rfl⟩ := List.mem_map.1 hp
    rfl
  rw [verdict?_of_ignores hall]
  constructor
  · rintro ⟨_, hp, hmatch⟩
    obtain ⟨name, hname, rfl⟩ := List.mem_map.1 hp
    obtain ⟨dirs, hunder, hline⟩ := (accepts_below hne hq (hnames name hname)).1 hmatch
    exact ⟨dirs, ⟨name, hname, hunder⟩, hline⟩
  · rintro ⟨dirs, ⟨name, hname, hunder⟩, hline⟩
    exact ⟨_, List.mem_map_of_mem hname,
      (accepts_below hne hq (hnames name hname)).2 ⟨dirs, hunder, hline⟩⟩

/-- A directory whose file has some patterns hides a place below it: the file says that it is ignored,
or says nothing about it, and the place is below a directory of version control to which names without
line feeds lead. -/
inductive Hides (own : List Pattern) (q : Place) : Prop
  | said (h : verdict? own (spelt q) = some true)
  | silent (dirs : Place) (h : verdict? own (spelt q) = none) (hunder : UnderMetadata dirs q)
      (hline : InLine dirs)

theorem hides_iff (hne : q ≠ []) (hq : ∀ name ∈ q, ValidName name) :
    verdict? (builtinPatterns ++ own) (spelt q) = some true ↔ Hides own q := by
  rw [verdict?_append, Option.or_eq_some_iff, verdict?_builtinPatterns hne hq]
  constructor
  · rintro (h | ⟨h, dirs, hunder, hline⟩)
    · exact .said h
    · exact .silent dirs h hunder hline
  · intro h
    cases h with
    | said h => exact .inl h
    | silent dirs h hunder hline => exact .inr ⟨h, dirs, hunder, hline⟩

/-- Below a directory that no line feed hides, only a negated pattern uncovers. -/
theorem hides_iff_of_inLine (hunder : UnderMetadata dirs q) (hline : InLine dirs) :
    Hides own q ↔ verdict? own (spelt q) ≠ some false := by
  constructor
  · intro h
    cases h with
    | said h => simp [h]
    | silent _ h => simp [h]
  · intro h
    cases hverdict : verdict? own (spelt q) with
    | none => exact .silent dirs hverdict hunder hline
    | some ignored =>
      cases ignored with
      | true => exact .said hverdict
      | false => exact absurd hverdict h

theorem UnderMetadata.append (above : Place) (h : UnderMetadata dirs q) :
    UnderMetadata (above ++ dirs) (above ++ q) := by
  obtain ⟨name, hname, inner, hne, rfl⟩ := h
  exact ⟨name, hname, inner, hne, (List.append_assoc above dirs _).symm⟩

namespace Filter

variable {t : Tree} {here path : String} {root p : Place} {f : Filter}

/-- Places that paths name have valid names. -/
theorem validName_of_wayOf {place : Place} (hroot : t.resolve (Path.ofString here).parts = .ok root)
    (hf : f.root = root) (hplace : t.resolve (f.wayOf (Path.ofString path)) = .ok place) :
    ∀ name ∈ place, ValidName name := by
  refine Tree.validName_of_resolve ?_ hplace
  rw [wayOf, hf]
  split
  · exact Tree.walkable_parts path
  · exact List.forall_mem_append.2 ⟨fun name hname =>
      .inr (Tree.validName_of_resolve (Tree.walkable_parts here) hroot name hname),
      Tree.walkable_parts path⟩

/-- A place below the root is ignored if some directory hides it. -/
theorem ignoresPlace_iff_hides (hf : ofTree t root = .ok f) (hne : p ≠ [])
    (hnames : ∀ name ∈ root ++ p, ValidName name) :
    f.ignoresPlace (root ++ p) = true ↔ ∃ b ∈ directories t root, ∃ above own,
      b ++ above = root ∧ Holds t b own ∧ Hides own (above ++ p) := by
  have hhides {b above : Place} {own : List Pattern} (habove : b ++ above = root) :
      verdict? (builtinPatterns ++ own) (seen (above ++ p)) = some true ↔ Hides own (above ++ p) := by
    have hsome : above ++ p ≠ [] := List.append_ne_nil_of_right_ne_nil above hne
    subst habove
    rw [seen_of_ne_nil hsome]
    refine hides_iff hsome fun name hname => hnames name ?_
    rw [List.append_assoc]
    exact List.mem_append_right b hname
  rw [ignoresPlace_iff hf ofLines_builtinLines]
  constructor
  · rintro ⟨b, hb, own, q, hown, heq, hsays⟩
    obtain ⟨above, habove⟩ := prefix_of_mem_directories hb
    obtain rfl : q = above ++ p := by
      rw [← habove, List.append_assoc] at heq
      exact List.append_cancel_left heq
    exact ⟨b, hb, above, own, habove, hown, (hhides habove).1 hsays⟩
  · rintro ⟨b, hb, above, own, habove, hown, hsays⟩
    exact ⟨b, hb, own, above ++ p, hown, by rw [← List.append_assoc, habove],
      (hhides habove).2 hsays⟩

/-- **Metadata.** A path that names a place below a directory of version control is ignored exactly if
some directory hides it: the file there says that it is ignored, or does not speak of it and no line
feed stands in a name between the two directories. Without line feeds, it is ignored exactly if some
file does not uncover it. -/
theorem metadata_ignored_iff (hroot : t.resolve (Path.ofString here).parts = .ok root)
    (hf : ofTree t root = .ok f)
    (hplace : t.resolve (f.wayOf (Path.ofString path)) = .ok (root ++ p))
    (hp : UnderMetadata dirs p) :
    ∃ ignored, f.ignores t (Path.ofString path) = .ok ignored ∧
      (ignored = true ↔ ∃ b ∈ directories t root, ∃ above own, b ++ above = root ∧ Holds t b own ∧
        Hides own (above ++ p)) ∧
      (InLine root → InLine dirs → (ignored = true ↔ ∃ b ∈ directories t root, ∃ above own,
        b ++ above = root ∧ Holds t b own ∧ verdict? own (spelt (above ++ p)) ≠ some false)) := by
  have hne : p ≠ [] := by
    obtain ⟨name, -, inner, -, rfl⟩ := hp
    simp
  have hiff := ignoresPlace_iff_hides hf hne
    (validName_of_wayOf hroot (ofTree_eq_ok.1 hf).1 hplace)
  refine ⟨f.ignoresPlace (root ++ p), by rw [ignores_eq, hplace]; rfl, hiff, fun hinroot hindirs => ?_⟩
  rw [hiff]
  refine exists_congr fun b => and_congr_right fun _ => exists_congr fun above =>
    exists_congr fun own => and_congr_right fun habove => and_congr_right fun _ => ?_
  subst habove
  exact hides_iff_of_inLine (hp.append above)
    (List.forall_mem_append.2 ⟨(List.forall_mem_append.1 hinroot).2, hindirs⟩)

/-- A directory with a `.gitignore` file and a file of metadata, which is at the top or in the
directory `inner`. -/
def tracked (ignored : String) (inner : Place) : Tree :=
  (Tree.empty.insert [".gitignore"] (.file (Utf8.encode ignored.toList))).insert
    (inner ++ [".git", "config"]) (.file [])

/-- A pattern that does not match the metadata changes nothing. -/
theorem metadata_ignored_beside_logs : ∃ f, ofTree (tracked "*.log" []) [] = .ok f ∧
    UnderMetadata [] [".git", "config"] ∧
    f.ignores (tracked "*.log" []) (Path.ofString ".git/config") = .ok true := by
  let f : Filter := ⟨[], [([], builtinPatterns ++ [⟨true, endsIn ".log".toList⟩])]⟩
  have hroot : (tracked "*.log" []).resolve (Path.ofString "/").parts = .ok [] := by
    decide +kernel
  have hf : ofTree (tracked "*.log" []) [] = .ok f := by decide +kernel
  have hplace : (tracked "*.log" []).resolve
      (f.wayOf (Path.ofString ".git/config")) = .ok ([] ++ [".git", "config"]) := by decide +kernel
  have hp : UnderMetadata [] [".git", "config"] := ⟨".git", by decide, ["config"], by decide, rfl⟩
  have hown : Holds (tracked "*.log" []) [] [⟨true, endsIn ".log".toList⟩] :=
    ⟨["*.log"], by decide +kernel, by decide +kernel⟩
  obtain ⟨ignored, hanswer, -, hplain⟩ := metadata_ignored_iff hroot hf hplace hp
  have htrue : ignored = true := (hplain (List.forall_mem_nil _) (List.forall_mem_nil _)).2
    ⟨[], root_mem_directories _ _, [], _, rfl, hown, by decide +kernel⟩
  exact ⟨f, hf, hp, htrue ▸ hanswer⟩

/-- **Counterexample.** A negated pattern uncovers the metadata. -/
theorem negation_uncovers : ∃ f, ofTree (tracked "!.git/" []) [] = .ok f ∧
    UnderMetadata [] [".git", "config"] ∧
    f.ignores (tracked "!.git/" []) (Path.ofString ".git/config") =
      .ok false := by
  refine ⟨⟨[], [([], builtinPatterns ++ [⟨false, below ".git".toList⟩])]⟩, by decide +kernel,
    ⟨".git", by decide, ["config"], by decide, rfl⟩, by decide +kernel⟩

/-- Below a directory with a line feed in its name, metadata is not found. -/
theorem lineFeed_uncovers : ∃ f, ofTree (tracked "" ["a\nb"]) [] = .ok f ∧
    UnderMetadata ["a\nb"] ["a\nb", ".git", "config"] ∧
    f.ignores (tracked "" ["a\nb"]) (Path.ofString "a\nb/.git/config") = .ok false :=
  ⟨⟨[], [([], builtinPatterns)]⟩, by decide +kernel,
    ⟨".git", by decide, ["config"], by decide, rfl⟩, by decide +kernel⟩

end Filter

end LangId.Gitignore
