import LangId.Gitignore.Filter
import LangId.Proofs.Steps
import LangId.Proofs.Tree.Spelling

/-!
# What a filter is made of

A filter has a list of patterns for each directory whose `.gitignore` file counts: the patterns for
version control first, and then those of the file. A list says what the last of its patterns that
match says (`verdict?`), so what the second part of a list says goes before what the first part says
(`verdict?_append`).

**Results.**
* `ofTree_eq_ok`: what a filter is made of, and when it can be made.
* `ignoresPlace_iff`: what it says about a place.
-/
namespace LangId.Gitignore

open LangId.Tree (Place spelt)

variable {patterns first second : List Pattern} {lines lines' : List String} {path : List Char}

/-! ## Lists of patterns -/

/-- What a list of patterns says about a path, if some pattern matches it: what the last one that
does says. -/
def verdict? (patterns : List Pattern) (path : List Char) : Option Bool :=
  (patterns.reverse.find? (·.accepts path)).map (·.ignores)

theorem ignores_iff_verdict? : ignores patterns path = true ↔ verdict? patterns path = some true := by
  rw [ignores, verdict?, Option.any_eq_true, Option.map_eq_some_iff]

theorem verdict?_append :
    verdict? (first ++ second) path = (verdict? second path).or (verdict? first path) := by
  rw [verdict?, List.reverse_append, List.find?_append, Option.map_or]
  rfl

/-- Where all patterns say that a path is ignored, one that matches is enough. -/
theorem verdict?_of_ignores (h : ∀ p ∈ patterns, p.ignores = true) :
    verdict? patterns path = some true ↔ ∃ p ∈ patterns, p.accepts path = true := by
  rw [verdict?, Option.map_eq_some_iff]
  constructor
  · rintro ⟨p, hp, -⟩
    have hmatch := List.find?_some hp
    exact ⟨p, List.mem_reverse.1 (List.mem_of_find?_eq_some hp), hmatch⟩
  · rintro ⟨p, hp, hmatch⟩
    have hsome : (patterns.reverse.find? (·.accepts path)).isSome = true :=
      List.find?_isSome.2 ⟨p, List.mem_reverse.2 hp, hmatch⟩
    obtain ⟨last, hlast⟩ := Option.isSome_iff_exists.1 hsome
    exact ⟨last, hlast, h last (List.mem_reverse.1 (List.mem_of_find?_eq_some hlast))⟩

theorem ofLines_append : ofLines (lines ++ lines') = .ok patterns ↔
    ∃ first second, ofLines lines = .ok first ∧ ofLines lines' = .ok second ∧
      patterns = first ++ second := by
  simp only [ofLines, List.mapM_append, map_eq_ok, bind_eq_ok, pure_eq_ok]
  constructor
  · rintro ⟨_, ⟨found, hfound, found', hfound', rfl⟩, rfl⟩
    exact ⟨_, _, ⟨found, hfound, rfl⟩, ⟨found', hfound', rfl⟩, List.filterMap_append⟩
  · rintro ⟨_, _, ⟨found, hfound, rfl⟩, ⟨found', hfound', rfl⟩, rfl⟩
    exact ⟨_, ⟨found, hfound, found', hfound', rfl⟩, List.filterMap_append⟩

namespace Filter

variable {t : Tree} {root p q b : Place} {f : Filter} {own : List Pattern}

/-! ## Directories -/

/-- The directories whose `.gitignore` files count. -/
def directories (t : Tree) (root : Place) : List Place :=
  match repository? t root with
  | some p => if p == root then [p] else [p, root]
  | none => [root]

theorem root_mem_directories (t : Tree) (root : Place) : root ∈ directories t root := by
  unfold directories
  split
  · split
    · rename_i heq
      rw [eq_of_beq heq]
      exact List.mem_singleton_self root
    · exact List.mem_cons_of_mem _ (List.mem_singleton_self root)
  · exact List.mem_singleton_self root

/-- The directories are the root and places above it. -/
theorem prefix_of_mem_directories (h : b ∈ directories t root) : b <+: root := by
  have habove (hb : repository? t root = some b) : b <+: root := by
    have hmem := List.mem_of_find?_eq_some hb
    obtain ⟨n, -, rfl⟩ := List.mem_map.1 hmem
    exact List.take_prefix n root
  have hroot (hb : b ∈ [root]) : b <+: root := by
    obtain rfl := List.mem_singleton.1 hb
    exact List.prefix_refl b
  unfold directories at h
  split at h
  · rename_i above hrepository
    split at h
    · obtain rfl := List.mem_singleton.1 h
      exact habove hrepository
    · rcases List.mem_cons.1 h with rfl | h
      · exact habove hrepository
      · exact hroot h
  · exact hroot h

/-- A filter is made of the patterns of all these directories. -/
theorem ofTree_eq_ok : ofTree t root = .ok f ↔
    f.root = root ∧ (directories t root).mapM (base t) = .ok f.bases := by
  obtain ⟨root', bases⟩ := f
  constructor
  · intro h
    obtain ⟨bases', hbases, h⟩ := bind_eq_ok.1 h
    obtain ⟨rfl, rfl⟩ := Filter.mk.inj (pure_eq_ok.1 h)
    exact ⟨rfl, hbases⟩
  · rintro ⟨rfl, hbases⟩
    exact bind_eq_ok.2 ⟨bases, hbases, rfl⟩

/-! ## What the directories say -/

/-- The patterns of the `.gitignore` file in a directory, none if there is no such file. -/
def Holds (t : Tree) (b : Place) (own : List Pattern) : Prop :=
  ∃ lines, linesIn t b = .ok lines ∧ ofLines lines = .ok own

theorem base_eq_ok {x : Place × List Pattern} : base t b = .ok x ↔
    ∃ builtin own, ofLines builtinLines = .ok builtin ∧ Holds t b own ∧ x = (b, builtin ++ own) := by
  rw [base, bind_eq_ok]
  constructor
  · rintro ⟨lines, hlines, h⟩
    split at h
    · rename_i patterns hpatterns
      obtain ⟨builtin, own, hbuiltin, hown, rfl⟩ := ofLines_append.1 hpatterns
      exact ⟨builtin, own, hbuiltin, ⟨lines, hlines, hown⟩, (pure_eq_ok.1 h).symm⟩
    · cases h
  · rintro ⟨builtin, own, hbuiltin, ⟨lines, hlines, hown⟩, rfl⟩
    refine ⟨lines, hlines, ?_⟩
    rw [ofLines_append.2 ⟨builtin, own, hbuiltin, hown, rfl⟩]
    rfl

/-- The text that patterns are tried on. -/
def seen (q : Place) : List Char := (Path.mk .relative q).toString.toList

theorem seen_of_ne_nil (h : q ≠ []) : seen q = spelt q := Path.toList_toString_relative h

/-- **Places.** A place is ignored if the patterns of some directory above it say so. -/
theorem ignoresPlace_iff {builtin : List Pattern} (hf : ofTree t root = .ok f)
    (hbuiltin : ofLines builtinLines = .ok builtin) : f.ignoresPlace p = true ↔
      ∃ b ∈ directories t root, ∃ own q, Holds t b own ∧ b ++ q = p ∧
        verdict? (builtin ++ own) (seen q) = some true := by
  have hbases := (ofTree_eq_ok.1 hf).2
  rw [ignoresPlace, List.any_eq_true]
  constructor
  · rintro ⟨x, hx, hsays⟩
    obtain ⟨b, hb, hx⟩ := (mem_mapM hbases).1 hx
    obtain ⟨_, own, hsame, hown, rfl⟩ := base_eq_ok.1 hx
    obtain rfl := Except.ok.inj (hbuiltin.symm.trans hsame)
    obtain ⟨habove, hsays⟩ := Bool.and_eq_true_iff.1 hsays
    obtain ⟨q, rfl⟩ := List.isPrefixOf_iff_prefix.1 habove
    rw [List.drop_left] at hsays
    exact ⟨b, hb, own, q, hown, rfl, ignores_iff_verdict?.1 hsays⟩
  · rintro ⟨b, hb, own, q, hown, rfl, hsays⟩
    refine ⟨_, (mem_mapM hbases).2 ⟨b, hb, base_eq_ok.2 ⟨builtin, own, hbuiltin, hown, rfl⟩⟩, ?_⟩
    refine Bool.and_eq_true_iff.2 ⟨List.isPrefixOf_iff_prefix.2 (List.prefix_append b q), ?_⟩
    rw [List.drop_left]
    exact ignores_iff_verdict?.2 hsays

/-! ## Paths -/

/-- The way that a path names. -/
def wayOf (f : Filter) (path : Path) : Place :=
  if path.isAbsolute then path.parts else f.root ++ path.parts

theorem ignores_eq (f : Filter) (t : Tree) (path : Path) :
    f.ignores t path = (t.resolve (f.wayOf path)).map f.ignoresPlace := by
  rw [ignores, wayOf]
  cases t.resolve _ <;> rfl

end Filter

end LangId.Gitignore
