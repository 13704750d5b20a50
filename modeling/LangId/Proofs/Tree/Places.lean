import Mathlib.Data.List.Nodup
import LangId.Proofs.Tables
import LangId.Proofs.Text.Order
import LangId.Scan

/-!
# The files of a tree

A tree is well-formed if the names in its directories are names that files can have, each once
(`Tree.Wellformed`). A walk below a directory of such a tree comes to the files that have no directory
of version control above them, and to nothing else (`mem_files_iff`). It comes to them in an order
that is told by their names (`pairwise_files`), hence to each of them once (`nodup_files`).
-/
namespace LangId.Tree

/-- What an entry of a directory can be called. -/
structure ValidName (name : String) : Prop where
  ne_empty : name ≠ ""
  ne_here : name ≠ "."
  ne_above : name ≠ ".."
  no_slash : '/' ∉ name.toList

instance (name : String) : Decidable (ValidName name) :=
  decidable_of_iff (name ≠ "" ∧ name ≠ "." ∧ name ≠ ".." ∧ '/' ∉ name.toList)
    ⟨fun ⟨hempty, hhere, habove, hslash⟩ => ⟨hempty, hhere, habove, hslash⟩,
      fun h => ⟨h.ne_empty, h.ne_here, h.ne_above, h.no_slash⟩⟩

/-- In all directories of a tree names are valid, and no name stands for two entries. -/
inductive Wellformed : Tree → Prop
  | file (bytes : List UInt8) : Wellformed (.file bytes)
  | link (target : String) : Wellformed (.link target)
  | directory {entries : List (String × Tree)} (nodup : (entries.map (·.1)).Nodup)
      (names : ∀ e ∈ entries, ValidName e.1) (below : ∀ e ∈ entries, Wellformed e.2) :
      Wellformed (.directory entries)

/-! ## Places -/

variable {t d : Tree} {entries : List (String × Tree)} {p q : Place} {name : String}

@[simp]
theorem at?_nil : t.at? [] = some t := rfl

theorem at?_cons : t.at? (name :: p) = (t.entry? name).bind fun e => e.at? p := rfl

theorem at?_singleton : t.at? [name] = t.entry? name := Option.bind_fun_some _

theorem at?_append : t.at? (p ++ q) = (t.at? p).bind fun d => d.at? q := by
  induction p generalizing t with
  | nil => rfl
  | cons name p ih =>
    rw [List.cons_append, at?_cons, at?_cons]
    cases t.entry? name with
    | none => rfl
    | some e => exact ih

theorem entry?_eq_some : t.entry? name = some d ↔
    ∃ entries, t = .directory entries ∧ entries.lookup name = some d := by
  cases t with
  | directory entries =>
    constructor
    · exact fun h => ⟨entries, rfl, h⟩
    · rintro ⟨_, ⟨⟩, h⟩
      exact h
  | _ => exact ⟨nofun, fun ⟨_, heq, _⟩ => nomatch heq⟩

theorem Wellformed.mem_iff (ht : (Tree.directory entries).Wellformed) :
    (name, d) ∈ entries ↔ Tree.entry? (Tree.directory entries) name = some d := by
  cases ht with
  | directory nodup => exact Table.mem_iff_lookup nodup

theorem Wellformed.entry (ht : t.Wellformed) (h : t.entry? name = some d) :
    ValidName name ∧ d.Wellformed := by
  obtain ⟨entries, rfl, hlookup⟩ := entry?_eq_some.1 h
  cases ht with
  | directory nodup names below =>
    have hmem : (name, d) ∈ entries := (Table.mem_iff_lookup nodup).2 hlookup
    exact ⟨names _ hmem, below _ hmem⟩

/-- What stands in a well-formed tree is well-formed, and has been reached through valid names. -/
theorem Wellformed.at (ht : t.Wellformed) (h : t.at? p = some d) :
    (∀ name ∈ p, ValidName name) ∧ d.Wellformed := by
  induction p generalizing t with
  | nil =>
    obtain rfl := Option.some.inj h
    exact ⟨nofun, ht⟩
  | cons name p ih =>
    rw [at?_cons] at h
    obtain ⟨e, he, hat⟩ := Option.bind_eq_some_iff.1 h
    obtain ⟨hname, hwellformed⟩ := ht.entry he
    obtain ⟨hnames, hd⟩ := ih hwellformed hat
    exact ⟨List.forall_mem_cons.2 ⟨hname, hnames⟩, hd⟩

/-! ## Files -/

theorem mem_fileNames : name ∈ fileNames entries ↔ ∃ bytes, (name, .file bytes) ∈ entries := by
  rw [fileNames, List.mem_filterMap]
  constructor
  · rintro ⟨⟨_, e⟩, hmem, h⟩
    dsimp only at h
    split at h
    · obtain rfl := Option.some.inj h
      exact ⟨_, hmem⟩
    · cases h
  · rintro ⟨bytes, hmem⟩
    exact ⟨_, hmem, rfl⟩

theorem fileNames_sublist : (fileNames entries).Sublist (entries.map (·.1)) := by
  induction entries with
  | nil => exact .slnil
  | cons e entries ih =>
    obtain ⟨name, e⟩ := e
    rw [List.map_cons, fileNames, List.filterMap_cons]
    cases e with
    | file bytes => exact ih.cons_cons name
    | _ => exact ih.cons name

/-- An entry is passed over or walked through. -/
theorem filesBelow_cons (e : String × Tree) (rest : List (String × Tree)) :
    filesBelow (e :: rest) = filesBelow rest ∨
      filesBelow (e :: rest) = (e.1, e.2.files) :: filesBelow rest := by
  obtain ⟨name, e⟩ := e
  cases e with
  | directory entries =>
    rw [filesBelow]
    split
    · exact .inl rfl
    · exact .inr rfl
  | _ => exact .inl (by rw [filesBelow]; exact nofun)

theorem mem_filesBelow {found : List Place} : (name, found) ∈ filesBelow entries ↔
    ∃ inner, (name, .directory inner) ∈ entries ∧ name ∉ Gitignore.metadataNames ∧
      found = (directory inner).files := by
  induction entries with
  | nil => simp [filesBelow]
  | cons first rest ih =>
    obtain ⟨n, e⟩ := first
    cases e with
    | directory inner =>
      rw [filesBelow]
      split
      · rename_i hmeta
        have hmeta : n ∈ Gitignore.metadataNames := List.contains_iff_mem.1 hmeta
        rw [ih]
        grind
      · rename_i hmeta
        have hmeta : n ∉ Gitignore.metadataNames := fun h => hmeta (List.contains_iff_mem.2 h)
        rw [List.mem_cons, ih]
        grind
    | _ =>
      rw [filesBelow, ih]
      · simp
      · exact nofun

theorem filesBelow_sublist :
    ((filesBelow entries).map (·.1)).Sublist (entries.map (·.1)) := by
  induction entries with
  | nil => exact .slnil
  | cons first rest ih =>
    rcases filesBelow_cons first rest with heq | heq
    · rw [heq]
      exact ih.cons first.1
    · rw [heq]
      exact ih.cons_cons first.1

theorem mem_arranged {own : List String} {below : List (String × List Place)} :
    p ∈ arranged own below ↔
      (∃ name ∈ own, p = [name]) ∨ ∃ x ∈ below, ∃ rest ∈ x.2, p = x.1 :: rest := by
  simp only [arranged, byName, List.mem_append, List.mem_map, List.mem_flatMap, Text.mem_sorted,
    List.mem_mergeSort, eq_comm (a := p)]

theorem nil_notMem_files : [] ∉ t.files := by
  cases t with
  | directory entries =>
    rw [files, mem_arranged]
    rintro (⟨name, -, h⟩ | ⟨x, -, rest, -, h⟩)
    · exact List.cons_ne_nil _ _ h.symm
    · exact List.cons_ne_nil _ _ h.symm
  | _ => exact List.not_mem_nil

theorem pairwise_byName {α : Type} {items : List (String × α)} (h : (items.map (·.1)).Nodup) :
    (byName items).Pairwise fun x y => x.1 < y.1 := by
  let notAfter (x y : String × α) : Bool := Text.notAfter x.1 y.1
  have htrans (x y z : String × α) : notAfter x y = true → notAfter y z = true →
      notAfter x z = true := Text.notAfter_trans x.1 y.1 z.1
  have htotal (x y : String × α) : (notAfter x y || notAfter y x) = true :=
    Text.notAfter_total x.1 y.1
  have hsorted : (byName items).Pairwise fun x y => notAfter x y = true :=
    List.pairwise_mergeSort htrans htotal items
  have hapart : (byName items).Pairwise fun x y => x.1 ≠ y.1 :=
    List.pairwise_map.1 ((((List.mergeSort_perm _ _).map _).nodup_iff).2 h)
  exact (hsorted.and hapart).imp fun ⟨hle, hne⟩ => Text.lt_of_notAfter hle hne

/-- A file stands in a directory itself. -/
theorem singleton_mem_files (ht : t.Wellformed) :
    [name] ∈ t.files ↔ ∃ bytes, t.entry? name = some (.file bytes) := by
  cases t with
  | directory entries =>
    rw [files, mem_arranged]
    constructor
    · rintro (⟨own, hown, heq⟩ | ⟨⟨dir, found⟩, hbelow, rest, hrest, heq⟩)
      · obtain rfl := List.singleton_inj.1 heq
        obtain ⟨bytes, hmem⟩ := mem_fileNames.1 hown
        exact ⟨bytes, ht.mem_iff.1 hmem⟩
      · obtain ⟨inner, -, -, rfl⟩ := mem_filesBelow.1 hbelow
        obtain ⟨-, rfl⟩ := List.cons.inj heq
        exact absurd hrest nil_notMem_files
    · rintro ⟨bytes, hentry⟩
      exact .inl ⟨name, mem_fileNames.2 ⟨bytes, ht.mem_iff.2 hentry⟩, rfl⟩
  | _ => simp [files, entry?]

/-- A file stands below one of the directories of a directory. -/
theorem cons_mem_files (ht : t.Wellformed) (hp : p ≠ []) : name :: p ∈ t.files ↔
    name ∉ Gitignore.metadataNames ∧ ∃ d, t.entry? name = some d ∧ p ∈ d.files := by
  cases t with
  | directory entries =>
    rw [files, mem_arranged]
    constructor
    · rintro (⟨own, -, heq⟩ | ⟨⟨dir, found⟩, hbelow, rest, hrest, heq⟩)
      · exact absurd (List.cons.inj heq).2 hp
      · obtain ⟨rfl, rfl⟩ := List.cons.inj heq
        obtain ⟨inner, hmem, hmeta, rfl⟩ := mem_filesBelow.1 hbelow
        exact ⟨hmeta, _, ht.mem_iff.1 hmem, hrest⟩
    · rintro ⟨hmeta, d, hentry, hd⟩
      cases d with
      | directory inner =>
        have hbelow : (name, (directory inner).files) ∈ filesBelow entries :=
          mem_filesBelow.2 ⟨inner, ht.mem_iff.2 hentry, hmeta, rfl⟩
        exact .inr ⟨_, hbelow, p, hd, rfl⟩
      | _ => cases hd
  | _ => simp [files, entry?]

/-- What a walk comes to: a file below the directory that it begins at, through no directory of
version control. -/
structure Tracked (t : Tree) (p : Place) : Prop where
  below : p ≠ []
  file : ∃ bytes, t.at? p = some (.file bytes)
  outside : ∀ name ∈ p.dropLast, name ∉ Gitignore.metadataNames

/-- A walk comes to all of these files, and to nothing else. -/
theorem mem_files_iff (ht : t.Wellformed) : p ∈ t.files ↔ t.Tracked p := by
  induction p generalizing t with
  | nil => exact ⟨fun h => absurd h nil_notMem_files, fun h => absurd rfl h.below⟩
  | cons name p ih =>
    by_cases hp : p = []
    · subst hp
      rw [singleton_mem_files ht, ← at?_singleton]
      exact ⟨fun h => ⟨List.cons_ne_nil _ _, h, by simp⟩, fun h => h.file⟩
    · rw [cons_mem_files ht hp]
      constructor
      · rintro ⟨hmeta, d, hentry, hd⟩
        have hrest : d.Tracked p := (ih (ht.entry hentry).2).1 hd
        refine ⟨List.cons_ne_nil _ _, ?_, ?_⟩
        · rw [at?_cons, hentry]
          exact hrest.file
        · rw [List.dropLast_cons_of_ne_nil hp]
          exact List.forall_mem_cons.2 ⟨hmeta, hrest.outside⟩
      · rintro ⟨-, ⟨bytes, hat⟩, houtside⟩
        rw [List.dropLast_cons_of_ne_nil hp] at houtside
        obtain ⟨hmeta, houtside⟩ := List.forall_mem_cons.1 houtside
        obtain ⟨d, hentry, hat⟩ := Option.bind_eq_some_iff.1 hat
        exact ⟨hmeta, d, hentry, (ih (ht.entry hentry).2).2 ⟨hp, ⟨bytes, hat⟩, houtside⟩⟩

/-! ## Order -/

/-- How a walk arranges two files: where they part, a file of the directory comes before what is
below its directories, and otherwise the name decides. -/
inductive Before : Place → Place → Prop
  | own {a b : String} (h : a < b) : Before [a] [b]
  | first {a b : String} {q : Place} (hq : q ≠ []) : Before [a] (b :: q)
  | apart {a b : String} {p q : Place} (hp : p ≠ []) (hq : q ≠ []) (h : a < b) :
      Before (a :: p) (b :: q)
  | inner {a : String} {p q : Place} (h : Before p q) : Before (a :: p) (a :: q)

theorem Before.ne_nil (h : Before p q) : p ≠ [] ∧ q ≠ [] := by
  cases h <;> exact ⟨List.cons_ne_nil _ _, List.cons_ne_nil _ _⟩

theorem Before.asymm (h : Before p q) : ¬ Before q p := by
  induction h with
  | own hlt =>
    intro hback
    cases hback with
    | own hgt => exact String.lt_irrefl _ (String.lt_trans hlt hgt)
    | first hq => exact hq rfl
    | apart hp => exact hp rfl
    | inner h => exact h.ne_nil.1 rfl
  | first hq =>
    intro hback
    cases hback with
    | own => exact hq rfl
    | first hq' => exact hq' rfl
    | apart _ hq' => exact hq' rfl
    | inner h => exact h.ne_nil.2 rfl
  | apart hp hq hlt =>
    intro hback
    cases hback with
    | own => exact hp rfl
    | first => exact hq rfl
    | apart _ _ hgt => exact String.lt_irrefl _ (String.lt_trans hlt hgt)
    | inner => exact String.lt_irrefl _ hlt
  | inner h ih =>
    intro hback
    cases hback with
    | own => exact h.ne_nil.1 rfl
    | first => exact h.ne_nil.2 rfl
    | apart _ _ hlt => exact String.lt_irrefl _ hlt
    | inner hback => exact ih hback

theorem Before.ne (h : Before p q) : p ≠ q := fun heq => (heq ▸ h).asymm (heq ▸ h)

theorem pairwise_arranged {own : List String} {below : List (String × List Place)}
    (hown : own.Nodup) (hnames : (below.map (·.1)).Nodup)
    (hbelow : ∀ x ∈ below, x.2.Pairwise Before ∧ [] ∉ x.2) :
    (arranged own below).Pairwise Before := by
  have hbelow : ∀ x ∈ byName below, x.2.Pairwise Before ∧ [] ∉ x.2 := fun x hx =>
    hbelow x ((List.mergeSort_perm _ _).mem_iff.1 hx)
  have hne {x : String × List Place} (hx : x ∈ byName below) {rest : Place} (h : rest ∈ x.2) :
      rest ≠ [] := fun hnil => (hbelow x hx).2 (hnil ▸ h)
  rw [arranged, List.pairwise_append, List.pairwise_flatMap]
  refine ⟨?_, ⟨fun x hx => ?_, ?_⟩, ?_⟩
  · exact List.pairwise_map.2 ((Text.pairwise_sorted_of_nodup hown).imp .own)
  · exact List.pairwise_map.2 ((hbelow x hx).1.imp .inner)
  · refine (pairwise_byName hnames).imp_of_mem fun {x y} hx hy hlt => ?_
    intro place hplace place' hplace'
    obtain ⟨rest, hrest, rfl⟩ := List.mem_map.1 hplace
    obtain ⟨rest', hrest', rfl⟩ := List.mem_map.1 hplace'
    exact .apart (hne hx hrest) (hne hy hrest') hlt
  · intro single hsingle place hplace
    obtain ⟨name, -, rfl⟩ := List.mem_map.1 hsingle
    obtain ⟨x, hx, hplace⟩ := List.mem_flatMap.1 hplace
    obtain ⟨rest, hrest, rfl⟩ := List.mem_map.1 hplace
    exact .first (hne hx hrest)

/-- A walk comes to the files in this order. -/
theorem pairwise_files (ht : t.Wellformed) : t.files.Pairwise Before := by
  induction ht with
  | directory nodup names below ih =>
    rw [files]
    refine pairwise_arranged (nodup.sublist fileNames_sublist) (nodup.sublist filesBelow_sublist) ?_
    rintro ⟨name, found⟩ hfound
    obtain ⟨inner, hmem, -, rfl⟩ := mem_filesBelow.1 hfound
    exact ⟨ih _ hmem, nil_notMem_files⟩
  | _ => exact .nil

/-- A walk comes to every file once. -/
theorem nodup_files (ht : t.Wellformed) : t.files.Nodup :=
  (pairwise_files ht).imp Before.ne

/-! ## A file beside a directory -/

/-- A file beside a directory with another file in it. -/
def pair (file directory inner : String) : Tree :=
  .directory [(file, .file [120]), (directory, .directory [(inner, .file [121, 121])])]

variable {file directory inner : String}

theorem files_pair (hdirectory : directory ∉ Gitignore.metadataNames) :
    (pair file directory inner).files = [[file], [directory, inner]] := by
  have hmeta : Gitignore.metadataNames.contains directory = false := by simpa using hdirectory
  simp only [pair, files, fileNames, filesBelow, arranged, Text.sorted, byName,
    List.filterMap_cons, List.filterMap_nil, List.mergeSort_singleton, List.mergeSort_nil,
    List.flatMap_nil, hmeta, Bool.false_eq_true, if_false]
  rfl

theorem wellformed_pair (hne : file ≠ directory) (hfile : ValidName file)
    (hdirectory : ValidName directory) (hinner : ValidName inner) :
    (pair file directory inner).Wellformed := by
  have hbelow : (Tree.directory [(inner, .file [121, 121])]).Wellformed :=
    .directory (List.nodup_singleton _) (List.forall_mem_singleton.2 hinner)
      (List.forall_mem_singleton.2 (.file _))
  have hnames : [file, directory].Nodup := by simpa using hne
  rw [pair]
  refine .directory hnames ?_ ?_
  · exact List.forall_mem_cons.2 ⟨hfile, List.forall_mem_singleton.2 hdirectory⟩
  · exact List.forall_mem_cons.2 ⟨.file _, List.forall_mem_singleton.2 hbelow⟩

end LangId.Tree
