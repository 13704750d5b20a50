import LangId.Proofs.Knowledge.Answers
import LangId.Proofs.Knowledge.Assembly
import LangId.Proofs.Knowledge.Validity
import LangId.Proofs.Text.Lower

/-!
# Lookups and declarations

Languages are declared with their keys and found by them. A `Query` is one way to ask a base for
languages, and `Query.Meets` says of a declaration alone whether it is meant. Between the two stand
the keys of a language that is built (`Build.keys_of_language`), which are kept in lower case; lower
case is its own lower case, so that a key of the base is found exactly by the spellings of what was
declared.

**Results.**
* `lookups_exact`: a base that is built answers every query with the languages whose declarations are
  meant, in strict order of their names and never marked as the universe; it finds a language by its
  name in any case, its categories divide the languages, and it lists every declared language once.
-/
namespace LangId

open Text

/-- A way to ask for languages. -/
inductive Query where
  | extension (x : String)
  | filename (n : String)
  | interpreter (i : String)
  | mode (m : String)
  | category (c : Category)

/-- The languages that a base finds. -/
def KnowledgeBase.answer (kb : KnowledgeBase) : Query → Candidates
  | .extension x => kb.byExtension x
  | .filename n => kb.byFilename n
  | .interpreter i => kb.byInterpreter i
  | .mode m => kb.byMode m
  | .category c => kb.byCategory c

/-- A text with dashes for spaces. -/
def dashed (s : String) : String := String.ofList (s.toList.map fun c => if c == ' ' then '-' else c)

/-- The declaration of a language under a name is meant by a query. -/
def Query.Meets (name : String) (e : LanguageEntry) : Query → Prop
  | .extension x => ∃ d ∈ e.extensions, lower d = lower x
  | .filename n => n ∈ e.filenames
  | .interpreter i => i ∈ e.interpreters
  | .mode m =>
    (∃ d ∈ e.aliases ++ e.modelines, lower d = lower m) ∨
      lower name = lower m ∨ dashed (lower name) = lower m
  | .category c => lower e.category = c.name

instance (name : String) (e : LanguageEntry) (q : Query) : Decidable (q.Meets name e) :=
  match q with
  | .extension x => inferInstanceAs (Decidable (∃ d ∈ e.extensions, lower d = lower x))
  | .filename n => inferInstanceAs (Decidable (n ∈ e.filenames))
  | .interpreter i => inferInstanceAs (Decidable (i ∈ e.interpreters))
  | .mode m => inferInstanceAs (Decidable ((∃ d ∈ e.aliases ++ e.modelines, lower d = lower m) ∨
      lower name = lower m ∨ dashed (lower name) = lower m))
  | .category c => inferInstanceAs (Decidable (lower e.category = c.name))

/-- The names of the declarations that are meant by a query. -/
def Payload.scan (p : Payload) (q : Query) : List String :=
  (p.languages.filter fun entry => q.Meets entry.1 entry.2).map (·.1)

/-- A language was built from a declaration, which stands under its name. -/
def Payload.IsDeclared (p : Payload) (l : Language) (e : LanguageEntry) : Prop :=
  (l.name, e) ∈ p.languages ∧ Build.language l.name e = .ok l

/-- What a base finds is what was declared. -/
structure KnowledgeBase.Inverts (kb : KnowledgeBase) (p : Payload) : Prop where
  /-- Every query is answered with the languages whose declarations are meant. -/
  answers : ∀ q l, l ∈ (kb.answer q).members ↔ ∃ e, p.IsDeclared l e ∧ q.Meets l.name e
  /-- Answers are sets, in order of the names. -/
  answersOrder : ∀ q, (kb.answer q).members.Pairwise fun a b => a.name < b.name
  /-- No answer is marked as the set that identification begins with. -/
  evidence : ∀ q, (kb.answer q).isUniverse = false
  /-- A name, in whatever case, finds the one language that was declared under it. -/
  named : ∀ n l, kb.language? n = some l ↔ (∃ e, p.IsDeclared l e) ∧ lower l.name = lower n
  /-- Nothing is found where no name was declared. -/
  unnamed : ∀ n, kb.language? n = none ↔ ¬p.Declares n
  /-- Every language belongs to one category. -/
  partition : (Category.all.flatMap fun c => (kb.answer (.category c)).members).Perm kb.languages
  /-- The languages are those that were declared, each once, in strict order of their names. -/
  languages : ∀ l, l ∈ kb.languages ↔ ∃ e, p.IsDeclared l e
  names : (kb.languages.map (·.name)).Perm (p.languages.map (·.1))
  order : kb.languages.Pairwise fun a b => a.name < b.name

/-! ## Keys -/

namespace Build

variable {name : String} {e : LanguageEntry} {l : Language}

/-- Modes are in lower case. -/
theorem lower_of_mem_modesOf {a : String} (h : a ∈ modesOf name e) : lower a = a := by
  simp only [modesOf, List.mem_append, List.mem_cons, List.not_mem_nil, or_false] at h
  rcases h with (rfl | rfl) | h
  · exact lower_ofList_of_isLow fun _ hc => isLow_of_mem_lowerChars hc
  · refine lower_ofList_of_isLow fun c hc => ?_
    obtain ⟨d, hd, rfl⟩ := List.mem_map.1 hc
    split
    · decide
    · exact isLow_of_mem_lowerChars hd
  · obtain ⟨b, -, rfl⟩ := List.mem_map.1 h
    exact lower_lower b

/-- The keys of a language that is built. -/
theorem keys_of_language (h : language name e = .ok l) :
    l.extensions = sortedSet (e.extensions.map lower) ∧ l.filenames = sortedSet e.filenames ∧
      l.interpreters = sortedSet e.interpreters ∧ l.modes = sortedSet (modesOf name e) := by
  unfold language at h
  split at h
  · cases h
  · split at h
    · cases h
    · obtain rfl := Except.ok.inj h
      exact ⟨rfl, rfl, rfl, rfl⟩

/-- The category of a language that is built. -/
theorem category_of_language (h : language name e = .ok l) :
    lower e.category = l.category.name := by
  unfold language at h
  split at h
  · cases h
  · rename_i c hc
    split at h
    · cases h
    · obtain rfl := Except.ok.inj h
      exact Payload.ofName?_eq_some.1 hc

/-- The modes of a language are its aliases and modelines and the two forms of its name. -/
theorem mem_modesOf {m : String} : m ∈ modesOf name e ↔
    (∃ d ∈ e.aliases ++ e.modelines, lower d = m) ∨ lower name = m ∨ dashed (lower name) = m := by
  have hdashed : dashed (lower name) =
      String.ofList ((lowerChars name.toList).map fun c => if c == ' ' then '-' else c) := by
    rw [dashed, lower, String.toList_ofList]
  rw [modesOf, hdashed, List.mem_append, List.mem_map, or_comm, List.mem_cons,
    List.mem_singleton, eq_comm (a := m), eq_comm (a := m)]
  rfl

/-- A key that is kept in lower case is found by the spellings of what was declared. -/
theorem exists_lower_iff {keys : List String} {x : String} :
    (∃ d ∈ sortedSet (keys.map lower), lower d = lower x) ↔ ∃ d ∈ keys, lower d = lower x := by
  simp only [mem_sortedSet]
  constructor
  · rintro ⟨d, hd, heq⟩
    obtain ⟨declared, hmem, rfl⟩ := List.mem_map.1 hd
    exact ⟨declared, hmem, by rw [← heq, lower_lower]⟩
  · rintro ⟨declared, hmem, heq⟩
    exact ⟨lower declared, List.mem_map_of_mem hmem, by rw [lower_lower, heq]⟩

theorem exists_mode_iff {m : String} :
    (∃ d ∈ sortedSet (modesOf name e), lower d = lower m) ↔ lower m ∈ modesOf name e := by
  simp only [mem_sortedSet]
  constructor
  · rintro ⟨d, hd, heq⟩
    rwa [← heq, lower_of_mem_modesOf hd]
  · exact fun hm => ⟨_, hm, lower_lower m⟩

end Build

/-! ## Lookups -/

namespace Payload

variable {p : Payload} {bound : Nat} {kb : KnowledgeBase} {l : Language}

/-- The languages of a base are those that were declared. -/
theorem mem_languages_iff (h : p.build bound = .ok kb) :
    l ∈ kb.languages ↔ ∃ e, p.IsDeclared l e := by
  obtain ⟨parts, -, rfl⟩ := build_eq_assemble h
  have hmem : l ∈ parts.base.languages ↔ l ∈ parts.languages :=
    (List.mergeSort_perm _ _).mem_iff
  rw [hmem, mem_mapM parts.languages_eq]
  constructor
  · rintro ⟨⟨n, e⟩, hentry, hl⟩
    obtain rfl := (Build.language_eq_ok hl).2.2
    exact ⟨e, hentry, hl⟩
  · rintro ⟨e, hentry, hl⟩
    exact ⟨(l.name, e), hentry, hl⟩

theorem names_perm (h : p.build bound = .ok kb) :
    (kb.languages.map (·.name)).Perm (p.languages.map (·.1)) := by
  obtain ⟨parts, -, rfl⟩ := build_eq_assemble h
  rw [← Build.names_of_languages parts.languages_eq]
  exact (List.mergeSort_perm _ _).map _

/-- An answer holds the languages of the base that have the key. -/
theorem mem_answer_iff (hi : kb.Indexed) (q : Query) {e : LanguageEntry} (he : p.IsDeclared l e)
    (hl : l ∈ kb.languages) : l ∈ (kb.answer q).members ↔ q.Meets l.name e := by
  obtain ⟨hextensions, hfilenames, hinterpreters, hmodes⟩ := Build.keys_of_language he.2
  cases q with
  | extension x =>
    rw [KnowledgeBase.answer, hi.extension, hextensions, Build.exists_lower_iff]
    exact and_iff_right hl
  | filename n =>
    rw [KnowledgeBase.answer, hi.filename, hfilenames, mem_sortedSet]
    exact and_iff_right hl
  | interpreter i =>
    rw [KnowledgeBase.answer, hi.interpreter, hinterpreters, mem_sortedSet]
    exact and_iff_right hl
  | mode m =>
    rw [KnowledgeBase.answer, hi.mode, hmodes, Build.exists_mode_iff, Build.mem_modesOf]
    exact and_iff_right hl
  | category c =>
    have hname : l.category = c ↔ lower e.category = c.name := by
      rw [Build.category_of_language he.2, ← ofName?_eq_some, Category.ofName?_name,
        Option.some.injEq]
    rw [KnowledgeBase.answer, KnowledgeBase.byCategory, Candidates.mem_ofList, List.mem_filter,
      beq_iff_eq, hname]
    exact and_iff_right hl

/-- Answers hold nothing but languages of the base. -/
theorem answer_subset (hi : kb.Indexed) (q : Query) (h : l ∈ (kb.answer q).members) :
    l ∈ kb.languages := by
  cases q with
  | extension x => exact (hi.extension.1 h).1
  | filename n => exact (hi.filename.1 h).1
  | interpreter i => exact (hi.interpreter.1 h).1
  | mode m => exact (hi.mode.1 h).1
  | category c => exact (List.mem_filter.1 (Candidates.mem_ofList.1 h)).1

/-- Answers hold exactly the declared languages that are meant. -/
theorem answers_exact (h : p.build bound = .ok kb) (q : Query) :
    l ∈ (kb.answer q).members ↔ ∃ e, p.IsDeclared l e ∧ q.Meets l.name e := by
  have hi := indexed_of_build h
  constructor
  · intro hmem
    have hl := answer_subset hi q hmem
    obtain ⟨e, he⟩ := (mem_languages_iff h).1 hl
    exact ⟨e, he, (mem_answer_iff hi q he hl).1 hmem⟩
  · rintro ⟨e, he, hmeets⟩
    exact (mem_answer_iff hi q he ((mem_languages_iff h).2 ⟨e, he⟩)).2 hmeets

/-- Answers are made of lists, without the mark of the universe. -/
theorem answer_eq_ofList (kb : KnowledgeBase) (q : Query) :
    ∃ languages, kb.answer q = Candidates.ofList languages := by
  cases q <;> exact ⟨_, rfl⟩

theorem pairwise_answer (hi : kb.Indexed) (q : Query) :
    (kb.answer q).members.Pairwise fun a b => a.name < b.name := by
  have hsub : ∀ l ∈ (kb.answer q).members, l ∈ kb.languages := fun l => answer_subset hi q
  obtain ⟨languages, heq⟩ := answer_eq_ofList kb q
  rw [heq] at hsub ⊢
  refine Candidates.pairwise_ofList fun l hl m hm => ?_
  exact hi.eq_of_name (hsub l (Candidates.mem_ofList.2 hl)) (hsub m (Candidates.mem_ofList.2 hm))

/-- Categories divide the languages. -/
theorem partition_perm (hi : kb.Indexed) :
    (Category.all.flatMap fun c => (kb.answer (.category c)).members).Perm kb.languages := by
  have hmem {l : Language} {c : Category} :
      l ∈ (kb.answer (.category c)).members ↔ l ∈ kb.languages ∧ l.category = c := by
    rw [KnowledgeBase.answer, KnowledgeBase.byCategory, Candidates.mem_ofList, List.mem_filter,
      beq_iff_eq]
  have hnodup : (Category.all.flatMap fun c => (kb.answer (.category c)).members).Nodup := by
    refine List.pairwise_flatMap.2 ⟨fun c _ => Candidates.nodup_of_strict (pairwise_answer hi _), ?_⟩
    refine List.Pairwise.imp (fun {c c'} hne l hl m hm heq => hne ?_)
      (by decide : Category.all.Nodup)
    rw [← (hmem.1 hl).2, ← (hmem.1 hm).2, heq]
  refine (List.perm_ext_iff_of_nodup hnodup (Candidates.nodup_of_strict hi.order)).2 fun l => ?_
  rw [List.mem_flatMap]
  constructor
  · rintro ⟨c, -, hl⟩
    exact (hmem.1 hl).1
  · intro hl
    exact ⟨l.category, by cases l.category <;> decide, hmem.2 ⟨hl, rfl⟩⟩

/-- A name finds the language that has it in lower case. -/
theorem language?_eq_some_iff (h : p.build bound = .ok kb) {n : String} :
    kb.language? n = some l ↔ (∃ e, p.IsDeclared l e) ∧ lower l.name = lower n := by
  rw [← mem_languages_iff h]
  obtain ⟨parts, -, rfl⟩ := build_eq_assemble h
  have hkeys : ((parts.languages.map fun l => (lower l.name, l)).map (·.1)).Nodup := by
    rw [List.map_map]
    exact parts.names
  have hlookup := Table.mem_iff_lookup hkeys (e := (lower n, l))
  rw [List.mem_map] at hlookup
  have hmem : l ∈ parts.base.languages ↔ l ∈ parts.languages :=
    (List.mergeSort_perm _ _).mem_iff
  rw [hmem]
  refine hlookup.symm.trans ?_
  constructor
  · rintro ⟨m, hm, heq⟩
    obtain ⟨hname, rfl⟩ := Prod.mk.inj heq
    exact ⟨hm, hname⟩
  · rintro ⟨hl, hname⟩
    exact ⟨l, hl, Prod.ext hname rfl⟩

theorem language?_eq_none_iff (h : p.build bound = .ok kb) {n : String} :
    kb.language? n = none ↔ ¬p.Declares n := by
  rw [Option.eq_none_iff_forall_ne_some]
  refine ⟨fun hnone => ?_, fun hno l hl => ?_⟩
  · rintro ⟨⟨name, e⟩, hentry, hname⟩
    obtain ⟨parts, -, -⟩ := build_eq_assemble h
    obtain ⟨l, hl⟩ := mapM_eq_ok.1 ⟨_, parts.languages_eq⟩ _ hentry
    obtain rfl := (Build.language_eq_ok hl).2.2
    exact hnone l ((language?_eq_some_iff h).2 ⟨⟨e, hentry, hl⟩, hname⟩)
  · obtain ⟨⟨e, he, -⟩, hname⟩ := (language?_eq_some_iff h).1 hl
    exact hno ⟨_, he, hname⟩

end Payload

namespace KnowledgeBase.Inverts

variable {p : Payload} {kb : KnowledgeBase}

/-- An answer has the names that a scan of the declarations finds. -/
theorem names_answer (h : kb.Inverts p) (q : Query) : (kb.answer q).names.Perm (p.scan q) := by
  have hstrict {ls : List Language} (hls : ls.Pairwise fun a b => a.name < b.name) :
      (ls.map (·.name)).Nodup := List.pairwise_map.2 (hls.imp fun hlt heq => by
    rw [heq] at hlt
    exact String.lt_irrefl _ hlt)
  have hnames : (p.languages.map (·.1)).Nodup := h.names.nodup_iff.1 (hstrict h.order)
  have hscan : (p.scan q).Nodup :=
    hnames.sublist (List.filter_sublist.map _)
  refine (List.perm_ext_iff_of_nodup (hstrict (h.answersOrder q)) hscan).2 fun n => ?_
  simp only [Payload.scan, List.mem_map, List.mem_filter, decide_eq_true_eq]
  constructor
  · rintro ⟨l, hl, rfl⟩
    obtain ⟨e, he, hmeets⟩ := (h.answers q l).1 hl
    exact ⟨_, ⟨he.1, hmeets⟩, rfl⟩
  · rintro ⟨⟨n, e⟩, ⟨hentry, hmeets⟩, rfl⟩
    -- the language of this name was built from this declaration, as no other has the name
    obtain ⟨l, hl, rfl⟩ := List.mem_map.1 (h.names.mem_iff.2 (List.mem_map.2 ⟨_, hentry, rfl⟩))
    obtain ⟨e', he'⟩ := (h.languages l).1 hl
    have hsame := (Table.mem_iff_lookup hnames).1 hentry
    rw [(Table.mem_iff_lookup hnames).1 he'.1] at hsame
    obtain rfl := Option.some.inj hsame
    exact ⟨l, (h.answers q l).2 ⟨_, he', hmeets⟩, rfl⟩

end KnowledgeBase.Inverts

namespace Payload

variable {p : Payload} {bound : Nat} {kb : KnowledgeBase}

/-- **Lookups are the inverses of the declarations.** -/
theorem lookups_exact (h : p.build bound = .ok kb) : kb.Inverts p where
  answers q _ := answers_exact h q
  answersOrder := pairwise_answer (indexed_of_build h)
  evidence q := by
    obtain ⟨_, heq⟩ := answer_eq_ofList kb q
    rw [heq]
    rfl
  named _ _ := language?_eq_some_iff h
  unnamed _ := language?_eq_none_iff h
  partition := partition_perm (indexed_of_build h)
  languages _ := mem_languages_iff h
  names := names_perm h
  order := (indexed_of_build h).order

/-- Two languages that share an extension, declared in different cases. -/
def sharedExtension : Payload where
  languages := [
    ("Emacs Lisp", { category := "Programming", extensions := [".EL", ".L"], aliases := ["Elisp"]
                     filenames := [".emacs"], interpreters := ["emacs"] }),
    ("C", { category := "markup", extensions := [".l"], modelines := ["C99"]
            filenames := [".Emacs"] })]

theorem sharedExtension_inverted : ∃ kb, sharedExtension.build 10 = .ok kb ∧
    kb.Inverts sharedExtension ∧
    (kb.answer (.extension ".L")).names.Perm ["Emacs Lisp", "C"] ∧
    (kb.answer (.mode "EMACS-lisp")).names.Perm ["Emacs Lisp"] ∧
    (kb.answer (.filename ".emacs")).names.Perm ["Emacs Lisp"] := by
  have hbuilt : (sharedExtension.build 10).isOk = true := by decide +kernel
  cases h : sharedExtension.build 10 with
  | error e => rw [h] at hbuilt; cases hbuilt
  | ok kb =>
    have hinverts := lookups_exact h
    have hscan (q : Query) (names : List String) (hq : sharedExtension.scan q = names) :
        (kb.answer q).names.Perm names := hq ▸ hinverts.names_answer q
    exact ⟨kb, rfl, hinverts, hscan _ _ (by decide +kernel), hscan _ _ (by decide +kernel),
      hscan _ _ (by decide +kernel)⟩

end Payload

end LangId
