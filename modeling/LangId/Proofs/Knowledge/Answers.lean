import LangId.Identifier
import LangId.Proofs.Cascade.Narrowing
import LangId.Proofs.Classifier.Choice
import LangId.Proofs.Classifier.Tallies

/-!
# Knowledge bases with the same answers

Identification asks a knowledge base questions and sees nothing else of it. Two bases that give the
same answers (`KnowledgeBase.Agrees`) therefore identify every file alike, stage by stage
(`proposal?_of_agrees`), with any chooser; and their own choosers are the same, since of a model a
classifier sees no more than its counts and their total (`classify_of_alike`).

The languages under a key are a set. A base in which these sets are listed in another order
(`KnowledgeBase.Relisted`) is still indexed (`Relisted.indexed`), and the answers follow from that:
names tell languages apart, so that a set has one order of names (`Candidates.ofList_congr`).

**Results.**
* `Indexed.agrees`: two bases of the same languages agree on every lookup.
* `identify_of_agrees`: bases with the same answers identify every file alike.
* `ofList_of_reached`: what stages lead to is the same set, in whatever order it is gone through.
-/
namespace LangId

/-! ## Models that are alike -/

namespace Model

variable {R : Type} {a b : Model}

theorem alike_refl : ∀ o : Option Model, Option.Rel Alike o o
  | none => .none
  | some m => .some (.refl m)

theorem logProbability_of_alike (h : a.Alike b) (s : Scale R) (tokens : List String)
    (smoothing : R) (vocabulary : Int) : a.logProbability s tokens smoothing vocabulary =
      b.logProbability s tokens smoothing vocabulary := by
  have hadd : logProbability.addToken s a smoothing = logProbability.addToken s b smoothing := by
    funext denominator score entry
    simp only [logProbability.addToken, h.count]
  simp only [logProbability, h.total, hadd]

end Model

namespace Classifier

variable {R : Type} (c : Classifier R) {model? model?' : String → Option Model}

theorem entry?_of_alike (h : ∀ n, Option.Rel Model.Alike (model? n) (model?' n))
    (vocabulary : Nat) (tokens : List String) :
    c.entry? model? vocabulary tokens = c.entry? model?' vocabulary tokens := by
  funext l
  unfold entry?
  have hl := h l.name
  generalize model? l.name = o at hl
  generalize model?' l.name = o' at hl
  cases hl with
  | none => rfl
  | some hm => simp only [Model.logProbability_of_alike hm, hm.total]

/-- A classifier sees no difference between models that are alike. -/
theorem classify_of_alike (h : ∀ n, Option.Rel Model.Alike (model? n) (model?' n))
    (vocabulary : Nat) : c.classify model? vocabulary = c.classify model?' vocabulary := by
  funext content candidates
  simp only [classify, scores, entry?_of_alike c h]

end Classifier

namespace KnowledgeBase

/-- Two knowledge bases that give the same answer to every question. -/
structure Agrees (a b : KnowledgeBase) : Prop where
  languages : a.languages = b.languages
  language : ∀ n, a.language? n = b.language? n
  extension : ∀ e, a.byExtension e = b.byExtension e
  filename : ∀ n, a.byFilename n = b.byFilename n
  interpreter : ∀ i, a.byInterpreter i = b.byInterpreter i
  mode : ∀ m, a.byMode m = b.byMode m
  category : ∀ c, a.byCategory c = b.byCategory c
  rules : ∀ e, a.rulesFor e = b.rulesFor e
  attached : ∀ n, a.rulesOf n = b.rulesOf n
  exclusion : a.exclusionRules = b.exclusionRules
  model : ∀ n, Option.Rel Model.Alike (a.model? n) (b.model? n)
  hasModels : a.hasModels = b.hasModels
  vocabulary : a.vocabulary = b.vocabulary

/-- A knowledge base in which the languages under each key are listed in another order. -/
structure Relisted (a b : KnowledgeBase) : Prop where
  languages : b.languages = a.languages
  byName : b.byName = a.byName
  extension : ∀ k, (b.extensionIndex.under k).Perm (a.extensionIndex.under k)
  filename : ∀ k, (b.filenameIndex.under k).Perm (a.filenameIndex.under k)
  interpreter : ∀ k, (b.interpreterIndex.under k).Perm (a.interpreterIndex.under k)
  mode : ∀ k, (b.modeIndex.under k).Perm (a.modeIndex.under k)
  heuristics : b.heuristics = a.heuristics
  attached : b.attached = a.attached
  exclusionRules : b.exclusionRules = a.exclusionRules
  models : b.models = a.models
  vocabulary : b.vocabulary = a.vocabulary

variable {a b kb : KnowledgeBase} {file : Sample} {c : Candidates}

theorem Agrees.refl (kb : KnowledgeBase) : kb.Agrees kb :=
  ⟨rfl, fun _ => rfl, fun _ => rfl, fun _ => rfl, fun _ => rfl, fun _ => rfl, fun _ => rfl,
    fun _ => rfl, fun _ => rfl, rfl, fun n => Model.alike_refl (kb.model? n),
    rfl, rfl⟩

theorem Relisted.refl (kb : KnowledgeBase) : kb.Relisted kb :=
  ⟨rfl, rfl, fun _ => .refl _, fun _ => .refl _, fun _ => .refl _, fun _ => .refl _, rfl, rfl, rfl,
    rfl, rfl⟩

/-! ## Lookups -/

theorem mem_find_of_perm {i j : Index} {k : String} (h : (j.under k).Perm (i.under k))
    {l : Language} : l ∈ (j.find k).members ↔ l ∈ (i.find k).members := by
  rw [Index.find, Index.find, Candidates.mem_ofList, Candidates.mem_ofList]
  exact h.mem_iff

/-- Lookups do not depend on the order in which languages are listed. -/
theorem Relisted.indexed (h : a.Relisted b) (ha : a.Indexed) : b.Indexed where
  names := by rw [h.languages]; exact ha.names
  order := by rw [h.languages]; exact ha.order
  extension := by rw [h.languages]; exact (mem_find_of_perm (h.extension _)).trans ha.extension
  filename := by rw [h.languages]; exact (mem_find_of_perm (h.filename _)).trans ha.filename
  interpreter := by
    rw [h.languages]; exact (mem_find_of_perm (h.interpreter _)).trans ha.interpreter
  mode := by rw [h.languages]; exact (mem_find_of_perm (h.mode _)).trans ha.mode

/-- Names tell languages apart. -/
theorem Indexed.eq_of_name (h : kb.Indexed) {l m : Language} (hl : l ∈ kb.languages)
    (hm : m ∈ kb.languages) (hname : l.name = m.name) : l = m := by
  have hne {l m : Language} (hlt : l.name < m.name) : l.name ≠ m.name := fun heq => by
    rw [heq] at hlt
    exact String.lt_irrefl _ hlt
  exact List.Pairwise.forall_of_forall_of_flip (R := fun l m => l.name = m.name → l = m)
    (fun _ _ _ => rfl) (h.order.imp fun hlt heq => absurd heq (hne hlt))
    (h.order.imp fun hlt heq => absurd heq.symm (hne hlt)) hl hm hname

/-- A lookup is told by the languages that it finds. -/
theorem Indexed.find_eq (h : kb.Indexed) {i j : Index} {k : String}
    (hsub : ∀ l ∈ (i.find k).members, l ∈ kb.languages)
    (hmem : ∀ l, l ∈ (i.find k).members ↔ l ∈ (j.find k).members) : i.find k = j.find k := by
  simp only [Index.find, Candidates.mem_ofList] at hsub hmem ⊢
  exact Candidates.ofList_congr hmem fun l hl m hm => h.eq_of_name (hsub l hl) (hsub m hm)

/-- **Lookups.** Two bases of the same languages find the same. -/
theorem Indexed.agrees (ha : a.Indexed) (hb : b.Indexed) (languages : a.languages = b.languages)
    (language : ∀ n, a.language? n = b.language? n) (rules : ∀ e, a.rulesFor e = b.rulesFor e)
    (attached : ∀ n, a.rulesOf n = b.rulesOf n) (exclusion : a.exclusionRules = b.exclusionRules)
    (model : ∀ n, Option.Rel Model.Alike (a.model? n) (b.model? n))
    (hasModels : a.hasModels = b.hasModels) (vocabulary : a.vocabulary = b.vocabulary) :
    a.Agrees b where
  languages := languages
  language := language
  extension e := ha.find_eq (fun _ hl => (ha.extension.1 hl).1) fun l => by
    rw [← byExtension, ← byExtension, ha.extension, hb.extension, languages]
  filename n := ha.find_eq (fun _ hl => (ha.filename.1 hl).1) fun l => by
    rw [← byFilename, ← byFilename, ha.filename, hb.filename, languages]
  interpreter i := ha.find_eq (fun _ hl => (ha.interpreter.1 hl).1) fun l => by
    rw [← byInterpreter, ← byInterpreter, ha.interpreter, hb.interpreter, languages]
  mode m := ha.find_eq (fun _ hl => (ha.mode.1 hl).1) fun l => by
    rw [← byMode, ← byMode, ha.mode, hb.mode, languages]
  category c := by rw [byCategory, byCategory, languages]
  rules := rules
  attached := attached
  exclusion := exclusion
  model := model
  hasModels := hasModels
  vocabulary := vocabulary

/-! ## Stages -/

theorem ofInterpreter_of_agrees (h : a.Agrees b) : a.ofInterpreter = b.ofInterpreter := by
  funext i
  simp only [ofInterpreter, h.interpreter]

/-- Every stage proposes the same. -/
theorem proposal?_of_agrees (h : a.Agrees b) (file : Sample) (c : Candidates) (s : Stage) :
    a.proposal? file c s = b.proposal? file c s := by
  have hextensions : a.ofExtensions? = b.ofExtensions? := by
    funext extensions
    simp only [ofExtensions?, funext h.extension]
  have hrules : a.rulesOfExtensions = b.rulesOfExtensions := by
    funext extensions
    simp only [rulesOfExtensions, funext h.rules]
  cases s with
  | filename => simp only [proposal?, h.filename]
  | shebang => simp only [proposal?, ofInterpreter_of_agrees h]
  | extension => simp only [proposal?, hextensions]
  | modeline => simp only [proposal?, funext h.mode]
  | heuristics => simp only [proposal?, confirmed?, hrules]

theorem narrow_of_agrees (h : a.Agrees b) (file : Sample) (c : Candidates) (s : Stage) :
    a.narrow s file c = b.narrow s file c := by
  simp only [narrow, narrow?, proposal?_of_agrees h]

theorem runStages_of_agrees (h : a.Agrees b) (file : Sample) (stages : List Stage)
    (c : Candidates) : a.runStages file c stages = b.runStages file c stages := by
  induction stages generalizing c with
  | nil => rfl
  | cons s stages ih => simp only [runStages, narrow_of_agrees h, ih]

/-- **Files.** With one chooser, bases with the same answers identify every file alike. -/
theorem identify_of_agrees (h : a.Agrees b) (chooser : Option Chooser) (file : Sample) :
    a.identify chooser file = b.identify chooser file := by
  have hall : a.all = b.all := by rw [all, all, h.languages]
  simp only [identify, verdict, hall, narrow_of_agrees h, runStages_of_agrees h]

/-! ## The order within a set -/

/-- Whatever the order in which the languages of a set are gone through, it is the same set. -/
theorem ofList_of_reached (hi : kb.Indexed) (hc : Reached kb c) {listing : List Language}
    (h : listing.Perm c.members) : Candidates.ofList listing c.isUniverse = c := by
  have hstrict : c.members.Pairwise fun l m => l.name < m.name := hi.order.sublist hc.sublist
  have hnames : ∀ l ∈ listing, ∀ m ∈ listing, l.name = m.name → l = m := fun l hl m hm =>
    hi.eq_of_name (hc.sublist.subset (h.mem_iff.1 hl)) (hc.sublist.subset (h.mem_iff.1 hm))
  rw [Candidates.ofList_congr (fun l => h.mem_iff) hnames, Candidates.ofList_of_strict hstrict]

end KnowledgeBase

namespace Identifier

variable {a b : KnowledgeBase}

/-- Identification with the same answers and the same settings is the same. -/
theorem identify_of_agrees (h : a.Agrees b) (settings : Settings) :
    (make a settings).map identify = (make b settings).map identify := by
  rw [make, make, h.exclusion, h.hasModels]
  cases ExclusionFilter.make b.exclusionRules settings.filter with
  | error e => rfl
  | ok filter =>
    dsimp only
    split
    · rfl
    have hchooser : (Identifier.mk settings a filter).chooser =
        (Identifier.mk settings b filter).chooser := by
      simp only [chooser, h.hasModels, h.vocabulary, classifier,
        Classifier.classify_of_alike _ h.model]
    refine congrArg Except.ok (funext fun path => funext fun bytes => ?_)
    simp only [identify, hchooser, sample, KnowledgeBase.identify_of_agrees h]

end Identifier

end LangId
