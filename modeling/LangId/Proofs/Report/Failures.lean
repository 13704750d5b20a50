import LangId.Proofs.Cascade.Endings
import LangId.Proofs.Config.Accepted
import LangId.Proofs.Exclusion.Extra
import LangId.Proofs.Knowledge.Assembly
import LangId.Proofs.Report.Analysis
import LangId.Proofs.Text.Order

/-!
# When an identification fails

**What is stated.** `Overflows` is the condition on a file under which its identification fails:
several languages are left, there are tokens to score, and the total of a model or the size of the
vocabulary is beyond the range of doubles.

**Results.**
* `sound_of_build`: no model of a knowledge base counts a token less than never.
* `scores_eq_error_iff`, `winner_ne_error`: when a classifier fails whose settings have been
  accepted.
* `analyze_eq_error`: an analysis ends early at an unreadable file, or at a file whose
  identification fails.
* `identify_fails_iff`: identification with accepted definitions and settings fails exactly if the
  file overflows.
-/
namespace LangId

/-! ## Models -/

/-- A model that is made of counts that are not negative. -/
theorem Model.sound_of_ofCounts {name : String} {t : Tally String} {m : Model}
    (ht : Build.Nonneg t) (h : ofCounts name t = .ok m) : m.Sound := by
  obtain rfl := ofCounts_eq_ok h
  intro token
  have hkept : ∀ n ∈ (t.filter (·.2 != 0)).map (·.2), 0 ≤ n :=
    List.forall_mem_map.2 fun e he => ht e (List.mem_filter.1 he).1
  unfold count Tally.count Tally.total
  dsimp only
  rw [← List.sum_eq_foldl]
  generalize t.filter (·.2 != 0) = kept at *
  cases hl : kept.lookup token with
  | none => exact ⟨Int.le_refl 0, List.sum_nonneg hkept⟩
  | some n =>
    obtain ⟨_, rest, heq⟩ := List.lookup_eq_some_iff.1 hl
    have hmem : n ∈ kept.map (·.2) := by
      rw [heq.1]
      simp
    exact ⟨hkept n hmem, List.single_le_sum hkept n hmem⟩

namespace Build

theorem sound_of_models {declared : Declared} {bound : Nat} {p : Payload}
    {ms : List (String × Model)} (h : models declared bound p = .ok ms) : ∀ m ∈ ms, m.2.Sound := by
  intro m hm
  obtain ⟨counted, hcounted, h⟩ := bind_eq_ok.1 h
  obtain ⟨tallies, htallies, h⟩ := bind_eq_ok.1 h
  obtain ⟨⟨name, tally⟩, ht, hok⟩ := mem_of_mapM h hm
  have hnonneg := (trained_of_samples htallies (trained_of_counts hcounted nofun) _
    (List.mem_filter.1 ht).1).2
  dsimp only at hok
  split at hok
  · rename_i model hmodel
    obtain rfl := Except.ok.inj hok
    exact Model.sound_of_ofCounts hnonneg hmodel
  · cases hok

end Build

theorem Payload.sound_of_build {p : Payload} {bound : Nat} {kb : KnowledgeBase}
    (h : p.build bound = .ok kb) {name : String} {m : Model} (hm : kb.model? name = some m) :
    m.Sound := by
  obtain ⟨parts, -, rfl⟩ := build_eq_assemble h
  obtain ⟨n, hmem, -⟩ := parts.lookup_models_eq_some.1 hm
  exact Build.sound_of_models parts.models_eq _ hmem

/-! ## Choosing -/

/-- The classifier that settings describe, with a function for the logarithm. -/
def ClassifierSettings.classifier (c : ClassifierSettings) (log : Float → Float) :
    Classifier Float := ⟨.withLog log, c.smoothing, c.maxTokens⟩

namespace Classifier

variable {log : Float → Float} {c : ClassifierSettings} {model? : String → Option Model}
  {vocabulary : Nat} {content : List Char} {candidates : Candidates} {e : ScoreError}

theorem length_tokenize (hc : c.Valid) (content : List Char) :
    (Token.tokenize content c.maxTokens).length ≤ 2 ^ 20 := by
  have hlength : (Token.tokenize content c.maxTokens).length ≤ c.maxTokens :=
    List.length_take_le _ _
  have := hc.most
  omega

/-- Scoring fails exactly if there are tokens to score, and a candidate whose model counts beyond
the range of doubles. -/
theorem scores_eq_error_iff (hc : c.Valid) (hm : ∀ name m, model? name = some m → m.Sound) :
    (c.classifier log).scores model? vocabulary content candidates = .error e ↔
      e = .tooLarge ∧ Token.tokenize content c.maxTokens ≠ [] ∧
        ∃ l ∈ candidates.members, ∃ m, model? l.name = some m ∧
          (doubleLimit ≤ m.total ∨ doubleLimit ≤ (vocabulary : Int)) := by
  have hlength := length_tokenize hc content
  have hforth {e : ScoreError}
      (h : (c.classifier log).scores model? vocabulary content candidates = .error e) :
      e = .tooLarge ∧ Token.tokenize content c.maxTokens ≠ [] ∧
        ∃ l ∈ candidates.members, ∃ m, model? l.name = some m ∧
          (doubleLimit ≤ m.total ∨ doubleLimit ≤ (vocabulary : Int)) := by
    obtain ⟨l, hl, h⟩ := mem_of_filterMapM_error (map_eq_error.1 h)
    obtain ⟨m, hmodel, h⟩ := entry?_eq_error.1 h
    obtain ⟨he, ht, hbeyond⟩ :=
      (Model.logProbability_eq_error_iff hc.smoothing (hm _ m hmodel) hlength).1 h
    exact ⟨he, ht, l, hl, m, hmodel, hbeyond⟩
  refine ⟨hforth, ?_⟩
  rintro ⟨rfl, ht, l, hl, m, hmodel, hbeyond⟩
  obtain ⟨e', he'⟩ := (@scores_eq_error _ (c.classifier log) model? vocabulary content
    candidates).2 ⟨l, hl, m, hmodel, .tooLarge, Model.logProbability_beyond ht hbeyond⟩
  rw [he', (hforth he').1]

theorem eq_noneClose_of_winner {R : Type} {s : Scale R} {ranked : List (Ranked R)}
    (h : Ranked.winner s ranked = .error e) : e = .noneClose := by
  unfold Ranked.winner at h
  split at h
  · cases h
  · split at h
    · cases h
    · exact (Except.error.inj h).symm

/-- A classifier fails as its scoring does, or because no score is close to the best. -/
theorem classify_error_cases (hc : c.Valid) (hm : ∀ name m, model? name = some m → m.Sound)
    (h : (c.classifier log).classify model? vocabulary content candidates = .error e) :
    (c.classifier log).scores model? vocabulary content candidates = .error .tooLarge ∧
        e = .tooLarge ∨
      ∃ ranked, (c.classifier log).scores model? vocabulary content candidates = .ok ranked ∧
        Ranked.winner (.withLog log) ranked = .error .noneClose ∧ e = .noneClose := by
  rcases bind_eq_error.1 h with h | ⟨ranked, hranked, h⟩
  · obtain rfl := ((scores_eq_error_iff hc hm).1 h).1
    exact .inl ⟨h, rfl⟩
  · obtain rfl := eq_noneClose_of_winner h
    exact .inr ⟨ranked, hranked, h, rfl⟩

/-- The best score is close to itself, so that some language wins. -/
theorem winner_ne_error (hlog : Logarithm log) (hc : c.Valid)
    (hm : ∀ name m, model? name = some m → m.Sound) {ranked : List (Ranked Float)}
    (h : (c.classifier log).scores model? vocabulary content candidates = .ok ranked) :
    Ranked.winner (.withLog log) ranked ≠ .error e := by
  intro hw
  obtain ⟨best, rest, rfl, hfar⟩ := Ranked.winner_eq_error.1 ⟨e, hw⟩
  obtain ⟨scored, hscored, heq⟩ := scores_eq_ok h
  have hbest : best ∈ scored := by
    rw [← @Ranked.mem_order _ (c.classifier log).scale, ← heq]
    exact List.mem_cons_self
  obtain ⟨l, -, hentry⟩ := ((mem_of_filterMapM hscored).2 best).1 hbest
  obtain ⟨m, score, hmodel, hscore, rfl⟩ := entry?_eq_some.1 hentry
  have hclose := Model.close_of_logProbability hlog hc.smoothing (hm _ m hmodel)
    (length_tokenize hc content) hscore
  exact absurd ((hfar _ List.mem_cons_self).symm.trans hclose) Bool.false_ne_true

end Classifier

namespace Identifier

variable (i : Identifier)

/-- How the classifier chooses, with a function for the logarithm. -/
def chooserWith (log : Float → Float) : Option Chooser :=
  if i.settings.classifier.enabled && i.knowledge.hasModels then
    some ((i.settings.classifier.classifier log).classify i.knowledge.model? i.knowledge.vocabulary)
  else none

theorem chooser_eq : i.chooser = i.chooserWith Float.log := rfl

/-- Counts beyond the range of doubles have to be scored for a file. -/
structure Overflows (file : Sample) : Prop where
  enabled : i.settings.classifier.enabled = true
  several : i.knowledge.LeavesSeveral file
  tokens : Token.tokenize file.content i.settings.classifier.maxTokens ≠ []
  beyond : ∃ l ∈ (i.knowledge.after file Stage.all).members, ∃ m,
    i.knowledge.model? l.name = some m ∧
      (doubleLimit ≤ m.total ∨ doubleLimit ≤ (i.knowledge.vocabulary : Int))

variable {i} {log : Float → Float} {file : Sample} {e : ScoreError}

theorem hasModels_of_model? {kb : KnowledgeBase} {name : String} {m : Model}
    (h : kb.model? name = some m) : kb.hasModels = true := by
  unfold KnowledgeBase.model? at h
  unfold KnowledgeBase.hasModels
  cases hm : kb.models with
  | nil =>
    rw [hm] at h
    cases h
  | cons entry rest => rfl

/-- An identification fails as the classifier does that is asked. -/
theorem identify_chooserWith (hi : i.knowledge.Indexed) :
    i.knowledge.identify (i.chooserWith log) file = .error e ↔
      i.knowledge.LeavesSeveral file ∧ i.settings.classifier.enabled = true ∧
        i.knowledge.hasModels = true ∧ (i.settings.classifier.classifier log).classify
          i.knowledge.model? i.knowledge.vocabulary file.content
            (i.knowledge.after file Stage.all) = .error e := by
  have hchooser : i.chooserWith log = i.knowledge.chooserOf
      (if i.settings.classifier.enabled && i.knowledge.hasModels then
        some (i.settings.classifier.classifier log) else none) := by
    unfold chooserWith
    split <;> rfl
  rw [hchooser, KnowledgeBase.identify_error_iff hi]
  cases i.settings.classifier.enabled <;> cases i.knowledge.hasModels <;> simp

section

variable (hi : i.knowledge.Indexed) (hc : i.settings.classifier.Valid)
  (hm : ∀ name m, i.knowledge.model? name = some m → m.Sound)
include hi hc hm

/-- Whatever the logarithm, too large a count is met exactly if the file overflows. -/
theorem identify_tooLarge_iff :
    i.knowledge.identify (i.chooserWith log) file = .error .tooLarge ↔ i.Overflows file := by
  rw [identify_chooserWith hi]
  constructor
  · rintro ⟨hseveral, henabled, -, h⟩
    rcases Classifier.classify_error_cases hc hm h with ⟨h, -⟩ | ⟨_, -, -, h⟩
    · obtain ⟨-, ht, hbeyond⟩ := (Classifier.scores_eq_error_iff hc hm).1 h
      exact ⟨henabled, hseveral, ht, hbeyond⟩
    · cases h
  · rintro ⟨henabled, hseveral, ht, hbeyond⟩
    obtain ⟨l, hl, m, hmodel, -⟩ := id hbeyond
    have h := (@Classifier.scores_eq_error_iff log _ _ _ _ _ _ hc hm).2 ⟨rfl, ht, hbeyond⟩
    exact ⟨hseveral, henabled, hasModels_of_model? hmodel, bind_eq_error.2 (.inl h)⟩

/-- No logarithm is asked for that is not defined. -/
theorem identify_ne_notPositive :
    i.knowledge.identify (i.chooserWith log) file ≠ .error .notPositive := by
  rw [Ne, identify_chooserWith hi]
  rintro ⟨-, -, -, h⟩
  rcases Classifier.classify_error_cases hc hm h with ⟨-, h⟩ | ⟨_, -, -, h⟩ <;> cases h

theorem identify_ne_noneClose (hlog : Logarithm log) :
    i.knowledge.identify (i.chooserWith log) file ≠ .error .noneClose := by
  rw [Ne, identify_chooserWith hi]
  rintro ⟨-, -, -, h⟩
  rcases Classifier.classify_error_cases hc hm h with ⟨-, h⟩ | ⟨ranked, hranked, hw, -⟩
  · cases h
  · exact Classifier.winner_ne_error hlog hc hm hranked hw

end

/-! ## Analyses -/

variable {provider : Provider} {paths : List String} {x : Interruption}

/-- The evaluation of a file fails as its identification does. -/
theorem evaluate_eq_error {path : String} (h : i.evaluate path provider = .error e) :
    ∃ content, provider path = .ok content ∧
      i.knowledge.identify i.chooser (i.sample path content) = .error e := by
  unfold evaluate at h
  split at h
  · cases h
  · rename_i content hcontent
    dsimp only at h
    split at h
    · cases h
    · exact ⟨content, hcontent, map_eq_error.1 h⟩

/-- An outcome with an error is that of a file that could not be read. -/
theorem error_of_evaluate {path : String} {o : Outcome} {u : Unreadable}
    (h : i.evaluate path provider = .ok o) (hu : o.error = some u) :
    provider path = .error u := by
  unfold evaluate at h
  split at h
  · rename_i hread
    obtain rfl := Except.ok.inj h
    rw [hread, Option.some.inj hu]
  · dsimp only at h
    split at h
    · obtain rfl := Except.ok.inj h
      cases hu
    · obtain ⟨_, -, rfl⟩ := map_eq_ok.1 h
      cases hu

/-- An analysis ends early at a file that cannot be read, or whose identification fails. -/
theorem analyze_eq_error (h : i.analyze paths provider = .error x) : ∃ path ∈ paths,
    (∃ u, provider (Path.canonical path) = .error u ∧ x = .unreadable u) ∨
    ∃ content e, provider (Path.canonical path) = .ok content ∧ x = .score e ∧
      i.knowledge.identify i.chooser (i.sample (Path.canonical path) content) = .error e := by
  obtain ⟨pre, p, post, r, heq, -, h⟩ := foldlM_eq_error h
  obtain ⟨path, hpath, rfl⟩ := List.mem_map.1
    (show p ∈ paths.map Path.canonical by rw [heq]; simp)
  refine ⟨path, hpath, ?_⟩
  unfold add at h
  split at h
  · rename_i e he
    obtain rfl := Except.error.inj h
    obtain ⟨content, hcontent, hfails⟩ := evaluate_eq_error he
    exact .inr ⟨content, e, hcontent, rfl, hfails⟩
  · rename_i o ho
    obtain ⟨u, hu, rfl⟩ := mapError_eq_error.1 h
    exact .inl ⟨u, error_of_evaluate ho (Report.merge_eq_error.1 hu).2, rfl⟩

/-! ## Identification as a whole -/

theorem make_eq_ok {kb : KnowledgeBase} {settings : Settings} (h : make kb settings = .ok i) :
    i.knowledge = kb ∧ i.settings = settings := by
  unfold make at h
  split at h
  · cases h
  split at h
  · cases h
  · obtain rfl := Except.ok.inj h
    exact ⟨rfl, rfl⟩

/-- **Failures of identification.** With definitions that have been accepted, settings that have been
accepted and a filter that could be built, for every path and every content:

* what is too large for a double is met exactly if the file overflows, and no logarithm is asked for
  that is not defined;
* with a logarithm as it is known nothing else fails, so that an identification ends with a result
  exactly if the file does not overflow;
* all arguments of logarithms are positive, of counts within the range of doubles;
* an analysis ends early only at an unreadable file, or at one whose identification fails. -/
theorem identify_fails_iff {p : Payload} {bound : Nat} {kb : KnowledgeBase}
    (hkb : p.build bound = .ok kb) {resolve : Resolver} {data : Data.Value} {settings : Settings}
    (hs : Settings.schema resolve data = .ok settings) (hi : make kb settings = .ok i)
    (hlog : Logarithm log) :
    (∀ path bytes, i.identify path bytes = .error .tooLarge ↔
      i.Overflows (i.sample (Path.canonical path) (Content.whole bytes))) ∧
    (∀ path bytes, i.identify path bytes ≠ .error .notPositive) ∧
    i.chooser = i.chooserWith Float.log ∧
    (∀ file e, i.knowledge.identify (i.chooserWith log) file = .error e ↔
      e = .tooLarge ∧ i.Overflows file) ∧
    (∀ name m, kb.model? name = some m →
      (∀ token, m.count token < doubleLimit →
        0.0 < Number.ofInt (m.count token) + settings.classifier.smoothing) ∧
      (m.total < doubleLimit → (kb.vocabulary : Int) < doubleLimit →
        0.0 < Number.ofInt m.total +
          settings.classifier.smoothing * Number.ofInt (max kb.vocabulary 1))) ∧
    ∀ provider paths x, i.analyze paths provider = .error x → ∃ path ∈ paths,
      (∃ u, provider (Path.canonical path) = .error u ∧ x = .unreadable u) ∨
      ∃ content e, provider (Path.canonical path) = .ok content ∧ x = .score e ∧
        i.knowledge.identify i.chooser (i.sample (Path.canonical path) content) = .error e := by
  obtain ⟨rfl, rfl⟩ := make_eq_ok hi
  have hindexed := Payload.indexed_of_build hkb
  have hvalid := Settings.valid_of_schema hs
  have hsound (name : String) (m : Model) (h : i.knowledge.model? name = some m) : m.Sound :=
    Payload.sound_of_build hkb h
  refine ⟨fun path bytes => ?_, fun path bytes => ?_, rfl, fun file e => ?_, fun name m h => ?_,
    fun provider paths x => analyze_eq_error⟩
  · exact @identify_tooLarge_iff _ Float.log _ hindexed hvalid hsound
  · exact @identify_ne_notPositive _ Float.log _ hindexed hvalid hsound
  · constructor
    · intro h
      cases e with
      | tooLarge => exact ⟨rfl, (identify_tooLarge_iff hindexed hvalid hsound).1 h⟩
      | notPositive => exact absurd h (identify_ne_notPositive hindexed hvalid hsound)
      | noneClose => exact absurd h (identify_ne_noneClose hindexed hvalid hsound hlog)
    · rintro ⟨rfl, h⟩
      exact (identify_tooLarge_iff hindexed hvalid hsound).2 h
  · have hm := hsound name m h
    refine ⟨fun token hlt => ?_, fun ht hz => ?_⟩
    · obtain ⟨v, hv, hpos⟩ := hvalid.smoothing.add_ofInt (hm token).1 hlt
      exact Number.IsPositive.zero_lt (.inl ⟨v, hv, hpos⟩)
    · refine (hvalid.smoothing.add_mul hm.total_nonneg ht (Int.le_max_right _ 1) ?_).zero_lt
      exact max_lt hz (lt_doubleLimit (by decide))

/-- Two languages with a file name in common, and counts. -/
def sharedName (counts : List (String × List (String × Int))) : Payload where
  languages := [("A", { category := "programming", filenames := ["a"] }),
    ("B", { category := "programming", filenames := ["a"] })]
  counts

/-- What such a language is built to. -/
def sharing (name : String) : Language :=
  Language.withKeys { name, category := .programming } [] ["a"] []
    (Build.modesOf name { category := "programming", filenames := ["a"] })

theorem mem_filenames_sharing (name : String) : "a" ∈ (sharing name).filenames :=
  Text.mem_sortedSet.2 List.mem_cons_self

theorem parts_sharedName {counts : List (String × List (String × Int))} {bound : Nat}
    (parts : (sharedName counts).Parts bound) : parts.languages = [sharing "A", sharing "B"] := by
  have hbuilt : (sharedName counts).languages.mapM (fun x => Build.language x.1 x.2) =
      .ok [sharing "A", sharing "B"] := rfl
  exact Except.ok.inj (parts.languages_eq.symm.trans hbuilt)

theorem languages_sharedName {counts : List (String × List (String × Int))} {bound : Nat}
    {kb : KnowledgeBase} (h : (sharedName counts).build bound = .ok kb) :
    kb.languages = [sharing "A", sharing "B"] := by
  obtain ⟨parts, -, rfl⟩ := Payload.build_eq_assemble h
  rw [Payload.Parts.base, KnowledgeBase.assemble, parts_sharedName parts]
  exact Candidates.mergeSort_of_strict (by decide +kernel)

/-- The default settings have a filter. -/
theorem make_default (kb : KnowledgeBase) : ∃ i, make kb {} = .ok i :=
  (exists_make_iff Settings.accepted_default.canSmooth).2 nofun

/-- The logarithms of two and of three, to the nearest double. -/
def logOfTwoOrThree (x : Float) : Float :=
  if x.isInf then x else if x == 2.0 then 0.6931471805599453 else 1.0986122886681098

theorem logarithm_logOfTwoOrThree : Logarithm logOfTwoOrThree := by
  constructor
  · intro x _ hfinite
    unfold logOfTwoOrThree
    rw [hfinite, if_neg Bool.false_ne_true]
    split <;> decide +kernel
  · intro x _ hinfinite
    unfold logOfTwoOrThree
    rw [hinfinite, if_pos rfl]

/-- With small counts the classifier has to choose, and does: it takes the logarithms of two and of
three. -/
theorem small_counts_chosen : ∃ kb i r,
    (sharedName [("A", [("t", 1)]), ("B", [("t", 2)])]).build = .ok kb ∧
    Settings.schema id (.map []) = .ok {} ∧ make kb {} = .ok i ∧ Logarithm logOfTwoOrThree ∧
    i.knowledge.LeavesSeveral KnowledgeBase.twinFile ∧
    i.knowledge.identify (i.chooserWith logOfTwoOrThree) KnowledgeBase.twinFile = .ok r := by
  obtain ⟨kb, hkb, hfirst, hsecond, hvocabulary⟩ : ∃ kb,
      (sharedName [("A", [("t", 1)]), ("B", [("t", 2)])]).build = .ok kb ∧
      kb.model? "A" = some ⟨"A", [("t", 1)], 1⟩ ∧ kb.model? "B" = some ⟨"B", [("t", 2)], 2⟩ ∧
      kb.vocabulary = (Text.sortedSet ["t", "t"]).length := ⟨_, rfl, rfl, rfl, rfl⟩
  obtain ⟨i, hi⟩ := make_default kb
  have hsettings : Settings.schema id (.map []) = .ok {} := rfl
  obtain ⟨-, -, -, hfails, -⟩ := identify_fails_iff hkb hsettings hi logarithm_logOfTwoOrThree
  obtain ⟨rfl, -⟩ := make_eq_ok hi
  have hindexed := Payload.indexed_of_build hkb
  have hlanguages := languages_sharedName hkb
  have hone : i.knowledge.vocabulary = 1 := by
    have hset : Text.sortedSet ["t", "t"] = Text.sortedSet ["t"] := Text.sortedSet_congr (by simp)
    rw [hvocabulary, hset, Text.sortedSet, Text.sorted, List.mergeSort_singleton]
    rfl
  have hsmall (n : Int) (h : n ≤ 2) : ¬ doubleLimit ≤ n :=
    Int.not_le.2 (lt_doubleLimit (Int.le_trans h (by decide)))
  cases hr : i.knowledge.identify (i.chooserWith logOfTwoOrThree) KnowledgeBase.twinFile with
  | ok r =>
    exact ⟨_, i, r, hkb, rfl, hi, logarithm_logOfTwoOrThree, KnowledgeBase.leavesSeveral_twinFile
      hindexed hlanguages (mem_filenames_sharing "A") (mem_filenames_sharing "B"), hr⟩
  | error e =>
    obtain ⟨l, hl, m, hm, hlarge⟩ := ((hfails _ e).1 hr).2.beyond
    rw [KnowledgeBase.after_twinFile hindexed hlanguages (mem_filenames_sharing "A")
      (mem_filenames_sharing "B")] at hl
    have htotal : m.total ≤ 2 := by
      rcases List.mem_pair.1 hl with rfl | rfl
      · obtain rfl := Option.some.inj (hfirst.symm.trans hm)
        decide
      · obtain rfl := Option.some.inj (hsecond.symm.trans hm)
        decide
    rw [hone] at hlarge
    rcases hlarge with hlarge | hlarge
    · exact absurd hlarge (hsmall _ htotal)
    · exact absurd hlarge (hsmall _ (by decide))

/-- A model counts what it was given, whatever the size. -/
theorem model?_sharedName {n : Int} (hn : 0 < n) {bound : Nat} {kb : KnowledgeBase}
    (h : (sharedName [("A", [("t", n), ("u", n)])]).build bound = .ok kb) :
    kb.model? "A" = some ⟨"A", [("t", n), ("u", n)], n + n⟩ := by
  obtain ⟨parts, -, rfl⟩ := Payload.build_eq_assemble h
  have hcounts : Build.addCounts (Build.declaredNames [sharing "A", sharing "B"]) []
      ("A", [("t", n), ("u", n)]) = .ok [("A", [("t", n), ("u", n)])] := by
    have hany : ([("t", n), ("u", n)].any fun c => decide (c.2 < 0)) = false := by
      simp [Int.le_of_lt hn]
    have hfind : (Build.declaredNames [sharing "A", sharing "B"]).find? "A" = some "A" := rfl
    unfold Build.addCounts
    rw [hfind]
    dsimp only
    rw [hany, if_neg Bool.false_ne_true]
    rfl
  have hmodel : Model.ofCounts "A" [("t", n), ("u", n)] =
      .ok ⟨"A", [("t", n), ("u", n)], n + n⟩ := by
    have hzero : (n != 0) = true := bne_iff_ne.2 (by omega)
    have hsign : decide (n < 0) = false := decide_eq_false (by omega)
    simp [Model.ofCounts, Tally.total, hzero, hsign]
  have hmodels : Build.models (Build.declaredNames [sharing "A", sharing "B"]) bound
      (sharedName [("A", [("t", n), ("u", n)])]) =
      .ok [("A", ⟨"A", [("t", n), ("u", n)], n + n⟩)] := by
    refine bind_eq_ok.2 ⟨_, bind_eq_ok.2 ⟨_, hcounts, rfl⟩, bind_eq_ok.2 ⟨_, rfl, ?_⟩⟩
    refine mapM_cons_eq_ok.2 ⟨_, [], ?_, rfl, rfl⟩
    dsimp only
    rw [hmodel]
  have heq := parts.models_eq
  rw [parts_sharedName parts] at heq
  refine parts.lookup_models_eq_some.2 ⟨"A", ?_, rfl⟩
  rw [← Except.ok.inj (hmodels.symm.trans heq)]
  exact List.mem_cons_self

/-- **Counterexample.** Two counts that are doubles are accepted with a sum that is none, and the
identification of a file that the classifier has to choose for fails. -/
theorem vast_counts_fail : ∃ kb i,
    (sharedName [("A", [("t", (Nat.pow 2 1023 : Int)), ("u", (Nat.pow 2 1023 : Int))])]).build =
      .ok kb ∧
    Settings.schema id (.map []) = .ok {} ∧ make kb {} = .ok i ∧
    i.identify "a" [116] = .error .tooLarge := by
  have haccepted : (sharedName [("A", [("t", (Nat.pow 2 1023 : Int)),
      ("u", (Nat.pow 2 1023 : Int))])]).build.toOption.isSome = true := by decide +kernel
  obtain ⟨kb, hkb⟩ := Option.isSome_iff_exists.1 haccepted
  have hkb := toOption_eq_some.1 hkb
  have hmodel := model?_sharedName (by decide +kernel) hkb
  obtain ⟨i, hi⟩ := make_default kb
  obtain ⟨hknowledge, hsettings⟩ := make_eq_ok hi
  have hindexed := Payload.indexed_of_build hkb
  have hlanguages := languages_sharedName hkb
  have hsample : i.sample (Path.canonical "a") (Content.whole [116]) = KnowledgeBase.twinFile := by
    rw [sample, hsettings]
    decide +kernel
  refine ⟨kb, i, hkb, rfl, hi, ?_⟩
  rw [identify, hsample, chooser_eq]
  subst hknowledge
  refine (identify_tooLarge_iff hindexed (by rw [hsettings]; exact ClassifierSettings.valid_default)
    fun _ _ h => Payload.sound_of_build hkb h).2 ⟨by rw [hsettings], ?_, ?_, ?_⟩
  · exact KnowledgeBase.leavesSeveral_twinFile hindexed hlanguages (mem_filenames_sharing "A")
      (mem_filenames_sharing "B")
  · rw [hsettings]
    decide +kernel
  · rw [KnowledgeBase.after_twinFile hindexed hlanguages (mem_filenames_sharing "A")
      (mem_filenames_sharing "B")]
    exact ⟨sharing "A", List.mem_cons_self, _, hmodel, .inl (by decide +kernel)⟩

end Identifier

end LangId
