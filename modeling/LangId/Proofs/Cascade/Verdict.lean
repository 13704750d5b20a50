import LangId.Proofs.Cascade.Narrowing
import LangId.Proofs.Classifier.Choice

/-!
# How a verdict comes about

`KnowledgeBase.verdict` stops early, at the first stage that decides. Here it is related to the
plain run `after kb file Stage.all` through all stages: `runStages_eq_inl` and `runStages_eq_inr`
say where a run through some stages stops, and `verdict_cases` lists the four ways in which a
verdict comes about. Proofs about verdicts start from `verdict_cases` and never open `verdict`.
-/
namespace LangId.KnowledgeBase

/-- How a classifier chooses for a knowledge base. -/
def chooserOf {R : Type} (kb : KnowledgeBase) (classifier : Option (Classifier R)) :
    Option Chooser :=
  classifier.map fun c => c.classify kb.model? kb.vocabulary

variable {kb : KnowledgeBase} {file : Sample} {pre stages : List Stage} {s : Stage} {l : Language}

/-- All languages together never decide, not even if there is only one. -/
theorem single?_all : kb.all.single? = none := by
  unfold Candidates.single? all Candidates.ofList
  split <;> simp_all

theorem runStages_cons : kb.runStages file (kb.after file pre) (s :: stages) =
    match (kb.after file (pre ++ [s])).single? with
    | some l => .inl (l, s)
    | none => kb.runStages file (kb.after file (pre ++ [s])) stages := by
  rw [after_concat]
  rfl

/-- A run stops at the first stage that decides. -/
theorem runStages_eq_inl (h : (kb.after file pre).single? = none)
    (hr : kb.runStages file (kb.after file pre) stages = .inl (l, s)) :
    ∃ mid post, stages = mid ++ s :: post ∧ kb.Decides file (pre ++ mid) s l := by
  induction stages generalizing pre with
  | nil => cases hr
  | cons t rest ih =>
    rw [runStages_cons] at hr
    cases ht : (kb.after file (pre ++ [t])).single? with
    | some m =>
      simp only [ht, Sum.inl.injEq, Prod.mk.injEq] at hr
      obtain ⟨rfl, rfl⟩ := hr
      exact ⟨[], rest, rfl, by rw [List.append_nil]; exact ⟨h, ht⟩⟩
    | none =>
      simp only [ht] at hr
      obtain ⟨mid, post, rfl, hd⟩ := ih ht hr
      exact ⟨t :: mid, post, rfl, by simpa using hd⟩

/-- A run in which no stage decides goes through all of them. -/
theorem runStages_eq_inr {c : Candidates} (h : (kb.after file pre).single? = none)
    (hr : kb.runStages file (kb.after file pre) stages = .inr c) :
    c = kb.after file (pre ++ stages) ∧ c.single? = none := by
  induction stages generalizing pre with
  | nil =>
    obtain rfl := Sum.inr.inj hr
    exact ⟨by rw [List.append_nil], h⟩
  | cons t rest ih =>
    rw [runStages_cons] at hr
    cases ht : (kb.after file (pre ++ [t])).single? with
    | some m =>
      simp only [ht] at hr
      cases hr
    | none =>
      simp only [ht] at hr
      rw [after_append_cons]
      exact ih ht hr

/-- The ways in which a verdict comes about: a stage decides; the content is binary and the name of
the file has not decided; all languages are left; or several are, and a classifier is asked. -/
theorem verdict_cases (chooser : Option Chooser) (file : Sample) :
    (∃ pre s post l, Stage.all = pre ++ s :: post ∧ kb.Decides file pre s l ∧
      (pre = [] ∨ file.isBinary = false) ∧
      kb.verdict chooser file = .ok (.language l.name (.stage s))) ∨
    (file.isBinary = true ∧ (kb.after file [.filename]).single? = none ∧
      kb.verdict chooser file = .ok (.noMatch .binary [])) ∨
    (file.isBinary = false ∧ (kb.after file Stage.all).single? = none ∧
      kb.verdict chooser file = settle chooser file (kb.after file Stage.all)) := by
  have hall : kb.all.single? = none := single?_all
  unfold verdict
  cases hf : (kb.narrow .filename file kb.all).single? with
  | some l =>
    exact .inl ⟨[], .filename, _, l, rfl, ⟨hall, hf⟩, .inl rfl, by simp [hf]⟩
  | none =>
    cases hb : file.isBinary with
    | true => exact .inr (.inl ⟨rfl, hf, by simp [hf]⟩)
    | false =>
      have hpre : (kb.after file [.filename]).single? = none := hf
      cases hr : kb.runStages file (kb.after file [.filename])
          [.shebang, .extension, .modeline, .heuristics] with
      | inl found =>
        obtain ⟨l, s⟩ := found
        obtain ⟨mid, post, heq, hd⟩ := runStages_eq_inl hpre hr
        refine .inl ⟨.filename :: mid, s, post, l, ?_, hd, .inr rfl, ?_⟩
        · rw [List.cons_append, ← heq]; rfl
        · simp only [after, List.foldl_cons, List.foldl_nil] at hr
          simp [hf, hr]
      | inr c =>
        obtain ⟨rfl, hnone⟩ := runStages_eq_inr hpre hr
        refine .inr (.inr ⟨rfl, hnone, ?_⟩)
        simp only [after, List.foldl_cons, List.foldl_nil] at hr
        simp [hf, hr, Stage.all, after]

/-- Once a stage has decided, no stage behind it does. -/
theorem eq_of_decides_behind {mid post post' : List Stage} {t : Stage} {m : Language}
    (heq : s :: post = mid ++ t :: post') (h : kb.Decides file pre s l)
    (h' : kb.Decides file (pre ++ mid) t m) : s = t ∧ l = m := by
  cases mid with
  | nil =>
    obtain ⟨rfl, -⟩ := List.cons.inj heq
    rw [List.append_nil] at h'
    exact ⟨rfl, Option.some.inj (h.2.symm.trans h'.2)⟩
  | cons u mid =>
    obtain ⟨rfl, -⟩ := List.cons.inj heq
    have hnone := h'.1
    rw [after_append_cons, after_append_of_single h.2, h.2] at hnone
    cases hnone

/-- In one run only one stage decides. -/
theorem decides_unique {pre' post post' : List Stage} {t : Stage} {m : Language}
    (heq : pre ++ s :: post = pre' ++ t :: post') (h : kb.Decides file pre s l)
    (h' : kb.Decides file pre' t m) : s = t ∧ l = m := by
  rcases List.append_eq_append_iff.1 heq with ⟨mid, rfl, hmid⟩ | ⟨mid, rfl, hmid⟩
  · exact eq_of_decides_behind hmid h h'
  · obtain ⟨rfl, rfl⟩ := eq_of_decides_behind hmid h' h
    exact ⟨rfl, rfl⟩

/-- The verdict is that of the stage that decides, unless the content is binary and the name of the
file has not decided. -/
theorem verdict_of_decides (chooser : Option Chooser) {post : List Stage}
    (hall : Stage.all = pre ++ s :: post) (h : kb.Decides file pre s l)
    (hb : pre = [] ∨ file.isBinary = false) :
    kb.verdict chooser file = .ok (.language l.name (.stage s)) := by
  rcases verdict_cases chooser file with
    ⟨pre', t, post', m, hall', h', -, hv⟩ | ⟨hbinary, hnone, -⟩ | ⟨-, hnone, -⟩
  · obtain ⟨rfl, rfl⟩ := decides_unique (hall.symm.trans hall') h h'
    exact hv
  · rcases hb with rfl | hb
    · obtain ⟨rfl, -⟩ := List.cons.inj hall
      exact absurd (hnone.symm.trans h.2) nofun
    · rw [hbinary] at hb
      cases hb
  · rw [hall, after_append_cons, after_append_of_single h.2, h.2] at hnone
    cases hnone

/-- A file name that only one language declares decides, whatever else there is. -/
theorem verdict_of_filename (hi : kb.Indexed) (chooser : Option Chooser)
    (h : (kb.languages.filter fun l => l.filenames.contains file.basename) = [l]) :
    kb.verdict chooser file = .ok (.language l.name (.stage .filename)) := by
  have hagreed : kb.agreed file kb.all .filename = [l] := by rw [agreed_filename hi, h]
  have hnarrow : kb.narrow .filename file kb.all = ⟨[l], false⟩ := by
    rw [narrow_of_agreed (by rw [hagreed]; nofun), hagreed]
  unfold verdict
  rw [hnarrow]
  rfl

/-- What is said of candidates that are left. -/
theorem settle_eq_ok {R : Type} {classifier : Option (Classifier R)} {c : Candidates} {v : Verdict}
    (h : settle (kb.chooserOf classifier) file c = .ok v) :
    (c.isUniverse = true ∧ v = .noMatch .unknown []) ∨
    (c.isUniverse = false ∧ (∃ l ∈ c.members, kb.model? l.name ≠ none ∧ classifier.isSome ∧
      v = .language l.name .classifier)) ∨
    (c.isUniverse = false ∧ (classifier = none ∨ ∀ l ∈ c.members, kb.model? l.name = none) ∧
      v = .noMatch .ambiguous (Text.sorted c.names)) := by
  unfold settle chooserOf at h
  cases hu : c.isUniverse with
  | true =>
    simp only [hu, if_true, Except.ok.injEq] at h
    exact .inl ⟨rfl, h.symm⟩
  | false =>
    right
    cases classifier with
    | none =>
      simp only [hu, Bool.false_eq_true, if_false, Option.map_none, Except.ok.injEq] at h
      exact .inr ⟨rfl, .inl rfl, h.symm⟩
    | some cl =>
      simp only [hu, Bool.false_eq_true, if_false, Option.map_some] at h
      obtain ⟨o, ho, h⟩ := bind_eq_ok.1 h
      cases o with
      | some l =>
        obtain rfl := pure_eq_ok.1 h
        obtain ⟨hl, hm⟩ := Classifier.classify_eq_some ho
        exact .inl ⟨rfl, l, hl, hm, rfl, rfl⟩
      | none =>
        obtain rfl := pure_eq_ok.1 h
        exact .inr ⟨rfl, .inr (Classifier.classify_eq_none.1 ho), rfl⟩

/-- Settling fails exactly if a classifier is asked and fails. -/
theorem settle_eq_error {R : Type} {classifier : Option (Classifier R)} {c : Candidates}
    {e : ScoreError} : settle (kb.chooserOf classifier) file c = .error e ↔
    c.isUniverse = false ∧ ∃ cl, classifier = some cl ∧
      cl.classify kb.model? kb.vocabulary file.content c = .error e := by
  unfold settle chooserOf
  cases hu : c.isUniverse with
  | true => simp
  | false =>
    cases classifier with
    | none => simp
    | some cl =>
      simp only [Bool.false_eq_true, if_false, Option.map_some, Option.some.injEq, true_and,
        exists_eq_left', bind_eq_error]
      refine or_iff_left ?_
      rintro ⟨o, -, h⟩
      cases o <;> cases h

theorem identify_eq_ok {chooser : Option Chooser} {r : Identification} :
    kb.identify chooser file = .ok r ↔
      kb.verdict chooser file = .ok r.verdict ∧ r.path = file.path := by
  rw [identify, map_eq_ok]
  constructor
  · rintro ⟨v, hv, rfl⟩
    exact ⟨hv, rfl⟩
  · rintro ⟨hv, hp⟩
    exact ⟨r.verdict, hv, by rw [← hp]⟩

/-- Without a classifier no identification fails. -/
theorem identify_none_ok (kb : KnowledgeBase) (file : Sample) :
    ∃ r, kb.identify none file = .ok r := by
  have hv : ∃ v, kb.verdict none file = .ok v := by
    rcases verdict_cases none file with ⟨_, _, _, _, -, -, -, hv⟩ | ⟨-, -, hv⟩ | ⟨-, -, hv⟩
    · exact ⟨_, hv⟩
    · exact ⟨_, hv⟩
    · rw [hv, settle]
      split
      · exact ⟨_, rfl⟩
      · exact ⟨_, rfl⟩
  obtain ⟨v, hv⟩ := hv
  exact ⟨⟨file.path, v⟩, identify_eq_ok.2 ⟨hv, rfl⟩⟩

/-! ## One language of one file name -/

/-- A language of one file name. -/
def lone : Language := { name := "A", category := .programming, filenames := ["a"] }

/-- The file of this name. -/
def loneFile : Sample := { path := "a", content := [], size := 0 }

theorem loneFile_identified {kb : KnowledgeBase} (h : make [lone] [] [] [] = .ok kb)
    (chooser : Option Chooser) :
    kb.identify chooser loneFile = .ok ⟨"a", .language "A" (.stage .filename)⟩ := by
  have hl : kb.languages = [lone] := by rw [(make_eq_ok h).2.1, List.mergeSort_singleton]
  refine identify_eq_ok.2 ⟨verdict_of_filename (l := lone) (indexed_of_make h) chooser ?_, rfl⟩
  rw [hl]
  decide +kernel

end LangId.KnowledgeBase
