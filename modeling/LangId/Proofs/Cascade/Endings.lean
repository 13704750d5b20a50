import LangId.Proofs.Cascade.Verdict

/-!
# How an identification ends

**What is stated.** `Ends` says, for each of four endings, everything that a result then holds: a
declared language with what has decided; binary content; no evidence at all (`NoEvidence`); or
several languages, in strict order of their names. `Contested` is the condition on the file under
which several languages remain and nothing chooses among them.

**Results.**
* `noEvidence_of_universe`: if the candidates are still all languages after all stages, every
  lookup of the file was empty. The invariant is `Reached`: one stage that agrees on anything clears
  the mark of the universe for good.
* `identify_ends`: an identification fails exactly if several languages are left and the classifier
  that is asked fails; otherwise it ends in exactly one of the four ways, and as ambiguous exactly
  if the file is contested.
-/
namespace LangId.KnowledgeBase

open Text

variable {R : Type} (kb : KnowledgeBase) (classifier : Option (Classifier R)) (file : Sample)

/-! ## Endings -/

/-- No lookup of a file finds any language. -/
structure NoEvidence : Prop where
  filename : (kb.byFilename file.basename).members = []
  interpreter : ∀ i, Shebang.interpreter? file.content = some i →
    (kb.byInterpreter i).members = [] ∧
      ∀ bare, Shebang.stripVersion? i = some bare → (kb.byInterpreter bare).members = []
  extension : ∀ e ∈ file.extensions, (kb.byExtension e).members = []
  mode : ∀ m, Modeline.find? file.lines = some m → (kb.byMode m).members = []

/-- Several languages are left after all stages. -/
structure LeavesSeveral : Prop where
  text : file.isBinary = false
  evidence : (kb.after file Stage.all).isUniverse = false
  several : 2 ≤ (kb.after file Stage.all).size

/-- Several languages are left, and no classifier can choose among them. -/
def Contested : Prop :=
  kb.LeavesSeveral file ∧
    (classifier = none ∨ ∀ l ∈ (kb.after file Stage.all).members, kb.model? l.name = none)

/-- The ways in which an identification ends. -/
inductive Ending where
  | found
  | binary
  | unknown
  | ambiguous
  deriving DecidableEq, Repr

/-- What holds of a verdict that ends in a way. -/
def Ends (v : Verdict) : Ending → Prop
  | .found => ∃ l ∈ kb.languages, v.language? = some l.name ∧ v.candidates = [l.name] ∧
      v.strategy? ≠ none ∧ v.reason? = none
  | .binary => v.language? = none ∧ v.strategy? = none ∧ v.reason? = some .binary ∧
      v.candidates = [] ∧ file.isBinary = true
  | .unknown => v.language? = none ∧ v.strategy? = none ∧ v.reason? = some .unknown ∧
      v.candidates = [] ∧ file.isBinary = false ∧ kb.NoEvidence file
  | .ambiguous => v.language? = none ∧ v.strategy? = none ∧ v.reason? = some .ambiguous ∧
      v.candidates = (kb.after file Stage.all).names ∧ 2 ≤ v.candidates.length ∧
      v.candidates.Pairwise (· < ·) ∧ ∀ n ∈ v.candidates, ∃ l ∈ kb.languages, l.name = n

/-- The ending that a reason tells. -/
def endingOf (v : Verdict) : Ending :=
  match v.reason? with
  | none => .found
  | some .binary => .binary
  | some .unknown => .unknown
  | some .ambiguous => .ambiguous

variable {kb classifier file} {v : Verdict} {c : Candidates} {s : Stage}

/-- No verdict ends in two ways: its reason tells the ending. -/
theorem eq_endingOf {k : Ending} (h : kb.Ends file v k) : k = endingOf v := by
  cases k with
  | found =>
    obtain ⟨_, _, _, _, _, hr⟩ := h
    rw [endingOf, hr]
  | binary | unknown | ambiguous => rw [endingOf, h.2.2.1]

/-! ## Evidence -/

theorem isUniverse_of_append {pre post : List Stage}
    (h : (kb.after file (pre ++ post)).isUniverse = true) :
    (kb.after file pre).isUniverse = true := by
  cases hu : (kb.after file pre).isUniverse with
  | true => rfl
  | false =>
    rw [after_append_isUniverse hu] at h
    cases h

/-- If all languages are left in the end, no stage has agreed on any. -/
theorem agreed_eq_nil (hi : kb.Indexed) (pre : List Stage) {post : List Stage}
    (hall : Stage.all = pre ++ s :: post) (h : (kb.after file Stage.all).isUniverse = true) :
    kb.agreed file kb.all s = [] := by
  rw [hall] at h
  have hpre : kb.after file pre = kb.all :=
    (reached_after hi pre).all (isUniverse_of_append h)
  rw [after_append_cons] at h
  have hs := isUniverse_of_append h
  rw [after_concat, hpre] at hs
  by_cases ha : kb.agreed file kb.all s = []
  · exact ha
  · rw [narrow_of_agreed ha] at hs
    cases hs

theorem proposal_eq_nil {p : Candidates} (hi : kb.Indexed)
    (hsub : ∀ l ∈ p.members, l ∈ kb.languages) (hp : kb.proposal? file kb.all s = some p)
    (h : kb.agreed file kb.all s = []) : p.members = [] := by
  refine List.eq_nil_iff_forall_not_mem.2 fun l hl => ?_
  have : l ∈ kb.agreed file kb.all s :=
    mem_agreed.2 ⟨by rw [hi.all_members]; exact hsub l hl, p, hp, hl⟩
  rw [h] at this
  cases this

theorem ofInterpreter_eq_nil {i : String} (h : (kb.ofInterpreter i).members = []) :
    (kb.byInterpreter i).members = [] ∧
      ∀ bare, Shebang.stripVersion? i = some bare → (kb.byInterpreter bare).members = [] := by
  unfold ofInterpreter at h
  dsimp only at h
  split at h
  · rename_i he
    refine ⟨List.isEmpty_iff.1 he, fun bare hbare => ?_⟩
    rw [hbare] at h
    exact h
  · rename_i hne
    exact absurd (List.isEmpty_iff.2 h) hne

theorem ofExtensions?_eq_none {extensions : List String} :
    kb.ofExtensions? extensions = none ↔ ∀ e ∈ extensions, (kb.byExtension e).members = [] := by
  simp [ofExtensions?, List.find?_eq_none, Candidates.isEmpty]

/-- **No evidence.** If all languages are left after all stages, no lookup has found any. -/
theorem noEvidence_of_universe (hi : kb.Indexed)
    (h : (kb.after file Stage.all).isUniverse = true) : kb.NoEvidence file := by
  have hf : kb.agreed file kb.all .filename = [] := agreed_eq_nil hi [] rfl h
  have hs : kb.agreed file kb.all .shebang = [] := agreed_eq_nil hi [.filename] rfl h
  have he : kb.agreed file kb.all .extension = [] :=
    agreed_eq_nil hi [.filename, .shebang] rfl h
  have hm : kb.agreed file kb.all .modeline = [] :=
    agreed_eq_nil hi [.filename, .shebang, .extension] rfl h
  refine ⟨?_, fun i hi' => ?_, fun e hmem => ?_, fun m hm' => ?_⟩
  · exact proposal_eq_nil hi (fun l hl => (hi.filename.1 hl).1) rfl hf
  · have hp : kb.proposal? file kb.all .shebang = some (kb.ofInterpreter i) := by
      rw [proposal?, hi', Option.map_some]
    refine ofInterpreter_eq_nil (proposal_eq_nil hi (fun l hl => ?_) hp hs)
    rcases mem_ofInterpreter hl with hl | ⟨-, bare, -, hl⟩
    · exact (hi.interpreter.1 hl).1
    · exact (hi.interpreter.1 hl).1
  · cases hp : kb.ofExtensions? file.extensions with
    | none => exact ofExtensions?_eq_none.1 hp e hmem
    | some p =>
      -- a found lookup is not empty, but would have to be
      have hne : p.isEmpty = false := by simpa using List.find?_some hp
      obtain ⟨e', -, rfl⟩ := List.mem_map.1 (List.mem_of_find?_eq_some hp)
      have hp' : kb.proposal? file kb.all .extension = some (kb.byExtension e') := hp
      have := proposal_eq_nil hi (fun l hl => (hi.extension.1 hl).1) hp' he
      simp [Candidates.isEmpty, this] at hne
  · have hp : kb.proposal? file kb.all .modeline = some (kb.byMode m) := by
      rw [proposal?, hm', Option.map_some]
    exact proposal_eq_nil hi (fun l hl => (hi.mode.1 hl).1) hp hm

/-! ## Several languages -/

theorem two_le_size (hr : Reached kb c) (hu : c.isUniverse = false) (hn : c.single? = none) :
    2 ≤ c.size := by
  have hpos := List.length_pos_iff.2 (hr.nonempty hu)
  have hne := (Candidates.single?_eq_none hu).1 hn
  unfold Candidates.size
  omega

theorem single?_of_leavesSeveral (h : kb.LeavesSeveral file) :
    (kb.after file Stage.all).single? = none := by
  rw [Candidates.single?_eq_none h.evidence]
  have := h.several
  unfold Candidates.size at this
  omega

/-- If several languages are left, no stage has decided. -/
theorem verdict_of_leavesSeveral (chooser : Option Chooser) (h : kb.LeavesSeveral file) :
    kb.verdict chooser file = settle chooser file (kb.after file Stage.all) := by
  rcases verdict_cases chooser file with
    ⟨pre, s, post, l, hall, hd, -, -⟩ | ⟨hb, -, -⟩ | ⟨-, -, hv⟩
  · have hn := single?_of_leavesSeveral h
    rw [hall, after_append_cons, after_append_of_single hd.2, hd.2] at hn
    cases hn
  · rw [h.text] at hb
    cases hb
  · exact hv

/-- The names of languages that stages lead to are in strict order. -/
theorem pairwise_names (hi : kb.Indexed) (hr : Reached kb c) : c.names.Pairwise (· < ·) :=
  List.pairwise_map.2 (hi.order.sublist hr.sublist)

theorem declared_of_mem_names (hr : Reached kb c) {n : String} (h : n ∈ c.names) :
    ∃ l ∈ kb.languages, l.name = n := by
  obtain ⟨l, hl, rfl⟩ := List.mem_map.1 h
  exact ⟨l, hr.sublist.subset hl, rfl⟩

/-! ## All endings -/

/-- Every verdict has the ending that its reason tells. -/
theorem ends_endingOf (hi : kb.Indexed) (h : kb.verdict (kb.chooserOf classifier) file = .ok v) :
    kb.Ends file v (endingOf v) ∧ (endingOf v = .ambiguous ↔ kb.Contested classifier file) := by
  rcases verdict_cases (kb.chooserOf classifier) file with
    ⟨pre, s, post, l, hall, hd, hb, hv⟩ | ⟨hb, hn, hv⟩ | ⟨hb, hn, hv⟩ <;> rw [hv] at h
  · -- a stage decides, and its language stays the only one
    obtain rfl := Except.ok.inj h
    have hr : Reached kb (kb.after file (pre ++ [s])) := reached_after hi _
    have hl : l ∈ kb.languages := by
      refine hr.sublist.subset ?_
      rw [Candidates.single?_eq_some.1 hd.2]
      exact List.mem_singleton_self l
    refine ⟨⟨l, hl, rfl, rfl, nofun, rfl⟩, nofun, fun hc => ?_⟩
    have := single?_of_leavesSeveral hc.1
    rw [hall, after_append_cons, after_append_of_single hd.2, hd.2] at this
    cases this
  · obtain rfl := Except.ok.inj h
    refine ⟨⟨rfl, rfl, rfl, rfl, hb⟩, nofun, fun hc => ?_⟩
    rw [hc.1.text] at hb
    cases hb
  · have hr : Reached kb (kb.after file Stage.all) := reached_after hi Stage.all
    rcases settle_eq_ok h with ⟨hu, rfl⟩ | ⟨hu, l, hl, hm, hcl, rfl⟩ | ⟨hu, hno, rfl⟩
    · refine ⟨⟨rfl, rfl, rfl, rfl, hb, noEvidence_of_universe hi hu⟩, nofun, fun hc => ?_⟩
      rw [hc.1.evidence] at hu
      cases hu
    · refine ⟨⟨l, hr.sublist.subset hl, rfl, rfl, nofun, rfl⟩, nofun, fun hc => ?_⟩
      rcases hc.2 with hnone | hnone
      · rw [hnone] at hcl
        cases hcl
      · exact absurd (hnone l hl) hm
    · have hs := sorted_of_pairwise (pairwise_names hi hr)
      rw [hs]
      have hsize := two_le_size hr hu hn
      refine ⟨⟨rfl, rfl, rfl, rfl, ?_, pairwise_names hi hr, fun n hmem =>
        declared_of_mem_names hr hmem⟩, fun _ => ⟨⟨hb, hu, hsize⟩, hno⟩, fun _ => rfl⟩
      simpa [Verdict.candidates, Candidates.names, Candidates.size] using hsize

/-- An identification fails as a classifier does that has to choose among several languages. -/
theorem identify_error_iff (hi : kb.Indexed) {e : ScoreError} :
    kb.identify (kb.chooserOf classifier) file = .error e ↔
      kb.LeavesSeveral file ∧ ∃ cl, classifier = some cl ∧
        cl.classify kb.model? kb.vocabulary file.content (kb.after file Stage.all) = .error e := by
  rw [identify, map_eq_error]
  constructor
  · intro he
    rcases verdict_cases (kb.chooserOf classifier) file with
      ⟨pre, s, post, l, -, -, -, hv⟩ | ⟨-, -, hv⟩ | ⟨hb, hn, hv⟩ <;> rw [hv] at he
    · cases he
    · cases he
    · obtain ⟨hu, cl, hcl, hc⟩ := settle_eq_error.1 he
      exact ⟨⟨hb, hu, two_le_size (reached_after hi _) hu hn⟩, cl, hcl, hc⟩
  · rintro ⟨hs, cl, hcl, hc⟩
    rw [verdict_of_leavesSeveral _ hs]
    exact settle_eq_error.2 ⟨hs.evidence, cl, hcl, hc⟩

/-- An identification fails exactly if a classifier has to choose among several languages and
cannot. -/
theorem identify_eq_error (hi : kb.Indexed) :
    (∃ e, kb.identify (kb.chooserOf classifier) file = .error e) ↔
      kb.LeavesSeveral file ∧ ∃ cl, classifier = some cl ∧
        cl.Fails kb.model? kb.vocabulary file.content (kb.after file Stage.all) := by
  simp only [identify_error_iff hi, ← Classifier.classify_eq_error]
  constructor
  · rintro ⟨e, hs, cl, hcl, hc⟩
    exact ⟨hs, cl, hcl, e, hc⟩
  · rintro ⟨hs, cl, hcl, e, hc⟩
    exact ⟨e, hs, cl, hcl, hc⟩

/-- **Endings.** For every knowledge base that can be built, with a classifier or without one, an
identification fails exactly if several languages are left and the classifier fails on them. If it
does not fail, it ends in exactly one way, and as ambiguous exactly if the file is contested. -/
theorem identify_ends {languages : List Language} {blocks : List HeuristicBlock}
    {rules : List ExclusionRule} {models : List (String × Model)}
    (hkb : make languages blocks rules models = .ok kb) (classifier : Option (Classifier R))
    (file : Sample) :
    ((∃ e, kb.identify (kb.chooserOf classifier) file = .error e) ↔
      kb.LeavesSeveral file ∧ ∃ cl, classifier = some cl ∧
        cl.Fails kb.model? kb.vocabulary file.content (kb.after file Stage.all)) ∧
    ∀ r, kb.identify (kb.chooserOf classifier) file = .ok r →
      r.path = file.path ∧
      (∃ k, kb.Ends file r.verdict k ∧ ∀ k', kb.Ends file r.verdict k' → k' = k) ∧
      (kb.Ends file r.verdict .ambiguous ↔ kb.Contested classifier file) := by
  have hi : kb.Indexed := indexed_of_make hkb
  refine ⟨identify_eq_error hi, fun r hr => ?_⟩
  obtain ⟨hv, hpath⟩ := identify_eq_ok.1 hr
  obtain ⟨hends, hiff⟩ := ends_endingOf hi hv
  refine ⟨hpath, ⟨_, hends, fun k' hk' => eq_endingOf hk'⟩, ?_⟩
  rw [← hiff]
  constructor
  · exact fun h => (eq_endingOf h).symm
  · exact fun h => h ▸ hends

/-! ## Two languages with one file name -/

/-- The languages of the file name `a`. -/
def twins : List Language :=
  [{ name := "A", category := .programming, filenames := ["a"] },
   { name := "B", category := .programming, filenames := ["a"] }]

/-- A file of either language. -/
def twinFile : Sample := { path := "a", content := ['t'], size := 1 }

theorem twins_languages {models : List (String × Model)}
    (h : make twins [] [] models = .ok kb) : kb.languages = twins := by
  obtain ⟨-, hl, -⟩ := make_eq_ok h
  rw [hl, Candidates.mergeSort_of_strict (by decide +kernel)]

/-- The name of the file leaves two languages that declare it, and no other stage says anything. -/
theorem after_twinFile (hi : kb.Indexed) {l m : Language} (hl : kb.languages = [l, m])
    (hfirst : "a" ∈ l.filenames) (hsecond : "a" ∈ m.filenames) :
    kb.after twinFile Stage.all = ⟨[l, m], false⟩ := by
  have hagreed : kb.agreed twinFile kb.all .filename = [l, m] := by
    have hname : twinFile.basename = "a" := by decide +kernel
    rw [agreed_filename hi, hl, hname]
    simp [hfirst, hsecond]
  have hext : twinFile.extensions = [] := by decide +kernel
  have filename : kb.narrow .filename twinFile kb.all = ⟨[l, m], false⟩ := by
    rw [narrow_of_agreed (by rw [hagreed]; nofun), hagreed]
  have shebang : kb.narrow .shebang twinFile ⟨[l, m], false⟩ = ⟨[l, m], false⟩ :=
    narrow_of_silent rfl
  have extension : kb.narrow .extension twinFile ⟨[l, m], false⟩ = ⟨[l, m], false⟩ :=
    narrow_of_silent (by rw [proposal?, hext]; rfl)
  have modeline : kb.narrow .modeline twinFile ⟨[l, m], false⟩ = ⟨[l, m], false⟩ := by
    refine narrow_of_silent ?_
    rw [proposal?, show Modeline.find? twinFile.lines = none by decide +kernel]
    rfl
  have heuristics : kb.narrow .heuristics twinFile ⟨[l, m], false⟩ = ⟨[l, m], false⟩ :=
    narrow_of_silent (by rw [proposal?, hext]; rfl)
  simp only [after, Stage.all, List.foldl_cons, List.foldl_nil, filename, shebang, extension,
    modeline, heuristics]

theorem leavesSeveral_twinFile (hi : kb.Indexed) {l m : Language} (hl : kb.languages = [l, m])
    (hfirst : "a" ∈ l.filenames) (hsecond : "a" ∈ m.filenames) : kb.LeavesSeveral twinFile := by
  refine ⟨rfl, ?_, ?_⟩ <;> rw [after_twinFile hi hl hfirst hsecond]
  exact Nat.le_refl 2

theorem twins_after {models : List (String × Model)} (h : make twins [] [] models = .ok kb) :
    kb.after twinFile Stage.all = ⟨twins, false⟩ :=
  after_twinFile (indexed_of_make h) (twins_languages h) List.mem_cons_self List.mem_cons_self

theorem twins_leave {models : List (String × Model)} (h : make twins [] [] models = .ok kb) :
    kb.LeavesSeveral twinFile :=
  leavesSeveral_twinFile (indexed_of_make h) (twins_languages h) List.mem_cons_self
    List.mem_cons_self

/-- Without a classifier the file ends as ambiguous. -/
theorem twins_ambiguous : ∃ kb r, make twins [] [] [] = .ok kb ∧
    kb.identify (kb.chooserOf (none : Option (Classifier Float))) twinFile = .ok r ∧
    kb.Ends twinFile r.verdict .ambiguous := by
  obtain ⟨kb, hkb⟩ : ∃ kb, make twins [] [] [] = .ok kb := ⟨_, rfl⟩
  obtain ⟨r, hr⟩ := identify_none_ok kb twinFile
  obtain ⟨-, -, hiff⟩ := (identify_ends hkb (none : Option (Classifier Float)) twinFile).2 r hr
  exact ⟨kb, r, hkb, hr, hiff.2 ⟨twins_leave hkb, .inl rfl⟩⟩

/-- A count beyond the range of doubles. -/
def boundless : Model := ⟨"A", [("t", doubleLimit)], doubleLimit⟩

/-- **Counterexample.** Such a count is accepted in a model, but an identification that has to score
this model has no ending. -/
theorem twins_overflow : Model.ofCounts "A" [("t", doubleLimit)] = .ok boundless ∧
    ∃ kb, make twins [] [] [("A", boundless)] = .ok kb ∧
      ∃ e, kb.identify (kb.chooserOf (some ⟨.double, 1.0, 100000⟩)) twinFile = .error e := by
  obtain ⟨kb, hkb, hmodel⟩ : ∃ kb, make twins [] [] [("A", boundless)] = .ok kb ∧
      kb.model? "A" = some boundless := ⟨_, rfl, rfl⟩
  refine ⟨Model.ofCounts_singleton "A" "t" (by decide +kernel), kb, hkb, ?_⟩
  rw [identify_eq_error (indexed_of_make hkb), twins_after hkb]
  refine ⟨twins_leave hkb, _, rfl, .inl ⟨_, List.mem_cons_self, _, hmodel, .tooLarge, ?_⟩⟩
  exact Model.logProbability_tooLarge (by decide +kernel) (Int.le_refl _)

end LangId.KnowledgeBase
