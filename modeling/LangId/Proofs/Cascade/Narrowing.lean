import LangId.Cascade
import LangId.Proofs.Knowledge.Lookup

/-!
# Candidates along the stages

**Steps.** A stage either finds candidates that its evidence agrees on (`agreed`) and leaves just
these, or it leaves the candidates as they are (`narrow_eq`).

**Runs.** `along kb file c stages` are the candidates that some stages lead to from `c` on;
`after kb file stages` are those that they lead to from all languages on. `along_preserves` is the
induction over a run: what one stage keeps, a run keeps.

**Results.**
* `reached_after`: after any stages the candidates are languages of the knowledge base in order,
  marked as the universe exactly as long as no stage has agreed on any, and never empty otherwise.
* `after_append_of_single`: what has come down to one language stays.
* `decides_agreed`: a stage that brings the candidates down to one language has agreed on this
  language and on no other candidate.
* `mem_agreed_of_mem_after`: every stage has agreed on what is left, or on nothing.
-/
namespace LangId.KnowledgeBase

variable (kb : KnowledgeBase) (file : Sample)

/-! ## Steps -/

/-- The candidates that a stage's evidence speaks for. -/
def agreed (c : Candidates) (s : Stage) : List Language :=
  ((kb.proposal? file c s).map c.inter).getD []

variable {kb file} {c : Candidates} {s : Stage} {l : Language}

theorem mem_agreed : l ∈ kb.agreed file c s ↔
    l ∈ c.members ∧ ∃ p, kb.proposal? file c s = some p ∧ l ∈ p.members := by
  unfold agreed
  cases kb.proposal? file c s with
  | none => simp
  | some p => simp [Candidates.mem_inter]

theorem agreed_sublist : (kb.agreed file c s).Sublist c.members := by
  unfold agreed
  cases kb.proposal? file c s with
  | none => exact List.nil_sublist _
  | some p => exact Candidates.inter_sublist c p

theorem ofInterpreter_isUniverse (i : String) : (kb.ofInterpreter i).isUniverse = false := by
  unfold ofInterpreter
  dsimp only
  split
  · split <;> rfl
  · rfl

theorem mem_ofInterpreter {i : String} {l : Language} (h : l ∈ (kb.ofInterpreter i).members) :
    l ∈ (kb.byInterpreter i).members ∨ (kb.byInterpreter i).members = [] ∧
      ∃ bare, Shebang.stripVersion? i = some bare ∧ l ∈ (kb.byInterpreter bare).members := by
  unfold ofInterpreter at h
  dsimp only at h
  split at h
  · rename_i he
    split at h
    · rename_i bare hbare
      exact .inr ⟨List.isEmpty_iff.1 he, bare, hbare, h⟩
    · exact .inl h
  · exact .inl h

/-- No stage ever proposes the universe. -/
theorem proposal?_isUniverse {p : Candidates} (h : kb.proposal? file c s = some p) :
    p.isUniverse = false := by
  cases s with
  | filename =>
    obtain rfl := Option.some.inj h
    rfl
  | shebang =>
    obtain ⟨i, -, rfl⟩ := Option.map_eq_some_iff.1 h
    exact ofInterpreter_isUniverse i
  | extension =>
    obtain ⟨e, -, rfl⟩ := List.mem_map.1 (List.mem_of_find?_eq_some h)
    rfl
  | modeline =>
    obtain ⟨m, -, rfl⟩ := Option.map_eq_some_iff.1 h
    rfl
  | heuristics =>
    simp only [proposal?] at h
    split at h
    · cases h
    · obtain ⟨r, -, rfl⟩ := Option.map_eq_some_iff.1 h
      rfl

/-- **One stage.** It leaves the candidates that it agrees on, or all if it agrees on none. -/
theorem narrow_eq : kb.narrow s file c =
    if kb.agreed file c s = [] then c else ⟨kb.agreed file c s, false⟩ := by
  unfold narrow narrow? agreed
  cases hp : kb.proposal? file c s with
  | none => simp
  | some p =>
    have h := Candidates.narrow_eq c p
    rw [proposal?_isUniverse hp] at h
    simpa [Candidates.narrow] using h

/-- A stage that says nothing changes nothing. -/
theorem narrow_of_silent (h : kb.proposal? file c s = none) : kb.narrow s file c = c := by
  rw [narrow, narrow?, h]
  rfl

theorem narrow_of_agreed (h : kb.agreed file c s ≠ []) :
    kb.narrow s file c = ⟨kb.agreed file c s, false⟩ := by
  rw [narrow_eq, if_neg h]

/-- The candidates that a proposal holds, as they can be told otherwise. -/
theorem agreed_of_proposal {p : Candidates} (holds : Language → Bool)
    (hp : kb.proposal? file c s = some p)
    (h : ∀ l ∈ c.members, l ∈ p.members ↔ holds l = true) :
    kb.agreed file c s = c.members.filter holds := by
  rw [agreed, hp, Option.map_some, Option.getD_some, Candidates.inter]
  refine List.filter_congr fun l hl => ?_
  rw [Bool.eq_iff_iff, Candidates.contains, List.contains_iff_mem]
  exact h l hl

/-- The name of a file speaks for the languages that declare it. -/
theorem agreed_filename (hi : kb.Indexed) : kb.agreed file kb.all .filename =
    kb.languages.filter fun l => l.filenames.contains file.basename := by
  have hp : kb.proposal? file kb.all .filename = some (kb.byFilename file.basename) := rfl
  rw [agreed_of_proposal (fun l => l.filenames.contains file.basename) hp, hi.all_members]
  intro l hl
  rw [hi.all_members] at hl
  rw [hi.filename, and_iff_right hl, List.contains_iff_mem]

theorem narrow_sublist : (kb.narrow s file c).members.Sublist c.members := by
  rw [narrow_eq]
  split
  · exact List.Sublist.refl _
  · exact agreed_sublist

theorem narrow_isUniverse (h : c.isUniverse = false) :
    (kb.narrow s file c).isUniverse = false := by
  rw [narrow_eq]
  split
  · exact h
  · rfl

/-- A single language is never taken away. -/
theorem narrow_of_single (h : c.single? = some l) : kb.narrow s file c = c := by
  obtain rfl := Candidates.single?_eq_some.1 h
  rw [narrow_eq]
  split
  · rfl
  · rename_i hne
    have hsub : (kb.agreed file ⟨[l], false⟩ s).Sublist [l] := agreed_sublist
    have hle := hsub.length_le
    have hpos := List.length_pos_iff.2 hne
    rw [hsub.eq_of_length (by simp only [List.length_singleton] at *; omega)]

/-- A stage that brings several candidates, or all languages, down to one has agreed on just this
one: where nothing is agreed on, nothing changes. -/
theorem agreed_of_single (h : c.single? = none) (hs : (kb.narrow s file c).single? = some l) :
    kb.agreed file c s = [l] := by
  rw [narrow_eq] at hs
  split at hs
  · rw [h] at hs
    cases hs
  · have := Candidates.single?_eq_some.1 hs
    simpa using this

/-- Candidates never run out: what a stage contradicts is kept. -/
theorem narrow_nonempty (h : c.members ≠ []) : (kb.narrow s file c).members ≠ [] := by
  rw [narrow_eq]
  split
  · exact h
  · rename_i hne
    exact hne

/-- Only candidates that a stage leaves as they are keep the mark of the universe. -/
theorem narrow_of_isUniverse (h : (kb.narrow s file c).isUniverse = true) :
    kb.narrow s file c = c := by
  rw [narrow_eq] at h ⊢
  split at h
  · rename_i hnil
    rw [if_pos hnil]
  · cases h

/-! ## Runs -/

variable (kb file)

/-- The candidates that some stages lead to from given ones. -/
def along (c : Candidates) (stages : List Stage) : Candidates :=
  stages.foldl (fun c s => kb.narrow s file c) c

/-- The candidates that some stages lead to. -/
def after (stages : List Stage) : Candidates :=
  stages.foldl (fun c s => kb.narrow s file c) kb.all

variable {kb file} {pre post stages : List Stage}

theorem along_append :
    kb.along file c (pre ++ post) = kb.along file (kb.along file c pre) post := by
  simp only [along, List.foldl_append]

theorem after_append : kb.after file (pre ++ post) = kb.along file (kb.after file pre) post := by
  simp only [along, after, List.foldl_append]

theorem after_concat : kb.after file (pre ++ [s]) = kb.narrow s file (kb.after file pre) := by
  simp [after]

theorem after_append_cons :
    kb.after file (pre ++ s :: post) = kb.after file (pre ++ [s] ++ post) := by
  rw [List.append_assoc, List.singleton_append]

/-- What one stage keeps, a run keeps. -/
theorem along_preserves {P : Candidates → Prop} (hstep : ∀ c s, P c → P (kb.narrow s file c))
    (h : P c) : P (kb.along file c stages) :=
  List.foldlRecOn stages _ h fun c hc s _ => hstep c s hc

theorem along_sublist : (kb.along file c stages).members.Sublist c.members :=
  along_preserves (P := fun d => d.members.Sublist c.members)
    (fun _ _ hd => narrow_sublist.trans hd) (List.Sublist.refl _)

theorem along_nonempty (h : c.members ≠ []) : (kb.along file c stages).members ≠ [] :=
  along_preserves (P := fun d => d.members ≠ []) (fun _ _ hd => narrow_nonempty hd) h

theorem along_of_isUniverse (h : (kb.along file c stages).isUniverse = true) :
    kb.along file c stages = c := by
  refine along_preserves (P := fun d => d.isUniverse = true → d = c) ?_ (fun _ => rfl) h
  intro d s hd hu
  have heq := narrow_of_isUniverse hu
  rw [heq] at hu ⊢
  exact hd hu

theorem after_append_sublist :
    (kb.after file (pre ++ post)).members.Sublist (kb.after file pre).members := by
  rw [after_append]
  exact along_sublist

theorem after_append_isUniverse (h : (kb.after file pre).isUniverse = false) :
    (kb.after file (pre ++ post)).isUniverse = false := by
  rw [after_append]
  exact along_preserves (P := fun d => d.isUniverse = false) (fun _ _ => narrow_isUniverse) h

theorem after_append_of_single (h : (kb.after file pre).single? = some l) :
    kb.after file (pre ++ post) = kb.after file pre := by
  rw [after_append]
  refine along_preserves (P := fun d => d = kb.after file pre) (fun d s hd => ?_) rfl
  rw [hd]
  exact narrow_of_single h

/-- Candidates as stages lead to them. -/
structure Reached (kb : KnowledgeBase) (c : Candidates) : Prop where
  sublist : c.members.Sublist kb.languages
  nonempty : c.isUniverse = false → c.members ≠ []
  all : c.isUniverse = true → c = kb.all

theorem reached_all (h : kb.Indexed) : Reached kb kb.all where
  sublist := by simp only [h.all_members, List.Sublist.refl]
  nonempty hu := by cases hu
  all _ := rfl

theorem reached_narrow (h : Reached kb c) : Reached kb (kb.narrow s file c) := by
  refine ⟨narrow_sublist.trans h.sublist, ?_, ?_⟩ <;> rw [narrow_eq] <;> split
  · exact h.nonempty
  · rename_i hne
    exact fun _ => hne
  · exact h.all
  · intro hu
    cases hu

theorem reached_after (h : kb.Indexed) (stages : List Stage) :
    Reached kb (kb.after file stages) := by
  unfold after
  exact List.foldlRecOn stages _ (reached_all h) fun _ hc _ _ => reached_narrow hc

/-! ## The stage that decides -/

variable (kb file) in
/-- A stage decides on a language: those before it have not come down to one, and it does. -/
def Decides (pre : List Stage) (s : Stage) (l : Language) : Prop :=
  (kb.after file pre).single? = none ∧ (kb.after file (pre ++ [s])).single? = some l

theorem decides_agreed (h : kb.Decides file pre s l) :
    kb.agreed file (kb.after file pre) s = [l] :=
  agreed_of_single h.1 (by rw [← after_concat]; exact h.2)

/-- What is left was agreed on by every stage that agreed on any candidate. -/
theorem mem_agreed_of_mem_after (h : l ∈ (kb.after file (pre ++ s :: post)).members)
    (hs : kb.agreed file (kb.after file pre) s ≠ []) :
    l ∈ kb.agreed file (kb.after file pre) s := by
  rw [after_append_cons] at h
  have := after_append_sublist.subset h
  rwa [after_concat, narrow_of_agreed hs] at this

end LangId.KnowledgeBase
