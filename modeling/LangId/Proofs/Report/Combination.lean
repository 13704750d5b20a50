import LangId.Proofs.Report.Analysis

/-!
# Reports put together

An analysis of more files goes on where an analysis of some files has ended. `Report.combine` says
what becomes of a report that way, without any reference to a run: the totals of each bucket are
added up, and what is listed is listed one after the other.

**Languages.** The languages of a report are a table in which names are told apart, so that
`combineLanguages` is pinned down by its names and by what is looked up under each of them
(`names_combineLanguages`, `lookup_combineLanguages`).

**Results.**
* `merge_combine`: a merge into the second of two reports is a merge into both together.
* `merges_combine`: a run of merges into a report combines it with what the run makes of nothing.
* `analyze_append`: an analysis of two lists of paths is the combination of two analyses.
-/
namespace LangId

namespace Report

open Table

variable {first second : List (String × Totals)} {l name : String} {size : Int}

/-! ## Languages put together -/

/-- What two tables have of a language is added up; languages that only the second one has follow
those of the first. -/
def combineLanguages (first second : List (String × Totals)) : List (String × Totals) :=
  (first.map fun e => (e.1, e.2.plus ((second.lookup e.1).getD {}))) ++
    second.filter fun e => (first.lookup e.1).isNone

theorem lookup_combineLanguages : (combineLanguages first second).lookup l =
    match first.lookup l with
    | some t => some (t.plus ((second.lookup l).getD {}))
    | none => second.lookup l := by
  rw [combineLanguages, List.lookup_append,
    lookup_map fun l (t : Totals) => t.plus ((second.lookup l).getD {}),
    lookup_filter fun l => (first.lookup l).isNone]
  cases first.lookup l <;> simp

theorem names_combineLanguages : (combineLanguages first second).map (·.1) =
    first.map (·.1) ++ (second.map (·.1)).filter fun l => decide (l ∉ first.map (·.1)) := by
  rw [combineLanguages, List.map_append, List.map_map, List.filter_map]
  congr 2
  refine List.filter_congr fun e _ => ?_
  rw [Function.comp_apply, Bool.eq_iff_iff, Option.isNone_iff_eq_none, lookup_eq_none,
    decide_eq_true_iff]

theorem nodup_combineLanguages (hfirst : (first.map (·.1)).Nodup)
    (hsecond : (second.map (·.1)).Nodup) : ((combineLanguages first second).map (·.1)).Nodup := by
  rw [names_combineLanguages]
  refine List.nodup_append.2 ⟨hfirst, List.Pairwise.filter _ hsecond, ?_⟩
  rintro l hl _ hnew rfl
  exact of_decide_eq_true (List.mem_filter.1 hnew).2 hl

/-- One more file of a language comes to the same in the second table and in both together. -/
theorem combineLanguages_addTo (hfirst : (first.map (·.1)).Nodup)
    (hsecond : (second.map (·.1)).Nodup) :
    combineLanguages first (addTo name size second) =
      addTo name size (combineLanguages first second) := by
  refine eq_of_lookup (nodup_combineLanguages hfirst (nodup_addTo hsecond)) ?_ fun l => ?_
  · simp only [names_combineLanguages, keys_addTo, List.mem_append, List.mem_filter,
      decide_eq_true_eq]
    -- the name is new to the whole exactly if it is new to both tables
    by_cases hf : name ∈ first.map (·.1) <;> by_cases hs : name ∈ second.map (·.1) <;>
      simp [hf, hs, List.filter_append]
  · rw [lookup_addTo, lookup_combineLanguages, lookup_combineLanguages, lookup_combineLanguages,
      lookup_addTo]
    by_cases hl : l = name
    · subst hl
      cases first.lookup l <;> simp [Totals.add_eq_plus, Totals.plus_assoc]
    · simp [hl]

/-! ## Reports put together -/

/-- Two reports as one. -/
def combine (r s : Report) : Report where
  languages := combineLanguages r.languages s.languages
  unknown := r.unknown.plus s.unknown
  excluded := r.excluded.plus s.excluded
  unreadable := r.unreadable ++ s.unreadable
  files := r.files ++ s.files

variable {settings : AnalysisSettings} {r s s' : Report} {o : Outcome}

/-- Bytes and files are added up, bucket by bucket. -/
theorem totalsIn_combine (r s : Report) (b : Bucket) :
    (r.combine s).totalsIn b = (r.totalsIn b).plus (s.totalsIn b) := by
  cases b with
  | language name =>
    rw [totalsIn, totalsIn, totalsIn, combine, lookup_combineLanguages]
    cases r.languages.lookup name with
    | some t => rfl
    | none => exact (Totals.empty_plus _).symm
  | unknown => rfl
  | excluded => rfl
  | unreadable => simp [totalsIn, combine, Totals.plus]

theorem combine_empty (r : Report) : r.combine {} = r := by
  have hlanguages : combineLanguages r.languages [] = r.languages := by
    simp [combineLanguages, Totals.plus_empty]
  simp only [combine, hlanguages, Totals.plus_empty, List.append_nil]

theorem combine_counting (hr : r.Wellformed) (hs : s.Wellformed) (o : Outcome) :
    r.combine (s.counting o) = (r.combine s).counting o := by
  unfold counting
  split
  · simp only [combine, addLanguage, combineLanguages_addTo hr.nodup hs.nodup]
  · simp only [combine, Totals.add_eq_plus, Totals.plus_assoc]
  · simp only [combine, Totals.add_eq_plus, Totals.plus_assoc]
  · simp only [combine, List.append_assoc]

theorem merge_combine (hr : r.Wellformed) (hs : s.Wellformed) (h : s.merge settings o = .ok s') :
    (r.combine s).merge settings o = .ok (r.combine s') := by
  obtain ⟨hok, rfl⟩ := merge_eq_ok.1 h
  refine merge_eq_ok.2 ⟨hok, ?_⟩
  rw [← combine_counting hr hs]
  simp only [combine, List.append_assoc]

/-- A run of merges does to two reports together what it does to the second one. -/
theorem run_combine {os : List Outcome} (hr : r.Wellformed) (hs : s.Wellformed)
    (h : os.foldlM (merge settings) s = .ok s') :
    os.foldlM (merge settings) (r.combine s) = .ok (r.combine s') := by
  induction os generalizing s with
  | nil =>
    obtain rfl := pure_eq_ok.1 h
    rfl
  | cons o os ih =>
    rw [List.foldlM_cons] at h ⊢
    obtain ⟨next, hm, hrest⟩ := bind_eq_ok.1 h
    exact bind_eq_ok.2 ⟨_, merge_combine hr hs hm, ih (wellformed_merge hs hm) hrest⟩

/-- What a run of merges makes of a report is the report together with what the run makes of
nothing. -/
theorem merges_combine {os : List Outcome} (hr : r.Wellformed)
    (h : os.foldlM (merge settings) {} = .ok s) :
    os.foldlM (merge settings) r = .ok (r.combine s) := by
  have hrun := run_combine hr (s := {}) ⟨List.nodup_nil, nofun⟩ h
  rwa [combine_empty] at hrun

end Report

namespace Identifier

variable {i : Identifier} {provider : Provider} {r s : Report}

/-- **Parts.** An analysis of two lists of paths, where both can be analyzed, is the combination of
both analyses. -/
theorem analyze_append {paths more : List String}
    (hpaths : ∀ p ∈ paths, i.Identifies provider (Path.canonical p))
    (hmore : ∀ p ∈ more, i.Identifies provider (Path.canonical p))
    (hr : i.analyze paths provider = .ok r) (hs : i.analyze more provider = .ok s) :
    i.analyze (paths ++ more) provider = .ok (r.combine s) := by
  have hcan : ∀ p ∈ (paths ++ more).map Path.canonical, i.Identifies provider p :=
    List.forall_mem_map.2 (List.forall_mem_append.2 ⟨hpaths, hmore⟩)
  rw [analyze, foldlM_add hcan]
  refine mapError_eq_ok.2 ?_
  rw [List.map_append, List.map_append, List.foldlM_append]
  exact bind_eq_ok.2 ⟨r, (foldlM_add_eq_ok hr).2,
    Report.merges_combine (accounts_of_analyze hr).wellformed (foldlM_add_eq_ok hs).2⟩

end Identifier

end LangId
