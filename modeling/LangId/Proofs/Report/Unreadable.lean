import LangId.Proofs.Report.Workers

/-!
# Unreadable files that end an analysis

Settings can make an unreadable file an error. An analysis then ends with the first path, in the order
of the paths, that its provider has no content for (`Provider.FirstUnreadable`), although workers may
have come to another one before. Where there is no such path, the report is that of an analysis that
puts up with unreadable files (`Identifier.tolerant`).
-/
namespace LangId

/-- The first path that a provider has no content for, and why. -/
def Provider.FirstUnreadable (provider : Provider) (paths : List String) (u : Unreadable) : Prop :=
  ∃ before path behind, paths = before ++ path :: behind ∧
    (∀ p ∈ before, provider.reads (Path.canonical p) = true) ∧
    provider (Path.canonical path) = .error u

namespace Provider

variable {provider : Provider} {path : String} {paths : List String}

theorem reads_eq_false : provider.reads path = false ↔ ∃ u, provider path = .error u := by
  unfold reads
  cases provider path with
  | error u => exact iff_of_true rfl ⟨u, rfl⟩
  | ok content => exact iff_of_false nofun nofun

theorem reads_eq_true : provider.reads path = true ↔ ∀ u, provider path ≠ .error u := by
  rw [← Bool.not_eq_false, reads_eq_false, not_exists]

/-- Where a path is unreadable, one of them is the first. -/
theorem exists_firstUnreadable : (∃ u, provider.FirstUnreadable paths u) ↔
    ∃ p ∈ paths, provider.reads (Path.canonical p) = false := by
  constructor
  · rintro ⟨u, before, path, behind, rfl, -, hu⟩
    exact ⟨path, by simp, reads_eq_false.2 ⟨u, hu⟩⟩
  · rintro ⟨p, hp, hread⟩
    have hfound : (paths.find? fun p => !provider.reads (Path.canonical p)).isSome = true :=
      List.find?_isSome.2 ⟨p, hp, by simp [hread]⟩
    obtain ⟨path, hpath⟩ := Option.isSome_iff_exists.1 hfound
    obtain ⟨hno, before, behind, rfl, hbefore⟩ := List.find?_eq_some_iff_append.1 hpath
    obtain ⟨u, hu⟩ := reads_eq_false.1 (by simpa using hno)
    exact ⟨u, before, path, behind, rfl, fun q hq => by simpa using hbefore q hq, hu⟩

end Provider

namespace Identifier

/-- An identifier for which an unreadable file is no error. -/
def tolerant (i : Identifier) : Identifier :=
  { i with settings.analysis.failOnUnreadable := false }

variable {i : Identifier} {provider : Provider} {path : String} {paths : List String} {r : Report}
  {e : Interruption}

theorem outcome_error {u : Unreadable} :
    (i.outcome provider path).error = some u ↔ provider path = .error u := by
  unfold outcome
  cases provider path with
  | error e => simp
  | ok content => simp

/-- One step of an analysis fails exactly for an unreadable file, if that is an error. -/
theorem add_eq_error (h : i.Identifies provider path) : i.add provider r path = .error e ↔
    i.settings.analysis.failOnUnreadable = true ∧ ∃ u, provider path = .error u ∧
      e = .unreadable u := by
  rw [add_of_evaluate (evaluate_eq h), mapError_eq_error]
  simp only [Report.merge_eq_error, outcome_error, and_assoc, exists_and_left, eq_comm (a := e)]

/-- An analysis that fails does so with the first unreadable path. -/
theorem analyze_eq_error_iff (h : ∀ p ∈ paths, i.Identifies provider (Path.canonical p)) :
    i.analyze paths provider = .error e ↔ i.settings.analysis.failOnUnreadable = true ∧
      ∃ u, provider.FirstUnreadable paths u ∧ e = .unreadable u := by
  rw [analyze, List.foldlM_map, foldlM_eq_error_iff fun b a ha e => add_eq_error (h a ha)]
  constructor
  · rintro ⟨before, p, behind, heq, hbefore, hs, u, hu, rfl⟩
    refine ⟨hs, u, ⟨before, p, behind, heq, fun q hq => ?_, hu⟩, rfl⟩
    exact Provider.reads_eq_true.2 fun v hv => hbefore q hq _ ⟨hs, v, hv, rfl⟩
  · rintro ⟨hs, u, ⟨before, p, behind, heq, hbefore, hu⟩, rfl⟩
    refine ⟨before, p, behind, heq, ?_, hs, u, hu, rfl⟩
    rintro q hq _ ⟨-, v, hv, rfl⟩
    exact Provider.reads_eq_true.1 (hbefore q hq) v hv

/-- A file that can be read is merged the same way whatever becomes of others. -/
theorem tolerant_add (hread : provider.reads path = true) :
    i.tolerant.add provider r path = i.add provider r path := by
  have hmerge {o : Outcome} (ho : i.evaluate path provider = .ok o) :
      r.merge i.tolerant.settings.analysis o = r.merge i.settings.analysis o := by
    have hnone : o.error = none := by
      rw [outcome_of_evaluate ho, Option.eq_none_iff_forall_ne_some]
      exact fun u hu => Provider.reads_eq_true.1 hread u (outcome_error.1 hu)
    unfold Report.merge
    rw [hnone]
    rfl
  have hevaluate : i.tolerant.evaluate path provider = i.evaluate path provider := rfl
  unfold add
  rw [hevaluate]
  cases ho : i.evaluate path provider with
  | error e => rfl
  | ok o => exact congrArg (Except.mapError Interruption.unreadable) (hmerge ho)

/-- Where all paths can be read, nothing tells whether unreadable files are an error. -/
theorem tolerant_analyze (hread : ∀ p ∈ paths, provider.reads (Path.canonical p) = true) :
    i.tolerant.analyze paths provider = i.analyze paths provider := by
  have hcan : ∀ p ∈ paths.map Path.canonical, provider.reads p = true := List.forall_mem_map.2 hread
  exact foldlM_congr (fun _ p hp => tolerant_add (hcan p hp)) {}

/-- **Unreadable files.** If they are an error and identification does not fail, then, however many
workers there are and whichever of them is done first, an analysis ends with an error exactly if some
path is unreadable, and this is the error of the first one; if none is, it ends with the report that
it would end with if unreadable files were no error. -/
theorem first_unreadable_ends (i : Identifier) (provider : Provider) (paths : List String)
    (hw : 0 < i.settings.analysis.maxWorkers)
    (hs : i.settings.analysis.failOnUnreadable = true)
    (h : ∀ p ∈ paths, i.Identifies provider (Path.canonical p)) :
    i.Settles provider (Pool.start paths) (i.analyze paths provider) ∧
    ((∃ e, i.analyze paths provider = .error e) ↔
      ∃ p ∈ paths, provider.reads (Path.canonical p) = false) ∧
    (∀ e, i.analyze paths provider = .error e ↔
      ∃ u, provider.FirstUnreadable paths u ∧ e = .unreadable u) ∧
    ((∀ p ∈ paths, provider.reads (Path.canonical p) = true) →
      ∃ r, i.analyze paths provider = .ok r ∧ i.tolerant.analyze paths provider = .ok r ∧
        i.tolerant.Settles provider (Pool.start paths) (.ok r)) := by
  have herror (e : Interruption) : i.analyze paths provider = .error e ↔
      ∃ u, provider.FirstUnreadable paths u ∧ e = .unreadable u :=
    (analyze_eq_error_iff h).trans (and_iff_right hs)
  refine ⟨settles_analyze hw, ?_, herror, fun hread => ?_⟩
  · simp only [← Provider.exists_firstUnreadable, herror]
    constructor
    · rintro ⟨e, u, hu, -⟩
      exact ⟨u, hu⟩
    · rintro ⟨u, hu⟩
      exact ⟨_, u, hu, rfl⟩
  · obtain ⟨r, hr⟩ := analyze_of_reads hread h
    have htolerant := (tolerant_analyze (i := i) hread).trans hr
    exact ⟨r, hr, htolerant, htolerant ▸ settles_analyze hw⟩

/-- Definitions under settings for which unreadable files are an error, for two workers. -/
def demanding (knowledge : KnowledgeBase) : Identifier :=
  { settings.analysis := { maxWorkers := 2, failOnUnreadable := true }, knowledge, filter := ⟨[], []⟩ }

/-- Of two files that are not there the first one ends the analysis, even if the other one is looked
for at the same time. -/
theorem lost_file_ends : ∃ kb u,
    KnowledgeBase.make [{ name := "A", category := .programming, extensions := [".x"] }] [] [] [] =
      .ok kb ∧
    twoContents "lost" = .error u ∧
    (demanding kb).Settles twoContents (Pool.start ["a.x", "./lost", "gone"])
      (.error (.unreadable u)) := by
  obtain ⟨kb, hkb, hmodels⟩ : ∃ kb, KnowledgeBase.make
      [{ name := "A", category := .programming, extensions := [".x"] }] [] [] [] = .ok kb ∧
      kb.hasModels = false := ⟨_, rfl, rfl⟩
  obtain ⟨u, hu⟩ : ∃ u, twoContents "lost" = .error u := ⟨_, rfl⟩
  obtain ⟨hsettles, -, herror, -⟩ := first_unreadable_ends (demanding kb) twoContents
    ["a.x", "./lost", "gone"] Nat.two_pos rfl fun p _ => identifies_of_no_models hmodels _
  have hfirst : twoContents.FirstUnreadable ["a.x", "./lost", "gone"] u := by
    refine ⟨["a.x"], "./lost", ["gone"], rfl, List.forall_mem_singleton.2 ?_, ?_⟩
    · decide +kernel
    · have hcanonical : Path.canonical "./lost" = "lost" := by decide +kernel
      rw [hcanonical, hu]
  exact ⟨kb, u, hkb, hu, (herror _).2 ⟨u, hfirst, rfl⟩ ▸ hsettles⟩

end Identifier

end LangId
