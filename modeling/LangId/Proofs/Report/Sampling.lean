import LangId.Proofs.Cascade.Alike
import LangId.Proofs.Cascade.Evidence
import LangId.Proofs.Path
import LangId.Proofs.Report.Analysis

/-!
# What is sampled

A result depends on the name of a file and on as many of its first octets as the settings ask for.
Single files and files of an analysis take different ways to identification: a single file is given
whole, while a provider may hand out the beginning of a file with the size of all of it. Both lead to
samples that are alike.

**Results.**
* `alike_sample`: samples of paths with the same name and of contents with the same beginning are
  alike.
* `identify_of_result`: what an analysis has found out about a file is what identification finds out
  about the whole of it.
* `identify_sampled`: both, for every identifier, and for every file that a report tells about.
-/
namespace LangId

/-- A provider hands out the beginnings of files, and of each as much as a bound asks for. -/
def Provider.Samples (provider : Provider) (full : String → List UInt8) (bound : Nat) : Prop :=
  ∀ path content, provider path = .ok content →
    content.bytes <+: full path ∧ min bound (full path).length ≤ content.bytes.length

/-- A beginning that is long enough begins in the same way. -/
theorem take_of_isPrefix {α : Type} {short full : List α} {n : Nat} (h : short <+: full)
    (hn : min n full.length ≤ short.length) : short.take n = full.take n := by
  obtain ⟨rest, rfl⟩ := h
  rw [List.length_append] at hn
  have hrest : rest.take (n - short.length) = [] := by
    rw [List.take_eq_nil_iff]
    by_cases hle : n ≤ short.length
    · left
      omega
    · right
      have : rest.length = 0 := by omega
      exact List.length_eq_zero_iff.1 this
  rw [List.take_append, hrest, List.append_nil]

namespace Identifier

variable {i : Identifier} {provider : Provider} {paths : List String} {r : Report}

/-- Samples of files with the same name and the same beginning are alike. -/
theorem alike_sample {p q : String} {a b : Content}
    (hname : Path.nameOf (Path.canonical p) = Path.nameOf (Path.canonical q))
    (hbytes : a.bytes.take i.settings.sampling.maxBytes =
      b.bytes.take i.settings.sampling.maxBytes) :
    (i.sample (Path.canonical p) a).Alike (i.sample (Path.canonical q) b) := by
  refine ⟨?_, ?_, ?_⟩
  · simp only [sample, Sample.basename, Sample.ofBytes, Path.forwardSlashes_canonical,
      String.ofList_toList, hname]
  · simp only [sample, Sample.ofBytes, hbytes]
  · simp only [sample, Sample.ofBytes, hbytes]

theorem identify_of_alike {p q : String} {bytes bytes' : List UInt8}
    (hname : Path.nameOf (Path.canonical p) = Path.nameOf (Path.canonical q))
    (hbytes : bytes.take i.settings.sampling.maxBytes =
      bytes'.take i.settings.sampling.maxBytes) :
    (i.identify p bytes).map (·.verdict) = (i.identify q bytes').map (·.verdict) :=
  KnowledgeBase.identify_of_alike (alike_sample hname hbytes) i.chooser

/-! ## Files of an analysis -/

/-- What becomes of a file that could be read. -/
theorem outcome_of_reads {path : String} (h : provider.reads path = true) :
    ∃ content, provider path = .ok content ∧
      (i.outcome provider path).excludedAs = i.filter.excludedAs path ∧
      (i.outcome provider path).result =
        if (i.filter.excludedAs path).isSome && !i.settings.analysis.identifyExcluded then none
        else (i.knowledge.identify i.chooser (i.sample path content)).toOption := by
  unfold Provider.reads at h
  cases hp : provider path with
  | error e =>
    rw [hp] at h
    cases h
  | ok content =>
    refine ⟨content, rfl, ?_, ?_⟩
    · rw [outcome, hp]
    · rw [outcome, hp]

/-- A file is identified unless it is kept out and the settings do not ask for it. -/
theorem result_eq_none {path : String} (h : provider.reads path = true)
    (he : i.evaluate path provider = .ok (i.outcome provider path)) :
    (i.outcome provider path).result = none ↔
      (i.outcome provider path).excludedAs.isSome = true ∧
        i.settings.analysis.identifyExcluded = false := by
  obtain ⟨content, hp, hexcluded, hresult⟩ := outcome_of_reads (i := i) h
  unfold evaluate at he
  rw [hp] at he
  dsimp only at he
  rw [hexcluded, hresult]
  split at he
  · rename_i hkept
    rw [if_pos hkept]
    simpa using hkept
  · rename_i hkept
    obtain ⟨found, hf, -⟩ := map_eq_ok.1 he
    rw [if_neg hkept, hf]
    simpa [Except.toOption] using hkept

/-- What an analysis has found out about a file is what identification finds out about the whole
of it. -/
theorem identify_of_result {full : String → List UInt8} {p : String} {res : Identification}
    (hs : provider.Samples full i.settings.sampling.maxBytes)
    (hr : provider.reads (Path.canonical p) = true)
    (h : (i.outcome provider (Path.canonical p)).result = some res) :
    i.identify p (full (Path.canonical p)) = .ok res := by
  obtain ⟨content, hp, -, hresult⟩ := outcome_of_reads (i := i) hr
  rw [hresult] at h
  split at h
  · cases h
  · have hfound : i.knowledge.identify i.chooser (i.sample (Path.canonical p) content) = .ok res := by
      cases hf : i.knowledge.identify i.chooser (i.sample (Path.canonical p) content) with
      | error e =>
        rw [hf] at h
        cases h
      | ok found =>
        rw [hf] at h
        exact congrArg Except.ok (Option.some.inj h)
    have hbytes : content.bytes.take i.settings.sampling.maxBytes =
        (Content.whole (full (Path.canonical p))).bytes.take i.settings.sampling.maxBytes :=
      take_of_isPrefix (hs _ content hp).1 (hs _ content hp).2
    have halike := alike_sample (i := i) (p := p) (q := p) rfl hbytes
    obtain ⟨hv, hpath⟩ := KnowledgeBase.identify_eq_ok.1 hfound
    rw [KnowledgeBase.verdict_of_alike halike] at hv
    exact KnowledgeBase.identify_eq_ok.2 ⟨hv, hpath⟩

/-- **Sampling.** Of a path only the name counts, of a content only its beginning, and what a report
tells about a file is what identification finds out about the whole of it, also where the file is
kept out. -/
theorem identify_sampled (i : Identifier) :
    (∀ p q bytes bytes', Path.nameOf (Path.canonical p) = Path.nameOf (Path.canonical q) →
      bytes.take i.settings.sampling.maxBytes = bytes'.take i.settings.sampling.maxBytes →
      (i.identify p bytes).map (·.verdict) = (i.identify q bytes').map (·.verdict)) ∧
    ∀ (provider : Provider) (full : String → List UInt8) (paths : List String) (r : Report),
      i.settings.analysis.includeFiles = true →
      provider.Samples full i.settings.sampling.maxBytes → i.analyze paths provider = .ok r →
      r.files.map (·.path) = (paths.map Path.canonical).filter provider.reads ∧
      ∀ f ∈ r.files,
        (f.result = none ↔
          f.excludedAs.isSome = true ∧ i.settings.analysis.identifyExcluded = false) ∧
        ∀ res, f.result = some res → ∀ p, Path.canonical p = f.path →
          i.identify p (full f.path) = .ok res := by
  refine ⟨fun p q bytes bytes' => identify_of_alike, ?_⟩
  intro provider full paths r hfiles hs h
  have hentries := (accounts_of_analyze h).entries
  rw [if_pos hfiles] at hentries
  refine ⟨?_, fun f hf => ?_⟩
  · rw [hentries, List.map_map]
    calc _ = ((paths.map Path.canonical).filter provider.reads).map id :=
          List.map_congr_left fun _ _ => outcome_path
      _ = _ := List.map_id _
  · rw [hentries] at hf
    obtain ⟨path, hpath, rfl⟩ := List.mem_map.1 hf
    obtain ⟨hmem, hread⟩ := List.mem_filter.1 hpath
    refine ⟨result_eq_none hread ((foldlM_add_eq_ok h).1 path hmem), fun res hres p hp => ?_⟩
    obtain rfl : Path.canonical p = path := hp.trans outcome_path
    rw [← hp]
    exact identify_of_result hs hread hres

/-! ## A file read in part -/

/-- Two octets are sampled, files that are kept out are identified, and every file is told about. -/
def sampling (knowledge : KnowledgeBase) (filter : ExclusionFilter) : Identifier :=
  { settings := { sampling := ⟨2⟩, analysis := { identifyExcluded := true, includeFiles := true } }
    knowledge, filter }

/-- A file of three octets, of which two are handed out. -/
def beginning : Provider := fun _ => .ok ⟨[120, 120], 3⟩

theorem beginning_samples : beginning.Samples (fun _ => [120, 120, 120]) 2 := by
  intro path content h
  obtain rfl := Except.ok.inj h
  exact ⟨⟨[120], rfl⟩, Nat.le_refl 2⟩

/-- Whatever keeps files out, the report tells what is found out about the whole file, under any
spelling of its path; and only the name of the file and its first two octets count. -/
theorem beginning_sampled : ∃ kb, KnowledgeBase.make [KnowledgeBase.lone] [] [] [] = .ok kb ∧
    ∀ filter, ∃ r, (sampling kb filter).analyze ["b\\a"] beginning = .ok r ∧
      r.files.map (·.path) = ["b/a"] ∧
      (∀ f ∈ r.files, ∃ res, f.result = some res ∧
        (sampling kb filter).identify "./b/a" [120, 120, 120] = .ok res) ∧
      ((sampling kb filter).identify "./b/a" [120, 120, 120]).map (·.verdict) =
        ((sampling kb filter).identify "a" [120, 120]).map (·.verdict) := by
  obtain ⟨kb, hkb, hmodels⟩ : ∃ kb, KnowledgeBase.make [KnowledgeBase.lone] [] [] [] = .ok kb ∧
      kb.hasModels = false := ⟨_, rfl, rfl⟩
  refine ⟨kb, hkb, fun filter => ?_⟩
  obtain ⟨r, hr, -⟩ : ∃ r, (sampling kb filter).analyze ["b\\a"] beginning = .ok r ∧ _ :=
    analyze_total rfl ["b\\a"] fun p _ => identifies_of_no_models hmodels _
  obtain ⟨halike, hreport⟩ := identify_sampled (sampling kb filter)
  obtain ⟨hpaths, hfiles⟩ := hreport beginning _ ["b\\a"] r rfl beginning_samples hr
  have hone : r.files.map (·.path) = ["b/a"] := by
    rw [hpaths]
    decide +kernel
  refine ⟨r, hr, hone, fun f hf => ?_, halike _ _ _ _ (by decide +kernel) rfl⟩
  obtain ⟨hnone, hfound⟩ := hfiles f hf
  have hpath : f.path = "b/a" := by
    have : f.path ∈ r.files.map (·.path) := List.mem_map.2 ⟨f, hf, rfl⟩
    rwa [hone, List.mem_singleton] at this
  cases hres : f.result with
  | none => exact absurd (hnone.1 hres).2 nofun
  | some res =>
    have hcanonical : Path.canonical "./b/a" = f.path := by
      rw [hpath]
      decide +kernel
    exact ⟨res, rfl, hfound res hres "./b/a" hcanonical⟩

end Identifier

end LangId
