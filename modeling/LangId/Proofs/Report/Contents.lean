import LangId.Proofs.Path
import LangId.Proofs.Report.Analysis
import Mathlib.Data.List.Basic

/-!
# Contents that are looked up

Contents that are held under paths can be analyzed by just these paths. An analysis spells every path
canonically before it asks for a content, so what is looked up is not the path that was handed in. A
path with a backslash, or with `./` in front, is never looked up: its content is not read, and
either its canonical spelling is not there, or the content that is held under that spelling is read
for both.

**Results.**
* `reads_ofContents`, `ofContents_of_mem`: what is found under a path.
* `readsEach_of_canonical`: where all paths are canonical, every content is read, once, and counted
  with its own length.
* `canonical_of_readsEach`, `missed_of_not_canonical`: only there, and what becomes of other paths.
* `analyze_contents`: all of this for one analysis.
-/
namespace LangId

/-- The paths that contents are held under. -/
def Provider.pathsOf (contents : List (String × List UInt8)) : List String := contents.map (·.1)

/-- The octets of all contents. -/
def Provider.octetsOf (contents : List (String × List UInt8)) : Int :=
  (contents.map fun e => (e.2.length : Int)).foldr (· + ·) 0

namespace Provider

variable {contents : List (String × List UInt8)} {path : String}

theorem reads_ofContents : (ofContents contents).reads path = true ↔ path ∈ pathsOf contents := by
  rw [reads, ofContents]
  cases h : contents.lookup path with
  | none => exact iff_of_false nofun (Table.lookup_eq_none.1 h)
  | some bytes => exact iff_of_true rfl (Table.mem_names_of_lookup h)

/-- Where paths are told apart, every content is found under its own. -/
theorem ofContents_of_mem (h : (pathsOf contents).Nodup) {e : String × List UInt8}
    (he : e ∈ contents) : ofContents contents e.1 = .ok (Content.whole e.2) := by
  rw [ofContents, (Table.mem_iff_lookup h).1 he]

end Provider

namespace Identifier

open LangId.Path (canonical IsCanonical)
open Provider (ofContents pathsOf octetsOf)

variable {i : Identifier} {contents : List (String × List UInt8)} {r : Report}

/-- What a report says if every content has been read, once, and under its own path. -/
structure ReadsEach (i : Identifier) (contents : List (String × List UInt8)) (r : Report) :
    Prop where
  unreadable : r.unreadable = []
  files : r.ofLanguages.files + r.unknown.files + r.excluded.files = contents.length
  bytes : r.ofLanguages.bytes + r.unknown.bytes + r.excluded.bytes = octetsOf contents
  entries : r.files.map (fun f => (f.path, f.size)) =
    if i.settings.analysis.includeFiles then contents.map fun e => (e.1, (e.2.length : Int)) else []

/-- To spell the paths canonically before they are handed in makes no difference. -/
theorem analyze_map_canonical (i : Identifier) (paths : List String) (provider : Provider) :
    i.analyze (paths.map canonical) provider = i.analyze paths provider := by
  have hsame : (paths.map canonical).map canonical = paths.map canonical := by
    rw [List.map_map]
    exact List.map_congr_left fun p _ => Path.canonical_canonical p
  rw [analyze, analyze, hsame]

theorem map_canonical_of_forall {paths : List String} (h : ∀ p ∈ paths, IsCanonical p) :
    paths.map canonical = paths := by
  calc paths.map canonical = paths.map id :=
        List.map_congr_left fun p hp => Path.canonical_eq_self_iff.2 (h p hp)
    _ = paths := List.map_id paths

/-- The paths that are not found are those whose canonical spelling has no content. -/
theorem unreadable_of_contents (h : i.analyze (pathsOf contents) (ofContents contents) = .ok r) :
    r.unreadable = ((pathsOf contents).map canonical).filter fun p => p ∉ pathsOf contents := by
  rw [(accounts_of_analyze h).unreadable]
  refine List.filter_congr fun p _ => ?_
  rw [Bool.eq_iff_iff, Bool.not_eq_true', Bool.eq_false_iff, decide_eq_true_eq, ne_eq,
    Provider.reads_ofContents]

/-- The files that are told about are those whose canonical spelling has a content. -/
theorem paths_of_contents (h : i.analyze (pathsOf contents) (ofContents contents) = .ok r)
    (hfiles : i.settings.analysis.includeFiles = true) : r.files.map (·.path) =
      ((pathsOf contents).map canonical).filter (ofContents contents).reads := by
  rw [(accounts_of_analyze h).entries, if_pos hfiles, List.map_map]
  calc _ = (((pathsOf contents).map canonical).filter (ofContents contents).reads).map id :=
        List.map_congr_left fun _ _ => outcome_path
    _ = _ := List.map_id _

/-- What becomes of a content that is held under the path that is looked up. -/
theorem report_of_mem (hn : (pathsOf contents).Nodup) {e : String × List UInt8}
    (he : e ∈ contents) : (i.outcome (ofContents contents) e.1).report.path = e.1 ∧
      (i.outcome (ofContents contents) e.1).report.size = (e.2.length : Int) := by
  refine ⟨outcome_path, ?_⟩
  rw [outcome, Provider.ofContents_of_mem hn he]
  rfl

/-- **Canonical paths.** Every content is read, once, and counted with its own length. -/
theorem readsEach_of_canonical (hn : (pathsOf contents).Nodup)
    (hc : ∀ p ∈ pathsOf contents, IsCanonical p)
    (h : i.analyze (pathsOf contents) (ofContents contents) = .ok r) : i.ReadsEach contents r := by
  have hread : ∀ p ∈ pathsOf contents, (ofContents contents).reads p = true := fun p =>
    Provider.reads_ofContents.2
  have haccounts := accounts_of_analyze h
  rw [map_canonical_of_forall hc] at haccounts
  have hall : r.unreadable = [] := by
    rw [haccounts.unreadable, List.filter_eq_nil_iff]
    intro p hp
    rw [hread p hp]
    nofun
  refine ⟨hall, ?_, ?_, ?_⟩
  · have hfiles := haccounts.files
    rwa [hall, List.length_nil, Nat.add_zero, pathsOf, List.length_map] at hfiles
  · rw [haccounts.bytes, octetsOf, pathsOf, List.filterMap_map]
    refine congrArg (List.foldr (· + ·) 0) (List.filterMap_eq_map_iff_forall_eq_some.2 fun e he => ?_)
    rw [Function.comp_apply, Provider.ofContents_of_mem hn he]
    rfl
  · rw [haccounts.entries, List.filter_eq_self.2 hread]
    split
    · rw [pathsOf, List.map_map, List.map_map]
      exact List.map_congr_left fun e he => Prod.ext (report_of_mem hn he).1 (report_of_mem hn he).2
    · rfl

/-- A path that is not canonical is not looked up. -/
theorem ne_of_not_isCanonical {p q : String} (h : ¬IsCanonical p) : canonical q ≠ p :=
  fun heq => h (heq ▸ Path.isCanonical_canonical q)

/-- Two paths with one canonical spelling are two of the paths that are looked up. -/
theorem two_le_count {p : String} (hp : p ∈ pathsOf contents) (hc : canonical p ∈ pathsOf contents)
    (h : ¬IsCanonical p) : 2 ≤ ((pathsOf contents).map canonical).count (canonical p) := by
  have hne : canonical p ≠ p := ne_of_not_isCanonical h
  have hrest : canonical p ∈ (pathsOf contents).erase p := (List.mem_erase_of_ne hne).2 hc
  rw [((List.perm_cons_erase hp).map canonical).count_eq, List.map_cons, List.count_cons_self]
  have hcount : 0 < (((pathsOf contents).erase p).map canonical).count (canonical p) :=
    List.count_pos_iff.2 (List.mem_map.2 ⟨_, hrest, Path.canonical_canonical p⟩)
  omega

/-- A report that lists every content under its own path lists canonical paths only. -/
theorem canonical_of_readsEach (h : i.analyze (pathsOf contents) (ofContents contents) = .ok r)
    (hfiles : i.settings.analysis.includeFiles = true) (hreads : i.ReadsEach contents r) :
    ∀ p ∈ pathsOf contents, IsCanonical p := by
  intro p hp
  have hpaths : r.files.map (·.path) = pathsOf contents := by
    have := congrArg (List.map Prod.fst) hreads.entries
    rwa [if_pos hfiles, List.map_map, List.map_map] at this
  rw [paths_of_contents h hfiles] at hpaths
  rw [← hpaths] at hp
  obtain ⟨q, -, rfl⟩ := List.mem_map.1 (List.mem_filter.1 hp).1
  exact Path.isCanonical_canonical q

/-- In place of a path that is not canonical its canonical spelling is looked up: there is nothing
under it, or what is there is read for another path too. -/
theorem missed_of_not_canonical {p : String}
    (h : i.analyze (pathsOf contents) (ofContents contents) = .ok r) (hp : p ∈ pathsOf contents)
    (hno : ¬IsCanonical p) : canonical p ∈ r.unreadable ∨
      2 ≤ ((pathsOf contents).map canonical).count (canonical p) ∧
        (i.settings.analysis.includeFiles = true →
          2 ≤ (r.files.map (·.path)).count (canonical p)) := by
  by_cases hc : canonical p ∈ pathsOf contents
  · refine .inr ⟨two_le_count hp hc hno, fun hfiles => ?_⟩
    rw [paths_of_contents h hfiles, List.count_filter (Provider.reads_ofContents.2 hc)]
    exact two_le_count hp hc hno
  · left
    rw [unreadable_of_contents h, List.mem_filter, decide_eq_true_eq]
    exact ⟨List.mem_map.2 ⟨p, hp, rfl⟩, hc⟩

/-- **Contents by their own paths.** Whether or not the paths are spelt canonically before they are
handed in makes no difference. If they are canonical as they stand, an analysis ends, and every
content is read, once, and counted with its own length. A report without unreadable paths means that
the canonical spelling of every path has a content; one that lists every content under its own path,
with its own length, means that all paths are canonical. The content of a path that is not is never
read: the path is unreadable in its canonical spelling, or the content under that spelling is read
once more. -/
theorem analyze_contents (i : Identifier) (contents : List (String × List UInt8))
    (hn : (pathsOf contents).Nodup)
    (hid : ∀ p ∈ pathsOf contents, i.Identifies (ofContents contents) (canonical p)) :
    i.analyze ((pathsOf contents).map canonical) (ofContents contents) =
      i.analyze (pathsOf contents) (ofContents contents) ∧
    ((∀ p ∈ pathsOf contents, IsCanonical p) →
      ∃ r, i.analyze (pathsOf contents) (ofContents contents) = .ok r ∧
        i.ReadsEach contents r) ∧
    ∀ r, i.analyze (pathsOf contents) (ofContents contents) = .ok r →
      (r.unreadable = [] ↔ ∀ p ∈ pathsOf contents, canonical p ∈ pathsOf contents) ∧
      (i.settings.analysis.includeFiles = true →
        (i.ReadsEach contents r ↔ ∀ p ∈ pathsOf contents, IsCanonical p)) ∧
      ∀ p ∈ pathsOf contents, ¬IsCanonical p →
        p ∉ (pathsOf contents).map canonical ∧
        (canonical p ∈ r.unreadable ∨
          2 ≤ ((pathsOf contents).map canonical).count (canonical p) ∧
            (i.settings.analysis.includeFiles = true →
              2 ≤ (r.files.map (·.path)).count (canonical p))) := by
  refine ⟨analyze_map_canonical i _ _, fun hc => ?_, fun r h => ⟨?_, fun hfiles => ⟨?_, fun hc =>
    readsEach_of_canonical hn hc h⟩, fun p hp hno => ⟨?_, ?_⟩⟩⟩
  · have hread : ∀ p ∈ pathsOf contents, (ofContents contents).reads (canonical p) = true := by
      intro p hp
      rw [Path.canonical_eq_self_iff.2 (hc p hp)]
      exact Provider.reads_ofContents.2 hp
    obtain ⟨r, h⟩ := analyze_of_reads hread hid
    exact ⟨r, h, readsEach_of_canonical hn hc h⟩
  · rw [unreadable_of_contents h, List.filter_eq_nil_iff, List.forall_mem_map]
    simp only [decide_eq_true_eq, Decidable.not_not]
  · exact canonical_of_readsEach h hfiles
  · intro hmem
    obtain ⟨q, -, heq⟩ := List.mem_map.1 hmem
    exact ne_of_not_isCanonical hno heq
  · exact missed_of_not_canonical h hp hno

/-- Two contents under canonical paths are both read, in whatever case they are identified. -/
theorem two_contents_read : ∃ kb r,
    KnowledgeBase.make [{ name := "A", category := .programming, extensions := [".x"] }] [] [] [] =
      .ok kb ∧
    (plain kb).analyze ["d/a.x", "b"] (ofContents [("d/a.x", [120]), ("b", [120, 120])]) = .ok r ∧
    r.unreadable = [] ∧
    r.ofLanguages.bytes + r.unknown.bytes + r.excluded.bytes = 3 := by
  obtain ⟨kb, hkb, hmodels⟩ : ∃ kb, KnowledgeBase.make
      [{ name := "A", category := .programming, extensions := [".x"] }] [] [] [] = .ok kb ∧
      kb.hasModels = false := ⟨_, rfl, rfl⟩
  obtain ⟨-, hcanonical, -⟩ := analyze_contents (plain kb) [("d/a.x", [120]), ("b", [120, 120])]
    (by decide) fun p _ => identifies_of_no_models hmodels _
  obtain ⟨r, hr, hreads⟩ := hcanonical (by decide)
  exact ⟨kb, r, hkb, hr, hreads.unreadable, hreads.bytes⟩

/-- **Counterexample.** The content under a path with `./` in front is not found, and nothing is
counted. -/
theorem lone_content_missed : ∃ kb r, KnowledgeBase.make [] [] [] [] = .ok kb ∧
    (plain kb).analyze ["./a"] (ofContents [("./a", [120])]) = .ok r ∧ r.unreadable = ["a"] ∧
    r.ofLanguages.bytes + r.unknown.bytes + r.excluded.bytes = 0 := by
  obtain ⟨kb, hkb, hmodels⟩ : ∃ kb, KnowledgeBase.make [] [] [] [] = .ok kb ∧
      kb.hasModels = false := ⟨_, rfl, rfl⟩
  have hid : ∀ p ∈ ["./a"], (plain kb).Identifies (ofContents [("./a", [120])]) (canonical p) :=
    fun p _ => identifies_of_no_models hmodels _
  obtain ⟨r, hr, -⟩ := analyze_total rfl ["./a"] hid
  have haccounts := accounts_of_analyze hr
  refine ⟨kb, r, hkb, hr, ?_, ?_⟩
  · rw [haccounts.unreadable]
    decide +kernel
  · rw [haccounts.bytes]
    decide +kernel

end Identifier

end LangId
