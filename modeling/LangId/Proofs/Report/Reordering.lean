import LangId.Proofs.Report.Combination
import LangId.Proofs.Report.Shares

/-!
# Analyses in parts and in other orders

A report lists its languages in the order in which they first came up, so that an analysis of the
same paths in another order may end with another report. No statistic tells the two apart.

**Statistics.** `SameStatistics` relates two reports whose languages are one table, in whatever
order they stand, and lists what follows from that for everything that is computed from languages.
It is enough that all buckets agree (`sameStatistics_of_totalsIn`), because in a well-formed report
a language is there exactly if it has a file.

**Results.**
* `ranked_of_perm`: the ranking of languages depends on the table only, since names are told apart.
* `reordered`: the accounts of the same paths in two orders.
* `analyze_homomorphism`: an analysis of two lists of paths combines the analyses of both, and an
  analysis in another order has the same statistics.
-/
namespace LangId

theorem Totals.sum_of_perm {ts us : List Totals} (h : ts.Perm us) : sum ts = sum us := by
  refine h.foldr_eq' (fun a _ b _ rest => ?_) _
  rw [← plus_assoc, plus_comm b a, plus_assoc]

namespace Report

open Table

variable {r s : Report} {a b : String × Totals}

/-! ## Ranks -/

theorem notBehind_iff : notBehind a b = true ↔
    b.2.bytes < a.2.bytes ∨ a.2.bytes = b.2.bytes ∧ Text.notAfter a.1 b.1 = true := by
  rw [notBehind]
  by_cases h : a.2.bytes = b.2.bytes <;> simp [h]

theorem notBehind_trans (a b c : String × Totals) (hab : notBehind a b = true)
    (hbc : notBehind b c = true) : notBehind a c = true := by
  rw [notBehind_iff] at *
  rcases hab with hab | ⟨hab, hnames⟩
  · left
    omega
  · rcases hbc with hbc | ⟨hbc, hnames'⟩
    · left
      omega
    · exact .inr ⟨hab.trans hbc, Text.notAfter_trans _ _ _ hnames hnames'⟩

theorem notBehind_total (a b : String × Totals) : (notBehind a b || notBehind b a) = true := by
  have hnames := Text.notAfter_total a.1 b.1
  rw [Bool.or_eq_true] at hnames ⊢
  rw [notBehind_iff, notBehind_iff]
  rcases Int.lt_trichotomy a.2.bytes b.2.bytes with hlt | heq | hlt
  · exact .inr (.inl hlt)
  · exact hnames.imp (fun h => .inr ⟨heq, h⟩) fun h => .inr ⟨heq.symm, h⟩
  · exact .inl (.inl hlt)

theorem name_eq_of_notBehind (hab : notBehind a b = true) (hba : notBehind b a = true) :
    a.1 = b.1 := by
  rw [notBehind_iff] at hab hba
  rcases hab with hab | ⟨hab, hnames⟩
  · omega
  · rcases hba with hba | ⟨-, hnames'⟩
    · omega
    · exact Text.notAfter_antisymm hnames hnames'

theorem pairwise_ranked (r : Report) : r.ranked.Pairwise fun a b => notBehind a b = true :=
  List.pairwise_mergeSort notBehind_trans notBehind_total _

/-- The same languages have the same ranking. -/
theorem ranked_of_perm (hr : (r.languages.map (·.1)).Nodup)
    (h : r.languages.Perm s.languages) : r.ranked = s.ranked := by
  have hperm : r.ranked.Perm s.ranked :=
    (List.mergeSort_perm _ _).trans (h.trans (List.mergeSort_perm _ _).symm)
  refine hperm.eq_of_pairwise (fun a b ha hb hab hba => ?_) (pairwise_ranked r) (pairwise_ranked s)
  -- neither stands behind the other, so they have one name, and names are told apart
  have hname := name_eq_of_notBehind hab hba
  have ha := (mem_iff_lookup hr).1 (mem_ranked.1 ha)
  have hb := (mem_iff_lookup hr).1 (mem_ranked.1 (hperm.mem_iff.2 hb))
  rw [hname, hb] at ha
  exact Prod.ext hname (Option.some.inj ha).symm

/-! ## Statistics -/

/-- Two reports have the same statistics, although their languages may have come up in different
orders. -/
structure SameStatistics (r s : Report) : Prop where
  languages : r.languages.Perm s.languages
  lookup : ∀ l, r.languages.lookup l = s.languages.lookup l
  unknown : r.unknown = s.unknown
  excluded : r.excluded = s.excluded
  ranked : r.ranked = s.ranked
  totalBytes : r.totalBytes = s.totalBytes
  primary : r.primary? = s.primary?

/-- What a report has of a language can be read off the bucket of the language. -/
theorem lookup_of_wellformed (h : r.Wellformed) (l : String) : r.languages.lookup l =
    if (r.totalsIn (.language l)).files = 0 then none else some (r.totalsIn (.language l)) := by
  rw [totalsIn]
  cases hl : r.languages.lookup l with
  | none => rfl
  | some t =>
    have hfiles : 1 ≤ t.files := h.present (l, t) ((mem_iff_lookup h.nodup).2 hl)
    rw [Option.getD_some, if_neg (by omega)]

theorem totalBytes_of_perm (h : r.languages.Perm s.languages) : r.totalBytes = s.totalBytes := by
  rw [totalBytes_eq, totalBytes_eq, ofLanguages, ofLanguages, Totals.sum_of_perm (h.map _)]

/-- Buckets are all that statistics depend on. -/
theorem sameStatistics_of_totalsIn (hr : r.Wellformed) (hs : s.Wellformed)
    (h : ∀ b, r.totalsIn b = s.totalsIn b) : r.SameStatistics s := by
  have hlookup : ∀ l, r.languages.lookup l = s.languages.lookup l := fun l => by
    rw [lookup_of_wellformed hr, lookup_of_wellformed hs, h]
  have hperm := perm_of_lookup hr.nodup hs.nodup hlookup
  have hranked := ranked_of_perm hr.nodup hperm
  exact {
    languages := hperm
    lookup := hlookup
    unknown := h .unknown
    excluded := h .excluded
    ranked := hranked
    totalBytes := totalBytes_of_perm hperm
    primary := by rw [primary?, primary?, hranked] }

end Report

namespace Identifier

variable {i : Identifier} {provider : Provider} {paths paths' : List String} {r r' : Report}

/-- The same paths in another order make the same statistics, and what is listed is listed in
another order. -/
theorem reordered (h : paths'.Perm paths) (hr : i.Accounts provider paths r)
    (hr' : i.Accounts provider paths' r') :
    r'.SameStatistics r ∧ r'.unreadable.Perm r.unreadable ∧ r'.files.Perm r.files := by
  refine ⟨?_, ?_, ?_⟩
  · refine Report.sameStatistics_of_totalsIn hr'.wellformed hr.wellformed fun b => ?_
    rw [hr'.totals, hr.totals]
    exact Totals.sum_of_perm ((h.filter _).map _)
  · rw [hr'.unreadable, hr.unreadable]
    exact h.filter _
  · rw [hr'.entries, hr.entries]
    split
    · exact (h.filter _).map _
    · exact .refl _

/-- **Parts and orders.** If unreadable files are no error and identification does not fail, an
analysis of two lists of paths combines the analyses of both, bucket by bucket. An analysis of the
same paths in another order has the same statistics, and lists the files in the order of its
paths. -/
theorem analyze_homomorphism (i : Identifier) (provider : Provider) (paths more : List String)
    (hs : i.settings.analysis.failOnUnreadable = false)
    (h : ∀ p ∈ paths ++ more, i.Identifies provider (Path.canonical p)) :
    ∃ r s, i.analyze paths provider = .ok r ∧ i.analyze more provider = .ok s ∧
      i.analyze (paths ++ more) provider = .ok (r.combine s) ∧
      (∀ b, (r.combine s).totalsIn b = (r.totalsIn b).plus (s.totalsIn b)) ∧
      ∀ paths', paths'.Perm paths → ∃ r', i.analyze paths' provider = .ok r' ∧
        r'.SameStatistics r ∧ r'.unreadable.Perm r.unreadable ∧ r'.files.Perm r.files ∧
        i.Accounts provider (paths'.map Path.canonical) r' := by
  obtain ⟨hpaths, hmore⟩ := List.forall_mem_append.1 h
  obtain ⟨r, hr, -⟩ := analyze_total hs paths hpaths
  obtain ⟨s, hs', -⟩ := analyze_total hs more hmore
  refine ⟨r, s, hr, hs', analyze_append hpaths hmore hr hs', Report.totalsIn_combine r s, ?_⟩
  intro paths' hperm
  obtain ⟨r', hr', -⟩ := analyze_total hs paths' fun p hp => hpaths p (hperm.mem_iff.1 hp)
  have haccounts := accounts_of_analyze hr'
  obtain ⟨hsame, hunreadable, hfiles⟩ :=
    reordered (hperm.map Path.canonical) (accounts_of_analyze hr) haccounts
  exact ⟨r', hr', hsame, hunreadable, hfiles, haccounts⟩

/-- Two languages that are told apart by the extension. -/
def twoLanguages : List Language :=
  [{ name := "A", category := .programming, extensions := [".x"] },
    { name := "B", category := .programming, extensions := [".y"] }]

/-- A file of each of them. -/
def oneOfEach : Provider := Provider.ofContents [("a.x", [120]), ("b.y", [120])]

/-- Three paths, one of which is not there, and then one of them once more in another spelling: both
analyses are combined. The three paths backwards have the same ranking. -/
theorem backwards_ranked : ∃ kb r s r', KnowledgeBase.make twoLanguages [] [] [] = .ok kb ∧
    (plain kb).analyze ["a.x", "gone", "b.y"] oneOfEach = .ok r ∧
    (plain kb).analyze ["./a.x"] oneOfEach = .ok s ∧
    (plain kb).analyze ["a.x", "gone", "b.y", "./a.x"] oneOfEach = .ok (r.combine s) ∧
    (plain kb).analyze ["b.y", "gone", "a.x"] oneOfEach = .ok r' ∧
    r'.ranked = r.ranked ∧ r'.unreadable = ["gone"] := by
  obtain ⟨kb, hkb, hmodels⟩ : ∃ kb, KnowledgeBase.make twoLanguages [] [] [] = .ok kb ∧
      kb.hasModels = false := ⟨_, rfl, rfl⟩
  obtain ⟨r, s, hr, hs, hboth, -, horders⟩ := analyze_homomorphism (plain kb) oneOfEach
    ["a.x", "gone", "b.y"] ["./a.x"] rfl fun p _ => identifies_of_no_models hmodels _
  obtain ⟨r', hr', hsame, -, -, haccounts⟩ := horders ["b.y", "gone", "a.x"] (by decide)
  refine ⟨kb, r, s, r', hkb, hr, hs, hboth, hr', hsame.ranked, ?_⟩
  rw [haccounts.unreadable]
  decide +kernel

end Identifier

end LangId
