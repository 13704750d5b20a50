import LangId.Proofs.Classifier.Choice
import LangId.Proofs.Report.Merge

/-!
# Shares of languages

The shares of a report and its ranked languages are two views of one table, and whoever shows a
report looks up in the one what the other lists.

**Results.**
* `shares_names`: both have the same names exactly if there are no languages, or if there are bytes
  to divide and no number is beyond the range of doubles (`Divisible`).
* `lookup_of_mapM`: where names are told apart, every language finds its own share.
* `divisible_iff`: where no size is negative, only the total counts.
-/
namespace LangId

/-- Whether an integer is in the range of doubles. -/
def Scale.InRange (n : Int) : Prop := -doubleLimit < n ∧ n < doubleLimit

theorem Scale.inRange_of_nonneg {n : Int} (h : 0 ≤ n) (hlt : n < doubleLimit) : InRange n := by
  have hlimit : 0 < doubleLimit := by decide +kernel
  exact ⟨by omega, hlt⟩

theorem Scale.ofInt_double_eq_ok {n : Int} :
    (∃ x, Scale.double.ofInt n = .ok x) ↔ Scale.InRange n := by
  rw [Scale.ofInt_double, InRange]
  generalize doubleLimit = limit
  split
  · simp only [reduceCtorEq, exists_false, false_iff, not_and]
    omega
  · simp only [Except.ok.injEq, exists_eq', true_iff]
    omega

namespace Report

variable {r : Report}

/-- Whether the bytes of a report can be divided among its languages. -/
structure Divisible (r : Report) : Prop where
  total : r.totalBytes ≠ 0
  whole : Scale.InRange r.totalBytes
  parts : ∀ e ∈ r.languages, Scale.InRange e.2.bytes

/-- The share of an entry, with its name. -/
def entryShare (total : Int) (e : String × Totals) : Except ScoreError (String × Float) := do
  return (e.1, ← share e.2.bytes total)

theorem shares_eq (h : r.totalBytes ≠ 0) : r.shares = r.ranked.mapM (entryShare r.totalBytes) := by
  rw [shares, if_neg (by simpa using h)]
  rfl

theorem mem_ranked {e : String × Totals} : e ∈ r.ranked ↔ e ∈ r.languages :=
  (List.mergeSort_perm _ _).mem_iff

theorem ranked_eq_nil : r.ranked = [] ↔ r.languages = [] := by
  simp only [List.eq_nil_iff_forall_not_mem, mem_ranked]

theorem share_eq_ok {part whole : Int} :
    (∃ x, share part whole = .ok x) ↔ Scale.InRange part ∧ Scale.InRange whole := by
  simp only [← Scale.ofInt_double_eq_ok, share, bind_eq_ok, pure_eq_ok]
  constructor
  · rintro ⟨_, a, ha, b, hb, -⟩
    exact ⟨⟨a, ha⟩, b, hb⟩
  · rintro ⟨⟨a, ha⟩, b, hb⟩
    exact ⟨_, a, ha, b, hb, rfl⟩

theorem entryShare_eq_ok {total : Int} {e : String × Totals} {named : String × Float} :
    entryShare total e = .ok named ↔ named.1 = e.1 ∧ share e.2.bytes total = .ok named.2 := by
  obtain ⟨name, x⟩ := named
  simp only [entryShare, bind_eq_ok, pure_eq_ok, Prod.mk.injEq]
  constructor
  · rintro ⟨y, hy, rfl, rfl⟩
    exact ⟨rfl, hy⟩
  · rintro ⟨rfl, hx⟩
    exact ⟨x, hx, rfl, rfl⟩

/-- All shares of a report whose bytes can be divided. -/
theorem shares_of_divisible (h : r.Divisible) :
    ∃ shares, r.shares = .ok shares ∧ r.ranked.mapM (entryShare r.totalBytes) = .ok shares := by
  rw [shares_eq h.total]
  have hall : ∀ e ∈ r.ranked, ∃ named, entryShare r.totalBytes e = .ok named := by
    intro e he
    obtain ⟨x, hx⟩ := share_eq_ok.2 ⟨h.parts e (mem_ranked.1 he), h.whole⟩
    exact ⟨(e.1, x), entryShare_eq_ok.2 ⟨rfl, hx⟩⟩
  obtain ⟨shares, hs⟩ := mapM_eq_ok.2 hall
  exact ⟨shares, hs, hs⟩

/-- Nothing but a total of zero or a number that is too large keeps bytes from being divided. -/
theorem divisible_of_shares {shares : List (String × Float)} (hne : r.languages ≠ [])
    (h0 : r.totalBytes ≠ 0) (h : r.shares = .ok shares) : r.Divisible := by
  rw [shares_eq h0] at h
  have hall : ∀ e ∈ r.languages, Scale.InRange e.2.bytes ∧ Scale.InRange r.totalBytes := by
    intro e he
    obtain ⟨named, hn⟩ := mapM_eq_ok.1 ⟨shares, h⟩ e (mem_ranked.2 he)
    exact share_eq_ok.1 ⟨_, (entryShare_eq_ok.1 hn).2⟩
  obtain ⟨e, he⟩ := List.exists_mem_of_ne_nil _ hne
  exact ⟨h0, (hall e he).2, fun e he => (hall e he).1⟩

theorem shares_of_zero (h : r.totalBytes = 0) : r.shares = .ok [] := by
  rw [shares, if_pos (by simpa using h)]

theorem totalBytes_of_nil (h : r.languages = []) : r.totalBytes = 0 := by
  rw [totalBytes, h]
  rfl

/-- **Names of shares.** Shares can be computed and have the names of the ranked languages exactly
if there are no languages or the bytes can be divided among them. -/
theorem shares_names (r : Report) :
    (∃ shares, r.shares = .ok shares ∧ shares.map (·.1) = r.ranked.map (·.1)) ↔
      r.languages = [] ∨ r.Divisible := by
  constructor
  · rintro ⟨shares, hs, hnames⟩
    by_cases hne : r.languages = []
    · exact .inl hne
    · refine .inr (divisible_of_shares hne (fun h0 => ?_) hs)
      -- with a total of zero there are no shares, but there are languages
      rw [shares_of_zero h0] at hs
      obtain rfl := Except.ok.inj hs
      exact hne (ranked_eq_nil.1 (List.map_eq_nil_iff.1 hnames.symm))
  · rintro (hnil | hd)
    · refine ⟨[], shares_of_zero (totalBytes_of_nil hnil), ?_⟩
      rw [ranked_eq_nil.2 hnil]
      rfl
    · obtain ⟨shares, hs, hm⟩ := shares_of_divisible hd
      exact ⟨shares, hs, map_of_mapM (fun _ _ h => (entryShare_eq_ok.1 h).1) hm⟩

/-! ## Looking shares up -/

/-- Where names are told apart, every entry finds its own share. -/
theorem lookup_of_mapM {entries : List (String × Totals)} {total : Int}
    {shares : List (String × Float)} (hnodup : (entries.map (·.1)).Nodup)
    (h : entries.mapM (entryShare total) = .ok shares) {e : String × Totals} (he : e ∈ entries) :
    ∃ x, share e.2.bytes total = .ok x ∧ shares.lookup e.1 = some x := by
  induction entries generalizing shares with
  | nil => cases he
  | cons first rest ih =>
    obtain ⟨⟨name, x⟩, shares', hfirst, hrest, rfl⟩ := mapM_cons_eq_ok.1 h
    obtain ⟨hname, hx⟩ := entryShare_eq_ok.1 hfirst
    obtain ⟨hnew, hnodup⟩ := List.nodup_cons.1 hnodup
    dsimp only at hname hx
    subst hname
    rcases List.mem_cons.1 he with rfl | he
    · exact ⟨x, hx, List.lookup_cons_self⟩
    · obtain ⟨y, hy, hlookup⟩ := ih hnodup hrest he
      have hne : e.1 ≠ first.1 := fun heq => hnew (List.mem_map.2 ⟨e, he, heq⟩)
      refine ⟨y, hy, ?_⟩
      rwa [Table.lookup_cons, if_neg hne]

/-! ## Sizes that are not negative -/

theorem totalBytes_eq (r : Report) : r.totalBytes = r.ofLanguages.bytes := by
  have hfold : ∀ (entries : List (String × Totals)) (n : Int),
      (entries.map fun e => e.2.bytes).foldl (· + ·) n =
        n + (Totals.sum (entries.map (·.2))).bytes := by
    intro entries
    induction entries with
    | nil => exact fun n => (Int.add_zero n).symm
    | cons e rest ih =>
      intro n
      rw [List.map_cons, List.foldl_cons, ih, Int.add_assoc]
      rfl
  rw [totalBytes, hfold, Int.zero_add]
  rfl

/-- No part is negative or more than the total. -/
theorem bytes_le_sum {entries : List (String × Totals)} (h : ∀ e ∈ entries, 0 ≤ e.2.bytes) :
    0 ≤ (Totals.sum (entries.map (·.2))).bytes ∧
      ∀ e ∈ entries, e.2.bytes ≤ (Totals.sum (entries.map (·.2))).bytes := by
  induction entries with
  | nil => exact ⟨Int.le_refl _, nofun⟩
  | cons first rest ih =>
    obtain ⟨hfirst, hrest⟩ := List.forall_mem_cons.1 h
    obtain ⟨hsum, hle⟩ := ih hrest
    have heq : (Totals.sum ((first :: rest).map (·.2))).bytes =
        first.2.bytes + (Totals.sum (rest.map (·.2))).bytes := rfl
    rw [heq]
    refine ⟨by omega, List.forall_mem_cons.2 ⟨by omega, fun e he => ?_⟩⟩
    have := hle e he
    omega

/-- Without negative sizes only the total counts. -/
theorem divisible_iff (h : ∀ e ∈ r.languages, 0 ≤ e.2.bytes) :
    r.Divisible ↔ 0 < r.totalBytes ∧ r.totalBytes < doubleLimit := by
  obtain ⟨hsum, hle⟩ := bytes_le_sum h
  have heq : r.totalBytes = (Totals.sum (r.languages.map (·.2))).bytes := totalBytes_eq r
  rw [← heq] at hsum hle
  constructor
  · rintro ⟨h0, hwhole, -⟩
    exact ⟨by omega, hwhole.2⟩
  · rintro ⟨hpos, hlt⟩
    refine ⟨by omega, Scale.inRange_of_nonneg hsum hlt, fun e he => ?_⟩
    exact Scale.inRange_of_nonneg (h e he) (Int.lt_of_le_of_lt (hle e he) hlt)

end Report

end LangId
