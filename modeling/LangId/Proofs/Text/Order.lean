import LangId.Text.Order

/-!
# Sets of texts

`sortedSet` brings texts into strict order (`pairwise_sortedSet`). A set of texts is therefore told
by its members (`sortedSet_congr`): lists of the same texts, however often and in whatever order these
come, have one set.
-/
namespace LangId.Text

theorem pairwise_sorted (texts : List String) :
    (sorted texts).Pairwise fun a b => notAfter a b = true :=
  List.pairwise_mergeSort notAfter_trans notAfter_total texts

/-- Texts without repetition come into strict order. -/
theorem pairwise_sorted_of_nodup {texts : List String} (h : texts.Nodup) :
    (sorted texts).Pairwise (· < ·) := by
  have hapart : (sorted texts).Pairwise (· ≠ ·) := (List.mergeSort_perm _ _).nodup_iff.2 h
  exact ((pairwise_sorted texts).and hapart).imp fun ⟨hle, hne⟩ => lt_of_notAfter hle hne

theorem pairwise_consNew {t : String} {l : List String} (h : l.Pairwise (· < ·))
    (ht : ∀ u ∈ l, notAfter t u = true) : (consNew t l).Pairwise (· < ·) := by
  cases l with
  | nil => exact List.pairwise_singleton _ _
  | cons u rest =>
    rw [consNew]
    split
    · exact h
    · rename_i hne
      have hfirst : t < u := lt_of_notAfter (ht u List.mem_cons_self) (by simpa using hne)
      refine List.pairwise_cons.2 ⟨fun v hv => ?_, h⟩
      rcases List.mem_cons.1 hv with rfl | hv
      · exact hfirst
      · exact String.lt_trans hfirst (List.rel_of_pairwise_cons h hv)

/-- Sets are in strict order. -/
theorem pairwise_sortedSet (texts : List String) : (sortedSet texts).Pairwise (· < ·) := by
  rw [sortedSet]
  generalize hl : sorted texts = l
  have hsorted : l.Pairwise fun a b => notAfter a b = true := hl ▸ pairwise_sorted texts
  clear hl
  have hmem (l : List String) (t : String) : t ∈ l.foldr consNew [] → t ∈ l := by
    induction l with
    | nil => simp
    | cons u rest ih =>
      rw [List.foldr_cons, mem_consNew, List.mem_cons]
      exact Or.imp_right ih
  induction l with
  | nil => exact List.Pairwise.nil
  | cons t rest ih =>
    obtain ⟨ht, hrest⟩ := List.pairwise_cons.1 hsorted
    exact pairwise_consNew (ih hrest) fun u hu => ht u (hmem rest u hu)

/-- No text comes twice. -/
theorem nodup_sortedSet (texts : List String) : (sortedSet texts).Nodup :=
  (pairwise_sortedSet texts).imp fun {a b} hlt (heq : a = b) =>
    String.lt_irrefl b (by rwa [heq] at hlt)

/-- Lists of the same texts have the same set. -/
theorem sortedSet_congr {texts texts' : List String} (h : ∀ t, t ∈ texts ↔ t ∈ texts') :
    sortedSet texts = sortedSet texts' := by
  have hperm : (sortedSet texts).Perm (sortedSet texts') :=
    (List.perm_ext_iff_of_nodup (nodup_sortedSet _) (nodup_sortedSet _)).2 fun t => by
      rw [mem_sortedSet, mem_sortedSet, h]
  refine hperm.eq_of_pairwise (fun a b _ _ hab hba => ?_) (pairwise_sortedSet _)
    (pairwise_sortedSet _)
  exact absurd (String.lt_trans hab hba) (String.lt_irrefl a)

/-! ## Common beginnings -/

variable {s t : List Char}

theorem lt_iff {a b : String} : a < b ↔ a.toList < b.toList := Iff.rfl

theorem distinct_of_lt {a b : String} (h : a < b) : a ≠ b := fun heq => String.lt_irrefl _ (heq ▸ h)

/-- A common beginning does not matter. -/
theorem append_lt_append_iff (start : List Char) : start ++ s < start ++ t ↔ s < t := by
  induction start with
  | nil => exact Iff.rfl
  | cons c start ih =>
    rw [List.cons_append, List.cons_append, List.cons_lt_cons_iff, ih]
    exact ⟨fun h => (h.resolve_left (Char.lt_irrefl c)).2, fun h => .inr ⟨rfl, h⟩⟩

/-- What stands behind a text matters only to those that begin with it. -/
theorem lt_append_iff {rest : List Char} (h : ¬ t <+: s) : s < t ++ rest ↔ s < t := by
  induction t generalizing s with
  | nil => exact absurd List.nil_prefix h
  | cons c t ih =>
    cases s with
    | nil => exact iff_of_true (List.nil_lt_cons _ _) (List.nil_lt_cons _ _)
    | cons d s =>
      rw [List.cons_append, List.cons_lt_cons_iff, List.cons_lt_cons_iff]
      refine or_congr_right (and_congr_right fun heq => ih fun hprefix => h ?_)
      exact List.cons_prefix_cons.2 ⟨heq.symm, hprefix⟩

theorem append_lt_iff {rest : List Char} (h : ¬ s <+: t) : s ++ rest < t ↔ s < t := by
  induction s generalizing t with
  | nil => exact absurd List.nil_prefix h
  | cons c s ih =>
    cases t with
    | nil => exact iff_of_false (List.not_lt_nil _) (List.not_lt_nil _)
    | cons d t =>
      rw [List.cons_append, List.cons_lt_cons_iff, List.cons_lt_cons_iff]
      refine or_congr_right (and_congr_right fun heq => ih fun hprefix => h ?_)
      exact List.cons_prefix_cons.2 ⟨heq, hprefix⟩

end LangId.Text
