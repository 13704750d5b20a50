import LangId.Candidates

/-!
# Narrowing candidates

A proposal either meets a set of candidates, and then leaves what both hold, or it changes nothing.
Everything else about `Candidates.narrow` follows from this one equation, `narrow_eq`: the test
that a proposal "says nothing new" makes no difference to the set that comes out.

Sets made of lists (`Candidates.ofList`) hold exactly the languages of the list, each once, in
order of their names.
-/
namespace LangId.Candidates

open Text

/-! ## Narrowing -/

theorem mem_inter {a b : Candidates} {l : Language} :
    l ∈ a.inter b ↔ l ∈ a.members ∧ l ∈ b.members := by
  simp [inter, contains]

theorem inter_sublist (a b : Candidates) : (a.inter b).Sublist a.members :=
  List.filter_sublist

/-- A proposal changes a set exactly if it is no universe and meets the set; then what both hold is
left, and the mark of the universe is gone. -/
theorem narrow_eq (a b : Candidates) :
    a.narrow b = if b.isUniverse = true ∨ a.inter b = [] then a else ⟨a.inter b, false⟩ := by
  unfold narrow narrow?
  by_cases hu : b.isUniverse = true
  · simp [hu]
  by_cases he : a.inter b = []
  · simp [hu, he]
  -- left is a proposal that meets the set; if it keeps all of a set without mark, both sides are
  -- this set
  simp only [hu, he, Bool.false_eq_true, if_false, or_self]
  split
  · rename_i hfull
    obtain ⟨hlen, hmark⟩ : (a.inter b).length = a.members.length ∧ a.isUniverse = false := by
      simpa [he] using hfull
    have hall := (inter_sublist a b).eq_of_length hlen
    obtain ⟨members, mark⟩ := a
    simp_all
  · rfl

/-- A set is left as it is exactly by a proposal that is the universe, that does not meet the set,
or that holds all of a set without mark. -/
theorem narrow?_eq_none {a b : Candidates} : a.narrow? b = none ↔
    b.isUniverse = true ∨ a.inter b = [] ∨ a.inter b = a.members ∧ a.isUniverse = false := by
  have hfull : (a.inter b).length = a.members.length ↔ a.inter b = a.members :=
    ⟨(inter_sublist a b).eq_of_length, congrArg List.length⟩
  unfold narrow?
  cases b.isUniverse with
  | true => simp
  | false => by_cases he : a.inter b = [] <;> simp [he, hfull]

/-! ## The decided language -/

theorem single?_eq_some {c : Candidates} {l : Language} :
    c.single? = some l ↔ c = ⟨[l], false⟩ := by
  obtain ⟨members, mark⟩ := c
  unfold single?
  split <;> simp_all

/-- A set that evidence has led to decides nothing if and only if it does not hold one language. -/
theorem single?_eq_none {c : Candidates} (h : c.isUniverse = false) :
    c.single? = none ↔ c.members.length ≠ 1 := by
  obtain ⟨members, mark⟩ := c
  match members, mark with
  | [], _ => simp [single?]
  | [l], false => simp [single?]
  | [l], true => simp at h
  | _ :: _ :: _, _ => simp [single?]

theorem eq_of_size_le_one {c : Candidates} {l m : Language} (h : c.size ≤ 1) (hl : l ∈ c.members)
    (hm : m ∈ c.members) : l = m := by
  obtain ⟨members, mark⟩ := c
  match members, h with
  | [only], _ => rw [List.mem_singleton.1 hl, List.mem_singleton.1 hm]

/-! ## Sets made of lists -/

theorem eraseDups_of_nodup {languages : List Language} (h : languages.Nodup) :
    languages.eraseDups = languages := by
  induction languages with
  | nil => rfl
  | cons l rest ih =>
    obtain ⟨hl, hrest⟩ := List.nodup_cons.1 h
    have hkeep : rest.filter (fun b => !b == l) = rest :=
      List.filter_eq_self.2 fun b hb => by simpa using fun heq : b = l => hl (heq ▸ hb)
    rw [List.eraseDups_cons, hkeep, ih hrest]

theorem mem_ofList {languages : List Language} {mark : Bool} {l : Language} :
    l ∈ (ofList languages mark).members ↔ l ∈ languages := by
  simp [ofList, List.mem_eraseDups]

theorem pairwise_mergeSort_byName (languages : List Language) :
    (languages.mergeSort byName).Pairwise fun a b => notAfter a.name b.name = true := by
  have h : (languages.mergeSort byName).Pairwise fun a b => byName a b = true := by
    apply List.pairwise_mergeSort
    · exact fun a b c => notAfter_trans a.name b.name c.name
    · exact fun a b => notAfter_total a.name b.name
  exact h

theorem mergeSort_of_strict {languages : List Language}
    (h : languages.Pairwise fun a b => a.name < b.name) :
    languages.mergeSort byName = languages := by
  have hsorted : languages.Pairwise fun a b => byName a b = true := h.imp fun hlt =>
    notAfter_iff.2 fun hgt => String.lt_irrefl _ (String.lt_trans hlt hgt)
  exact List.mergeSort_of_pairwise hsorted

theorem nodup_of_strict {languages : List Language}
    (h : languages.Pairwise fun a b => a.name < b.name) : languages.Nodup :=
  h.imp fun hlt heq => by
    rw [heq] at hlt
    exact String.lt_irrefl _ hlt

/-- Languages in strict order of their names are told by which ones they are. -/
theorem eq_of_strict {ls ls' : List Language} (h : ls.Pairwise fun a b => a.name < b.name)
    (h' : ls'.Pairwise fun a b => a.name < b.name) (hmem : ∀ l, l ∈ ls ↔ l ∈ ls') : ls = ls' := by
  have hperm : ls.Perm ls' :=
    (List.perm_ext_iff_of_nodup (nodup_of_strict h) (nodup_of_strict h')).2 hmem
  exact hperm.eq_of_pairwise
    (fun a b _ _ hab hba => absurd (String.lt_trans hab hba) (String.lt_irrefl _)) h h'

theorem nodup_eraseDups (languages : List Language) : languages.eraseDups.Nodup := by
  match languages with
  | [] => exact List.nodup_nil
  | l :: rest =>
    rw [List.eraseDups_cons]
    refine List.nodup_cons.2 ⟨fun h => ?_, nodup_eraseDups _⟩
    simpa using (List.mem_filter.1 (List.mem_eraseDups.1 h)).2
termination_by languages.length
decreasing_by
  have := List.length_filter_le (fun b => !b == l) rest
  simp only [List.length_cons]
  omega

/-- Lists of the same languages are the same set, in whatever order, where names tell the languages
apart. -/
theorem ofList_congr {ls ls' : List Language} {mark : Bool} (h : ∀ l, l ∈ ls ↔ l ∈ ls')
    (hnames : ∀ l ∈ ls, ∀ m ∈ ls, l.name = m.name → l = m) :
    ofList ls mark = ofList ls' mark := by
  have hset : ls.eraseDups.Perm ls'.eraseDups :=
    (List.perm_ext_iff_of_nodup (nodup_eraseDups ls) (nodup_eraseDups ls')).2 fun l => by
      rw [List.mem_eraseDups, List.mem_eraseDups, h]
  have hsorted : (ls.eraseDups.mergeSort byName).Perm (ls'.eraseDups.mergeSort byName) :=
    (List.mergeSort_perm _ _).trans (hset.trans (List.mergeSort_perm _ _).symm)
  have hmem {l : Language} (hl : l ∈ ls.eraseDups.mergeSort byName) : l ∈ ls :=
    List.mem_eraseDups.1 ((List.mergeSort_perm _ _).mem_iff.1 hl)
  rw [ofList, ofList, hsorted.eq_of_pairwise (fun l m hl hm hlm hml => ?_)
    (pairwise_mergeSort_byName _) (pairwise_mergeSort_byName _)]
  exact hnames l (hmem hl) m (hmem (hsorted.mem_iff.2 hm)) (notAfter_antisymm hlm hml)

/-- A set is in strict order of the names, where these tell the languages apart. -/
theorem pairwise_ofList {languages : List Language} {mark : Bool}
    (hnames : ∀ l ∈ languages, ∀ m ∈ languages, l.name = m.name → l = m) :
    (ofList languages mark).members.Pairwise fun a b => a.name < b.name := by
  have hnodup : (ofList languages mark).members.Nodup :=
    (List.mergeSort_perm _ _).nodup_iff.2 (nodup_eraseDups languages)
  refine List.Pairwise.imp_of_mem (fun {a b} ha hb hab => ?_)
    ((pairwise_mergeSort_byName languages.eraseDups).and hnodup)
  exact lt_of_notAfter hab.1 fun heq =>
    hab.2 (hnames a (mem_ofList.1 ha) b (mem_ofList.1 hb) heq)

/-- Languages in strict order of their names are their own set. -/
theorem ofList_of_strict {languages : List Language} {mark : Bool}
    (h : languages.Pairwise fun a b => a.name < b.name) :
    ofList languages mark = ⟨languages, mark⟩ := by
  rw [ofList, eraseDups_of_nodup (nodup_of_strict h), mergeSort_of_strict h]

end LangId.Candidates
