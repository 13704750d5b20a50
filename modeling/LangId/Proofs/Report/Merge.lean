import LangId.Identifier
import LangId.Proofs.Steps
import LangId.Proofs.Tables

/-!
# Merging outcomes into a report

**Buckets.** Every outcome goes to exactly one bucket of a report (`Outcome.bucket`): a language,
what is unknown, what is excluded, or what is unreadable. `Report.totalsIn` reads the totals of a
bucket off a report.

**Steps.** `merge_eq_ok` takes a merge apart: it fails only for an unreadable file under the setting
that says so; otherwise the outcome's bucket grows by its totals and no other bucket changes.

**Runs.** `Tallied` relates a report to the outcomes that have been merged, in order; `tallied_run`
proves it of every run of merges from the empty report on.
-/
namespace LangId

/-! ## Totals -/

namespace Totals

/-- Two totals together. -/
def plus (a b : Totals) : Totals := ⟨a.bytes + b.bytes, a.files + b.files⟩

/-- Many totals together. -/
def sum (ts : List Totals) : Totals := ts.foldr plus {}

theorem plus_assoc (a b c : Totals) : (a.plus b).plus c = a.plus (b.plus c) := by
  simp only [plus, Int.add_assoc, Nat.add_assoc]

theorem plus_comm (a b : Totals) : a.plus b = b.plus a := by
  simp only [plus, Int.add_comm, Nat.add_comm]

theorem empty_plus (a : Totals) : plus {} a = a := by
  simp only [plus, Int.zero_add, Nat.zero_add]

theorem plus_empty (a : Totals) : a.plus {} = a := by
  simp only [plus, Int.add_zero, Nat.add_zero]

theorem sum_nil : sum [] = {} := rfl

theorem sum_cons (t : Totals) (ts : List Totals) : sum (t :: ts) = t.plus (sum ts) := rfl

theorem sum_append (as bs : List Totals) : sum (as ++ bs) = (sum as).plus (sum bs) := by
  induction as with
  | nil => exact (empty_plus _).symm
  | cons t as ih => rw [List.cons_append, sum_cons, sum_cons, ih, plus_assoc]

theorem add_eq_plus (t : Totals) (size : Int) : t.add size = t.plus ⟨size, 1⟩ := rfl

end Totals

/-! ## Buckets -/

/-- Where a file is counted. -/
inductive Bucket where
  | language (name : String)
  | unknown
  | excluded
  | unreadable
  deriving DecidableEq, Repr

namespace Outcome

/-- The bucket that an outcome goes to. -/
def bucket (o : Outcome) : Bucket :=
  if o.error.isSome then .unreadable
  else if o.excludedAs.isSome then .excluded
  else
    match o.result.bind (·.verdict.language?) with
    | some name => .language name
    | none => .unknown

/-- What an outcome adds to its bucket. The size of an unreadable file is not known. -/
def totals (o : Outcome) : Totals := ⟨if o.error.isSome then 0 else o.size, 1⟩

/-- What is told about the file of an outcome. -/
def report (o : Outcome) : FileReport := ⟨o.path, o.size, o.excludedAs, o.result⟩

/-- Whether the file could be read. -/
def isRead (o : Outcome) : Bool := o.error.isNone

theorem bucket_eq_unreadable {o : Outcome} : o.bucket = .unreadable ↔ o.isRead = false := by
  unfold bucket isRead
  cases o.error with
  | some e => simp
  | none =>
    cases o.excludedAs with
    | some kind => simp
    | none => cases o.result.bind (·.verdict.language?) <;> simp

theorem totals_of_isRead {o : Outcome} (h : o.isRead = true) : o.totals = ⟨o.size, 1⟩ := by
  unfold isRead at h
  rw [totals, if_neg]
  simpa using h

theorem totals_of_unread {o : Outcome} (h : o.isRead = false) : o.totals = ⟨0, 1⟩ := by
  unfold isRead at h
  rw [totals, if_pos]
  simpa [Option.isSome_iff_ne_none] using h

end Outcome

namespace Report

/-- The totals of a bucket. -/
def totalsIn (r : Report) : Bucket → Totals
  | .language name => (r.languages.lookup name).getD {}
  | .unknown => r.unknown
  | .excluded => r.excluded
  | .unreadable => ⟨0, r.unreadable.length⟩

/-- The totals of all languages. -/
def ofLanguages (r : Report) : Totals := Totals.sum (r.languages.map (·.2))

/-! ## One more file of a language -/

variable {name l : String} {size : Int} {entries : List (String × Totals)}

theorem lookup_addTo : (addTo name size entries).lookup l =
    if l = name then some (((entries.lookup name).getD {}).add size) else entries.lookup l := by
  induction entries with
  | nil => by_cases h : l = name <;> simp [addTo, Table.lookup_cons, h]
  | cons entry rest ih =>
    obtain ⟨k, t⟩ := entry
    rw [addTo]
    by_cases hk : k = name
    · subst hk
      by_cases h : l = k <;> simp [Table.lookup_cons, h]
    · rw [if_neg (by simpa using hk)]
      by_cases h : l = k
      · subst h
        simp [hk]
      · simp [Table.lookup_cons, h, ih, Ne.symm hk]

theorem keys_addTo : (addTo name size entries).map (·.1) =
    if name ∈ entries.map (·.1) then entries.map (·.1) else entries.map (·.1) ++ [name] := by
  induction entries with
  | nil => simp [addTo]
  | cons entry rest ih =>
    obtain ⟨k, t⟩ := entry
    rw [addTo]
    by_cases hk : k = name
    · simp [hk]
    · rw [if_neg (by simpa using hk), List.map_cons, ih]
      by_cases h : name ∈ rest.map (·.1) <;> simp_all [Ne.symm hk]

theorem sum_addTo : Totals.sum ((addTo name size entries).map (·.2)) =
    (Totals.sum (entries.map (·.2))).add size := by
  induction entries with
  | nil => exact Totals.plus_empty _
  | cons entry rest ih =>
    obtain ⟨k, t⟩ := entry
    rw [addTo]
    split
    · simp only [List.map_cons, Totals.sum_cons, Totals.add_eq_plus, Totals.plus_assoc]
      rw [Totals.plus_comm ⟨size, 1⟩]
    · simp only [List.map_cons, Totals.sum_cons, ih, Totals.add_eq_plus, Totals.plus_assoc]

theorem nodup_addTo (h : (entries.map (·.1)).Nodup) :
    ((addTo name size entries).map (·.1)).Nodup := by
  rw [keys_addTo]
  split
  · exact h
  · rename_i hnew
    refine List.nodup_append.2 ⟨h, List.nodup_cons.2 ⟨List.not_mem_nil, List.nodup_nil⟩, ?_⟩
    rintro a ha b hb rfl
    exact hnew (List.mem_singleton.1 hb ▸ ha)

theorem forall_addTo {P : Totals → Prop} (hnew : P (Totals.add {} size))
    (hadd : ∀ t, P t → P (t.add size)) (h : ∀ e ∈ entries, P e.2) :
    ∀ e ∈ addTo name size entries, P e.2 := by
  induction entries with
  | nil => exact List.forall_mem_singleton.2 hnew
  | cons entry rest ih =>
    obtain ⟨k, t⟩ := entry
    obtain ⟨ht, hrest⟩ := List.forall_mem_cons.1 h
    rw [addTo]
    split
    · exact List.forall_mem_cons.2 ⟨hadd t ht, hrest⟩
    · exact List.forall_mem_cons.2 ⟨ht, ih hrest⟩

/-! ## One merge -/

variable {settings : AnalysisSettings} {r r' : Report} {o : Outcome}

/-- A report in whose buckets one more outcome is counted. -/
def counting (r : Report) (o : Outcome) : Report :=
  match o.bucket with
  | .language name => r.addLanguage name o.size
  | .unknown => { r with unknown := r.unknown.add o.size }
  | .excluded => { r with excluded := r.excluded.add o.size }
  | .unreadable => { r with unreadable := r.unreadable ++ [o.path] }

/-- **One merge.** It fails only for an unreadable file, and only if the settings say so; otherwise
the outcome is counted, and a file that could be read is told about if the settings say so. -/
theorem merge_eq_ok : r.merge settings o = .ok r' ↔
    (o.isRead = true ∨ settings.failOnUnreadable = false) ∧
    r' = { r.counting o with
      files := r.files ++ if o.isRead && settings.includeFiles then [o.report] else [] } := by
  have hok {a b : Report} : (Except.ok a : Except Unreadable Report) = .ok b ↔ b = a :=
    ⟨fun h => (Except.ok.inj h).symm, fun h => h ▸ rfl⟩
  unfold merge counting Outcome.bucket Outcome.isRead Outcome.report
  cases o.error with
  | some e => cases settings.failOnUnreadable <;> simp [hok, -Except.ok.injEq]
  | none =>
    cases o.excludedAs with
    | some kind => cases settings.includeFiles <;> simp [hok, -Except.ok.injEq]
    | none =>
      cases o.result.bind (·.verdict.language?) <;> cases settings.includeFiles <;>
        simp [hok, -Except.ok.injEq, addLanguage]

/-- A merge that fails does so with the error of the outcome. -/
theorem merge_eq_error {e : Unreadable} : r.merge settings o = .error e ↔
    settings.failOnUnreadable = true ∧ o.error = some e := by
  unfold merge
  cases o.error with
  | some u => cases settings.failOnUnreadable <;> simp
  | none => cases settings.includeFiles <;> simp

theorem totalsIn_files (r : Report) (files : List FileReport) (b : Bucket) :
    { r with files }.totalsIn b = r.totalsIn b := by cases b <;> rfl

/-- Where unreadable files are no error, no run of merges fails. -/
theorem merges_total (h : settings.failOnUnreadable = false) (os : List Outcome) (r : Report) :
    ∃ r', os.foldlM (merge settings) r = .ok r' :=
  foldlM_total (fun _ _ _ => ⟨_, merge_eq_ok.2 ⟨.inr h, rfl⟩⟩) r

/-- Counting an outcome adds its totals to its bucket and to no other. -/
theorem totalsIn_counting (r : Report) (o : Outcome) (b : Bucket) : (r.counting o).totalsIn b =
    if o.bucket = b then (r.totalsIn b).plus o.totals else r.totalsIn b := by
  have hread : o.bucket ≠ .unreadable → o.totals = ⟨o.size, 1⟩ := fun h =>
    Outcome.totals_of_isRead (by simpa [Outcome.bucket_eq_unreadable] using h)
  unfold counting
  cases hb : o.bucket with
  | language name =>
    rw [hread (by rw [hb]; nofun)]
    cases b with
    | language l =>
      simp only [totalsIn, addLanguage, lookup_addTo, Bucket.language.injEq, eq_comm (a := name)]
      split
      · rename_i h
        rw [h]
        rfl
      · rfl
    | _ => rfl
  | unknown =>
    rw [hread (by rw [hb]; nofun)]
    cases b <;> rfl
  | excluded =>
    rw [hread (by rw [hb]; nofun)]
    cases b <;> rfl
  | unreadable =>
    rw [Outcome.totals_of_unread (Outcome.bucket_eq_unreadable.1 hb)]
    cases b with
    | unreadable => simp [totalsIn, Totals.plus]
    | _ => rfl

/-- All files that could be read, over all buckets. -/
def ofReadable (r : Report) : Totals := r.ofLanguages.plus (r.unknown.plus r.excluded)

theorem ofReadable_counting (r : Report) (o : Outcome) : (r.counting o).ofReadable =
    if o.isRead then r.ofReadable.plus o.totals else r.ofReadable := by
  cases ho : o.isRead with
  | false =>
    rw [counting, Outcome.bucket_eq_unreadable.2 ho]
    rfl
  | true =>
    have hne : o.bucket ≠ .unreadable := by simp [Outcome.bucket_eq_unreadable, ho]
    rw [if_pos rfl, Outcome.totals_of_isRead ho, counting]
    split
    · simp only [ofReadable, ofLanguages, addLanguage, sum_addTo, Totals.add, Totals.plus,
        Totals.mk.injEq]
      omega
    · simp only [ofReadable, ofLanguages, Totals.add, Totals.plus, Totals.mk.injEq]
      omega
    · simp only [ofReadable, ofLanguages, Totals.add, Totals.plus, Totals.mk.injEq]
      omega
    · rename_i hb
      exact absurd hb hne

/-- The languages of a report are told apart, and each has a file. -/
structure Wellformed (r : Report) : Prop where
  nodup : (r.languages.map (·.1)).Nodup
  present : ∀ e ∈ r.languages, 1 ≤ e.2.files

theorem wellformed_counting (h : r.Wellformed) (o : Outcome) : (r.counting o).Wellformed := by
  unfold counting
  split
  · refine ⟨nodup_addTo h.nodup, ?_⟩
    refine forall_addTo (P := fun t => 1 ≤ t.files) ?_ (fun t _ => ?_) h.present
    · exact Nat.le_refl 1
    · exact Nat.le_add_left 1 t.files
  · exact ⟨h.nodup, h.present⟩
  · exact ⟨h.nodup, h.present⟩
  · exact ⟨h.nodup, h.present⟩

theorem wellformed_merge (h : r.Wellformed) (hm : r.merge settings o = .ok r') :
    r'.Wellformed := by
  obtain ⟨-, rfl⟩ := merge_eq_ok.1 hm
  have hw := wellformed_counting h o
  exact ⟨hw.nodup, hw.present⟩

/-- Without negative sizes no language has negative bytes. -/
theorem nonneg_counting (ho : 0 ≤ o.size) (h : ∀ e ∈ r.languages, 0 ≤ e.2.bytes) :
    ∀ e ∈ (r.counting o).languages, 0 ≤ e.2.bytes := by
  unfold counting
  split
  · refine forall_addTo (P := fun t => 0 ≤ t.bytes) ?_ (fun t ht => ?_) h
    · exact Int.le_trans ho (Int.le_of_eq (Int.zero_add _).symm)
    · exact Int.add_nonneg ht ho
  · exact h
  · exact h
  · exact h

theorem unreadable_counting (r : Report) (o : Outcome) : (r.counting o).unreadable =
    r.unreadable ++ if o.isRead then [] else [o.path] := by
  cases ho : o.isRead with
  | false =>
    rw [counting, Outcome.bucket_eq_unreadable.2 ho]
    rfl
  | true =>
    have hne : o.bucket ≠ .unreadable := by simp [Outcome.bucket_eq_unreadable, ho]
    rw [if_pos rfl, List.append_nil, counting]
    split <;> first | rfl | contradiction

/-! ## Runs of merges -/

/-- What a report says once some outcomes have been merged into it. -/
structure Tallied (settings : AnalysisSettings) (os : List Outcome) (r : Report) : Prop where
  totals : ∀ b, r.totalsIn b = Totals.sum ((os.filter (·.bucket = b)).map (·.totals))
  readable : r.ofReadable = Totals.sum ((os.filter (·.isRead)).map (·.totals))
  wellformed : r.Wellformed
  unreadable : r.unreadable = (os.filter (!·.isRead)).map (·.path)
  files : r.files = if settings.includeFiles then (os.filter (·.isRead)).map (·.report) else []

theorem tallied_empty : Tallied settings [] {} := by
  refine ⟨fun b => ?_, rfl, ⟨List.nodup_nil, nofun⟩, rfl, ?_⟩
  · cases b <;> rfl
  · split <;> rfl

theorem sum_filter_concat (os : List Outcome) (o : Outcome) (p : Outcome → Bool) :
    Totals.sum (((os ++ [o]).filter p).map (·.totals)) =
      if p o then (Totals.sum ((os.filter p).map (·.totals))).plus o.totals
      else Totals.sum ((os.filter p).map (·.totals)) := by
  rw [List.filter_append, List.map_append, Totals.sum_append, List.filter_cons, List.filter_nil]
  split
  · rw [List.map_singleton, Totals.sum_cons, Totals.sum_nil, Totals.plus_empty]
  · exact Totals.plus_empty _

/-- What a run of merges has done goes on with the next merge. -/
theorem tallied_merge {os : List Outcome} (h : Tallied settings os r)
    (hm : r.merge settings o = .ok r') : Tallied settings (os ++ [o]) r' := by
  have hw := wellformed_merge h.wellformed hm
  obtain ⟨-, rfl⟩ := merge_eq_ok.1 hm
  refine ⟨fun b => ?_, ?_, hw, ?_, ?_⟩
  · rw [totalsIn_files, totalsIn_counting, h.totals b, sum_filter_concat]
    simp only [decide_eq_true_eq]
  · rw [sum_filter_concat, ← h.readable]
    exact ofReadable_counting r o
  · have hun : (r.counting o).unreadable = _ := unreadable_counting r o
    rw [List.filter_append, List.map_append, ← h.unreadable]
    cases ho : o.isRead <;> simp [ho] at hun ⊢ <;> exact hun
  · rw [h.files, List.filter_append, List.map_append]
    cases settings.includeFiles <;> cases ho : o.isRead <;> simp [ho]

/-- **Runs of merges.** -/
theorem tallied_run {before os : List Outcome} (h : Tallied settings before r)
    (hrun : os.foldlM (merge settings) r = .ok r') : Tallied settings (before ++ os) r' := by
  induction os generalizing before r with
  | nil =>
    obtain rfl := pure_eq_ok.1 hrun
    rwa [List.append_nil]
  | cons o os ih =>
    rw [List.foldlM_cons] at hrun
    obtain ⟨next, hm, hrest⟩ := bind_eq_ok.1 hrun
    have := ih (tallied_merge h hm) hrest
    rwa [List.append_assoc, List.singleton_append] at this

/-! ## Leaving outcomes out -/

/-- Two reports tell the same about languages and about what is unknown. -/
def Agree (r s : Report) : Prop := r.languages = s.languages ∧ r.unknown = s.unknown

theorem agree_counting {s : Report} (h : r.Agree s) (o : Outcome) :
    (r.counting o).Agree (s.counting o) := by
  unfold counting
  split
  · exact ⟨by rw [addLanguage, addLanguage, h.1], h.2⟩
  · exact ⟨h.1, by rw [h.2]⟩
  · exact h
  · exact h

theorem agree_counting_of_excluded {s : Report} (h : r.Agree s)
    (ho : o.bucket = .excluded ∨ o.bucket = .unreadable) : (r.counting o).Agree s := by
  unfold counting
  rcases ho with ho | ho <;> rw [ho] <;> exact h

/-- Whether outcomes that are excluded or unreadable are merged makes no difference to languages and
to what is unknown. -/
theorem agree_run {os : List Outcome} {q : Outcome → Bool} {s s' : Report}
    (hq : ∀ o ∈ os, q o = false → o.bucket = .excluded ∨ o.bucket = .unreadable)
    (hr : os.foldlM (merge settings) r = .ok r')
    (hs : (os.filter q).foldlM (merge settings) s = .ok s') (h : r.Agree s) : r'.Agree s' := by
  induction os generalizing r s with
  | nil =>
    obtain rfl := pure_eq_ok.1 hr
    obtain rfl := pure_eq_ok.1 hs
    exact h
  | cons o os ih =>
    obtain ⟨ho, hrest⟩ := List.forall_mem_cons.1 hq
    rw [List.foldlM_cons] at hr
    obtain ⟨next, hm, hr⟩ := bind_eq_ok.1 hr
    obtain ⟨-, rfl⟩ := merge_eq_ok.1 hm
    cases hqo : q o with
    | false =>
      rw [List.filter_cons_of_neg (by simp [hqo])] at hs
      exact ih hrest hr hs (agree_counting_of_excluded h (ho hqo))
    | true =>
      rw [List.filter_cons_of_pos hqo, List.foldlM_cons] at hs
      obtain ⟨next', hm', hs⟩ := bind_eq_ok.1 hs
      obtain ⟨-, rfl⟩ := merge_eq_ok.1 hm'
      exact ih hrest hr hs (agree_counting h o)

end Report

end LangId
