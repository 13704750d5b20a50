/-!
# Tables

Many things are kept in lists of entries, each with a name in front, and are looked up by name.
`lookup_cons` says what an entry changes; everything else is derived from it. Where names are told
apart, an entry is what is found under its name (`mem_iff_lookup`), and a table is nothing but its
names in their order and what is found under each of them (`eq_of_lookup`).

Tables grow by changing what stands under a name, or by putting the name behind all others if it is
new. `upsert` is this step for any change.
-/
namespace LangId.Table

variable {α β : Type} {entries first second : List (String × α)} {name : String}

theorem lookup_cons (e : String × α) : (e :: entries).lookup name =
    if name = e.1 then some e.2 else entries.lookup name := by
  rw [List.lookup_cons]
  by_cases h : name = e.1
  · rw [if_pos h, h, beq_self_eq_true]
  · rw [if_neg h, beq_false_of_ne h]

theorem lookup_eq_none : entries.lookup name = none ↔ name ∉ entries.map (·.1) := by
  induction entries with
  | nil => simp
  | cons entry rest ih => by_cases h : name = entry.1 <;> simp [lookup_cons, h, ih]

theorem mem_names_of_lookup {a : α} (h : entries.lookup name = some a) :
    name ∈ entries.map (·.1) := by
  refine Decidable.byContradiction fun hno => ?_
  rw [lookup_eq_none.2 hno] at h
  cases h

theorem lookup_map (f : String → α → β) :
    (entries.map fun e => (e.1, f e.1 e.2)).lookup name = (entries.lookup name).map (f name) := by
  induction entries with
  | nil => rfl
  | cons entry rest ih =>
    rw [List.map_cons, lookup_cons, lookup_cons, ih]
    split
    · rename_i h
      rw [h]
      rfl
    · rfl

theorem lookup_filter (p : String → Bool) :
    (entries.filter fun e => p e.1).lookup name = if p name then entries.lookup name else none := by
  induction entries with
  | nil => split <;> rfl
  | cons entry rest ih =>
    rw [List.filter_cons, lookup_cons]
    split
    · rename_i hp
      rw [lookup_cons, ih]
      by_cases h : name = entry.1 <;> simp [h, hp]
    · rename_i hp
      rw [ih]
      by_cases h : name = entry.1 <;> simp [h, hp]

/-! ## Names that are told apart -/

/-- Every entry is what is found under its name. -/
theorem mem_iff_lookup (h : (entries.map (·.1)).Nodup) {e : String × α} :
    e ∈ entries ↔ entries.lookup e.1 = some e.2 := by
  induction entries with
  | nil => simp
  | cons entry rest ih =>
    obtain ⟨hnew, hrest⟩ := List.nodup_cons.1 h
    rw [lookup_cons, List.mem_cons, ih hrest]
    by_cases heq : e.1 = entry.1
    · -- no further entry has this name
      rw [if_pos heq, heq, lookup_eq_none.2 hnew, Prod.ext_iff]
      simp [heq, eq_comm]
    · rw [if_neg heq]
      exact or_iff_right fun hentry => heq (congrArg Prod.fst hentry)

theorem nodup_entries (h : (entries.map (·.1)).Nodup) : entries.Nodup :=
  List.Pairwise.of_map (·.1) (fun _ _ hne heq => hne (congrArg Prod.fst heq)) h

/-- What is found does not depend on the order of the entries. -/
theorem lookup_of_perm (h : (first.map (·.1)).Nodup) (hperm : first.Perm second) :
    first.lookup name = second.lookup name := by
  have hsecond : (second.map (·.1)).Nodup := (hperm.map _).nodup_iff.1 h
  refine Option.ext fun a => ?_
  rw [← mem_iff_lookup h (e := (name, a)), ← mem_iff_lookup hsecond (e := (name, a)),
    hperm.mem_iff]

/-- A table is nothing but its names and what is found under them. -/
theorem eq_of_lookup (h : (first.map (·.1)).Nodup) (hnames : first.map (·.1) = second.map (·.1))
    (hlookup : ∀ l, first.lookup l = second.lookup l) : first = second := by
  induction first generalizing second with
  | nil => exact (List.map_eq_nil_iff.1 hnames.symm).symm
  | cons e first ih =>
    obtain ⟨e', second, rfl, hname, hrest⟩ := List.map_eq_cons_iff.1 hnames.symm
    obtain ⟨hnew, hnodup⟩ := List.nodup_cons.1 h
    simp only [lookup_cons, hname] at hlookup
    have hvalue : e.2 = e'.2 := by simpa using hlookup e.1
    rw [Prod.ext hname.symm hvalue, ih hnodup hrest.symm fun l => ?_]
    by_cases hl : l = e.1
    · -- the name is not found again in either rest
      rw [hl, lookup_eq_none.2 hnew, lookup_eq_none.2 (hrest ▸ hnew)]
    · simpa [hl] using hlookup l

/-- Two tables in which the same is found are the same up to the order of their entries. -/
theorem perm_of_lookup (hfirst : (first.map (·.1)).Nodup) (hsecond : (second.map (·.1)).Nodup)
    (hlookup : ∀ l, first.lookup l = second.lookup l) : first.Perm second := by
  refine (List.perm_ext_iff_of_nodup (nodup_entries hfirst) (nodup_entries hsecond)).2 fun e => ?_
  rw [mem_iff_lookup hfirst, mem_iff_lookup hsecond, hlookup]

/-! ## Changing what stands under a name -/

/-- Changes what stands under a name; a new name goes behind all others. -/
def upsert (key : String) (f : Option α → α) : List (String × α) → List (String × α)
  | [] => [(key, f none)]
  | (k, v) :: rest => if k == key then (k, f (some v)) :: rest else (k, v) :: upsert key f rest

variable {key : String} {f : Option α → α}

theorem lookup_upsert : (upsert key f entries).lookup name =
    if name = key then some (f (entries.lookup key)) else entries.lookup name := by
  induction entries with
  | nil =>
    rw [upsert, lookup_cons]
    rfl
  | cons entry rest ih =>
    obtain ⟨k, v⟩ := entry
    rw [upsert]
    by_cases hk : k = key
    · subst hk
      by_cases h : name = k <;> simp [lookup_cons, h]
    · have hk' : (k == key) = false := beq_false_of_ne hk
      simp only [hk', Bool.false_eq_true, if_false, lookup_cons, Ne.symm hk, ih]
      by_cases h : name = k
      · subst h
        simp [hk]
      · simp [h]

theorem names_upsert : (upsert key f entries).map (·.1) =
    if key ∈ entries.map (·.1) then entries.map (·.1) else entries.map (·.1) ++ [key] := by
  induction entries with
  | nil => rfl
  | cons entry rest ih =>
    obtain ⟨k, v⟩ := entry
    rw [upsert]
    by_cases hk : k = key
    · subst hk
      simp
    · have hk' : (k == key) = false := beq_false_of_ne hk
      simp only [hk', Bool.false_eq_true, if_false, List.map_cons, ih, List.mem_cons, Ne.symm hk,
        false_or]
      split <;> rfl

/-- Names stay told apart. -/
theorem nodup_upsert (h : (entries.map (·.1)).Nodup) :
    ((upsert key f entries).map (·.1)).Nodup := by
  rw [names_upsert]
  split
  · exact h
  · rename_i hnew
    refine List.nodup_append.2 ⟨h, List.pairwise_singleton _ _, fun n hn n' hn' heq => hnew ?_⟩
    rwa [← List.mem_singleton.1 hn', ← heq]

/-- A table holds nothing exactly if nothing is found in it. -/
theorem eq_nil_iff_lookup : entries = [] ↔ ∀ name, entries.lookup name = none := by
  simp only [lookup_eq_none, List.eq_nil_iff_forall_not_mem, List.mem_map]
  exact ⟨fun hno name ⟨e, he, _⟩ => hno e he, fun hno e he => hno e.1 ⟨e, he, rfl⟩⟩

end LangId.Table
