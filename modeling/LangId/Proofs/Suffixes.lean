import LangId.Sample

/-!
# Extensions as suffixes

`Sample.extensionsOf` lists the suffixes of a name that begin at a dot, by a recursion that never
says "longest". Here it is tied to that word: `mem_dottedSuffixes` says which suffixes are listed,
`pairwise_dottedSuffixes` that each is longer than those behind it, and `find?_extensionsOf` that a
search through the extensions of a name finds the longest suffix with what is searched for. Said of
the listed extensions alone, this becomes an equivalence (`find?_extensions`).
-/
namespace LangId.Sample

open Text

/-- A text is the longest of the suffixes of a name that begin at a dot and have a property. -/
structure LongestSuffix (p : List Char → Prop) (name e : List Char) : Prop where
  suffix : e <:+ name
  dotted : e.head? = some '.'
  holds : p e
  longest : ∀ t, t <:+ name → t.head? = some '.' → p t → t.length ≤ e.length

theorem mem_dottedSuffixes {name t : List Char} :
    t ∈ dottedSuffixes name ↔ t <:+ name ∧ t.head? = some '.' := by
  induction name with
  | nil =>
    simp only [dottedSuffixes, List.not_mem_nil, List.suffix_nil, false_iff, not_and]
    rintro rfl
    nofun
  | cons c rest ih =>
    rw [dottedSuffixes, List.suffix_cons_iff]
    split
    · rename_i hc
      rw [List.mem_cons, ih]
      constructor
      · rintro (rfl | ⟨hs, hd⟩)
        · exact ⟨.inl rfl, by rw [List.head?_cons, eq_of_beq hc]⟩
        · exact ⟨.inr hs, hd⟩
      · rintro ⟨rfl | hs, hd⟩
        · exact .inl rfl
        · exact .inr ⟨hs, hd⟩
    · rename_i hc
      rw [ih]
      constructor
      · rintro ⟨hs, hd⟩
        exact ⟨.inr hs, hd⟩
      · rintro ⟨rfl | hs, hd⟩
        · exact absurd (beq_iff_eq.2 (Option.some.inj hd)) hc
        · exact ⟨hs, hd⟩

theorem pairwise_dottedSuffixes (name : List Char) :
    (dottedSuffixes name).Pairwise fun a b => b.length < a.length := by
  induction name with
  | nil => exact List.Pairwise.nil
  | cons c rest ih =>
    rw [dottedSuffixes]
    split
    · refine List.pairwise_cons.2 ⟨fun t ht => ?_, ih⟩
      have := (mem_dottedSuffixes.1 ht).1.length_le
      rw [List.length_cons]
      omega
    · exact ih

/-- Suffixes end as the name does. -/
theorem getLast?_of_mem_dottedSuffixes {name t : List Char} (h : t ∈ dottedSuffixes name) :
    t.getLast? = name.getLast? := by
  obtain ⟨hs, hd⟩ := mem_dottedSuffixes.1 h
  have hne : t ≠ [] := by
    rintro rfl
    cases hd
  rw [List.getLast?_eq_some_getLast hne, List.getLast?_eq_some_getLast (hs.ne_nil hne),
    hs.getLast hne]

/-- A name has all of its dotted suffixes as extensions, or none at all. -/
theorem extensionsOf_eq (basename : String) : extensionsOf basename =
    if (lowerChars basename.toList).getLast? = some '.' then []
    else (dottedSuffixes (lowerChars basename.toList)).map String.ofList := by
  rw [extensionsOf]
  split
  · rename_i hlast
    rw [List.map_eq_nil_iff, List.filter_eq_nil_iff]
    intro t ht
    simp [getLast?_of_mem_dottedSuffixes ht, hlast]
  · rename_i hlast
    rw [List.filter_eq_self.2]
    intro t ht
    simpa [getLast?_of_mem_dottedSuffixes ht] using hlast

/-- Where each entry is longer than those behind it, the first one with a property is the longest. -/
theorem find?_eq_some_of_decreasing {α : Type} {length : α → Nat} {p : α → Bool} {entries : List α}
    (h : entries.Pairwise fun a b => length b < length a) {e : α} :
    entries.find? p = some e ↔
      e ∈ entries ∧ p e = true ∧ ∀ t ∈ entries, p t = true → length t ≤ length e := by
  induction entries with
  | nil => simp
  | cons first rest ih =>
    obtain ⟨hfirst, hrest⟩ := List.pairwise_cons.1 h
    rw [List.find?_cons]
    cases hp : p first with
    | true =>
      simp only [Option.some.injEq]
      constructor
      · rintro rfl
        refine ⟨List.mem_cons_self, hp, List.forall_mem_cons.2 ⟨fun _ => Nat.le_refl _, ?_⟩⟩
        exact fun t ht _ => Nat.le_of_lt (hfirst t ht)
      · rintro ⟨he, -, hlongest⟩
        rcases List.mem_cons.1 he with rfl | he
        · rfl
        · have hlt := hfirst e he
          have hle := hlongest first List.mem_cons_self hp
          omega
    | false =>
      simp only [ih hrest, List.mem_cons, forall_eq_or_imp, hp, Bool.false_eq_true, false_implies,
        true_and]
      refine and_congr_left fun ⟨he, _⟩ => (or_iff_right ?_).symm
      rintro rfl
      rw [hp] at he
      cases he

/-- The first dotted suffix with a property is the longest one. -/
theorem longestSuffix_of_find? {p : List Char → Bool} {name e : List Char}
    (h : (dottedSuffixes name).find? p = some e) :
    LongestSuffix (fun t => p t = true) name e := by
  obtain ⟨he, hp, hlongest⟩ := (find?_eq_some_of_decreasing (pairwise_dottedSuffixes name)).1 h
  obtain ⟨hs, hd⟩ := mem_dottedSuffixes.1 he
  exact ⟨hs, hd, hp, fun t hs hd => hlongest t (mem_dottedSuffixes.2 ⟨hs, hd⟩)⟩

/-- **Longest first.** What is found for the extensions of a name is what its longest suffix has. -/
theorem find?_extensionsOf {α : Type} {basename : String} {f : String → α} {p : α → Bool} {a : α}
    (h : ((extensionsOf basename).map f).find? p = some a) :
    ∃ e, LongestSuffix (fun t => p (f (String.ofList t)) = true) (lowerChars basename.toList) e ∧
      a = f (String.ofList e) := by
  rw [extensionsOf_eq] at h
  split at h
  · cases h
  · rw [List.map_map, List.find?_map] at h
    obtain ⟨e, he, rfl⟩ := Option.map_eq_some_iff.1 h
    exact ⟨e, longestSuffix_of_find? he, rfl⟩

/-! ## The extensions of a file -/

/-- An extension of a file is the longest one that has a property. -/
structure LongestExtension (p : String → Prop) (file : Sample) (e : String) : Prop where
  mem : e ∈ file.extensions
  holds : p e
  longest : ∀ t ∈ file.extensions, p t → t.length ≤ e.length

theorem pairwise_extensions (file : Sample) :
    file.extensions.Pairwise fun a b => b.length < a.length := by
  rw [extensions, extensionsOf_eq]
  split
  · exact List.Pairwise.nil
  · refine List.pairwise_map.2 ((pairwise_dottedSuffixes _).imp fun hlt => ?_)
    simpa only [String.length_ofList] using hlt

/-- A search through the extensions of a file finds what its longest extension has. -/
theorem find?_extensions {α : Type} {file : Sample} {f : String → α} {p : α → Bool} {a : α} :
    (file.extensions.map f).find? p = some a ↔
      ∃ e, file.LongestExtension (fun t => p (f t) = true) e ∧ f e = a := by
  rw [List.find?_map, Option.map_eq_some_iff]
  refine exists_congr fun e => and_congr_left fun _ => ?_
  rw [find?_eq_some_of_decreasing (pairwise_extensions file)]
  constructor
  · rintro ⟨he, hp, hlongest⟩
    exact ⟨he, hp, hlongest⟩
  · rintro ⟨he, hp, hlongest⟩
    exact ⟨he, hp, hlongest⟩

/-- If an extension of a file has a property, one of them is the longest that has it. -/
theorem exists_longestExtension {p : String → Prop} {file : Sample}
    (h : ∃ e ∈ file.extensions, p e) : ∃ e, file.LongestExtension p e := by
  classical
  obtain ⟨t, ht, hp⟩ := h
  have hsome : (file.extensions.find? fun t => decide (p t)).isSome = true :=
    List.find?_isSome.2 ⟨t, ht, decide_eq_true hp⟩
  obtain ⟨e, he⟩ := Option.isSome_iff_exists.1 hsome
  obtain ⟨hmem, hholds, hlongest⟩ :=
    (find?_eq_some_of_decreasing (pairwise_extensions file)).1 he
  exact ⟨e, hmem, of_decide_eq_true hholds, fun t ht hp => hlongest t ht (decide_eq_true hp)⟩

end LangId.Sample
