import LangId.Proofs.Steps
import LangId.Proofs.Text.Pieces
import LangId.Proofs.Tree.Places

/-!
# Ways through directories

The names of a place are also a way to it: where something stands at a place that is reached through
directories only, the way meets no link and leads there, whatever links may stand elsewhere. What
the way leads to and the place without links (`Tree.resolve`) are then the place itself. So is the
place of a way on which no link stands, whether there is something at its end or not; and whatever
links a way leads through, the names of its place are names that files can have
(`validName_of_resolve`).
-/
namespace LangId.Tree

variable {t d : Tree} {here p q way : Place} {onward : Place → List String → Except Fault Place}

/-- What stands on a way to something else is a directory. -/
theorem isDirectory_of_at? (h : t.at? (p ++ q) = some d) (hq : q ≠ []) :
    ∃ entries, t.at? p = some (.directory entries) := by
  obtain ⟨next, more, rfl⟩ := List.exists_cons_of_ne_nil hq
  rw [at?_append] at h
  obtain ⟨above, habove, hat⟩ := Option.bind_eq_some_iff.1 h
  obtain ⟨e, he, -⟩ := Option.bind_eq_some_iff.1 hat
  obtain ⟨entries, rfl, -⟩ := entry?_eq_some.1 he
  exact ⟨entries, habove⟩

theorem goWith_of_file {bytes : List UInt8} (h : t.at? (here ++ way) = some (.file bytes))
    (hnames : ∀ name ∈ way, ValidName name) : t.goWith onward here way = .ok (here ++ way) := by
  induction way generalizing here with
  | nil =>
    rw [goWith, List.append_nil]
  | cons name rest ih =>
    obtain ⟨hname, hnames⟩ := List.forall_mem_cons.1 hnames
    rw [goWith.eq_3 _ _ _ _ _ hname.ne_above]
    by_cases hrest : rest = []
    · subst hrest
      rw [h]
      rfl
    · rw [List.append_cons here name rest] at h ⊢
      obtain ⟨entries, hentries⟩ := isDirectory_of_at? h hrest
      rw [hentries]
      exact ih h hnames

/-- A file is read at its place. -/
theorem read_of_file {bytes : List UInt8} (ht : t.Wellformed)
    (h : t.at? p = some (.file bytes)) : t.read p = .ok bytes := by
  have hlocate : t.locate p = .ok p := goWith_of_file h (ht.at h).1
  have hfind : t.find p = .ok (.file bytes) := by
    refine bind_eq_ok.2 ⟨p, hlocate, ?_⟩
    rw [h]
    rfl
  exact bind_eq_ok.2 ⟨_, hfind, rfl⟩

/-! ## Ways without links -/

/-- No link stands on a way from a directory, nor at its end. -/
def Unlinked (t : Tree) (here way : Place) : Prop :=
  ∀ q, q <+: way → ∀ target, t.at? (here ++ q) ≠ some (.link target)

theorem resolveWith_of_unlinked (h : t.Unlinked here way) (hnames : ∀ name ∈ way, ValidName name) :
    t.resolveWith onward here way = .ok (here ++ way) := by
  induction way generalizing here with
  | nil => rw [resolveWith, List.append_nil]
  | cons name rest ih =>
    obtain ⟨hname, hnames⟩ := List.forall_mem_cons.1 hnames
    have hrest : t.Unlinked (here ++ [name]) rest := fun q hq target => by
      rw [← List.append_cons]
      exact h (name :: q) ((List.prefix_cons_inj name).2 hq) target
    rw [resolveWith.eq_3 _ _ _ _ _ hname.ne_above]
    split
    · rename_i target hlink
      exact absurd hlink (h [name] (List.prefix_append [name] rest) target)
    · rw [List.append_cons here name rest]
      exact ih hrest hnames

theorem resolve_of_unlinked (h : t.Unlinked [] p) (hnames : ∀ name ∈ p, ValidName name) :
    t.resolve p = .ok p := by
  rw [resolve]
  cases t.links with
  | zero => exact resolveWith_of_unlinked h hnames
  | succ depth => exact resolveWith_of_unlinked h hnames

theorem unlinked_of_file {bytes : List UInt8} (h : t.at? p = some (.file bytes)) :
    t.Unlinked [] p := by
  rintro q ⟨rest, rfl⟩ target hlink
  by_cases hrest : rest = []
  · subst hrest
    rw [List.append_nil] at h
    cases h.symm.trans hlink
  · obtain ⟨entries, hentries⟩ := isDirectory_of_at? h hrest
    cases hentries.symm.trans hlink

/-- The place of a file has no link in it. -/
theorem resolve_of_file {bytes : List UInt8} (ht : t.Wellformed)
    (h : t.at? p = some (.file bytes)) : t.resolve p = .ok p :=
  resolve_of_unlinked (unlinked_of_file h) (ht.at h).1

/-! ## Names of places -/

theorem validName_of_mem_components {s : List Char} {name : String}
    (h : name ∈ Path.components s) : name = ".." ∨ ValidName name := by
  obtain ⟨piece, hpiece, rfl⟩ := List.mem_map.1 h
  obtain ⟨hmem, hkept⟩ := List.mem_filter.1 hpiece
  simp only [Bool.and_eq_true, Bool.not_eq_true', List.isEmpty_eq_false_iff, bne_iff_ne] at hkept
  refine (em (String.ofList piece = "..")).imp_right fun habove => ?_
  refine ⟨fun hempty => hkept.1 ?_, fun hhere => hkept.2 ?_, habove, ?_⟩
  · simpa using congrArg String.toList hempty
  · simpa using congrArg String.toList hhere
  · rw [String.toList_ofList]
    exact (Text.mem_splitOn_iff.1 hmem).1

/-- A way that names places: it consists of names that files can have, and of `..`. -/
def Walkable (way : List String) : Prop := ∀ name ∈ way, name = ".." ∨ ValidName name

theorem walkable_parts (s : String) : Walkable (Path.ofString s).parts :=
  fun _ => validName_of_mem_components

theorem walkable_redirect (target : String) (hhere : ∀ name ∈ here, ValidName name) :
    (∀ name ∈ (redirect target here).1, ValidName name) ∧ Walkable (redirect target here).2 := by
  refine ⟨?_, walkable_parts target⟩
  rw [redirect]
  dsimp only
  split
  · exact nofun
  · exact hhere

/-- Ways from places with valid names lead to such places. -/
def KeepsNames (onward : Place → List String → Except Fault Place) : Prop :=
  ∀ here way p, (∀ name ∈ here, ValidName name) → Walkable way → onward here way = .ok p →
    ∀ name ∈ p, ValidName name

theorem keepsNames_resolveWith (honward : KeepsNames onward) : KeepsNames (t.resolveWith onward) := by
  intro here way
  fun_induction resolveWith t onward here way with
  | case1 here =>
    rintro p hhere - h
    obtain rfl := Except.ok.inj h
    exact hhere
  | case2 here rest ih =>
    intro p hhere hway h
    exact ih p (fun name hname => hhere name (List.dropLast_subset _ hname))
      (List.forall_mem_cons.1 hway).2 h
  | case3 here name rest hname target hlink start way hredirect place hplace ih =>
    intro p hhere hway h
    obtain ⟨hstart, hway'⟩ := walkable_redirect target hhere
    rw [hredirect] at hstart hway'
    exact ih p (honward start way place hstart hway' hplace) (List.forall_mem_cons.1 hway).2 h
  | case4 => exact nofun
  | case5 here name rest hname hlink ih =>
    intro p hhere hway h
    obtain ⟨hfirst, hrest⟩ := List.forall_mem_cons.1 hway
    refine ih p (fun other hother => ?_) hrest h
    rcases List.mem_append.1 hother with hother | hother
    · exact hhere other hother
    · rw [List.mem_singleton.1 hother]
      exact hfirst.resolve_left hname

theorem keepsNames_resolveWithin (depth : Nat) : KeepsNames (t.resolveWithin depth) := by
  induction depth with
  | zero => exact keepsNames_resolveWith fun _ _ _ _ _ => nofun
  | succ depth ih => exact keepsNames_resolveWith ih

/-- The names of a place that a way leads to are names that files can have. -/
theorem validName_of_resolve (hway : Walkable way) (h : t.resolve way = .ok p) :
    ∀ name ∈ p, ValidName name :=
  keepsNames_resolveWithin t.links [] way p nofun hway h

end LangId.Tree
