import LangId.Identifier
import LangId.Proofs.Path
import Mathlib.Data.List.Forall2
import Mathlib.Logic.Relation

/-!
# Spellings of one path

A path can be spelt in many ways: with `./` in front, as often as one likes, and with backslashes for
any of its slashes. A backslash for the slash of a leading `./` hides it, so that it shows only when
slashes are written again. `Spelling` is what leads from one of these spellings to another, forwards
and backwards. The canonical spelling is one of them, and tells them apart from those of other paths
(`spelling_iff`).

**Results.**
* `eq_heres_append`: how `./` is taken away: in so many rounds, until none stands in front.
* `answered_alike`: filters and identifiers see the canonical spelling only.
* `spelling_immaterial`: the canonical spelling is a normal form, and no answer depends on how a path
  is spelt.
-/
namespace LangId.Path

/-- `./`, so many times. -/
def heres (n : Nat) : List Char := (List.replicate n ['.', '/']).flatten

theorem heres_succ (n : Nat) : heres (n + 1) = '.' :: '/' :: heres n := rfl

/-- **Rounds.** `./` is taken away in so many rounds, and then none is left in front. -/
theorem eq_heres_append (s : List Char) : ∃ rounds, s = heres rounds ++ dropHere s := by
  fun_induction dropHere s with
  | case1 rest ih =>
    obtain ⟨rounds, h⟩ := ih
    refine ⟨rounds + 1, ?_⟩
    rw [heres_succ, List.cons_append, List.cons_append, ← h]
  | case2 s _ => exact ⟨0, rfl⟩

theorem dropHere_heres_append (n : Nat) (s : List Char) : dropHere (heres n ++ s) = dropHere s := by
  induction n with
  | zero => rfl
  | succ n ih => exact ih

theorem forwardSlashes_append (s t : List Char) :
    forwardSlashes (s ++ t) = forwardSlashes s ++ forwardSlashes t := List.map_append

theorem toList_canonical (p : String) : (canonical p).toList = dropHere (forwardSlashes p.toList) :=
  String.toList_ofList

/-- A text with backslashes for some of the slashes of another one. -/
def Backslashed (p q : String) : Prop :=
  List.Forall₂ (fun c d => d = c ∨ c = '/' ∧ d = '\\') p.toList q.toList

/-- One respelling of a path: `./` in front, or backslashes for some slashes. -/
inductive Respelling : String → String → Prop
  | here (p : String) : Respelling p ("./" ++ p)
  | backslashes {p q : String} : Backslashed p q → Respelling p q

/-- Two spellings of one path: respellings lead from one to the other, forwards and backwards. -/
def Spelling : String → String → Prop := Relation.EqvGen Respelling

variable {p q : String}

/-! ## Spellings with the same normal form -/

theorem canonical_here (p : String) : canonical ("./" ++ p) = canonical p := by
  rw [canonical, String.toList_append, forwardSlashes_append]
  rfl

theorem canonical_of_backslashed (h : Backslashed p q) : canonical q = canonical p := by
  have hsame : forwardSlashes q.toList = forwardSlashes p.toList := by
    rw [Backslashed] at h
    generalize p.toList = s at h
    generalize q.toList = t at h
    induction h with
    | nil => rfl
    | cons hcd _ ih =>
      rw [forwardSlashes, List.map_cons, ← forwardSlashes, ih, forwardSlashes, forwardSlashes,
        List.map_cons]
      rcases hcd with rfl | ⟨rfl, rfl⟩ <;> rfl
  rw [canonical, hsame, canonical]

/-- Slashes for all backslashes: this is undone by backslashes for some slashes. -/
theorem backslashed_forwardSlashes (p : String) :
    Backslashed (String.ofList (forwardSlashes p.toList)) p := by
  rw [Backslashed, String.toList_ofList, forwardSlashes, List.forall₂_map_left_iff,
    List.forall₂_same]
  intro c _
  by_cases hc : c = '\\'
  · exact .inr ⟨by rw [hc]; rfl, hc⟩
  · left
    rw [beq_false_of_ne hc]
    rfl

theorem spelling_heres_append (n : Nat) (s : List Char) :
    Spelling (String.ofList s) (String.ofList (heres n ++ s)) := by
  induction n with
  | zero => exact .refl _
  | succ n ih =>
    have hhere : String.ofList (heres (n + 1) ++ s) = "./" ++ String.ofList (heres n ++ s) :=
      String.toList_inj.1 (by simp [heres_succ])
    rw [hhere]
    exact ih.trans _ _ _ (.rel _ _ (.here _))

/-- The canonical spelling of a path is one of its spellings. -/
theorem spelling_canonical (p : String) : Spelling (canonical p) p := by
  obtain ⟨rounds, hrounds⟩ := eq_heres_append (forwardSlashes p.toList)
  have hslashes : Spelling (canonical p) (String.ofList (forwardSlashes p.toList)) := by
    have := spelling_heres_append rounds (dropHere (forwardSlashes p.toList))
    rwa [← hrounds] at this
  exact hslashes.trans _ _ _ (.rel _ _ (.backslashes (backslashed_forwardSlashes p)))

/-- **Spellings** of one path are the texts with one canonical spelling. -/
theorem spelling_iff : Spelling p q ↔ canonical p = canonical q := by
  constructor
  · intro h
    induction h with
    | rel p q h =>
      cases h with
      | here => exact (canonical_here p).symm
      | backslashes h => exact (canonical_of_backslashed h).symm
    | refl p => rfl
    | symm p q _ ih => exact ih.symm
    | trans p q r _ _ ihp ihq => exact ihp.trans ihq
  · intro h
    exact .trans _ _ _ ((spelling_canonical p).symm _ _) (h ▸ spelling_canonical q)

/-! ## Answers -/

/-- All filters and identifiers give the same answers about two texts. -/
structure AnsweredAlike (p q : String) : Prop where
  rule : ∀ f : ExclusionFilter, f.rule? p = f.rule? q
  excludes : ∀ f : ExclusionFilter, f.excludes p = f.excludes q
  reason : ∀ f : ExclusionFilter, f.excludedAs p = f.excludedAs q
  oneKind : ∀ (f : ExclusionFilter) kind, f.excludesAs kind p = f.excludesAs kind q
  identification : ∀ (i : Identifier) bytes, i.identify p bytes = i.identify q bytes

theorem firstMatch?_of_canonical (f : ExclusionFilter) (counts : ExclusionRule → Bool)
    (h : canonical p = canonical q) : f.firstMatch? counts p = f.firstMatch? counts q := by
  rw [ExclusionFilter.firstMatch?, ExclusionFilter.firstMatch?, h]

/-- Only the canonical spelling is seen. -/
theorem answered_alike (h : canonical p = canonical q) : AnsweredAlike p q where
  rule f := firstMatch?_of_canonical f _ h
  excludes f := congrArg (Option.any _) (firstMatch?_of_canonical f _ h)
  reason f := by
    have hdeciding : f.deciding? p = f.deciding? q := firstMatch?_of_canonical f _ h
    rw [ExclusionFilter.excludedAs, ExclusionFilter.excludedAs, hdeciding]
  oneKind f kind := congrArg (Option.any _) (firstMatch?_of_canonical f _ h)
  identification i bytes := by
    rw [Identifier.identify, Identifier.identify, h]

theorem analyze_of_spellings (i : Identifier) (provider : Provider) {paths paths' : List String}
    (h : List.Forall₂ Spelling paths paths') :
    i.analyze paths provider = i.analyze paths' provider := by
  have hsame : paths.map canonical = paths'.map canonical :=
    List.forall₂_eq_eq_eq ▸ (List.forall₂_map_left_iff.2 (List.forall₂_map_right_iff.2
      (h.imp fun _ _ => spelling_iff.1)))
  rw [Identifier.analyze, Identifier.analyze, hsame]

/-- **Normal form.** Taking `./` away from the front of a path ends, after so many rounds, and leaves
a spelling of the same path with no backslash and no `./` in front. That spelling is its own, it does
not change with `./` in front of the path or with backslashes for any of its slashes, and all paths
that have it are spellings of one. Every filter and every identifier answers alike about all of them,
and so does every analysis, also if they have been spelt canonically before. -/
theorem spelling_immaterial (p : String) :
    (∃ rounds, forwardSlashes p.toList = heres rounds ++ (canonical p).toList) ∧
    '\\' ∉ (canonical p).toList ∧ ¬['.', '/'] <+: (canonical p).toList ∧
    canonical (canonical p) = canonical p ∧ canonical ("./" ++ p) = canonical p ∧
    (∀ q, Backslashed p q → canonical q = canonical p) ∧
    (∀ q, Spelling p q ↔ canonical p = canonical q) ∧
    (∀ q, Spelling p q → AnsweredAlike p q) ∧
    ∀ (i : Identifier) (provider : Provider) (paths paths' : List String),
      List.Forall₂ Spelling paths paths' →
        i.analyze paths provider = i.analyze paths' provider ∧
          i.analyze (paths.map canonical) provider = i.analyze paths' provider := by
  obtain ⟨hbackslash, hhere⟩ := isCanonical_canonical p
  refine ⟨?_, hbackslash, hhere, canonical_canonical p, canonical_here p,
    fun q => canonical_of_backslashed, fun q => spelling_iff,
    fun q h => answered_alike (spelling_iff.1 h), fun i provider paths paths' h => ?_⟩
  · rw [toList_canonical]
    exact eq_heres_append _
  · have hspelt : List.Forall₂ Spelling (paths.map canonical) paths :=
      List.forall₂_map_left_iff.2 (List.forall₂_same.2 fun p _ => spelling_canonical p)
    have hsame := analyze_of_spellings i provider h
    exact ⟨hsame, (analyze_of_spellings i provider hspelt).trans hsame⟩

example : canonical ".\\./docs\\a.md" = "docs/a.md" := by decide +kernel

end LangId.Path
