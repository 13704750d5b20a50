import LangId.Proofs.Candidates
import Mathlib.Data.List.Induction

/-!
# Proposals one after the other

A proposal that contradicts what is left is passed over, so the order of proposals matters: of two that
contradict each other the first one wins. Which proposals are heeded is told without the sets that they
lead to (`Heeded`): a proposal is if it shares a language with the set and with all proposals that have
been heeded before it. What a run of proposals leaves is then the set met with those (`narrowAll_eq`).
Proposals that all share a language of the set are all heeded, in whatever order they come.

**Results.**
* `narrowing_commutes`: the set that proposals lead to, for consistent ones in every order.
-/
namespace LangId.Candidates

/-- A set narrowed by proposals, one after the other. -/
def narrowAll (a : Candidates) (proposals : List Candidates) : Candidates := proposals.foldl narrow a

/-- The languages of a set that all proposals hold. -/
def meet (a : Candidates) (proposals : List Candidates) : List Language :=
  a.members.filter fun l => proposals.all (·.contains l)

/-- Of the proposals that are offered, in order, those that are heeded: each is no universe, and holds a
language that the set and all those heeded before hold. -/
inductive Heeded (a : Candidates) : List Candidates → List Candidates → Prop
  | nil : Heeded a [] []
  | heeds {offered heeded : List Candidates} {b : Candidates} {l : Language} :
      Heeded a offered heeded → b.isUniverse = false → l ∈ a.meet heeded → l ∈ b.members →
      Heeded a (offered ++ [b]) (heeded ++ [b])
  | passes {offered heeded : List Candidates} {b : Candidates} :
      Heeded a offered heeded → (b.isUniverse = true ∨ ∀ l ∈ a.meet heeded, l ∉ b.members) →
      Heeded a (offered ++ [b]) heeded

variable {a b : Candidates} {offered heeded proposals order : List Candidates} {l : Language}

/-! ## What is shared -/

theorem mem_meet : l ∈ a.meet proposals ↔ l ∈ a.members ∧ ∀ b ∈ proposals, l ∈ b.members := by
  simp [meet, contains]

@[simp]
theorem meet_nil : a.meet [] = a.members := List.filter_eq_self.2 fun _ _ => rfl

theorem meet_concat : a.meet (proposals ++ [b]) = (a.meet proposals).filter b.contains := by
  simp [meet, List.filter_filter, Bool.and_comm]

theorem meet_of_perm (h : order.Perm proposals) : a.meet order = a.meet proposals :=
  List.filter_congr fun _ _ => h.all_eq

/-! ## What proposals lead to -/

theorem narrowAll_concat (a b : Candidates) (proposals : List Candidates) :
    a.narrowAll (proposals ++ [b]) = (a.narrowAll proposals).narrow b := by
  rw [narrowAll, List.foldl_append]
  rfl

/-- A proposal that is a universe or empty changes nothing. -/
theorem narrow_of_silent (h : b.isUniverse = true ∨ b.members = []) : a.narrow b = a := by
  have hsilent : b.isUniverse = true ∨ a.inter b = [] :=
    h.imp_right fun hempty => by simp [inter, contains, hempty]
  rw [narrow_eq, if_pos hsilent]

/-- **Runs.** Left is what the set shares with the proposals that have been heeded, and it is marked
as the universe as long as there are none. -/
theorem narrowAll_eq (h : Heeded a offered heeded) :
    a.narrowAll offered = ⟨a.meet heeded, a.isUniverse && heeded.isEmpty⟩ := by
  -- along the proposals, of which the latest is looked at
  induction h with
  | nil => simp [narrowAll]
  | @heeds offered heeded b l _ hmark hl hb ih =>
    have hmeets : (a.meet heeded).filter b.contains ≠ [] :=
      List.ne_nil_of_mem (List.mem_filter.2 ⟨hl, by simpa [contains] using hb⟩)
    rw [narrowAll_concat, ih, narrow_eq, if_neg (by simp [hmark, inter, hmeets]), meet_concat]
    simp [inter]
  | @passes offered heeded b _ hpass ih =>
    have hsilent : b.isUniverse = true ∨ (a.meet heeded).filter b.contains = [] :=
      hpass.imp_right fun hnone => List.filter_eq_nil_iff.2 (by simpa [contains] using hnone)
    rw [narrowAll_concat, ih, narrow_eq]
    exact if_pos hsilent

/-- Each proposal is heeded or not. -/
theorem exists_heeded (a : Candidates) (offered : List Candidates) :
    ∃ heeded, Heeded a offered heeded := by
  induction offered using List.reverseRecOn with
  | nil => exact ⟨[], .nil⟩
  | append_singleton offered b ih =>
    obtain ⟨heeded, h⟩ := ih
    by_cases hmark : b.isUniverse = true
    · exact ⟨heeded, .passes h (.inl hmark)⟩
    by_cases hmeets : ∃ l ∈ a.meet heeded, l ∈ b.members
    · obtain ⟨l, hl, hb⟩ := hmeets
      exact ⟨heeded ++ [b], .heeds h (by simpa using hmark) hl hb⟩
    · exact ⟨heeded, .passes h (.inr fun l hl hb => hmeets ⟨l, hl, hb⟩)⟩

theorem Heeded.sublist (h : Heeded a offered heeded) : heeded.Sublist offered := by
  induction h with
  | nil => exact .refl []
  | heeds _ _ _ _ ih => exact ih.append_right _
  | passes _ _ ih => exact ih.trans (List.sublist_append_left _ _)

/-- Proposals that share a language of the set are all heeded. -/
theorem heeded_of_consistent (hmarks : ∀ b ∈ offered, b.isUniverse = false)
    (hl : l ∈ a.meet offered) : Heeded a offered offered := by
  induction offered using List.reverseRecOn with
  | nil => exact .nil
  | append_singleton offered b ih =>
    obtain ⟨hmarks, hmark⟩ := List.forall_mem_append.1 hmarks
    rw [meet_concat, List.mem_filter] at hl
    exact .heeds (ih hmarks hl.1) (hmark b (List.mem_singleton_self b)) hl.1
      (by simpa [contains] using hl.2)

/-- **Order.** Proposals that share a language of a set lead to what the set shares with all of them,
in whatever order they come. Proposals of any kind lead to what it shares with those that are heeded;
universes and empty proposals change nothing, wherever they come. -/
theorem narrowing_commutes (a : Candidates) (proposals : List Candidates) :
    ((∀ b ∈ proposals, b.isUniverse = false) → proposals ≠ [] →
      (∃ l ∈ a.members, ∀ b ∈ proposals, l ∈ b.members) →
      ∀ order, order.Perm proposals → a.narrowAll order = ⟨a.meet proposals, false⟩) ∧
    (∃ heeded, Heeded a proposals heeded) ∧
    (∀ heeded, Heeded a proposals heeded → heeded.Sublist proposals ∧
      a.narrowAll proposals = ⟨a.meet heeded, a.isUniverse && heeded.isEmpty⟩) ∧
    ∀ b before behind, b.isUniverse = true ∨ b.members = [] →
      a.narrowAll (before ++ b :: behind) = a.narrowAll (before ++ behind) := by
  refine ⟨fun hmarks hne ⟨l, hl, hall⟩ order hperm => ?_, exists_heeded a proposals,
    fun heeded h => ⟨h.sublist, narrowAll_eq h⟩, fun b before behind hsilent => ?_⟩
  · have hshared : l ∈ a.meet order := mem_meet.2 ⟨hl, fun b hb => hall b (hperm.subset hb)⟩
    have hheeded : Heeded a order order :=
      heeded_of_consistent (fun b hb => hmarks b (hperm.subset hb)) hshared
    have hsome : order.isEmpty = false := by
      simpa using fun hnil : order = [] => hne (List.nil_perm.1 (hnil ▸ hperm))
    rw [narrowAll_eq hheeded, meet_of_perm hperm, hsome, Bool.and_false]
  · simp only [narrowAll, List.foldl_append, List.foldl_cons, narrow_of_silent hsilent]

/-- Two proposals that share a language are heeded in either order; between them and a third one that
contradicts both, the order decides, and a universe counts for nothing. -/
theorem narrowing_commutes_three :
    let l (name : String) : Language := ⟨name, .programming, [], [], [], [], [], none, none⟩
    let a : Candidates := ⟨[l "A", l "B", l "C"], true⟩
    let b : Candidates := ⟨[l "A", l "B"], false⟩
    let c : Candidates := ⟨[l "B"], false⟩
    let d : Candidates := ⟨[l "C"], false⟩
    (a.narrowAll [c, b] = ⟨[l "B"], false⟩ ∧ a.narrowAll [b, c] = ⟨[l "B"], false⟩) ∧
    (Heeded a [b, d, c] [b, c] ∧ a.narrowAll [b, d, c] = ⟨[l "B"], false⟩) ∧
    a.narrowAll [d, b, c] = ⟨[l "C"], false⟩ ∧ a.narrowAll [a, d, b] = a.narrowAll [d, b] := by
  intro l a b c d
  obtain ⟨hall, -, -, hsilent⟩ := narrowing_commutes a [b, c]
  have hboth := hall (by decide) (by decide) ⟨l "B", by decide, by decide⟩
  have hfirst : Heeded a ([] ++ [b]) ([] ++ [b]) :=
    heeded_of_consistent (by decide) (by decide : l "B" ∈ a.meet [b])
  have hheeded : Heeded a ([b] ++ [d] ++ [c]) ([b] ++ [c]) :=
    .heeds (.passes hfirst (.inr (by decide))) rfl (by decide : l "B" ∈ a.meet [b])
      (by decide)
  have hthree := ((narrowing_commutes a [b, d, c]).2.2.1 [b, c] hheeded).2
  exact ⟨⟨hboth [c, b] (.swap _ _ _), hboth [b, c] (.refl _)⟩, ⟨hheeded, hthree.trans (by decide)⟩,
    by decide, hsilent a [] [d, b] (.inl rfl)⟩

end LangId.Candidates
