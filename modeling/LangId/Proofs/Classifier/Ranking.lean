import LangId.Knowledge.Base
import LangId.Proofs.Classifier.Choice
import Mathlib

/-!
# Ranking and winner

A classifier orders candidates in two ways. The ranking looks at the scores first, and at the training
data and the names only where scores are equal. The winner is chosen among all whose scores are close
to the largest one, by training data and name alone. So the winner need not be the first in the
ranking.

**Given scores.** What the scores are is left open here: some values that the models give to the
content (`Classifier.Gives`), with an order that is total and a closeness that each value has to
itself (`Scale.Orders`). Both are asked only of the values that come up.

**Results.**
* `pairwise_order`: the ranking goes by score, then training data, then name.
* `outranks_of_bestOfTied`: what is chosen among entries with close scores is outranked by none.
* `ranking_and_winner`: both, for every knowledge base, content and set of candidates, and where they
  agree.
-/
namespace LangId

/-- A list is in order after sorting if the order is one on its members. -/
theorem pairwise_mergeSort_of_mem {α : Type} {le : α → α → Bool} {l : List α}
    (trans : ∀ a ∈ l, ∀ b ∈ l, ∀ c ∈ l, le a b = true → le b c = true → le a c = true)
    (total : ∀ a ∈ l, ∀ b ∈ l, (le a b || le b a) = true) :
    (l.mergeSort le).Pairwise fun a b => le a b = true := by
  have hsort : (l.attach.mergeSort fun a b => le a.1 b.1).map (·.1) = l.mergeSort le := by
    rw [List.map_mergeSort (s := le) fun _ _ _ _ => rfl, List.attach_map_subtype_val]
  rw [← hsort, List.pairwise_map]
  apply List.pairwise_mergeSort
  · exact fun a b c => trans a.1 a.2 b.1 b.2 c.1 c.2
  · exact fun a b => total a.1 a.2 b.1 b.2

variable {R : Type} {s : Scale R} {known : R → Prop}

/-- Among some values the order is total, and each value is close to itself. -/
structure Scale.Orders (s : Scale R) (known : R → Prop) : Prop where
  asymm : ∀ x y, known x → known y → s.above x y = true → s.above y x = false
  trans : ∀ x y z, known x → known y → known z → s.above x y = true → s.above y z = true →
    s.above x z = true
  total : ∀ x y, known x → known y → x ≠ y → s.above x y = true ∨ s.above y x = true
  close_self : ∀ x, known x → s.close x x = true

theorem Scale.Orders.irrefl (hs : s.Orders known) {x : R} (hx : known x) :
    s.above x x = false := by
  cases h : s.above x x with
  | false => rfl
  | true => exact h.symm.trans (hs.asymm x x hx hx h)

namespace Ranked

variable {a b c e : Ranked R} {entries : List (Ranked R)}

/-! ## Training data and names -/

/-- An entry has more training data than another one, or as much and no later name. -/
def Outranks (a b : Ranked R) : Prop :=
  b.training < a.training ∨ a.training = b.training ∧ ¬b.language.name < a.language.name

theorem winsTie_iff : winsTie a b = true ↔ a.Outranks b := by
  unfold winsTie Outranks
  by_cases h : a.training = b.training <;> simp [h, Text.notAfter_iff]

theorem outranks_refl (a : Ranked R) : a.Outranks a := .inr ⟨rfl, String.lt_irrefl _⟩

theorem Outranks.trans (hab : a.Outranks b) (hbc : b.Outranks c) : a.Outranks c := by
  rcases hab with hab | ⟨hab, hnames⟩
  · exact .inl (by rcases hbc with hbc | ⟨hbc, -⟩ <;> omega)
  · rcases hbc with hbc | ⟨hbc, hnames'⟩
    · exact .inl (by omega)
    · rw [← Text.notAfter_iff] at hnames hnames'
      exact .inr ⟨hab.trans hbc, Text.notAfter_iff.1 (Text.notAfter_trans _ _ _ hnames hnames')⟩

theorem outranks_total (a b : Ranked R) : a.Outranks b ∨ b.Outranks a := by
  have hnames := Text.notAfter_total a.language.name b.language.name
  rw [Bool.or_eq_true, Text.notAfter_iff, Text.notAfter_iff] at hnames
  rcases Int.lt_trichotomy a.training b.training with hlt | heq | hlt
  · exact .inr (.inl hlt)
  · exact hnames.imp (fun h => .inr ⟨heq, h⟩) fun h => .inr ⟨heq.symm, h⟩
  · exact .inl (.inl hlt)

/-- What is chosen among entries is outranked by none of them. -/
theorem outranks_of_bestOfTied (h : bestOfTied entries = some e) : ∀ f ∈ entries, e.Outranks f := by
  cases entries with
  | nil => cases h
  | cons first rest =>
    obtain rfl := Option.some.inj h
    -- the best so far outranks all entries up to it
    induction rest generalizing first with
    | nil => simpa using outranks_refl first
    | cons next rest ih =>
      obtain ⟨hbest, hrest⟩ := List.forall_mem_cons.1 (ih (if winsTie first next then first else next)
        rfl)
      have hboth : (if winsTie first next then first else next).Outranks first ∧
          (if winsTie first next then first else next).Outranks next := by
        split
        · rename_i hwins
          exact ⟨outranks_refl first, winsTie_iff.1 hwins⟩
        · rename_i hwins
          rw [winsTie_iff] at hwins
          exact ⟨(outranks_total first next).resolve_left hwins, outranks_refl next⟩
      exact List.forall_mem_cons.2 ⟨hbest.trans hboth.1,
        List.forall_mem_cons.2 ⟨hbest.trans hboth.2, hrest⟩⟩

/-- An entry that outranks all behind it is chosen. -/
theorem bestOfTied_of_outranks {first : Ranked R} {rest : List (Ranked R)}
    (h : ∀ f ∈ rest, first.Outranks f) : bestOfTied (first :: rest) = some first := by
  refine congrArg some ?_
  induction rest with
  | nil => rfl
  | cons next rest ih =>
    obtain ⟨hnext, hrest⟩ := List.forall_mem_cons.1 h
    rw [List.foldl_cons, if_pos (winsTie_iff.2 hnext)]
    exact ih hrest

/-! ## The ranking -/

/-- An entry goes before another one by its score, or with the same score by training data and
name. -/
def Ahead (s : Scale R) (a b : Ranked R) : Prop :=
  s.above a.score b.score = true ∨ a.score = b.score ∧ a.Outranks b

theorem notBehind_iff (hs : s.Orders known) (ha : known a.score) (hb : known b.score) :
    notBehind s a b = true ↔ Ahead s a b := by
  have htie : (if a.training != b.training then decide (b.training < a.training)
      else Text.notAfter a.language.name b.language.name) = winsTie a b := rfl
  rw [notBehind, htie, Ahead, ← winsTie_iff]
  by_cases hsame : a.score = b.score
  · simp [hsame, hs.irrefl hb]
  · rcases hs.total _ _ ha hb hsame with habove | habove
    · simp [habove]
    · simp [habove, hsame, hs.asymm _ _ hb ha habove]

theorem Ahead.trans (hs : s.Orders known) (ha : known a.score) (hb : known b.score)
    (hc : known c.score) (hab : Ahead s a b) (hbc : Ahead s b c) : Ahead s a c := by
  rcases hab with hab | ⟨hab, hties⟩
  · rcases hbc with hbc | ⟨hbc, -⟩
    · exact .inl (hs.trans _ _ _ ha hb hc hab hbc)
    · exact .inl (hbc ▸ hab)
  · rcases hbc with hbc | ⟨hbc, hties'⟩
    · exact .inl (hab ▸ hbc)
    · exact .inr ⟨hab.trans hbc, hties.trans hties'⟩

theorem ahead_total (hs : s.Orders known) (ha : known a.score) (hb : known b.score) :
    Ahead s a b ∨ Ahead s b a := by
  by_cases hsame : a.score = b.score
  · exact (outranks_total a b).imp (fun h => .inr ⟨hsame, h⟩) fun h => .inr ⟨hsame.symm, h⟩
  · exact (hs.total _ _ ha hb hsame).imp .inl .inl

/-- Entries are put in order by score, then training data, then name. -/
theorem pairwise_order (hs : s.Orders known) (hknown : ∀ e ∈ entries, known e.score) :
    (order s entries).Pairwise (Ahead s) := by
  have hsorted : (order s entries).Pairwise fun a b => notBehind s a b = true := by
    refine pairwise_mergeSort_of_mem (fun a ha b hb c hc hab hbc => ?_) fun a ha b hb => ?_
    · rw [notBehind_iff hs (hknown a ha) (hknown b hb)] at hab
      rw [notBehind_iff hs (hknown b hb) (hknown c hc)] at hbc
      exact (notBehind_iff hs (hknown a ha) (hknown c hc)).2
        (hab.trans hs (hknown a ha) (hknown b hb) (hknown c hc) hbc)
    · rw [Bool.or_eq_true, notBehind_iff hs (hknown a ha) (hknown b hb),
        notBehind_iff hs (hknown b hb) (hknown a ha)]
      exact ahead_total hs (hknown a ha) (hknown b hb)
  refine hsorted.imp_of_mem fun {a b} ha hb hab => ?_
  exact (notBehind_iff hs (hknown a (mem_order.1 ha)) (hknown b (mem_order.1 hb))).1 hab

/-! ## The winner -/

/-- An entry has a score close to the largest one, and no other such entry outranks it. -/
structure Wins (s : Scale R) (entries : List (Ranked R)) (e : Ranked R) : Prop where
  mem : e ∈ entries
  near : ∃ top ∈ entries, (∀ f ∈ entries, s.above f.score top.score = false) ∧
    s.close e.score top.score = true ∧
    ∀ f ∈ entries, s.close f.score top.score = true → e.Outranks f

/-- Nothing is above the first entry. -/
theorem not_above_head {best : Ranked R} {rest : List (Ranked R)} (hs : s.Orders known)
    (hknown : ∀ e ∈ best :: rest, known e.score) (h : (best :: rest).Pairwise (Ahead s)) :
    ∀ f ∈ best :: rest, s.above f.score best.score = false := by
  obtain ⟨hbest, hrest⟩ := List.forall_mem_cons.1 hknown
  refine List.forall_mem_cons.2 ⟨hs.irrefl hbest, fun f hf => ?_⟩
  rcases List.rel_of_pairwise_cons h hf with habove | ⟨hsame, -⟩
  · exact hs.asymm _ _ hbest (hrest f hf) habove
  · exact hsame ▸ hs.irrefl hbest

theorem wins_of_winner {ranked : List (Ranked R)} (hs : s.Orders known)
    (hknown : ∀ e ∈ ranked, known e.score) (h : ranked.Pairwise (Ahead s)) (hne : ranked ≠ []) :
    ∃ e, Wins s ranked e ∧ winner s ranked = .ok (some e.language) := by
  obtain ⟨best, rest, rfl⟩ := List.exists_cons_of_ne_nil hne
  have hself := hs.close_self _ (hknown best List.mem_cons_self)
  have hmem : best ∈ (best :: rest).filter fun e => s.close e.score best.score :=
    List.mem_filter.2 ⟨List.mem_cons_self, hself⟩
  cases he : bestOfTied ((best :: rest).filter fun e => s.close e.score best.score) with
  | none =>
    rw [bestOfTied_eq_none.1 he] at hmem
    cases hmem
  | some e =>
    obtain ⟨hin, hclose⟩ := List.mem_filter.1 (mem_of_bestOfTied he)
    refine ⟨e, ⟨hin, best, List.mem_cons_self, not_above_head hs hknown h, hclose, ?_⟩, ?_⟩
    · exact fun f hf hnear => outranks_of_bestOfTied he f (List.mem_filter.2 ⟨hf, hnear⟩)
    · simp only [winner, he]

/-- Where only equal scores are close, the winner is the first in the ranking. -/
theorem winner_eq_head {ranked : List (Ranked R)} (hs : s.Orders known)
    (hknown : ∀ e ∈ ranked, known e.score) (h : ranked.Pairwise (Ahead s))
    (hapart : ∀ a ∈ ranked, ∀ b ∈ ranked, s.close a.score b.score = true → a.score = b.score) :
    winner s ranked = .ok (ranked.head?.map (·.language)) := by
  cases ranked with
  | nil => rfl
  | cons best rest =>
    have hself := hs.close_self _ (hknown best List.mem_cons_self)
    have hfirst : ∀ f ∈ rest.filter (fun e => s.close e.score best.score), best.Outranks f := by
      intro f hf
      obtain ⟨hmem, hclose⟩ := List.mem_filter.1 hf
      have hsame := hapart f (List.mem_cons_of_mem _ hmem) best List.mem_cons_self hclose
      rcases List.rel_of_pairwise_cons h hmem with habove | ⟨-, houtranks⟩
      · have hnot := not_above_head hs hknown h best List.mem_cons_self
        rw [hsame, hnot] at habove
        cases habove
      · exact houtranks
    have htied : (best :: rest).filter (fun e => s.close e.score best.score) =
        best :: rest.filter fun e => s.close e.score best.score := List.filter_cons_of_pos hself
    simp only [winner, htied, bestOfTied_of_outranks hfirst, List.head?_cons, Option.map_some]

end Ranked

/-! ## The classifier -/

namespace Classifier

open Ranked

variable {c : Classifier R} {kb : KnowledgeBase} {content : List Char} {candidates : Candidates}
  {score : Model → R}

/-- The models of the candidates give the tokens of a content these scores. -/
def Gives (c : Classifier R) (kb : KnowledgeBase) (content : List Char) (candidates : Candidates)
    (score : Model → R) : Prop :=
  ∀ l ∈ candidates.members, ∀ m, kb.model? l.name = some m →
    m.logProbability c.scale (Token.tokenize content c.bound) c.smoothing kb.vocabulary =
      .ok (score m)

/-- A score that the model of some candidate gives. -/
def GivenTo (kb : KnowledgeBase) (candidates : Candidates) (score : Model → R) (x : R) : Prop :=
  ∃ l ∈ candidates.members, ∃ m, kb.model? l.name = some m ∧ score m = x

/-- The candidates that have a model, each as often as it is a candidate, with their scores and the
sizes of their training data, in order. -/
structure Ranking (s : Scale R) (kb : KnowledgeBase) (candidates : Candidates) (score : Model → R)
    (ranked : List (Ranked R)) : Prop where
  languages : (ranked.map (·.language)).Perm
    (candidates.members.filter fun l => (kb.model? l.name).isSome)
  values : ∀ e ∈ ranked, ∃ m, kb.model? e.language.name = some m ∧ e.score = score m ∧
    e.training = m.total
  ordered : ranked.Pairwise (Ahead s)

/-- The entries of the candidates that have a model. -/
def entriesOf (kb : KnowledgeBase) (candidates : Candidates) (score : Model → R) : List (Ranked R) :=
  candidates.members.filterMap fun l => (kb.model? l.name).map fun m => ⟨l, score m, m.total⟩

theorem scores_of_gives (h : c.Gives kb content candidates score) :
    c.scores kb.model? kb.vocabulary content candidates =
      .ok (order c.scale (entriesOf kb candidates score)) := by
  refine map_eq_ok.2 ⟨_, filterMapM_eq_ok fun l hl => ?_, rfl⟩
  cases hm : kb.model? l.name with
  | none => exact entry?_eq_none.2 hm
  | some m => exact entry?_eq_some.2 ⟨m, score m, hm, h l hl m hm, rfl⟩

theorem mem_entriesOf {e : Ranked R} : e ∈ entriesOf kb candidates score ↔
    e.language ∈ candidates.members ∧
      ∃ m, kb.model? e.language.name = some m ∧ e.score = score m ∧ e.training = m.total := by
  simp only [entriesOf, List.mem_filterMap, Option.map_eq_some_iff]
  constructor
  · rintro ⟨l, hl, m, hm, rfl⟩
    exact ⟨hl, m, hm, rfl, rfl⟩
  · obtain ⟨l, x, n⟩ := e
    rintro ⟨hl, m, hm, rfl, rfl⟩
    exact ⟨l, hl, m, hm, rfl⟩

theorem languages_entriesOf : (entriesOf kb candidates score).map (·.language) =
    candidates.members.filter fun l => (kb.model? l.name).isSome := by
  rw [entriesOf, List.map_filterMap]
  induction candidates.members with
  | nil => rfl
  | cons l rest ih =>
    rw [List.filterMap_cons, List.filter_cons, ih]
    cases kb.model? l.name <;> rfl

theorem ranking_order (hs : s.Orders (GivenTo kb candidates score)) :
    Ranking s kb candidates score (order s (entriesOf kb candidates score)) := by
  have hknown : ∀ e ∈ entriesOf kb candidates score, GivenTo kb candidates score e.score := by
    intro e he
    obtain ⟨hl, m, hm, hscore, -⟩ := mem_entriesOf.1 he
    exact ⟨e.language, hl, m, hm, hscore.symm⟩
  refine ⟨?_, fun e he => (mem_entriesOf.1 (mem_order.1 he)).2, pairwise_order hs hknown⟩
  exact languages_entriesOf ▸ (List.mergeSort_perm _ _).map _

theorem Ranking.given {ranked : List (Ranked R)} (h : Ranking s kb candidates score ranked) :
    ∀ e ∈ ranked, GivenTo kb candidates score e.score := by
  intro e he
  obtain ⟨m, hm, hscore, -⟩ := h.values e he
  have hl := (h.languages.mem_iff (a := e.language)).1 (List.mem_map_of_mem he)
  exact ⟨e.language, (List.mem_filter.1 hl).1, m, hm, hscore.symm⟩

/-- **Ranking and winner.** The candidates that have a model are ranked, each once and no others, by
score, training data and name. If there are none, nothing is chosen. Otherwise the choice is the one
with the most training data, and then the smallest name, of all whose scores are close to the largest
one; and where only equal scores are close, it is the first in the ranking. -/
theorem ranking_and_winner (hgives : c.Gives kb content candidates score)
    (hs : c.scale.Orders (GivenTo kb candidates score)) :
    ∃ ranked, c.scores kb.model? kb.vocabulary content candidates = .ok ranked ∧
      Ranking c.scale kb candidates score ranked ∧
      (candidates.members.Nodup → (ranked.map (·.language)).Nodup) ∧
      (c.classify kb.model? kb.vocabulary content candidates = .ok none ↔
        ∀ l ∈ candidates.members, kb.model? l.name = none) ∧
      ((∃ l ∈ candidates.members, kb.model? l.name ≠ none) → ∃ e, Wins c.scale ranked e ∧
        c.classify kb.model? kb.vocabulary content candidates = .ok (some e.language)) ∧
      ((∀ a ∈ ranked, ∀ b ∈ ranked, c.scale.close a.score b.score = true → a.score = b.score) →
        c.classify kb.model? kb.vocabulary content candidates =
          .ok (ranked.head?.map (·.language))) := by
  have hscores := scores_of_gives hgives
  have hranking := ranking_order hs
  have hclassify : c.classify kb.model? kb.vocabulary content candidates =
      winner c.scale (order c.scale (entriesOf kb candidates score)) := by
    rw [classify, hscores]
    rfl
  generalize order c.scale (entriesOf kb candidates score) = ranked at *
  refine ⟨ranked, hscores, hranking, fun hnodup => ?_, classify_eq_none, ?_, fun hapart => ?_⟩
  · exact hranking.languages.nodup_iff.2 (hnodup.filter _)
  · rintro ⟨l, hl, hmodel⟩
    have hne : ranked ≠ [] := by
      rintro rfl
      obtain ⟨e, he, -⟩ := (mem_scores hscores).2 ⟨hl, hmodel⟩
      cases he
    rw [hclassify]
    exact wins_of_winner hs hranking.given hranking.ordered hne
  · rw [hclassify]
    exact winner_eq_head hs hranking.given hranking.ordered hapart

/-! ## A winner that is not the first -/

/-- Whole numbers as scores, each its own logarithm, of which neighbours are close. -/
def wholeNumbers : Scale Int where
  ofInt n := .ok n
  add x y := x + y
  sub x y := x - y
  mul x y := x * y
  log x := .ok x
  zero := 0
  above x y := decide (y < x)
  close x y := decide ((x - y).natAbs ≤ 1)

theorem orders_wholeNumbers (known : Int → Prop) : wholeNumbers.Orders known where
  asymm x y _ _ h := by
    simp only [wholeNumbers, decide_eq_true_eq, decide_eq_false_iff_not] at h ⊢
    omega
  trans x y z _ _ _ h h' := by
    simp only [wholeNumbers, decide_eq_true_eq] at h h' ⊢
    omega
  total x y _ _ h := by
    simp only [wholeNumbers, decide_eq_true_eq]
    omega
  close_self x _ := by simp [wholeNumbers]

/-- Four languages, the last of which has no model. -/
def contenders : List Language :=
  [⟨"A", .programming, [], [], [], [], [], none, none⟩,
    ⟨"B", .programming, [], [], [], [], [], none, none⟩,
    ⟨"C", .programming, [], [], [], [], [], none, none⟩,
    ⟨"D", .programming, [], [], [], [], [], none, none⟩]

/-- Their models. The token `x` is two of three tokens, three of five, and the only one. -/
def contenderModels : List (String × Model) :=
  [("A", ⟨"A", [("x", 2), ("y", 1)], 3⟩), ("B", ⟨"B", [("x", 3), ("y", 2)], 5⟩),
    ("C", ⟨"C", [("x", 1)], 1⟩)]

/-- What the model of a contender gives to the token `x`. -/
def contenderScore (m : Model) : Int := m.count "x" + 1 - (m.total + 2)

/-- Tokens that do not come up count against a model. So `C` is ranked first, but `A` is close to it
and has more training data, while `B` is not close to it. -/
theorem second_wins : ∃ kb, KnowledgeBase.make contenders [] [] contenderModels = .ok kb ∧
    Gives ⟨wholeNumbers, 1, 10⟩ kb ['x'] kb.all contenderScore ∧
    wholeNumbers.Orders (GivenTo kb kb.all contenderScore) ∧
    ∃ ranked, scores ⟨wholeNumbers, 1, 10⟩ kb.model? kb.vocabulary ['x'] kb.all = .ok ranked ∧
      Ranking wholeNumbers kb kb.all contenderScore ranked ∧
      ranked.map (·.language.name) = ["C", "A", "B"] ∧
      ∃ e, Wins wholeNumbers ranked e ∧ e.language.name = "A" ∧
        classify ⟨wholeNumbers, 1, 10⟩ kb.model? kb.vocabulary ['x'] kb.all =
          .ok (some e.language) := by
  have hread : (KnowledgeBase.make contenders [] [] contenderModels).toOption.map (fun kb =>
      (kb.all.members.all fun l => (kb.model? l.name).all fun m =>
        (m.logProbability wholeNumbers (Token.tokenize ['x'] 10) 1 kb.vocabulary).toOption ==
          some (contenderScore m),
      (scores ⟨wholeNumbers, 1, 10⟩ kb.model? kb.vocabulary ['x'] kb.all).toOption.map
        (·.map (·.language.name)),
      (classify ⟨wholeNumbers, 1, 10⟩ kb.model? kb.vocabulary ['x'] kb.all).toOption.map
        (·.map (·.name)))) = some (true, some ["C", "A", "B"], some (some "A")) := by cbv
  obtain ⟨kb, hmake, hfacts⟩ := Option.map_eq_some_iff.1 hread
  obtain ⟨hgiven, hfacts⟩ := Prod.mk.inj hfacts
  obtain ⟨hnames, hname⟩ := Prod.mk.inj hfacts
  have hkb := toOption_eq_some.1 hmake
  have hgives : Gives ⟨wholeNumbers, 1, 10⟩ kb ['x'] kb.all contenderScore := by
    intro l hl m hm
    have hmodel := List.all_eq_true.1 hgiven l hl
    rw [hm, Option.all_some, beq_iff_eq] at hmodel
    exact toOption_eq_some.1 hmodel
  have hs := orders_wholeNumbers (GivenTo kb kb.all contenderScore)
  obtain ⟨ranked, hscores, hranking, -, -, hwins, -⟩ := ranking_and_winner hgives hs
  have hranked : ranked.map (·.language.name) = ["C", "A", "B"] := by
    rw [hscores] at hnames
    exact Option.some.inj hnames
  have hmem : "C" ∈ ranked.map (·.language.name) := by
    rw [hranked]
    exact List.mem_cons_self
  obtain ⟨first, hfirst, -⟩ := List.mem_map.1 hmem
  obtain ⟨e, he, hclassify⟩ := hwins ⟨_, (mem_scores hscores).1 ⟨first, hfirst, rfl⟩⟩
  rw [hclassify] at hname
  exact ⟨kb, hkb, hgives, hs, ranked, hscores, hranking, hranked, e, he,
    Option.some.inj (Option.some.inj hname), hclassify⟩

end Classifier

end LangId
