import LangId.Proofs.Dialect.Compile
import LangId.Proofs.Regex.Joining

/-!
# Patterns that are joined

The patterns of a definition are joined with bars into one, which is to occur where one of them
does. Groups are numbered throughout the whole, so that this can fail in two ways: a pattern behind
others with groups that refers to a group by its number refers to another group, and two patterns
with groups of one name cannot be joined at all.

**Results.**
* `compile_alternation`: patterns that can be compiled on their own and refer to no groups by number
  where there are groups before them can be compiled together exactly if no two of them have groups
  of one name, and then occur together where one of them does.
* `number_misleads`: two patterns that miss, together, a text in which one of them occurs.
-/
namespace LangId.Dialect

open Regex

/-- The number of groups of a pattern. -/
def groupCount (pattern : String) : Nat := Regex.groupCount contentFlags (join [pattern]).toList

/-- The names of the groups of a pattern. -/
def groupNames (pattern : String) : List (List Char) :=
  Regex.groupNames contentFlags (join [pattern]).toList

/-- A pattern that refers to no group by its number. An escaped digit in a class or in a comment is no
reference. -/
def NumberFree (pattern : String) : Prop :=
  Regex.groupNumbers contentFlags (join [pattern]).toList = []

instance (pattern : String) : Decidable (NumberFree pattern) := inferInstanceAs (Decidable (_ = _))

theorem toList_join (patterns : List String) :
    (join patterns).toList = joined (patterns.map fun p => (adapt p).toList) := by
  have hbar : "|".toList = ['|'] := by simp
  have hpart (p : String) : ("(?:" ++ adapt p ++ ")").toList = wrap (adapt p).toList := by
    simp [wrap]
  rw [join, String.toList_intercalate, List.map_map, joined, List.map_map, hbar]
  exact congrArg _ (List.map_congr_left fun p _ => hpart p)

theorem toList_join_singleton (pattern : String) :
    (join [pattern]).toList = wrap (adapt pattern).toList := by
  rw [toList_join]
  exact List.append_nil _

theorem compile_one_eq_ok {pattern source : String} {q : Pattern} :
    compile (.one pattern) source = .ok q ↔
      ∃ node, parse contentFlags (wrap (adapt pattern).toList) = .ok node ∧
        q = ⟨join [pattern], node⟩ := by
  have hne : (OneOrMany.one pattern).toList ≠ [] := List.cons_ne_nil _ _
  rw [compile_eq_ok, Pattern.compile, map_eq_ok, and_iff_right hne]
  simp only [OneOrMany.toList, toList_join_singleton, eq_comm (a := q)]

/-- **Alternation.** Patterns that compile on their own, of which none refers to a group by its
number where groups of others stand before it, compile together exactly if no two of them have
groups of one name, and then occur together where one of them does. -/
theorem compile_alternation {patterns : List String} {source : String} (hne : patterns ≠ [])
    (halone : ∀ p ∈ patterns, ∃ q, compile (.one p) source = .ok q)
    (hnumbers : patterns.Pairwise fun a b => groupCount a = 0 ∨ NumberFree b) :
    (patterns.Pairwise (fun a b => List.Disjoint (groupNames a) (groupNames b)) →
      ∃ q, compile (.many patterns) source = .ok q ∧
        ∀ text, q.occursIn text = true ↔
          ∃ p ∈ patterns, ∃ r, compile (.one p) source = .ok r ∧ r.occursIn text = true) ∧
    (¬patterns.Pairwise (fun a b => List.Disjoint (groupNames a) (groupNames b)) →
      compile (.many patterns) source =
        .error (.definition (.badPattern (join patterns) source .duplicateName))) := by
  have htexts : patterns.map (fun p => (adapt p).toList) ≠ [] := by simpa using hne
  have hread : ∀ t ∈ patterns.map fun p => (adapt p).toList,
      ∃ node, parse contentFlags (wrap t) = .ok node := by
    refine List.forall_mem_map.2 fun p hp => ?_
    obtain ⟨q, hq⟩ := halone p hp
    obtain ⟨node, hnode, -⟩ := compile_one_eq_ok.1 hq
    exact ⟨node, hnode⟩
  have hfree : (patterns.map fun p => (adapt p).toList).Pairwise fun a b =>
      Regex.groupCount contentFlags (wrap a) = 0 ∨ Regex.groupNumbers contentFlags (wrap b) = [] := by
    rw [List.pairwise_map]
    simpa only [groupCount, NumberFree, toList_join_singleton] using hnumbers
  have hnames : (patterns.map fun p => (adapt p).toList).Pairwise (fun a b =>
      ∀ l ∈ Regex.groupNames contentFlags (wrap b), l ∉ Regex.groupNames contentFlags (wrap a)) ↔
      patterns.Pairwise fun a b => List.Disjoint (groupNames a) (groupNames b) := by
    rw [List.pairwise_map]
    simp only [groupNames, toList_join_singleton, List.disjoint_right]
  obtain ⟨hok, herror⟩ := parse_joined rfl rfl htexts hread hfree
  rw [hnames] at hok herror
  constructor
  · intro hapart
    obtain ⟨node, hnode, hsearch⟩ := hok hapart
    refine ⟨⟨join patterns, node⟩, ?_, fun text => ?_⟩
    · refine compile_eq_ok.2 ⟨hne, ?_⟩
      rw [Pattern.compile, OneOrMany.toList, toList_join, hnode]
      rfl
    · rw [Pattern.occursIn, Pattern.search, hsearch text]
      constructor
      · rintro ⟨t, ht, n, hn, hs⟩
        obtain ⟨p, hp, rfl⟩ := List.mem_map.1 ht
        exact ⟨p, hp, ⟨join [p], n⟩, compile_one_eq_ok.2 ⟨n, hn, rfl⟩, hs⟩
      · rintro ⟨p, hp, r, hr, hs⟩
        obtain ⟨n, hn, rfl⟩ := compile_one_eq_ok.1 hr
        exact ⟨_, List.mem_map_of_mem hp, n, hn, hs⟩
  · intro hapart
    have hmalformed : Pattern.compile contentFlags (join (OneOrMany.many patterns).toList) =
        .error (.malformed .duplicateName) := by
      rw [Pattern.compile, OneOrMany.toList, toList_join, herror hapart]
      rfl
    exact compile_of_malformed hne hmalformed

/-- What a search for the compiled patterns says, if they compile. -/
def occursIn? (value : OneOrMany) (source : String) (text : String) : Option Bool :=
  match compile value source with
  | .ok q => some (q.occursIn text.toList)
  | .error _ => none

theorem occursIn?_eq_some {value : OneOrMany} {source text : String} {b : Bool} :
    occursIn? value source text = some b ↔
      ∃ q, compile value source = .ok q ∧ q.occursIn text.toList = b := by
  rw [occursIn?]
  cases compile value source with
  | ok q => simp
  | error e => simp

theorem compiles_of_isSome {value : OneOrMany} {source text : String}
    (h : (occursIn? value source text).isSome = true) : ∃ q, compile value source = .ok q := by
  obtain ⟨b, hb⟩ := Option.isSome_iff_exists.1 h
  obtain ⟨q, hq, -⟩ := occursIn?_eq_some.1 hb
  exact ⟨q, hq⟩

/-- A repeated digit, the end of a text in any case, and a group with a name of its own before a class of
characters that are given by octal digits. -/
def threePatterns : List String :=
  ["(?<digit>[0-9])x(?P=digit)", "(?i)end\\z", "(?<other>y)[\\1-\\7]"]

theorem threePatterns_joined :
    (∀ p ∈ threePatterns, ∃ q, compile (.one p) "samples" = .ok q) ∧
      (threePatterns.Pairwise fun a b => groupCount a = 0 ∨ NumberFree b) ∧
      (threePatterns.Pairwise fun a b => List.Disjoint (groupNames a) (groupNames b)) ∧
      ∃ q, compile (.many threePatterns) "samples" = .ok q ∧ q.occursIn "2x2".toList = true ∧
        q.occursIn "the End".toList = true ∧ q.occursIn "2x3".toList = false := by
  have hsome : ∀ p ∈ threePatterns, (occursIn? (.one p) "samples" "").isSome = true := by
    decide +kernel
  have halone : ∀ p ∈ threePatterns, ∃ q, compile (.one p) "samples" = .ok q :=
    fun p hp => compiles_of_isSome (hsome p hp)
  have hnumbers : threePatterns.Pairwise fun a b => groupCount a = 0 ∨ NumberFree b := by
    decide +kernel
  have hlabels : threePatterns.Pairwise fun a b => ∀ l ∈ groupNames a, l ∉ groupNames b := by
    decide +kernel
  have hnames : threePatterns.Pairwise fun a b => List.Disjoint (groupNames a) (groupNames b) :=
    hlabels.imp fun h l ha hb => h l ha hb
  obtain ⟨q, hq, hoccurs⟩ := (compile_alternation (List.cons_ne_nil _ _) halone hnumbers).1 hnames
  refine ⟨halone, hnumbers, hnames, q, hq, ?_, ?_, ?_⟩
  · have hdigit : occursIn? (.one "(?<digit>[0-9])x(?P=digit)") "samples" "2x2" = some true := by
      decide +kernel
    exact (hoccurs _).2 ⟨_, by decide, occursIn?_eq_some.1 hdigit⟩
  · have hend : occursIn? (.one "(?i)end\\z") "samples" "the End" = some true := by decide +kernel
    exact (hoccurs _).2 ⟨_, by decide, occursIn?_eq_some.1 hend⟩
  · have hnone : ∀ p ∈ threePatterns, occursIn? (.one p) "samples" "2x3" = some false := by
      decide +kernel
    refine Bool.eq_false_iff.2 fun h => ?_
    obtain ⟨p, hp, r, hr, hs⟩ := (hoccurs _).1 h
    have hp' := hnone p hp
    rw [occursIn?_eq_some.2 ⟨r, hr, hs⟩] at hp'
    cases hp'

/-- Two patterns that each refer to their first group: joined, both refer to the first of all. -/
def twoReferences : List String := ["(a)\\1", "(b)\\1"]

/-- A reference by number means another group behind other groups, so that the joined patterns miss
a text in which one of them occurs. -/
theorem number_misleads : ¬∀ (patterns : List String) (source : String), patterns ≠ [] →
    (∀ p ∈ patterns, ∃ q, compile (.one p) source = .ok q) →
    ∃ q, compile (.many patterns) source = .ok q ∧
      ∀ text, q.occursIn text = true ↔
        ∃ p ∈ patterns, ∃ r, compile (.one p) source = .ok r ∧ r.occursIn text = true := by
  intro h
  have hsome : ∀ p ∈ twoReferences, (occursIn? (.one p) "samples" "").isSome = true := by
    decide +kernel
  have halone : ∀ p ∈ twoReferences, ∃ q, compile (.one p) "samples" = .ok q :=
    fun p hp => compiles_of_isSome (hsome p hp)
  have hsecond : occursIn? (.one "(b)\\1") "samples" "bb" = some true := by decide +kernel
  have hjoined : occursIn? (.many twoReferences) "samples" "bb" = some false := by decide +kernel
  obtain ⟨q, hq, hoccurs⟩ := h twoReferences "samples" (List.cons_ne_nil _ _) halone
  have hbb := (hoccurs _).2 ⟨_, by decide, occursIn?_eq_some.1 hsecond⟩
  rw [occursIn?_eq_some.2 ⟨q, hq, hbb⟩] at hjoined
  cases hjoined

end LangId.Dialect
