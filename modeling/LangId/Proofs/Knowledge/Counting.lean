import LangId.Proofs.Knowledge.Totals
import LangId.Proofs.Text.Order

/-!
# What each language counts

Counts of a language can come in under several spellings of its name, in tables of counts and as
training texts, and all of them end up in one tally. What it holds is told token by token as a sum over
the definitions (`count_addAll`), and a model keeps of it what is not zero.

**Results.**
* `table_perm`: the table of a language holds what is added under the spellings of its name.
* `adds_up`: the counts, the totals and the vocabulary of a base.
-/
namespace LangId

open Text

/-! ## Sums over entries -/

namespace Tally

variable {token : String} {t u : Tally String}

/-- What entries add to the count of a token. -/
def weightOf (token : String) (entries : Tally String) : Int :=
  total (entries.filter (·.1 == token))

theorem weightOf_cons (token : String) (e : String × Int) (rest : Tally String) :
    weightOf token (e :: rest) = (if e.1 == token then e.2 else 0) + weightOf token rest := by
  rw [weightOf, List.filter_cons]
  split
  · exact total_cons _ _
  · exact (Int.zero_add _).symm

theorem weightOf_append (token : String) (t u : Tally String) :
    weightOf token (t ++ u) = weightOf token t + weightOf token u := by
  rw [weightOf, List.filter_append, total_append, weightOf, weightOf]

/-- **Sums.** What is added to a count is the sum over all that is taken in. -/
theorem count_addAll (t : Tally String) (entries : Tally String) (token : String) :
    (t.addAll entries).count token = t.count token + weightOf token entries := by
  induction entries generalizing t with
  | nil => exact (Int.add_zero _).symm
  | cons e rest ih =>
    have hstep : t.addAll (e :: rest) = (t.add e.1 e.2).addAll rest := rfl
    rw [hstep, ih, count_add, weightOf_cons, Int.add_assoc, BEq.comm]

/-- Tokens that count once each. -/
theorem weightOf_ones (token : String) (tokens : List String) :
    weightOf token (tokens.map fun t => (t, 1)) = tokens.count token := by
  induction tokens with
  | nil => rfl
  | cons t rest ih =>
    rw [List.map_cons, weightOf_cons, ih, List.count_cons]
    split <;> omega

theorem count_of_perm (h : (t.map (·.1)).Nodup) (hperm : t.Perm u) (token : String) :
    t.count token = u.count token := congrArg (·.getD 0) (Table.lookup_of_perm h hperm)

theorem count_of_mem (h : (t.map (·.1)).Nodup) {e : String × Int} (he : e ∈ t) :
    t.count e.1 = e.2 := by
  rw [count, (Table.mem_iff_lookup h).1 he]
  rfl

theorem count_of_notMem (h : token ∉ t.map (·.1)) : t.count token = 0 := by
  rw [count, Table.lookup_eq_none.2 h]
  rfl

/-- What is zero may be left out. -/
theorem count_nonzero (h : (t.map (·.1)).Nodup) (token : String) :
    count (t.filter (·.2 != 0)) token = t.count token := by
  induction t with
  | nil => rfl
  | cons e rest ih =>
    obtain ⟨hnew, hrest⟩ := List.nodup_cons.1 h
    rw [List.filter_cons]
    by_cases hzero : e.2 = 0
    · rw [if_neg (by simp [hzero]), ih hrest, count_cons]
      split
      · rename_i htoken
        rw [eq_of_beq htoken, count_of_notMem hnew, hzero]
      · rfl
    · rw [if_pos (by simp [hzero]), count_cons, count_cons, ih hrest]

end Tally

/-! ## What definitions add -/

namespace Payload

variable (p : Payload) (bound : Nat) (name : String)

/-- The training texts under the spellings of a name. -/
def textsOf : List String := (p.samples.filter fun s => lower s.1 == lower name).flatMap (·.2)

/-- What the tables of counts under the spellings of a name hold of a token. -/
def tabulated (token : String) : Int :=
  Tally.weightOf token ((p.counts.filter fun t => lower t.1 == lower name).flatMap (·.2))

/-- How often a token is read of the training texts under the spellings of a name. -/
def occurrences (token : String) : Nat :=
  ((p.textsOf name).flatMap fun text => Token.tokenize text.toList bound).count token

/-- All that is added under the spellings of a name. -/
def addedTo : Tally String :=
  ((p.increments bound).filter fun e => lower e.1 == lower name).flatMap (·.2)

theorem addedTo_eq : p.addedTo bound name =
    (p.counts.filter fun t => lower t.1 == lower name).flatMap (·.2) ++
      countsOf bound (p.textsOf name) := by
  rw [addedTo, increments, List.filter_append, List.flatMap_append, List.filter_map,
    List.flatMap_map]
  refine congrArg (_ ++ ·) ?_
  rw [countsOf, textsOf, List.map_flatMap, List.flatMap_assoc]
  rfl

theorem weightOf_addedTo (token : String) : Tally.weightOf token (p.addedTo bound name) =
    p.tabulated name token + p.occurrences bound name token := by
  rw [addedTo_eq, Tally.weightOf_append, countsOf, ← List.map_flatMap, Tally.weightOf_ones,
    List.flatMap_map, tabulated, occurrences]

end Payload

/-! ## Tallies -/

namespace Build

variable {p : Payload} {bound : Nat} {tallies : Tallies} {name : String}

/-- What is held of one language is what is taken in for it. -/
theorem foldl_take (entries : List (String × Tally String)) (h : Holdings) (name : String) :
    (entries.foldl .take h name).getD (fun _ => none) =
      ((entries.filter (·.1 == name)).flatMap (·.2)).foldl .plus ((h name).getD fun _ => none) := by
  induction entries generalizing h with
  | nil => rfl
  | cons e rest ih =>
    rw [List.foldl_cons, ih, List.filter_cons, Holdings.take]
    by_cases hname : name = e.1
    · rw [if_pos hname, if_pos (by simp [hname]), List.flatMap_cons, List.foldl_append]
      rfl
    · rw [if_neg hname, if_neg (by simp [Ne.symm hname])]

/-- The tally of a language; empty if there is none. -/
def tallyOf (tallies : Tallies) (name : String) : Tally String := (tallies.lookup name).getD []

theorem Orderly.nodup_tallyOf (h : Orderly tallies) (name : String) :
    ((tallyOf tallies name).map (·.1)).Nodup := by
  rw [tallyOf]
  cases ht : tallies.lookup name with
  | none => exact List.nodup_nil
  | some t => exact h.tokens _ ((Table.mem_iff_lookup h.names (e := (name, t))).2 ht)

theorem contents_tallyOf (tallies : Tallies) (name : String) :
    (tallyOf tallies name).contents = (holdings tallies name).getD fun _ => none := by
  rw [tallyOf, holdings]
  cases tallies.lookup name <;> rfl

/-- Nothing is taken in that counts less than zero. -/
theorem nonneg_of_mem_increments {declared : Declared} {ms : List (String × Model)}
    (h : models declared bound p = .ok ms) {e : String × Tally String}
    (he : e ∈ p.increments bound) : Nonneg e.2 := by
  rcases List.mem_append.1 he with he | he
  · exact ((models_eq_ok h).1 e he).2
  · obtain ⟨s, -, rfl⟩ := List.mem_map.1 he
    intro c hc
    obtain ⟨_, -, hc⟩ := List.mem_flatMap.1 hc
    obtain ⟨_, -, rfl⟩ := List.mem_map.1 hc
    exact Int.one_nonneg

/-- A model keeps what is not zero of a tally. -/
theorem ModelsOf.counts_eq {ms : List (String × Model)} (h : ModelsOf tallies ms) {m : Model}
    (hm : (name, m) ∈ ms) : m.counts = (tallyOf tallies name).filter (·.2 != 0) := by
  obtain ⟨t, ht, -, hcounts⟩ := h.mem name m hm
  rw [Model.ofCounts_eq_ok hcounts, tallyOf, ht]
  rfl

/-- A tally without a model is empty. -/
theorem ModelsOf.tallyOf_eq_nil {ms : List (String × Model)} (h : ModelsOf tallies ms)
    (hno : ∀ m, (name, m) ∉ ms) : tallyOf tallies name = [] := by
  rw [tallyOf]
  cases ht : tallies.lookup name with
  | none => rfl
  | some t =>
    cases t with
    | nil => rfl
    | cons e rest =>
      obtain ⟨m, hm⟩ := h.total name _ ht rfl
      exact absurd hm (hno m)

theorem total_eq_of_models {declared : Declared} {ms : List (String × Model)}
    (h : models declared bound p = .ok ms) {m : Model} (hm : (name, m) ∈ ms) :
    m.total = m.counts.total := by
  obtain ⟨tallies, hms, -⟩ := holdings_of_models h
  obtain ⟨t, -, -, hcounts⟩ := hms.mem name m hm
  rw [Model.ofCounts_eq_ok hcounts]

end Build

namespace KnowledgeBase

variable (kb : KnowledgeBase) (name : String)

/-- The counts of a language; none if it has no model. -/
def table : Tally String := ((kb.model? name).map (·.counts)).getD []

/-- How often a token was counted for a language. -/
def countOf (token : String) : Int := (kb.table name).count token

/-- The total of the model of a language; zero if it has none. -/
def totalOf : Int := ((kb.model? name).map (·.total)).getD 0

end KnowledgeBase

namespace Payload

variable {p : Payload} {bound : Nat} {kb : KnowledgeBase} {name found : String}

namespace Parts

variable (parts : p.Parts bound)

/-- The declared forms of names. -/
abbrev declared : Build.Declared := Build.declaredNames parts.languages

theorem lower_of_find? (h : parts.declared.find? name = some found) : lower found = lower name := by
  obtain ⟨l, -, rfl, hlower⟩ := (Build.find?_declaredNames_eq_some parts.names).1 h
  exact hlower

/-- Spellings of a name have one declared form. -/
theorem find?_congr {other : String} (h : lower other = lower name) :
    parts.declared.find? other = parts.declared.find? name :=
  congrArg (List.lookup · parts.declared) h

/-- Training data is of declared languages. -/
theorem find?_of_mem_increments {e : String × Tally String} (he : e ∈ p.increments bound) :
    ∃ found, parts.declared.find? e.1 = some found := by
  obtain ⟨hcounts, hsamples, -⟩ := Build.models_eq_ok parts.models_eq
  rcases List.mem_append.1 he with he | he
  · exact (hcounts e he).1
  · obtain ⟨s, hs, rfl⟩ := List.mem_map.1 he
    exact hsamples s hs

/-- What is taken in for a declared name is what is added under its spellings. -/
theorem resolved_eq_addedTo (h : parts.declared.find? name = some found) :
    (((p.increments bound).map (Build.resolve parts.declared)).filter (·.1 == found)).flatMap
        (·.2) = p.addedTo bound name := by
  rw [addedTo, List.filter_map, List.flatMap_map]
  refine congrArg (List.flatMap fun e : String × Tally String => e.2)
    (List.filter_congr fun e he => ?_)
  obtain ⟨form, hform⟩ := parts.find?_of_mem_increments he
  have hresolve : (Build.resolve parts.declared e).1 = form := by
    rw [Build.resolve, hform]
    rfl
  have hiff : form = found ↔ lower e.1 = lower name := by
    constructor
    · rintro rfl
      rw [← parts.lower_of_find? hform, parts.lower_of_find? h]
    · intro hlower
      rw [parts.find?_congr hlower, h] at hform
      exact (Option.some.inj hform).symm
  rw [Bool.eq_iff_iff, Function.comp_apply, hresolve, beq_iff_eq, beq_iff_eq, hiff]

theorem addedTo_eq_nil (h : parts.declared.find? name = none) : p.addedTo bound name = [] := by
  have hnone : (p.increments bound).filter (fun e => lower e.1 == lower name) = [] := by
    refine List.filter_eq_nil_iff.2 fun e he hlower => ?_
    obtain ⟨form, hform⟩ := parts.find?_of_mem_increments he
    rw [parts.find?_congr (eq_of_beq hlower), h] at hform
    cases hform
  rw [addedTo, hnone]
  rfl

/-- A model of a language is one of its declared name. -/
theorem model?_eq_some {m : Model} :
    parts.base.model? name = some m ↔
      ∃ found, parts.declared.find? name = some found ∧ (found, m) ∈ parts.models := by
  rw [KnowledgeBase.model?, parts.lookup_models_eq_some]
  constructor
  · rintro ⟨n, hm, hlower⟩
    have hform := parts.find?_of_mem_models hm
    exact ⟨n, (parts.find?_congr hlower).symm.trans hform, hm⟩
  · rintro ⟨found, hfound, hm⟩
    exact ⟨found, hm, parts.lower_of_find? hfound⟩

/-- The tally of a language, up to the order of its tokens, is what is added under the spellings of its
name. -/
theorem tallyOf_perm (h : parts.declared.find? name = some found) {tallies : Build.Tallies}
    (hms : Build.ModelsOf tallies parts.models)
    (hholds : Build.holdings tallies =
      ((p.increments bound).map (Build.resolve parts.declared)).foldl Holdings.take fun _ => none) :
    (Build.tallyOf tallies found).Perm (Tally.addAll [] (p.addedTo bound name)) := by
  have hcontents : (Build.tallyOf tallies found).contents =
      (Tally.addAll [] (p.addedTo bound name)).contents := by
    rw [Build.contents_tallyOf, hholds, Build.foldl_take, parts.resolved_eq_addedTo h,
      Tally.contents_addAll]
    rfl
  exact Table.perm_of_lookup (hms.orderly.nodup_tallyOf found)
    (Tally.nodup_addAll (t := []) List.nodup_nil _) fun k => congrFun hcontents k

/-- **The table of a language** holds what is added under the spellings of its name. -/
theorem table_perm (name : String) : (parts.base.table name).Perm
    ((Tally.addAll [] (p.addedTo bound name)).filter (·.2 != 0)) := by
  cases hfound : parts.declared.find? name with
  | none =>
    have hmodel : parts.base.model? name = none := by
      refine Option.eq_none_iff_forall_ne_some.2 fun m hm => ?_
      obtain ⟨found, h, -⟩ := parts.model?_eq_some.1 hm
      rw [hfound] at h
      cases h
    rw [KnowledgeBase.table, hmodel, parts.addedTo_eq_nil hfound]
    exact .refl _
  | some found =>
    obtain ⟨tallies, hms, hholds⟩ := Build.holdings_of_models parts.models_eq
    have htable : parts.base.table name = (Build.tallyOf tallies found).filter (·.2 != 0) := by
      rw [KnowledgeBase.table]
      cases hmodel : parts.base.model? name with
      | none =>
        have hno (m : Model) : (found, m) ∉ parts.models := fun hm => by
          rw [parts.model?_eq_some.2 ⟨found, hfound, hm⟩] at hmodel
          cases hmodel
        rw [hms.tallyOf_eq_nil hno]
        rfl
      | some m =>
        obtain ⟨other, hother, hm⟩ := parts.model?_eq_some.1 hmodel
        obtain rfl := Option.some.inj (hfound.symm.trans hother)
        exact hms.counts_eq hm
    rw [htable]
    exact (parts.tallyOf_perm hfound hms hholds).filter _

theorem totalOf_eq (name : String) : parts.base.totalOf name = (parts.base.table name).total := by
  rw [KnowledgeBase.totalOf, KnowledgeBase.table]
  cases hmodel : parts.base.model? name with
  | none => rfl
  | some m =>
    obtain ⟨found, -, hm⟩ := parts.model?_eq_some.1 hmodel
    exact Build.total_eq_of_models parts.models_eq hm

theorem nodup_addedTo (name : String) :
    ((Tally.addAll [] (p.addedTo bound name)).map (·.1)).Nodup :=
  Tally.nodup_addAll (t := []) List.nodup_nil _

/-- No token comes twice in a table. -/
theorem nodup_table (name : String) : ((parts.base.table name).map (·.1)).Nodup :=
  ((parts.table_perm name).map _).nodup_iff.2
    ((nodup_addedTo name).sublist (List.filter_sublist.map _))

/-- **Counts** are sums over the definitions. -/
theorem countOf_eq (name token : String) : parts.base.countOf name token =
    p.tabulated name token + p.occurrences bound name token := by
  rw [KnowledgeBase.countOf, Tally.count_of_perm (parts.nodup_table name) (parts.table_perm name),
    Tally.count_nonzero (nodup_addedTo name), Tally.count_addAll, Tally.count_nil, Int.zero_add,
    weightOf_addedTo]

theorem pos_of_mem_table {e : String × Int} (he : e ∈ parts.base.table name) : 0 < e.2 := by
  obtain ⟨hmem, hne⟩ := List.mem_filter.1 ((parts.table_perm name).mem_iff.1 he)
  have hentries : ∀ e ∈ p.addedTo bound name, 0 ≤ e.2 := by
    intro e he
    obtain ⟨i, hi, he⟩ := List.mem_flatMap.1 he
    exact Build.nonneg_of_mem_increments parts.models_eq (List.mem_of_mem_filter hi) e he
  have hle := Build.nonneg_addAll (t := []) nofun hentries e hmem
  have hne : e.2 ≠ 0 := by simpa using hne
  omega

/-- What stands in a table is what is counted at all. -/
theorem mem_table_iff {token : String} {n : Int} :
    (token, n) ∈ parts.base.table name ↔ 0 < n ∧ parts.base.countOf name token = n := by
  constructor
  · exact fun h => ⟨parts.pos_of_mem_table h, Tally.count_of_mem (parts.nodup_table name) h⟩
  · rintro ⟨hpos, hcount⟩
    refine (Table.mem_iff_lookup (parts.nodup_table name)).2 ?_
    rw [KnowledgeBase.countOf, Tally.count] at hcount
    cases hlookup : (parts.base.table name).lookup token with
    | none =>
      rw [hlookup, Option.getD_none] at hcount
      omega
    | some m =>
      rw [hlookup, Option.getD_some] at hcount
      rw [hcount]

theorem nodup_models : (parts.base.models.map (·.1)).Nodup := KnowledgeBase.nodup_putAll _

/-- **The vocabulary** is what is counted for some language. -/
theorem mem_vocabulary_iff {token : String} :
    token ∈ sortedSet (parts.base.models.flatMap fun m => m.2.counts.map (·.1)) ↔
      ∃ l ∈ parts.base.languages, 0 < parts.base.countOf l.name token := by
  rw [mem_sortedSet, List.mem_flatMap]
  constructor
  · rintro ⟨⟨key, m⟩, hm, htoken⟩
    have hlookup := (Table.mem_iff_lookup parts.nodup_models).1 hm
    obtain ⟨n, hmodel, rfl⟩ := parts.lookup_models_eq_some.1 hlookup
    obtain ⟨l, hl, rfl, -⟩ := (Build.find?_declaredNames_eq_some parts.names).1
      (parts.find?_of_mem_models hmodel)
    obtain ⟨⟨_, n⟩, hentry, rfl⟩ := List.mem_map.1 htoken
    have htable : parts.base.table l.name = m.counts := by
      exact congrArg (fun o => (o.map Model.counts).getD []) hlookup
    obtain ⟨hpos, hcount⟩ := parts.mem_table_iff.1 (htable ▸ hentry)
    exact ⟨l, List.mem_mergeSort.2 hl, hcount ▸ hpos⟩
  · rintro ⟨l, hl, hpos⟩
    have hentry := parts.mem_table_iff.2 ⟨hpos, rfl⟩
    rw [KnowledgeBase.table] at hentry
    cases hmodel : parts.base.model? l.name with
    | none =>
      rw [hmodel] at hentry
      cases hentry
    | some m =>
      rw [hmodel] at hentry
      exact ⟨(lower l.name, m), (Table.mem_iff_lookup parts.nodup_models).2 hmodel,
        List.mem_map_of_mem hentry⟩

/-- **Texts alone.** Without a table of counts, a language counts what a run over its texts does. -/
theorem table_of_texts (h : ∀ t ∈ p.counts, lower t.1 ≠ lower name) :
    ∃ m, Model.ofCounts name (Model.train bound [] ((p.textsOf name).map (·.toList))) = .ok m ∧
      (parts.base.table name).Perm m.counts ∧ parts.base.totalOf name = m.total := by
  have hadded : p.addedTo bound name = countsOf bound (p.textsOf name) := by
    have hnone : p.counts.filter (fun t => lower t.1 == lower name) = [] :=
      List.filter_eq_nil_iff.2 fun t ht hlower => h t ht (eq_of_beq hlower)
    rw [addedTo_eq, hnone]
    rfl
  have hnonneg : Build.Nonneg (Model.train bound [] ((p.textsOf name).map (·.toList))) :=
    Build.nonneg_train nofun
  obtain ⟨m, hm⟩ := Build.ofCounts_of_nonneg hnonneg name
  have hperm : (parts.base.table name).Perm m.counts := by
    have htable := parts.table_perm name
    rw [hadded] at htable
    rw [Model.ofCounts_eq_ok hm, Model.train_eq_addAll]
    exact htable
  refine ⟨m, hm, hperm, ?_⟩
  rw [parts.totalOf_eq, Tally.total_of_perm hperm, Model.ofCounts_eq_ok hm]

end Parts

/-- The counts, the totals and the vocabulary of a base add up. -/
structure AddsUp (p : Payload) (bound : Nat) (kb : KnowledgeBase) : Prop where
  count : ∀ name token,
    kb.countOf name token = p.tabulated name token + p.occurrences bound name token
  /-- Each token that is counted stands in the table once, and no other does. -/
  tokens : ∀ name, ((kb.table name).map (·.1)).Nodup
  stored : ∀ name token n, (token, n) ∈ kb.table name ↔ 0 < n ∧ kb.countOf name token = n
  total : ∀ name, kb.totalOf name = (kb.table name).total
  vocabulary : ∃ tokens : List String, tokens.Nodup ∧ kb.vocabulary = tokens.length ∧
    ∀ token, token ∈ tokens ↔ ∃ l ∈ kb.languages, 0 < kb.countOf l.name token
  /-- Where a language has no table of counts, training on its texts makes its model. -/
  trained : ∀ name, (∀ t ∈ p.counts, lower t.1 ≠ lower name) →
    ∃ m, Model.ofCounts name (Model.train bound [] ((p.textsOf name).map (·.toList))) = .ok m ∧
      (kb.table name).Perm m.counts ∧ kb.totalOf name = m.total

/-- **Counts add up.** Whatever is counted for a language is what the definitions add under the
spellings of its name, and totals and vocabulary are read off the counts. -/
theorem adds_up (h : p.build bound = .ok kb) : p.AddsUp bound kb := by
  obtain ⟨parts, -, rfl⟩ := build_eq_assemble h
  exact {
    count := parts.countOf_eq
    tokens := parts.nodup_table
    stored := fun _ _ _ => parts.mem_table_iff
    total := parts.totalOf_eq
    vocabulary := ⟨_, nodup_sortedSet _, rfl, fun _ => parts.mem_vocabulary_iff⟩
    trained := fun _ => parts.table_of_texts }

/-- Two spellings of one name, with tables of counts and texts, and a language with texts alone. -/
def spellings : Payload where
  languages := [("A", { category := "programming" }), ("B", { category := "programming" })]
  counts := [("A", [("x", 1), ("y", 0)]), ("a", [("x", 2)])]
  samples := [("a", ["x z"]), ("b", ["z z"])]

theorem adds_up_spellings : ∃ kb, spellings.build 10 = .ok kb ∧ spellings.AddsUp 10 kb ∧
    kb.countOf "A" "x" = 4 ∧ kb.totalOf "b" = 2 := by
  have hcounts : (spellings.build 10).toOption.map (fun kb => (kb.countOf "A" "x", kb.totalOf "b")) =
      some (4, 2) := by decide +kernel
  obtain ⟨kb, hkb, hread⟩ := Option.map_eq_some_iff.1 hcounts
  obtain ⟨hcount, htotal⟩ := Prod.mk.inj hread
  have hbuild := toOption_eq_some.1 hkb
  exact ⟨kb, hbuild, adds_up hbuild, hcount, htotal⟩

end Payload

end LangId
