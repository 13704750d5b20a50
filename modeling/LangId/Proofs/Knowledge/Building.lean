import LangId.Knowledge.Build
import LangId.Proofs.Knowledge.Lookup

/-!
# How definitions are built

Building is taken apart function by function: one lemma says how a function fails (`_eq_error`), one
what it has found in order when it ends well (`_eq_ok`). Two checks are made twice, and the second
time they find nothing: no tally that is built counts less than zero (`models_eq_error`), and rules
and models belong to declared languages (`make_eq_error`).
-/
namespace LangId

open Text

/-! ## Parts of definitions -/

/-- The patterns of a clause. -/
def ClauseEntry.values (c : ClauseEntry) : List OneOrMany :=
  c.pattern.toList ++ c.negativePattern.toList

/-- The clauses of a rule. -/
def RuleEntry.clauses (r : RuleEntry) : List ClauseEntry := r.clause :: r.further

namespace BlockEntry

/-- The clauses of a block. -/
def clauses (b : BlockEntry) : List ClauseEntry := b.rules.flatMap (·.clauses)

/-- The extensions of a block in lower case. -/
def keys (b : BlockEntry) : List String := b.extensions.map lower

/-- How errors name a block. -/
def source (b : BlockEntry) : String := "heuristics[" ++ ", ".intercalate b.keys ++ "]"

end BlockEntry

/-- The patterns of paths of a kind. -/
def Payload.pathPatterns (p : Payload) : ExclusionKind → List String
  | .vendor => p.vendor
  | .generated => p.generated
  | .documentation => p.documentation
  | .binary => []

namespace Build

/-! ## Languages -/

theorem language_eq_error {name : String} {e : LanguageEntry} {x : BuildError}
    (h : language name e = .error x) :
    Category.ofName? (lower e.category) = none ∧
        x = .definition (.unknownCategory e.category name) ∨
      ∃ extension ∈ e.extensions, isExtension extension = false ∧
        x = .definition (.badExtension extension name) := by
  unfold language at h
  split at h
  · rename_i hnone
    exact .inl ⟨hnone, (Except.error.inj h).symm⟩
  · split at h
    · rename_i extension hfind
      refine .inr ⟨extension, List.mem_of_find?_eq_some hfind, ?_, (Except.error.inj h).symm⟩
      simpa using List.find?_some hfind
    · cases h

theorem language_eq_ok {name : String} {e : LanguageEntry} {l : Language}
    (h : language name e = .ok l) :
    (∃ c, Category.ofName? (lower e.category) = some c) ∧
      (∀ extension ∈ e.extensions, isExtension extension = true) ∧ l.name = name := by
  unfold language at h
  split at h
  · cases h
  · rename_i c hc
    split at h
    · cases h
    · rename_i hnone
      obtain rfl := Except.ok.inj h
      exact ⟨⟨c, hc⟩, by simpa using List.find?_eq_none.1 hnone, rfl⟩

/-- The names of the languages that are built. -/
theorem names_of_languages {entries : List (String × LanguageEntry)} {languages : List Language}
    (h : entries.mapM (fun x => language x.1 x.2) = .ok languages) :
    languages.map (·.name) = entries.map (·.1) :=
  map_of_mapM (fun _ _ hl => (language_eq_ok hl).2.2) h

end Build

/-! ## Putting values under keys -/

namespace KnowledgeBase

variable {α : Type} {key k : String} {value v : α} {entries found : List (String × α)}

theorem lookup_put :
    (put key value entries).lookup k = if k = key then some value else entries.lookup k := by
  induction entries with
  | nil => rw [put, Table.lookup_cons]
  | cons entry rest ih =>
    rw [put]
    split
    · rename_i hk
      rw [Table.lookup_cons, Table.lookup_cons, eq_of_beq hk]
      split <;> rfl
    · rename_i hk
      rw [Table.lookup_cons, Table.lookup_cons, ih]
      by_cases h : k = key
      · subst h
        have hne : ¬k = entry.1 := fun heq => hk (by simp [heq])
        rw [if_neg hne, if_pos rfl, if_pos rfl]
      · rw [if_neg h, if_neg h]

/-- What is found behind some more entries is one of them, or was found before. -/
theorem mem_of_lookup_puts
    (h : (entries.foldl (fun found (k, v) => put k v found) found).lookup k = some v) :
    (k, v) ∈ entries ∨ found.lookup k = some v := by
  induction entries generalizing found with
  | nil => exact .inr h
  | cons entry rest ih =>
    rcases ih h with h | h
    · exact .inl (List.mem_cons_of_mem _ h)
    · rw [lookup_put] at h
      split at h
      · rename_i hk
        obtain rfl := Option.some.inj h
        exact .inl (by rw [hk]; exact List.mem_cons_self)
      · exact .inr h

theorem lookup_puts_eq_none :
    (entries.foldl (fun found (k, v) => put k v found) found).lookup k = none ↔
      k ∉ entries.map (·.1) ∧ found.lookup k = none := by
  induction entries generalizing found with
  | nil => simp
  | cons entry rest ih =>
    rw [List.foldl_cons, ih, lookup_put]
    by_cases h : k = entry.1 <;> simp [h]

theorem mem_of_lookup_putAll (h : (putAll entries).lookup k = some v) : (k, v) ∈ entries :=
  (mem_of_lookup_puts h).resolve_right nofun

theorem lookup_putAll_eq_none : (putAll entries).lookup k = none ↔ k ∉ entries.map (·.1) := by
  rw [putAll, lookup_puts_eq_none]
  exact and_iff_left rfl

end KnowledgeBase

namespace Build

/-! ## Declared names -/

variable {languages : List Language} {declared : Declared} {name : String}

/-- A declared form is the name of a language. -/
theorem find?_declaredNames {found : String}
    (h : (declaredNames languages).find? name = some found) :
    ∃ l ∈ languages, l.name = found ∧ lower found = lower name := by
  obtain ⟨l, hl, heq⟩ := List.mem_map.1 (KnowledgeBase.mem_of_lookup_putAll h)
  obtain ⟨hkey, hname⟩ := Prod.mk.inj heq
  exact ⟨l, hl, hname, by rw [← hname, hkey]⟩

theorem find?_declaredNames_eq_none :
    (declaredNames languages).find? name = none ↔ ∀ l ∈ languages, lower l.name ≠ lower name := by
  rw [Declared.find?, declaredNames, KnowledgeBase.lookup_putAll_eq_none, List.map_map]
  simp

/-! ## Heuristics -/

variable {named : List (String × Regex.Pattern)} {source : String}

theorem clause_eq_error {negated : Bool} {o : Option OneOrMany} {x : BuildError}
    (h : clause source negated o = .error x) :
    ∃ value ∈ o.toList, Dialect.compile value source = .error x := by
  cases o with
  | none => cases h
  | some value => exact ⟨value, by simp, map_eq_error.1 h⟩

theorem clause_eq_ok {negated : Bool} {o : Option OneOrMany} {cs : List Clause}
    (h : clause source negated o = .ok cs) :
    ∀ value ∈ o.toList, ∃ q, Dialect.compile value source = .ok q := by
  cases o with
  | none => simp
  | some value =>
    obtain ⟨q, hq, -⟩ := map_eq_ok.1 h
    simpa using ⟨q, hq⟩

theorem clauses_eq_error {e : ClauseEntry} {x : BuildError}
    (h : clauses named source e = .error x) :
    (∃ value ∈ e.values, Dialect.compile value source = .error x) ∨
      ∃ n, e.namedPattern = some n ∧ n ∉ named.map (·.1) ∧
        x = .definition (.unknownPattern n source) := by
  rcases bind_eq_error.1 h with h | ⟨_, -, h⟩
  · obtain ⟨value, hv, hx⟩ := clause_eq_error h
    exact .inl ⟨value, List.mem_append_left _ hv, hx⟩
  rcases bind_eq_error.1 h with h | ⟨_, -, h⟩
  · obtain ⟨value, hv, hx⟩ := clause_eq_error h
    exact .inl ⟨value, List.mem_append_right _ hv, hx⟩
  split at h
  · cases h
  · rename_i n hn
    split at h
    · cases h
    · rename_i hnone
      exact .inr ⟨n, hn, Table.lookup_eq_none.1 hnone, (Except.error.inj h).symm⟩

theorem clauses_eq_ok {e : ClauseEntry} {cs : List Clause} (h : clauses named source e = .ok cs) :
    (∀ value ∈ e.values, ∃ q, Dialect.compile value source = .ok q) ∧
      ∀ n, e.namedPattern = some n → n ∈ named.map (·.1) := by
  obtain ⟨positive, hp, h⟩ := bind_eq_ok.1 h
  obtain ⟨negative, hn, h⟩ := bind_eq_ok.1 h
  refine ⟨fun value hv => ?_, fun n heq => ?_⟩
  · exact (List.mem_append.1 hv).elim (clause_eq_ok hp value) (clause_eq_ok hn value)
  · simp only [heq] at h
    split at h
    · rename_i q hq
      exact Table.mem_names_of_lookup hq
    · cases h

theorem ruleLanguage_eq_error {x : BuildError} (h : ruleLanguage declared source name = .error x) :
    declared.find? name = none ∧ x = .definition (.undeclaredInRule name source) := by
  unfold ruleLanguage at h
  split at h
  · cases h
  · rename_i hnone
    exact ⟨hnone, (Except.error.inj h).symm⟩

theorem ruleLanguage_eq_ok {found : String} (h : ruleLanguage declared source name = .ok found) :
    declared.find? name = some found := by
  unfold ruleLanguage at h
  split at h
  · rename_i hsome
    rw [hsome, Except.ok.inj h]
  · cases h

variable {extensions : List String} {r : RuleEntry} {order : Nat}

theorem rule_eq_error {x : BuildError}
    (h : rule declared named source extensions r order = .error x) :
    (∃ n ∈ r.languages.toList, declared.find? n = none ∧
        x = .definition (.undeclaredInRule n source)) ∨
      ∃ c ∈ r.clauses, clauses named source c = .error x := by
  rcases bind_eq_error.1 h with h | ⟨_, -, h⟩
  · obtain ⟨n, hn, hx⟩ := mapM_eq_error h
    exact .inl ⟨n, hn, ruleLanguage_eq_error hx⟩
  rcases bind_eq_error.1 h with h | ⟨_, -, h⟩
  · exact .inr ⟨r.clause, List.mem_cons_self, h⟩
  rcases bind_eq_error.1 h with h | ⟨_, -, h⟩
  · obtain ⟨c, hc, hx⟩ := mapM_eq_error h
    exact .inr ⟨c, List.mem_cons_of_mem _ hc, hx⟩
  · cases h

/-- A rule that is built confirms declared languages, and all of its clauses have been built. -/
theorem rule_eq_ok {q : HeuristicRule}
    (h : rule declared named source extensions r order = .ok q) :
    (∀ n ∈ r.languages.toList, ∃ found, declared.find? n = some found) ∧
      (∀ c ∈ r.clauses, ∃ cs, clauses named source c = .ok cs) ∧
      ∀ found ∈ q.languages, ∃ n, declared.find? n = some found := by
  obtain ⟨languages, hl, h⟩ := bind_eq_ok.1 h
  obtain ⟨own, ho, h⟩ := bind_eq_ok.1 h
  obtain ⟨further, hf, h⟩ := bind_eq_ok.1 h
  obtain rfl := pure_eq_ok.1 h
  refine ⟨fun n hn => ?_, ?_, fun found hfound => ?_⟩
  · obtain ⟨found, hfound⟩ := mapM_eq_ok.1 ⟨_, hl⟩ n hn
    exact ⟨found, ruleLanguage_eq_ok hfound⟩
  · exact List.forall_mem_cons.2 ⟨⟨own, ho⟩, mapM_eq_ok.1 ⟨_, hf⟩⟩
  · obtain ⟨n, -, hn⟩ := mem_of_mapM hl hfound
    exact ⟨n, ruleLanguage_eq_ok hn⟩

/-! ## Blocks -/

theorem takenExtension?_eq_none {taken : List String} :
    takenExtension? taken extensions = none ↔
      extensions.Nodup ∧ ∀ x ∈ extensions, x ∉ taken := by
  induction extensions generalizing taken with
  | nil => simp [takenExtension?]
  | cons x rest ih =>
    rw [takenExtension?]
    by_cases h : x ∈ taken
    · simp [h]
    · rw [if_neg (by simpa using h), ih]
      rw [List.forall_mem_cons, List.nodup_cons]
      simp only [List.mem_cons, not_or]
      constructor
      · rintro ⟨hnodup, hrest⟩
        exact ⟨⟨fun hx => (hrest x hx).1 rfl, hnodup⟩, h, fun y hy => (hrest y hy).2⟩
      · rintro ⟨⟨hx, hnodup⟩, -, hrest⟩
        exact ⟨hnodup, fun y hy => ⟨fun heq => hx (heq ▸ hy), hrest y hy⟩⟩

/-- An extension that is taken comes up once more than it may. -/
theorem count_of_takenExtension? {taken : List String} {x : String}
    (h : takenExtension? taken extensions = some x) :
    x ∈ extensions ∧ 1 < (taken ++ extensions).count x := by
  induction extensions generalizing taken with
  | nil => cases h
  | cons y rest ih =>
    rw [takenExtension?] at h
    split at h
    · rename_i hy
      obtain rfl := Option.some.inj h
      have htaken : 0 < taken.count y := List.count_pos_iff.2 (by simpa using hy)
      refine ⟨List.mem_cons_self, ?_⟩
      rw [List.count_append, List.count_cons_self]
      omega
    · obtain ⟨hx, hcount⟩ := ih h
      refine ⟨List.mem_cons_of_mem _ hx, ?_⟩
      simp only [List.count_append, List.count_cons] at hcount ⊢
      omega

variable {found : List HeuristicBlock × List String} {b : BlockEntry}

/-- A rule of a block that is built. -/
abbrev blockRules (declared : Declared) (named : List (String × Regex.Pattern)) (b : BlockEntry) :
    Except BuildError (List HeuristicRule) :=
  b.rules.zipIdx.mapM fun x => rule declared named b.source b.keys x.1 x.2

theorem block_eq_error {x : BuildError} (h : block declared named found b = .error x) :
    (∃ r ∈ b.rules, ∃ i, rule declared named b.source b.keys r i = .error x) ∨
      ∃ e, takenExtension? found.2 b.keys = some e ∧
        x = .definition (.repeatedExtension e b.source) := by
  rcases bind_eq_error.1 h with h | ⟨_, -, h⟩
  · obtain ⟨⟨r, i⟩, hr, hx⟩ := mapM_eq_error h
    exact .inl ⟨r, List.fst_mem_of_mem_zipIdx hr, i, hx⟩
  · split at h
    · rename_i e he
      exact .inr ⟨e, he, (Except.error.inj h).symm⟩
    · cases h

theorem block_eq_ok {found' : List HeuristicBlock × List String}
    (h : block declared named found b = .ok found') :
    ∃ rules, blockRules declared named b = .ok rules ∧ takenExtension? found.2 b.keys = none ∧
      found' = (⟨b.keys, rules⟩ :: found.1, b.keys ++ found.2) := by
  obtain ⟨rules, hr, h⟩ := bind_eq_ok.1 h
  split at h
  · cases h
  · rename_i hnone
    exact ⟨rules, hr, hnone, (pure_eq_ok.1 h).symm⟩

/-- The extensions that are taken behind some blocks are those of the blocks. -/
theorem taken_of_blocks {blocks : List BlockEntry} {found' : List HeuristicBlock × List String}
    (h : blocks.foldlM (block declared named) found = .ok found') :
    found'.2.Perm (found.2 ++ blocks.flatMap (·.keys)) := by
  induction blocks generalizing found with
  | nil =>
    obtain rfl := pure_eq_ok.1 h
    simp
  | cons b rest ih =>
    rw [List.foldlM_cons] at h
    obtain ⟨next, hnext, hrest⟩ := bind_eq_ok.1 h
    obtain ⟨rules, -, -, rfl⟩ := block_eq_ok hnext
    refine (ih hrest).trans ?_
    rw [List.flatMap_cons, ← List.append_assoc]
    exact List.perm_append_comm.append_right _

theorem nodup_of_blocks {blocks : List BlockEntry} {found' : List HeuristicBlock × List String}
    (h : blocks.foldlM (block declared named) found = .ok found') (hfound : found.2.Nodup) :
    found'.2.Nodup := by
  refine foldlM_preserves (P := fun f => f.2.Nodup) (fun f b f' hf hb => ?_) h hfound
  obtain ⟨rules, -, hnone, rfl⟩ := block_eq_ok hb
  obtain ⟨hnodup, hnew⟩ := takenExtension?_eq_none.1 hnone
  refine List.nodup_append.2 ⟨hnodup, hf, fun x hx y hy heq => hnew x hx ?_⟩
  rwa [heq]

/-! ## All heuristics -/

variable {e : HeuristicsEntry}

/-- How the named patterns are compiled. -/
abbrev namedPatterns (e : HeuristicsEntry) : Except BuildError (List (String × Regex.Pattern)) :=
  e.named.mapM fun x => do return (x.1, ← Dialect.compile x.2 ("named_patterns." ++ x.1))

theorem names_of_namedPatterns (h : namedPatterns e = .ok named) :
    named.map (·.1) = e.named.map (·.1) := by
  refine map_of_mapM (fun x q hq => ?_) h
  obtain ⟨_, -, hq⟩ := bind_eq_ok.1 hq
  rw [← pure_eq_ok.1 hq]

theorem heuristics_eq_error {x : BuildError} (h : heuristics declared e = .error x) :
    (∃ n ∈ e.named, Dialect.compile n.2 ("named_patterns." ++ n.1) = .error x) ∨
      ∃ named, namedPatterns e = .ok named ∧
        e.blocks.foldlM (block declared named) ([], []) = .error x := by
  rcases bind_eq_error.1 h with h | ⟨named, hnamed, h⟩
  · obtain ⟨n, hn, hx⟩ := mapM_eq_error h
    rcases bind_eq_error.1 hx with hx | ⟨_, -, hx⟩
    · exact .inl ⟨n, hn, hx⟩
    · cases hx
  rcases bind_eq_error.1 h with h | ⟨_, -, h⟩
  · exact .inr ⟨named, hnamed, h⟩
  · cases h

theorem heuristics_eq_ok {blocks : List HeuristicBlock} (h : heuristics declared e = .ok blocks) :
    ∃ named found, namedPatterns e = .ok named ∧
      e.blocks.foldlM (block declared named) ([], []) = .ok found ∧ blocks = found.1.reverse := by
  obtain ⟨named, hnamed, h⟩ := bind_eq_ok.1 h
  obtain ⟨found, hfound, h⟩ := bind_eq_ok.1 h
  exact ⟨named, found, hnamed, hfound, (pure_eq_ok.1 h).symm⟩

/-- All rules that are built confirm declared languages. -/
theorem declared_of_heuristics {blocks : List HeuristicBlock}
    (h : heuristics declared e = .ok blocks) :
    ∀ b ∈ blocks, ∀ r ∈ b.rules, ∀ l ∈ r.languages, ∃ n, declared.find? n = some l := by
  obtain ⟨named, found, -, hfound, rfl⟩ := heuristics_eq_ok h
  have hall := foldlM_preserves (P := fun f : List HeuristicBlock × List String =>
      ∀ b ∈ f.1, ∀ r ∈ b.rules, ∀ l ∈ r.languages, ∃ n, declared.find? n = some l)
    (fun f b f' hf hb => ?_) hfound nofun
  · exact fun b hb => hall b (List.mem_reverse.1 hb)
  · obtain ⟨rules, hrules, -, rfl⟩ := block_eq_ok hb
    refine List.forall_mem_cons.2 ⟨fun r hr => ?_, hf⟩
    obtain ⟨⟨entry, i⟩, -, hrule⟩ := mem_of_mapM hrules hr
    exact (rule_eq_ok hrule).2.2

/-! ## Path patterns -/

variable {kind : ExclusionKind} {q : String}

theorem exclusionRule_eq_error {x : BuildError} (h : exclusionRule kind q = .error x) :
    (∃ fault, Regex.Pattern.compile {} (Dialect.adapt q) = .error (.malformed fault) ∧
        x = .definition (.badPathPattern kind q fault)) ∨
      ∃ e, Regex.Pattern.compile {} (Dialect.adapt q) = .error e ∧
        (∀ fault, e ≠ .malformed fault) ∧ x = .pattern e := by
  unfold exclusionRule at h
  split at h
  · cases h
  · rename_i fault hf
    exact .inl ⟨fault, map_eq_error.1 hf, (Except.error.inj h).symm⟩
  · rename_i e hno he
    exact .inr ⟨e, map_eq_error.1 he, hno, (Except.error.inj h).symm⟩

theorem exclusionRule_eq_ok {r : ExclusionRule} (h : exclusionRule kind q = .ok r) :
    ∃ pattern, Regex.Pattern.compile {} (Dialect.adapt q) = .ok pattern := by
  unfold exclusionRule at h
  split at h
  · rename_i hr
    obtain ⟨pattern, hp, -⟩ := map_eq_ok.1 hr
    exact ⟨pattern, hp⟩
  · cases h
  · cases h

variable {p : Payload}

theorem exclusionRules_eq_error {x : BuildError} (h : exclusionRules p = .error x) :
    ∃ kind, ∃ q ∈ p.pathPatterns kind, exclusionRule kind q = .error x := by
  rcases bind_eq_error.1 h with h | ⟨_, -, h⟩
  · exact ⟨.vendor, mapM_eq_error h⟩
  rcases bind_eq_error.1 h with h | ⟨_, -, h⟩
  · exact ⟨.generated, mapM_eq_error h⟩
  rcases bind_eq_error.1 h with h | ⟨_, -, h⟩
  · exact ⟨.documentation, mapM_eq_error h⟩
  · cases h

theorem exclusionRules_eq_ok {rules : List ExclusionRule} (h : exclusionRules p = .ok rules) :
    ∀ kind, ∀ q ∈ p.pathPatterns kind, ∃ r, exclusionRule kind q = .ok r := by
  obtain ⟨vendor, hv, h⟩ := bind_eq_ok.1 h
  obtain ⟨generated, hg, h⟩ := bind_eq_ok.1 h
  obtain ⟨documentation, hd, h⟩ := bind_eq_ok.1 h
  intro kind
  cases kind with
  | vendor => exact mapM_eq_ok.1 ⟨_, hv⟩
  | generated => exact mapM_eq_ok.1 ⟨_, hg⟩
  | documentation => exact mapM_eq_ok.1 ⟨_, hd⟩
  | binary => nofun

/-! ## Training data -/

/-- A tally without negative counts. -/
def Nonneg (t : Tally String) : Prop := ∀ e ∈ t, 0 ≤ e.2

theorem nonneg_add {t : Tally String} {key : String} {n : Int} (h : Nonneg t) (hn : 0 ≤ n) :
    Nonneg (t.add key n) := by
  induction t with
  | nil => simpa [Tally.add, Nonneg] using hn
  | cons entry rest ih =>
    obtain ⟨hentry, hrest⟩ := List.forall_mem_cons.1 h
    rw [Tally.add]
    split
    · exact List.forall_mem_cons.2 ⟨Int.add_nonneg hentry hn, hrest⟩
    · exact List.forall_mem_cons.2 ⟨hentry, ih hrest⟩

theorem nonneg_addAll {entries : List (String × Int)} {t : Tally String} (h : Nonneg t)
    (hentries : ∀ e ∈ entries, 0 ≤ e.2) : Nonneg (t.addAll entries) := by
  induction entries generalizing t with
  | nil => exact h
  | cons entry rest ih =>
    obtain ⟨hentry, hrest⟩ := List.forall_mem_cons.1 hentries
    exact ih (nonneg_add h hentry) hrest

theorem nonneg_addEach {keys : List String} {t : Tally String} (h : Nonneg t) :
    Nonneg (t.addEach keys) := by
  induction keys generalizing t with
  | nil => exact h
  | cons key rest ih => exact ih (nonneg_add h (by decide))

theorem nonneg_train {bound : Nat} {samples : List (List Char)} {t : Tally String}
    (h : Nonneg t) : Nonneg (Model.train bound t samples) := by
  induction samples generalizing t with
  | nil => exact h
  | cons sample rest ih => exact ih (nonneg_addEach h)

/-- A tally without negative counts is a model. -/
theorem ofCounts_of_nonneg {t : Tally String} (h : Nonneg t) (name : String) :
    ∃ m, Model.ofCounts name t = .ok m := by
  have hnone : ((t.filter fun e => e.2 != 0).filter fun e => decide (e.2 < 0)) = [] := by
    refine List.filter_eq_nil_iff.2 fun e he hneg => ?_
    have hle := h e (List.mem_filter.1 he).1
    have hlt : e.2 < 0 := by simpa using hneg
    omega
  unfold Model.ofCounts
  simp only [hnone]
  exact ⟨_, rfl⟩

/-- A tally that belongs to a declared language and counts nothing less than zero. -/
def Trained (declared : Declared) (t : String × Tally String) : Prop :=
  (∃ n, declared.find? n = some t.1) ∧ Nonneg t.2

theorem forall_modify {P : String × Tally String → Prop} {f : Tally String → Tally String}
    {tallies : Tallies} (hnew : P (name, f [])) (hold : ∀ t, P (name, t) → P (name, f t))
    (h : ∀ t ∈ tallies, P t) : ∀ t ∈ tallies.modify name f, P t := by
  induction tallies with
  | nil => simpa [Tallies.modify] using hnew
  | cons entry rest ih =>
    obtain ⟨n, t⟩ := entry
    obtain ⟨hentry, hrest⟩ := List.forall_mem_cons.1 h
    rw [Tallies.modify]
    split
    · rename_i hn
      obtain rfl := eq_of_beq hn
      exact List.forall_mem_cons.2 ⟨hold t hentry, hrest⟩
    · exact List.forall_mem_cons.2 ⟨hentry, ih hrest⟩

theorem trained_modify {f : Tally String → Tally String} {tallies : Tallies} {n : String}
    (hname : declared.find? n = some name) (hf : ∀ t, Nonneg t → Nonneg (f t))
    (h : ∀ t ∈ tallies, Trained declared t) :
    ∀ t ∈ tallies.modify name f, Trained declared t :=
  forall_modify ⟨⟨n, hname⟩, hf [] nofun⟩ (fun t ht => ⟨ht.1, hf t ht.2⟩) h

variable {tallies tallies' : Tallies}

theorem addCounts_eq_error {t : String × List (String × Int)} {x : BuildError}
    (h : addCounts declared tallies t = .error x) :
    declared.find? t.1 = none ∧ x = .definition (.undeclaredCounts t.1) ∨
      ∃ c ∈ t.2, c.2 < 0 ∧ x = .definition (.negativeCount t.1) := by
  unfold addCounts at h
  split at h
  · rename_i hnone
    exact .inl ⟨hnone, (Except.error.inj h).symm⟩
  · split at h
    · rename_i hneg
      obtain ⟨c, hc, hlt⟩ := List.any_eq_true.1 hneg
      exact .inr ⟨c, hc, of_decide_eq_true hlt, (Except.error.inj h).symm⟩
    · cases h

theorem addCounts_eq_ok {t : String × List (String × Int)}
    (h : addCounts declared tallies t = .ok tallies') :
    ∃ found, declared.find? t.1 = some found ∧ (∀ c ∈ t.2, 0 ≤ c.2) ∧
      tallies' = tallies.modify found (·.addAll t.2) := by
  unfold addCounts at h
  split at h
  · cases h
  · rename_i found hfound
    split at h
    · cases h
    · rename_i hneg
      refine ⟨found, hfound, fun c hc => ?_, (Except.ok.inj h).symm⟩
      refine Int.not_lt.1 fun hlt => hneg (List.any_eq_true.2 ⟨c, hc, decide_eq_true hlt⟩)

theorem addSamples_eq_error {bound : Nat} {s : String × List String} {x : BuildError}
    (h : addSamples declared bound tallies s = .error x) :
    declared.find? s.1 = none ∧ x = .definition (.undeclaredSamples s.1) := by
  unfold addSamples at h
  split at h
  · rename_i hnone
    exact ⟨hnone, (Except.error.inj h).symm⟩
  · cases h

theorem addSamples_eq_ok {bound : Nat} {s : String × List String}
    (h : addSamples declared bound tallies s = .ok tallies') :
    ∃ found, declared.find? s.1 = some found ∧
      tallies' = tallies.modify found fun t => Model.train bound t (s.2.map (·.toList)) := by
  unfold addSamples at h
  split at h
  · cases h
  · rename_i found hfound
    exact ⟨found, hfound, (Except.ok.inj h).symm⟩

theorem trained_of_counts {tables : List (String × List (String × Int))}
    (h : tables.foldlM (addCounts declared) tallies = .ok tallies')
    (ht : ∀ t ∈ tallies, Trained declared t) : ∀ t ∈ tallies', Trained declared t := by
  refine foldlM_preserves (P := fun ts => ∀ t ∈ ts, Trained declared t)
    (fun ts t ts' hts hstep => ?_) h ht
  obtain ⟨found, hfound, hcounts, rfl⟩ := addCounts_eq_ok hstep
  exact trained_modify hfound (fun _ ht => nonneg_addAll ht hcounts) hts

theorem trained_of_samples {bound : Nat} {samples : List (String × List String)}
    (h : samples.foldlM (addSamples declared bound) tallies = .ok tallies')
    (ht : ∀ t ∈ tallies, Trained declared t) : ∀ t ∈ tallies', Trained declared t := by
  refine foldlM_preserves (P := fun ts => ∀ t ∈ ts, Trained declared t)
    (fun ts s ts' hts hstep => ?_) h ht
  obtain ⟨found, hfound, rfl⟩ := addSamples_eq_ok hstep
  exact trained_modify hfound (fun _ => nonneg_train) hts

theorem models_eq_error {bound : Nat} {x : BuildError} (h : models declared bound p = .error x) :
    (∃ t ∈ p.counts, ∃ found, addCounts declared found t = .error x) ∨
      ∃ s ∈ p.samples, ∃ found, addSamples declared bound found s = .error x := by
  rcases bind_eq_error.1 h with h | ⟨counted, hcounted, h⟩
  · obtain ⟨pre, t, post, found, heq, -, hx⟩ := foldlM_eq_error h
    exact .inl ⟨t, by simp [heq], found, hx⟩
  rcases bind_eq_error.1 h with h | ⟨tallies, htallies, h⟩
  · obtain ⟨pre, s, post, found, heq, -, hx⟩ := foldlM_eq_error h
    exact .inr ⟨s, by simp [heq], found, hx⟩
  · -- no tally is refused, since none counts less than zero
    obtain ⟨t, ht, hx⟩ := mapM_eq_error h
    have htrained := trained_of_samples htallies (trained_of_counts hcounted nofun)
    obtain ⟨m, hm⟩ := ofCounts_of_nonneg (htrained t (List.mem_filter.1 ht).1).2 t.1
    simp only [hm] at hx
    cases hx

theorem models_eq_ok {bound : Nat} {ms : List (String × Model)}
    (h : models declared bound p = .ok ms) :
    (∀ t ∈ p.counts, (∃ found, declared.find? t.1 = some found) ∧ ∀ c ∈ t.2, 0 ≤ c.2) ∧
      (∀ s ∈ p.samples, ∃ found, declared.find? s.1 = some found) ∧
      ∀ m ∈ ms, ∃ n, declared.find? n = some m.1 := by
  obtain ⟨counted, hcounted, h⟩ := bind_eq_ok.1 h
  obtain ⟨tallies, htallies, h⟩ := bind_eq_ok.1 h
  refine ⟨forall_of_foldlM (fun ts t ts' ht => ?_) hcounted,
    forall_of_foldlM (fun ts s ts' hs => ?_) htallies, fun m hm => ?_⟩
  · obtain ⟨found, hfound, hcounts, -⟩ := addCounts_eq_ok ht
    exact ⟨⟨found, hfound⟩, hcounts⟩
  · obtain ⟨found, hfound, -⟩ := addSamples_eq_ok hs
    exact ⟨found, hfound⟩
  · obtain ⟨⟨name, tally⟩, ht, hok⟩ := mem_of_mapM h hm
    obtain ⟨n, hn⟩ := (trained_of_samples htallies (trained_of_counts hcounted nofun) _
      (List.mem_filter.1 ht).1).1
    refine ⟨n, ?_⟩
    dsimp only at hok
    split at hok
    · obtain rfl := Except.ok.inj hok
      exact hn
    · cases hok

end Build

namespace KnowledgeBase

/-! ## The last checks -/

variable {languages : List Language}

/-- Of the languages that share a name the second one is refused. -/
theorem declared_eq_error {e : DefinitionError} (h : declared languages = .error e) :
    ∃ l ∈ languages, e = .duplicateLanguage l.name ∧
      1 < (languages.map fun l => lower l.name).count (lower l.name) := by
  obtain ⟨pre, l, post, found, rfl, hpre, hl⟩ := foldlM_eq_error (map_eq_error.1 h)
  obtain ⟨rfl, -, -⟩ := (foldlM_add_eq_ok pre [] found).1 hpre
  unfold declared.add at hl
  split at hl
  · rename_i hsome
    refine ⟨l, by simp, (Except.error.inj hl).symm, ?_⟩
    obtain ⟨m, hm⟩ := Option.isSome_iff_exists.1 hsome
    have hmem : 0 < (pre.map fun l => lower l.name).count (lower l.name) := by
      refine List.count_pos_iff.2 ?_
      simpa using Table.mem_names_of_lookup hm
    rw [List.map_append, List.map_cons, List.count_append, List.count_cons_self]
    omega
  · cases hl

theorem isDeclared_of_mem {l : Language} (h : l ∈ languages) :
    isDeclared (languages.map fun l => (lower l.name, l)) l.name = true := by
  rw [isDeclared, ← Option.not_isNone, Bool.not_eq_true', Option.isNone_eq_false_iff,
    Option.isSome_iff_ne_none]
  rw [ne_eq, Table.lookup_eq_none, List.map_map]
  exact fun hno => hno (List.mem_map.2 ⟨l, h, rfl⟩)

/-- Where rules and models belong to declared languages, only names can be refused. -/
theorem make_eq_error {blocks : List HeuristicBlock} {rules : List ExclusionRule}
    {models : List (String × Model)} {e : DefinitionError}
    (hblocks : ∀ b ∈ blocks, ∀ r ∈ b.rules, ∀ n ∈ r.languages, ∃ l ∈ languages, l.name = n)
    (hmodels : ∀ m ∈ models, ∃ l ∈ languages, l.name = m.1)
    (h : make languages blocks rules models = .error e) : declared languages = .error e := by
  rcases bind_eq_error.1 h with h | ⟨byName, hd, h⟩
  · exact h
  obtain ⟨rfl, -⟩ := declared_eq_ok.1 hd
  have hnone : blocks.findSome? (undeclaredConfirmed? (languages.map fun l => (lower l.name, l)))
      = none := by
    refine List.findSome?_eq_none_iff.2 fun b hb => ?_
    unfold undeclaredConfirmed?
    cases b.extensions.head? with
    | none => rfl
    | some x =>
      have hfind : (b.rules.flatMap (·.languages)).find? (fun name =>
          !isDeclared (languages.map fun l => (lower l.name, l)) name) = none := by
        refine List.find?_eq_none.2 fun n hn => ?_
        obtain ⟨r, hr, hn⟩ := List.mem_flatMap.1 hn
        obtain ⟨l, hl, rfl⟩ := hblocks b hb r hr n hn
        simp [isDeclared_of_mem hl]
      simp [hfind]
  have hfind : models.find? (fun m =>
      !isDeclared (languages.map fun l => (lower l.name, l)) m.1) = none := by
    refine List.find?_eq_none.2 fun m hm => ?_
    obtain ⟨l, hl, heq⟩ := hmodels m hm
    simp [← heq, isDeclared_of_mem hl]
  simp only [hnone, hfind] at h
  cases h

end KnowledgeBase

end LangId
