import LangId.Knowledge.Bundled
import LangId.Proofs.Dialect.Alternation
import LangId.Proofs.Knowledge.Totals
import LangId.Proofs.Knowledge.Validity
import LangId.Proofs.Token.Lines

/-!
# The bundled definitions

The bundled definitions are valid, so that they make a base with every bound on tokens. What is read
of their training texts tells these bases apart, and the longest text tells from which bound on they
are the same.

Texts are evaluated as lists of characters: patterns are read from them (`compiles_of_parse`), and
training texts are counted line by line (`Lines`).

**Results.**
* `valid`: the bundled definitions are what definitions have to be like.
* `length_texts`, `longest_text`: the longest training text has 138 tokens.
* `agrees_iff`: a bound makes a base with the answers of the bundled one exactly if it is no less.
-/
namespace LangId.Bundled

/-! ## The definitions -/

/-- A pattern whose characters can be parsed can be compiled. -/
theorem compiles_of_parse {flags : Regex.Flags} {source : String} {cs : List Char}
    (hcs : source.toList = cs) (h : (Regex.parse flags cs).toOption.isSome = true) :
    ∃ pattern, Regex.Pattern.compile flags source = .ok pattern := by
  obtain ⟨node, hnode⟩ := Option.isSome_iff_exists.1 h
  rw [← hcs] at hnode
  exact ⟨⟨source, node⟩, map_eq_ok.2 ⟨node, toOption_eq_some.1 hnode, rfl⟩⟩

theorem compiles_path {cs : List Char}
    (h : (Regex.parse {} (Dialect.adaptChars cs)).toOption.isSome = true) :
    ∃ pattern, Regex.Pattern.compile {} (Dialect.adapt (String.ofList cs)) = .ok pattern :=
  compiles_of_parse (by rw [Dialect.adapt, String.toList_ofList, String.toList_ofList]) h

theorem compiles_paths : ∀ q ∈ vendor ++ generated ++ documentation,
    ∃ pattern, Regex.Pattern.compile {} (Dialect.adapt q) = .ok pattern := by
  unfold vendor generated documentation
  repeat' refine List.forall_mem_cons.2 ⟨compiles_path (by decide +kernel), ?_⟩
  exact fun _ => nofun

theorem compiles_joined {value : OneOrMany} (hne : value.toList ≠ [])
    (h : (Regex.parse Dialect.contentFlags (Regex.joined (value.toList.map fun p =>
      Dialect.adaptChars p.toList))).toOption.isSome = true) : Dialect.Compiles value := by
  refine ⟨hne, compiles_of_parse ?_ h⟩
  rw [Dialect.toList_join]
  simp only [Dialect.adapt, String.toList_ofList]

theorem compiles_named : ∀ n ∈ namedPatterns, Dialect.Compiles n.2 := by
  unfold namedPatterns
  repeat' refine List.forall_mem_cons.2 ⟨compiles_joined (List.cons_ne_nil _ _) ?_, ?_⟩
  any_goals exact fun _ => nofun
  all_goals
    simp only [OneOrMany.toList, List.map_cons, List.map_nil, String.toList_append]
    repeat rw [String.toList_ofList]
    decide +kernel

/-- The bundled definitions are what definitions have to be like. -/
theorem valid : payload.Valid where
  categories := by decide +kernel
  extensions := by decide +kernel
  names := by decide +kernel
  ruleLanguages := by decide +kernel
  countLanguages := nofun
  sampleLanguages := by decide +kernel
  named := compiles_named
  clauses := by decide +kernel
  paths kind q hq := compiles_paths q <| by
    cases kind <;> simp_all [Payload.pathPatterns, payload]
  references := by decide +kernel
  keys := by decide +kernel
  counts := nofun

/-! ## The training texts -/

/-- The lines of a text, character by character. -/
def Lines (t : String) (lines : List (List Char)) : Prop :=
  t.toList = lines.flatMap fun line => line ++ ['\n']

theorem lines_nil : Lines (text []) [] := rfl

theorem lines_cons {line : List Char} {lines : List String} {more : List (List Char)}
    (h : Lines (text lines) more) : Lines (text (String.ofList line :: lines)) (line :: more) := by
  have hcons : (text (String.ofList line :: lines)).toList =
      line ++ '\n' :: (text lines).toList := by
    rw [text, text, List.map_cons, String.join_cons]
    simp
  rw [Lines, hcons, h, List.flatMap_cons, List.append_assoc]
  rfl

/-- A text is read line by line. -/
theorem tokensFrom_lines (lines : List (List Char)) :
    Token.tokensFrom false (lines.flatMap fun line => line ++ ['\n']) =
      lines.flatMap (Token.tokensFrom false) := by
  induction lines with
  | nil => rfl
  | cons line rest ih =>
    rw [List.flatMap_cons, List.append_assoc, List.singleton_append,
      Token.tokensFrom_append_newline, List.flatMap_cons, ih]

theorem Lines.length_le {t : String} {lines : List (List Char)} {n : Nat} (h : Lines t lines)
    (hle : (lines.flatMap (Token.tokensFrom false)).length ≤ n) :
    (Token.ofContent t.toList).length ≤ n := by
  rw [← tokensFrom_lines, ← h] at hle
  exact Nat.le_trans (Token.length_ofContent_le_tokensFrom _) hle

theorem Lines.le_length {t : String} {lines : List (List Char)} {n : Nat} (h : Lines t lines)
    (hbody : "#!".toList.isPrefixOf (lines.flatMap fun line => line ++ ['\n']) = false)
    (hle : n ≤ (lines.flatMap (Token.tokensFrom false)).length) :
    n ≤ (Token.ofContent t.toList).length := by
  rw [h, Token.ofContent_of_body hbody, tokensFrom_lines]
  exact hle

theorem length_texts : ∀ s ∈ samples, ∀ t ∈ s.2, (Token.ofContent t.toList).length ≤ 138 := by
  unfold samples
  repeat' with_reducible refine List.forall_mem_cons.2 ⟨?_, ?_⟩
  any_goals with_reducible exact List.forall_mem_nil _
  all_goals
    apply Lines.length_le
    case h =>
      repeat with_reducible apply lines_cons
      with_reducible exact lines_nil
    decide +kernel

theorem longest_text : ∃ s ∈ samples, ∃ t ∈ s.2, 138 ≤ (Token.ofContent t.toList).length := by
  refine ⟨_, List.mem_of_getElem? (i := 1) rfl, _, List.mem_cons_self, ?_⟩
  apply Lines.le_length
  case h =>
    repeat with_reducible apply lines_cons
    with_reducible exact lines_nil
  · decide +kernel
  · decide +kernel

/-! ## Bounds on tokens -/

theorem exists_build (bound : Nat) : ∃ kb, payload.build bound = .ok kb :=
  Payload.exists_build_of_valid valid bound

/-- Every text is read to its end with the default bound, and the longest one with no bound below
its length. -/
theorem agrees_iff {bound : Nat} {kb kb' : KnowledgeBase} (h : KnowledgeBase.bundled = .ok kb)
    (h' : payload.build bound = .ok kb') : kb.Agrees kb' ↔ 138 ≤ bound := by
  have hwhole {bound : Nat} (hbound : 138 ≤ bound) {s : String × List String} (hs : s ∈ samples)
      {t : String} (ht : t ∈ s.2) : Token.tokenize t.toList bound = Token.ofContent t.toList :=
    List.take_of_length_le (Nat.le_trans (length_texts s hs t ht) hbound)
  rw [Payload.agrees_iff_tokenize h h']
  constructor
  · intro hsame
    obtain ⟨s, hs, t, ht, hlong⟩ := longest_text
    have hread := hsame s hs t ht
    rw [hwhole (by decide) hs ht] at hread
    rw [hread] at hlong
    exact Nat.le_trans hlong (List.length_take_le _ _)
  · intro hbound s hs t ht
    rw [hwhole (by decide) hs ht, hwhole hbound hs ht]

end LangId.Bundled
