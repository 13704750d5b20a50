import LangId.CommandLine.Run
import LangId.Proofs.Knowledge.Validity

/-!
# Which errors of definitions are told

Whoever builds a knowledge base expects one kind of error: that the definitions are refused. Two
kinds of failure are not of it. A pattern may be well formed and beyond what can be searched for
(`Payload.Breaks`), and a document may say something for which the reader has no check
(`Yaml.Oversight`). `loading_contained` shows that there are no others, and that without such a
pattern or document only refusals are left.
-/
namespace LangId

open Data

namespace Payload

/-- A pattern of the definitions is well formed and fails with an error nonetheless. -/
inductive Breaks (p : Payload) (e : Regex.Error) : Prop
  | named {n : String × OneOrMany} : n ∈ p.heuristics.named →
      Regex.Pattern.compile Dialect.contentFlags (Dialect.join n.2.toList) = .error e → Breaks p e
  | clause {b : BlockEntry} {c : ClauseEntry} {value : OneOrMany} : b ∈ p.heuristics.blocks →
      c ∈ b.clauses → value ∈ c.values →
      Regex.Pattern.compile Dialect.contentFlags (Dialect.join value.toList) = .error e → Breaks p e
  | path {kind : ExclusionKind} {q : String} : q ∈ p.pathPatterns kind →
      Regex.Pattern.compile {} (Dialect.adapt q) = .error e → Breaks p e

variable {p : Payload} {bound : Nat}

/-- The patterns that fail without being malformed. -/
def Uncontained (p : Payload) (e : Regex.Error) : Prop :=
  p.Breaks e ∧ ∀ fault, e ≠ .malformed fault

theorem compile_eq_pattern {value : OneOrMany} {source : String} {e : Regex.Error}
    (h : Dialect.compile value source = .error (.pattern e)) :
    Regex.Pattern.compile Dialect.contentFlags (Dialect.join value.toList) = .error e ∧
      ∀ fault, e ≠ .malformed fault := by
  rcases Dialect.compile_eq_error h with ⟨-, hx⟩ | ⟨fault, -, hx⟩ | ⟨x, hx, hno, heq⟩
  · cases hx
  · cases hx
  · obtain rfl := BuildError.pattern.inj heq
    exact ⟨hx, hno⟩

/-- Faults that are no refusals are patterns. -/
theorem uncontained_of_fault {e : Regex.Error} (h : p.Fault (.pattern e)) : p.Uncontained e := by
  cases h with
  | named hn he => exact ⟨.named hn (compile_eq_pattern he).1, (compile_eq_pattern he).2⟩
  | clause hb hc hv he =>
    exact ⟨.clause hb hc hv (compile_eq_pattern he).1, (compile_eq_pattern he).2⟩
  | pathLimit hq he hno => exact ⟨.path hq he, hno⟩

/-- Definitions with a pattern that fails are not valid. -/
theorem not_valid_of_breaks {e : Regex.Error} (h : p.Breaks e) : ¬p.Valid := by
  intro hv
  cases h with
  | named hn he =>
    obtain ⟨-, q, hq⟩ := hv.named _ hn
    simp [hq] at he
  | clause hb hc hvalue he =>
    obtain ⟨-, q, hq⟩ := hv.clauses _ hb _ hc _ hvalue
    simp [hq] at he
  | path hq he =>
    obtain ⟨q, hq⟩ := hv.paths _ _ hq
    simp [hq] at he

/-- How building ends. -/
theorem build_ends (p : Payload) (bound : Nat) :
    (∃ kb, p.build bound = .ok kb) ∨ (∃ d, p.build bound = .error (.definition d)) ∨
      ∃ e, p.Uncontained e ∧ p.build bound = .error (.pattern e) := by
  cases h : p.build bound with
  | ok kb => exact .inl ⟨kb, rfl⟩
  | error x =>
    cases x with
    | definition d => exact .inr (.inl ⟨d, rfl⟩)
    | pattern e => exact .inr (.inr ⟨e, uncontained_of_fault (build_eq_error h), rfl⟩)

/-- Where nothing else is wrong, a pattern that fails does get through. -/
theorem build_escapes {e : Regex.Error} (h : p.Breaks e) (hno : ∀ d, ¬p.Fault (.definition d)) :
    ∃ e', p.Uncontained e' ∧ p.build bound = .error (.pattern e') := by
  rcases build_ends p bound with ⟨kb, hkb⟩ | ⟨d, hd⟩ | hend
  · exact absurd (valid_of_build hkb) (not_valid_of_breaks h)
  · exact absurd (build_eq_error hd) (hno d)
  · exact hend

/-! ## Files -/

/-- The files of the parts that are there can be read. -/
def ReadableParts (t : Tree) (directory : Path) : Prop :=
  ∀ part ∈ parts, t.reaches (fileOf directory part).parts →
    ∃ bytes, t.read (fileOf directory part).parts = .ok bytes

/-- The file of a part fails without a check. -/
def Overlooks (t : Tree) (directory : Path) (o : Yaml.Oversight) : Prop :=
  ∃ part ∈ parts, ∃ bytes, t.read (fileOf directory part).parts = .ok bytes ∧
    Yaml.readFile bytes = .error (.yaml (.oversight o))

open CommandLine in
theorem readPart_eq_error {t : Tree} {directory : Path} {part : String} {e : LoadError}
    (h : readPart t directory part = .error e)
    (hread : t.reaches (fileOf directory part).parts →
      ∃ bytes, t.read (fileOf directory part).parts = .ok bytes) :
    isReportedDefinitions e = true ∨
      ∃ bytes o, t.read (fileOf directory part).parts = .ok bytes ∧
        Yaml.readFile bytes = .error (.yaml (.oversight o)) ∧ e = .fault (.oversight o) := by
  unfold readPart at h
  dsimp only at h
  split at h
  · rename_i hreaches
    obtain ⟨bytes, hbytes⟩ := hread hreaches
    rw [hbytes] at h
    dsimp only at h
    split at h
    · cases h
    · cases h
    · cases h; exact .inl rfl
    · cases h; exact .inl rfl
    · cases h; exact .inl rfl
    · rename_i o ho
      cases h
      exact .inr ⟨bytes, o, hbytes, ho, rfl⟩
  · cases h

open CommandLine in
theorem load_eq_error {t : Tree} {directory : Path} {e : LoadError}
    (h : load t directory = .error e) (hread : ReadableParts t directory) :
    (t.reaches (fileOf directory "languages").parts = false ∧ ∃ path, e = .noLanguages path) ∨
      t.reaches (fileOf directory "languages").parts = true ∧
        (isReportedDefinitions e = true ∨
          ∃ o, Overlooks t directory o ∧ e = .fault (.oversight o)) := by
  unfold load at h
  dsimp only at h
  cases hreaches : t.reaches (fileOf directory "languages").parts with
  | false =>
    simp only [hreaches] at h
    cases h
    exact .inl ⟨rfl, _, rfl⟩
  | true =>
    refine .inr ⟨rfl, ?_⟩
    simp only [hreaches] at h
    rcases bind_eq_error.1 h with h | ⟨found, -, h⟩
    · obtain ⟨part, hpart, hx⟩ := mapM_eq_error h
      rcases readPart_eq_error hx (hread part hpart) with hx | ⟨bytes, o, hbytes, ho, rfl⟩
      · exact .inl hx
      · exact .inr ⟨o, ⟨part, hpart, bytes, hbytes, ho⟩, rfl⟩
    · split at h
      · cases h
      · cases h; exact .inl rfl

end Payload

open Payload CommandLine

/-! ## Building and loading -/

/-- How building ends, whatever the shape of the definitions. -/
theorem ofValue_ends (v : Value) (bound : Nat) :
    (∃ kb, KnowledgeBase.ofValue v bound = .ok kb) ∨
      (∃ d, KnowledgeBase.ofValue v bound = .error (.definition d)) ∨
      ∃ p e, schema v = .ok p ∧ p.Uncontained e ∧
        KnowledgeBase.ofValue v bound = .error (.pattern e) := by
  unfold KnowledgeBase.ofValue
  cases hs : schema v with
  | bad issues => exact .inr (.inl ⟨.badShape issues, rfl⟩)
  | ok p =>
    refine (build_ends p bound).imp_right (Or.imp_right ?_)
    rintro ⟨e, he, hend⟩
    exact ⟨p, e, rfl, he, hend⟩

/-- How loading ends behind the file with the languages. -/
theorem load_ends {t : Tree} {directory : Path} {e : LoadError} {bound : Nat}
    (h : KnowledgeBase.load t directory bound = .error e) (hread : ReadableParts t directory) :
    (t.reaches (fileOf directory "languages").parts = false ∧ ∃ path, e = .noLanguages path) ∨
      t.reaches (fileOf directory "languages").parts = true ∧
        (isReportedDefinitions e = true ∨
          (∃ p x, Payload.load t directory = .ok p ∧ p.Uncontained x ∧ e = .build (.pattern x)) ∨
          ∃ o, Overlooks t directory o ∧ e = .fault (.oversight o)) := by
  rcases bind_eq_error.1 h with h | ⟨p, hp, h⟩
  · exact (load_eq_error h hread).imp_right (And.imp_right (Or.imp_right .inr))
  obtain ⟨x, hx, rfl⟩ := mapError_eq_error.1 h
  have hreaches : t.reaches (fileOf directory "languages").parts = true := by
    cases hreaches : t.reaches (fileOf directory "languages").parts with
    | true => rfl
    | false =>
      unfold Payload.load at hp
      simp only [hreaches] at hp
      cases hp
  refine .inr ⟨hreaches, ?_⟩
  rcases build_ends p bound with ⟨kb, hkb⟩ | ⟨d, hd⟩ | ⟨y, hy, hend⟩
  · rw [hkb] at hx
    cases hx
  · rw [hd] at hx
    cases hx
    exact .inl rfl
  · rw [hend] at hx
    cases hx
    exact .inr (.inl ⟨p, y, hp, hy, rfl⟩)

/-- **Containment.** Building ends with a base or a refusal, unless a well-formed pattern fails, which
it does wherever nothing else is wrong. Loading readable files does so too, unless there is no file
with languages, a well-formed pattern fails, or a document says something without a check. -/
theorem loading_contained (v : Value) (t : Tree) (directory : Path) (bound : Nat) :
    ((∃ kb, KnowledgeBase.ofValue v bound = .ok kb) ∨
      (∃ d, KnowledgeBase.ofValue v bound = .error (.definition d)) ∨
      ∃ p e, schema v = .ok p ∧ p.Uncontained e ∧
        KnowledgeBase.ofValue v bound = .error (.pattern e)) ∧
    (∀ (p : Payload) e, p.Breaks e → (∀ d, ¬p.Fault (.definition d)) →
      ∃ e', p.Uncontained e' ∧ p.build bound = .error (.pattern e')) ∧
    (ReadableParts t directory →
      ((∃ path, KnowledgeBase.load t directory bound = .error (.noLanguages path)) ↔
        t.reaches (fileOf directory "languages").parts = false) ∧
      (t.reaches (fileOf directory "languages").parts = true →
        (∃ kb, KnowledgeBase.load t directory bound = .ok kb) ∨
        (∃ e, isReportedDefinitions e = true ∧
          KnowledgeBase.load t directory bound = .error e) ∨
        (∃ p e, Payload.load t directory = .ok p ∧ p.Uncontained e ∧
          KnowledgeBase.load t directory bound = .error (.build (.pattern e))) ∨
        ∃ o, Overlooks t directory o ∧
          KnowledgeBase.load t directory bound = .error (.fault (.oversight o)))) := by
  refine ⟨ofValue_ends v bound, fun p e => build_escapes, fun hread => ⟨⟨?_, ?_⟩, ?_⟩⟩
  · rintro ⟨path, h⟩
    rcases load_ends h hread with ⟨hmissing, -⟩ | ⟨-, hno | ⟨p, x, -, -, hno⟩ | ⟨o, -, hno⟩⟩
    · exact hmissing
    · cases hno
    · cases hno
    · cases hno
  · intro hmissing
    refine ⟨(fileOf directory "languages").toString, ?_⟩
    unfold KnowledgeBase.load Payload.load
    simp only [hmissing]
    rfl
  · intro hreaches
    cases h : KnowledgeBase.load t directory bound with
    | ok kb => exact .inl ⟨kb, rfl⟩
    | error e =>
      rcases load_ends h hread with ⟨hmissing, -⟩ | ⟨-, he | ⟨p, x, hp, hx, rfl⟩ | ⟨o, ho, rfl⟩⟩
      · rw [hreaches] at hmissing
        cases hmissing
      · exact .inr (.inl ⟨e, he, rfl⟩)
      · exact .inr (.inr (.inl ⟨p, x, hp, hx, rfl⟩))
      · exact .inr (.inr (.inr ⟨o, ho, rfl⟩))

/-- Definitions whose only pattern repeats more often than can be counted. -/
def overCounted : Payload := { vendor := ["a\x7b4294967295\x7d"] }

/-- The same definitions as they are written down. -/
def overCountedValue : Value :=
  .map [(.text "vendor", .list [.text "a\x7b4294967295\x7d"])]

theorem compile_overCounted :
    Regex.Pattern.compile {} (Dialect.adapt "a\x7b4294967295\x7d") = .error .countTooLarge := by
  have h : (match Regex.Pattern.compile {} (Dialect.adapt "a\x7b4294967295\x7d") with
    | .error e => some e
    | .ok _ => none) = some .countTooLarge := by decide +kernel
  split at h
  · rename_i e he
    rw [he, Option.some.inj h]
  · cases h

/-- A file of some lines. -/
def fileOfLines (lines : List String) : Tree :=
  .file (Text.Utf8.encode (Text.joinWith ['\n'] (lines.map String.toList)))

/-- A directory with two languages of one extension, rules for it, and a pattern for paths. -/
def cDefinitions (vendor : String) : Tree := .directory [("d", .directory
  [("languages.yml", fileOfLines ["C:", "  type: programming", "  extensions: [.h]",
     "C++:", "  type: programming", "  extensions: [.h]"]),
   ("heuristics.yml", fileOfLines ["disambiguations:", "- extensions: [.h]", "  rules:",
     "  - language: C++", "    pattern: class", "  - language: C"]),
   ("vendor.yml", fileOfLines ["- " ++ vendor])])]

theorem cDefinitions_readable (vendor : String) :
    ReadableParts (cDefinitions vendor) ⟨.absolute, ["d"]⟩ := by
  intro part hpart hreaches
  simp only [parts, List.mem_cons, List.not_mem_nil, or_false] at hpart
  rcases hpart with rfl | rfl | rfl | rfl | rfl | rfl | rfl
  · exact ⟨_, rfl⟩
  · exact ⟨_, rfl⟩
  · exact ⟨_, rfl⟩
  all_goals cases hreaches

theorem overCounted_breaks : overCounted.Breaks .countTooLarge := by
  refine @Breaks.path _ _ .vendor _ ?_ compile_overCounted
  exact List.mem_singleton.2 rfl

/-- Nothing else is wrong with the definitions. -/
theorem overCounted_faultless (d : DefinitionError) : ¬overCounted.Fault (.definition d) := by
  have hpath : ∀ kind, ∀ q ∈ overCounted.pathPatterns kind, q = "a\x7b4294967295\x7d" := by
    intro kind q hq
    cases kind with
    | vendor => exact List.mem_singleton.1 hq
    | generated | documentation | binary => cases hq
  intro h
  cases h with
  | category h | extension h | named h | rule h | clause h | reference h | repeated h | counts h
  | negative h | samples h | duplicate h => simp [overCounted] at h
  | path hq he =>
    obtain rfl := hpath _ _ hq
    cases compile_overCounted.symm.trans he

/-- Definitions in three files are loaded to a base, and to an error that nobody expects if the pattern
repeats more often than can be counted. -/
theorem cDefinitions_contained :
    (ReadableParts (cDefinitions "^lib/") ⟨.absolute, ["d"]⟩ ∧
      (cDefinitions "^lib/").reaches (fileOf ⟨.absolute, ["d"]⟩ "languages").parts = true ∧
      (¬∃ path, KnowledgeBase.load (cDefinitions "^lib/") ⟨.absolute, ["d"]⟩ 10 =
        .error (.noLanguages path)) ∧
      ∃ kb, KnowledgeBase.load (cDefinitions "^lib/") ⟨.absolute, ["d"]⟩ 10 = .ok kb ∧
        kb.byName.map (·.1) = ["c", "c++"] ∧ (kb.rulesFor ".h").length = 2 ∧
        kb.exclusionRules.length = 1) ∧
    (ReadableParts (cDefinitions "a\x7b4294967295\x7d") ⟨.absolute, ["d"]⟩ ∧
      ∃ p e, Payload.load (cDefinitions "a\x7b4294967295\x7d") ⟨.absolute, ["d"]⟩ = .ok p ∧
        p.Uncontained e ∧
        KnowledgeBase.load (cDefinitions "a\x7b4294967295\x7d") ⟨.absolute, ["d"]⟩ 10 =
          .error (.build (.pattern e))) ∧
    overCounted.Breaks .countTooLarge ∧ (∀ d, ¬overCounted.Fault (.definition d)) ∧
    ∃ e, overCounted.Uncontained e ∧ overCounted.build 10 = .error (.pattern e) := by
  obtain ⟨-, hbuild, hload⟩ := loading_contained overCountedValue (cDefinitions "^lib/")
    ⟨.absolute, ["d"]⟩ 10
  obtain ⟨-, -, hbreak⟩ := loading_contained overCountedValue
    (cDefinitions "a\x7b4294967295\x7d") ⟨.absolute, ["d"]⟩ 10
  have hloaded : (KnowledgeBase.load (cDefinitions "^lib/") ⟨.absolute, ["d"]⟩ 10).toOption.map
      (fun kb => (kb.byName.map (·.1), (kb.rulesFor ".h").length, kb.exclusionRules.length)) =
      some (["c", "c++"], 2, 1) := by decide +kernel
  have hbroken : (match KnowledgeBase.load (cDefinitions "a\x7b4294967295\x7d")
      ⟨.absolute, ["d"]⟩ 10 with
    | .error (.build (.pattern _)) => true
    | _ => false) = true := by decide +kernel
  refine ⟨⟨cDefinitions_readable _, rfl, fun hmissing => ?_, ?_⟩,
    ⟨cDefinitions_readable _, ?_⟩, overCounted_breaks, overCounted_faultless,
    hbuild _ _ overCounted_breaks overCounted_faultless⟩
  · cases (hload (cDefinitions_readable _)).1.1 hmissing
  · obtain ⟨kb, hkb, hvalues⟩ := Option.map_eq_some_iff.1 hloaded
    simp only [Prod.mk.injEq] at hvalues
    exact ⟨kb, toOption_eq_some.1 hkb, hvalues⟩
  · rcases (hbreak (cDefinitions_readable _)).2 rfl with
      ⟨kb, hkb⟩ | ⟨e, hreported, he⟩ | huncontained | ⟨o, -, ho⟩
    · rw [hkb] at hbroken
      cases hbroken
    · rw [he] at hbroken
      split at hbroken
      · rename_i heq
        cases heq
        cases hreported
      · cases hbroken
    · exact huncontained
    · rw [ho] at hbroken
      cases hbroken

/-- A repetition count that is too large is an error of its own, and no refusal. -/
theorem count_escapes : ¬∀ v bound, (∃ kb, KnowledgeBase.ofValue v bound = .ok kb) ∨
    ∃ d, KnowledgeBase.ofValue v bound = .error (.definition d) := by
  intro h
  have hend : (match KnowledgeBase.ofValue overCountedValue 10 with
    | .error (.pattern .countTooLarge) => true
    | _ => false) = true := by decide +kernel
  rcases h overCountedValue 10 with ⟨kb, hkb⟩ | ⟨d, hd⟩
  · simp [hkb] at hend
  · simp [hd] at hend

end LangId
