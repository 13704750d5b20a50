import LangId.Proofs.Modeline.Starred

/-!
# The colon form of modelines

The pattern for `vim: set ft=name` is told by the words that it passes over. Behind the first colon of a
line it takes the name of the file type where an option begins, since whatever it passes over before
ends with white space, and the equals sign comes behind the name. So where one option alone has this
name, its value is found.

**Results.**
* `passes_colonHead`, `passes_colonLead`: what stands before the value in the pattern.
* `value_of_lead`: behind any such words stands the value of the only option for the file type.
* `search_colon`: this value is found.
-/
namespace LangId.Modeline

open Text Regex

variable {w : List Char} {x : Char}

/-! ## The pattern -/

/-- A name for the file type. -/
def IsTypeName (w : List Char) : Prop := Spells folding "ft".toList w ∨
  Spells folding "filetype".toList w ∨ Spells folding "syntax".toList w

instance (w : List Char) : Decidable (IsTypeName w) := inferInstanceAs (Decidable (_ ∨ _ ∨ _))

/-- What the value of an option for the file type consists of. -/
def isTypeCharacter (x : Char) : Bool := isWord x || x == '+' || x == '-'

/-- The version behind the name of an editor. -/
def IsVersion (w : List Char) : Prop :=
  w = [] ∨ ∃ relation digits, w = relation ++ digits ∧
    (relation = [] ∨ ∃ x ∈ ['<', '=', '>'], relation = [x]) ∧
    digits ≠ [] ∧ ∀ x ∈ digits, isDecimal x = true

/-- The name of an editor, with what stands before and behind it up to the colon. -/
def IsHead (c : Cursor) (w : List Char) : Prop :=
  ∃ lead editor version, w = lead ++ (editor ++ (version ++ [':'])) ∧
    (lead = [] ∧ Anchor.lineStart.holds c = true ∨ ∃ x, lead = [x] ∧ isBlank x = true) ∧
    (Spells folding "vi".toList editor ∨ Spells folding "vim".toList editor ∨
      Spells folding "ex".toList editor) ∧ IsVersion version

/-- The word `set` with blanks behind it. -/
def IsSet (w : List Char) : Prop :=
  ∃ word ending gap, w = word ++ (ending ++ gap) ∧ Spells folding "se".toList word ∧
    ((∃ x, ending = [x] ∧ folding.same 't' x = true) ∨ ending = []) ∧
    gap ≠ [] ∧ ∀ x ∈ gap, isBlank x = true

/-- What is skipped before an option. -/
def IsSkipped (w : List Char) : Prop :=
  ∃ more x, w = more ++ [x] ∧ (∀ y ∈ more, y ≠ ':' ∧ y ≠ '\n') ∧ isBlank x = true

/-- What stands between the colon and the value. -/
def LeadsToValue (w : List Char) : Prop :=
  ∃ gap set skipped name before behind,
    w = gap ++ (set ++ (skipped ++ (name ++ (before ++ '=' :: behind)))) ∧
    (∀ x ∈ gap, isBlank x = true) ∧ (IsSet set ∨ set = []) ∧ (IsSkipped skipped ∨ skipped = []) ∧
    IsTypeName name ∧ (∀ x ∈ before, isBlank x = true) ∧ ∀ x ∈ behind, isBlank x = true

/-- The pattern up to the colon. -/
def colonHead : List Node := [
  .alt (.anchor .lineStart) (.ofCategory .blank),
  .altAll [.text folding "vi", .text folding "vim", .text folding "ex"],
  .optional (.seqAll [
    .optional (.oneOf folding [.char 60, .char 61, .char 62]),
    .some (.ofCategory .digit)]),
  .char folding ':']

/-- The pattern between the colon and the value. -/
def colonLead : List Node := [
  blanks,
  .optional (.seqAll [
    .text folding "se", .optional (.char folding 't'), .some (.ofCategory .blank)]),
  .optional (.seqAll [
    .few (.noneOf folding [.char 58, .char 10]), .ofCategory .blank]),
  .altAll [.text folding "ft", .text folding "filetype", .text folding "syntax"],
  blanks,
  .char folding '=',
  blanks]

theorem colon_eq : colon = .seqAll (colonHead ++ colonLead ++ [.group 1 (.some (.one
    (.ofItems folding false false [.category .word false, .char 43, .char 45])))]) := rfl

theorem contains_digit (x : Char) :
    CharClass.contains { items := [.category .digit false] } x = isDecimal x := by
  simp [CharClass.contains, ClassItem.holds, Category.holds]

theorem contains_relation (x : Char) : CharClass.contains (.ofItems folding false false
    [.char 60, .char 61, .char 62]) x = true ↔ x ∈ ['<', '=', '>'] := by
  rw [contains_ofItems_of_uncased (by decide)]
  simp [ClassItem.holds, ← Char.toNat_inj]

theorem contains_skipped (x : Char) : CharClass.contains (.ofItems folding false true
    [.char 58, .char 10]) x = true ↔ x ≠ ':' ∧ x ≠ '\n' := by
  rw [contains_ofItems_of_uncased (by decide)]
  simp [ClassItem.holds, ← Char.toNat_inj]

theorem contains_type (x : Char) : CharClass.contains (.ofItems folding false false
    [.category .word false, .char 43, .char 45]) x = isTypeCharacter x := by
  rw [contains_ofItems_of_uncased (by decide), Bool.eq_iff_iff]
  simp [ClassItem.holds, Category.holds, isTypeCharacter, ← Char.toNat_inj, or_assoc]

theorem passes_ofBlank : (Node.ofCategory .blank).Passes fun _ w =>
    ∃ x, w = [x] ∧ isBlank x = true :=
  (passes_one _).congr fun _ w => by simp only [contains_blank]

theorem passes_version : (Node.optional (.seqAll [
    .optional (.oneOf folding [.char 60, .char 61, .char 62]),
    .some (.ofCategory .digit)])).Passes fun _ w => IsVersion w := by
  refine (passes_optional (passes_seqAll_cons (passes_optional_one _)
    (passes_seqAll_singleton (passes_run _ 1))) nofun).congr fun _ w => ?_
  simp only [contains_relation, contains_digit, Nat.one_le_iff_ne_zero, ne_eq,
    List.length_eq_zero_iff]
  constructor
  · rintro (⟨relation, digits, rfl, hrelation, hdigits⟩ | rfl)
    · refine .inr ⟨relation, digits, rfl, ?_, hdigits⟩
      exact hrelation.symm.imp_right fun ⟨x, h, hx⟩ => ⟨x, hx, h⟩
    · exact .inl rfl
  · rintro (rfl | ⟨relation, digits, rfl, hrelation, hdigits⟩)
    · exact .inr rfl
    · refine .inl ⟨relation, digits, rfl, ?_, hdigits⟩
      exact hrelation.symm.imp_left fun ⟨x, hx, h⟩ => ⟨x, h, hx⟩

theorem passes_colonHead : (Node.seqAll colonHead).Passes fun c w => IsHead c w := by
  refine (passes_seqAll_cons (passes_alt (passes_anchor _) passes_ofBlank)
    (passes_seqAll_cons (passes_alt (passes_spelling (by decide))
      (passes_alt (passes_spelling (by decide)) (passes_spelling (by decide))))
    (passes_seqAll_cons passes_version
    (passes_seqAll_singleton (passes_uncased (by decide)))))).congr fun c w => ?_
  constructor
  · rintro ⟨lead, _, rfl, hlead, editor, _, rfl, heditor, version, _, rfl, hversion, rfl⟩
    exact ⟨lead, editor, version, rfl, hlead, heditor, hversion⟩
  · rintro ⟨lead, editor, version, rfl, hlead, heditor, hversion⟩
    exact ⟨lead, _, rfl, hlead, editor, _, rfl, heditor, version, _, rfl, hversion, rfl⟩

theorem passes_set : (Node.seqAll [
    .text folding "se", .optional (.char folding 't'), .some (.ofCategory .blank)]).Passes
    fun _ w => IsSet w := by
  refine (passes_seqAll_cons (passes_spelling (by decide)) (passes_seqAll_cons
    (passes_optional_one _) (passes_seqAll_singleton (passes_run _ 1)))).congr fun _ w => ?_
  have hletter (x : Char) := contains_letter (f := folding) (x := 't') (by decide) (by decide)
    (by decide) x
  simp only [hletter, contains_blank, Nat.one_le_iff_ne_zero, ne_eq, List.length_eq_zero_iff]
  constructor
  · rintro ⟨word, _, rfl, hword, ending, gap, rfl, hending, hgap⟩
    exact ⟨word, ending, gap, rfl, hword, hending, hgap⟩
  · rintro ⟨word, ending, gap, rfl, hword, hending, hgap⟩
    exact ⟨word, _, rfl, hword, ending, gap, rfl, hending, hgap⟩

theorem passes_skipped : (Node.seqAll [
    .few (.noneOf folding [.char 58, .char 10]), .ofCategory .blank]).Passes
    fun _ w => IsSkipped w := by
  refine (passes_seqAll_cons (passes_few _) (passes_seqAll_singleton passes_ofBlank)).congr
    fun _ w => ?_
  simp only [contains_skipped]
  constructor
  · rintro ⟨more, _, rfl, hmore, x, rfl, hx⟩
    exact ⟨more, x, rfl, hmore, hx⟩
  · rintro ⟨more, x, rfl, hmore, hx⟩
    exact ⟨more, [x], rfl, hmore, x, rfl, hx⟩

theorem passes_colonLead : (Node.seqAll colonLead).Passes fun _ w => LeadsToValue w := by
  refine (passes_seqAll_cons passes_blanks (passes_seqAll_cons (passes_optional passes_set nofun)
    (passes_seqAll_cons (passes_optional passes_skipped nofun)
    (passes_seqAll_cons (passes_alt (passes_spelling (by decide))
      (passes_alt (passes_spelling (by decide)) (passes_spelling (by decide))))
    (passes_seqAll_cons passes_blanks (passes_seqAll_cons (passes_uncased (by decide))
    (passes_seqAll_singleton passes_blanks))))))).congr fun _ w => ?_
  constructor
  · rintro ⟨gap, _, rfl, hgap, set, _, rfl, hset, skipped, _, rfl, hskipped, name, _, rfl, hname,
      before, _, rfl, hbefore, _, behind, rfl, rfl, hbehind⟩
    exact ⟨gap, set, skipped, name, before, behind, rfl, hgap, hset, hskipped, hname, hbefore,
      hbehind⟩
  · rintro ⟨gap, set, skipped, name, before, behind, rfl, hgap, hset, hskipped, hname, hbefore,
      hbehind⟩
    exact ⟨gap, _, rfl, hgap, set, _, rfl, hset, skipped, _, rfl, hskipped, name, _, rfl, hname,
      before, _, rfl, hbefore, ['='], behind, rfl, rfl, hbehind⟩

/-! ## Options -/

variable {us vs ws : List (List Char)} {lead name value rest before editor : List Char}

/-- The name of an option: what stands before its first equals sign. -/
def optionName (w : List Char) : List Char := w.takeWhile (· != '=')

theorem IsTypeName.plain (h : IsTypeName w) : ∀ y ∈ w, isBlank y = false ∧ y ∉ [':', ';', '='] := by
  rcases h with h | h | h <;> exact h.plain (by decide)

theorem IsTypeName.ne_nil (h : IsTypeName w) : w ≠ [] := by
  rintro rfl
  exact absurd h (by decide)

theorem isBlank_of_isTypeCharacter (h : isTypeCharacter x = true) : isBlank x = false := by
  simp only [isTypeCharacter, Bool.or_eq_true, beq_iff_eq] at h
  rcases h with (h | rfl) | rfl
  · exact isBlank_of_isWord h
  · decide
  · decide

/-- What is passed over before an option ends with white space, if there is anything. -/
theorem blank_of_skipped {gap set skipped : List Char} (hgap : ∀ y ∈ gap, isBlank y = true)
    (hset : IsSet set ∨ set = []) (hskipped : IsSkipped skipped ∨ skipped = []) :
    ∀ y ∈ (gap ++ (set ++ skipped)).getLast?, isBlank y = true := by
  intro y hy
  rcases hskipped with ⟨more, z, rfl, -, hz⟩ | rfl
  · rw [← List.append_assoc, ← List.append_assoc, List.getLast?_concat] at hy
    exact Option.some.inj hy ▸ hz
  rw [List.append_nil] at hy
  rcases hset with ⟨word, ending, blanks, rfl, -, -, hne, hblanks⟩ | rfl
  · rw [← List.append_assoc, ← List.append_assoc, List.getLast?_append_of_ne_nil _ hne] at hy
    exact hblanks y (List.mem_of_getLast? hy)
  · rw [List.append_nil] at hy
    exact hgap y (List.mem_of_getLast? hy)

/-- Behind the sign of an option stands its value, whatever white space may come in front. -/
theorem takeWhile_of_tail {behind more : List Char} (hbehind : ∀ y ∈ behind, isBlank y = true)
    (hvalue : value ≠ [] ∧ ∀ x ∈ value, isTypeCharacter x = true)
    (h : behind ++ (rest ++ [' ']) = value ++ ' ' :: more) :
    rest.takeWhile isTypeCharacter = value := by
  cases behind with
  | nil =>
    have htake := congrArg (List.takeWhile isTypeCharacter) h
    rw [List.nil_append, takeWhile_before (by decide), List.takeWhile_append_of_pos hvalue.2,
      List.takeWhile_cons_of_neg (by decide), List.append_nil] at htake
    exact htake
  | cons y behind =>
    -- a value begins with no blank
    obtain ⟨z, value', rfl⟩ := List.exists_cons_of_ne_nil hvalue.1
    obtain rfl := (List.cons.inj h).1
    have hblank := isBlank_of_isTypeCharacter (hvalue.2 y List.mem_cons_self)
    rw [hbehind y List.mem_cons_self] at hblank
    cases hblank

/-- What leads to a value stands in front of the value of the only option for the file type. -/
theorem value_of_lead (hunbroken : ∀ w ∈ ws, ∀ x ∈ w, isBlank x = false) (hne : ws ≠ [])
    (h : lead ++ rest = ' ' :: joinWith [' '] ws) (hlead : LeadsToValue lead)
    (honly : ∀ w ∈ ws, IsTypeName (optionName w) → w = name ++ '=' :: value) (hname : '=' ∉ name)
    (hvalue : value ≠ [] ∧ ∀ x ∈ value, isTypeCharacter x = true) :
    rest.takeWhile isTypeCharacter = value := by
  obtain ⟨gap, set, skipped, found, before, behind, rfl, hgap, hset, hskipped, hfound, hbefore,
    hbehind⟩ := hlead
  have hplain := hfound.plain
  have hsigns : ∀ y ∈ found, (y != '=') = true := fun y hy =>
    bne_iff_ne.2 fun heq => (hplain y hy).2 (by simp [heq])
  have hnames : ∀ y ∈ name, (y != '=') = true := fun y hy => bne_iff_ne.2 fun heq => hname (heq ▸ hy)
  have hspaced : (gap ++ (set ++ skipped)) ++
      (found ++ (before ++ '=' :: (behind ++ (rest ++ [' '])))) = ' ' :: spaced ws := by
    have hend := congrArg (· ++ [' ']) h
    simpa [← joinWith_concat hne] using hend
  obtain ⟨us, w, vs, rfl, hw⟩ := word_of_cut (p := isBlank)
    (fun u x v hmem hx => by
      rw [hunbroken _ hmem x (by simp)] at hx
      cases hx) hspaced (blank_of_skipped hgap hset hskipped)
    (fun y hy => by
      rw [List.head?_append_of_ne_nil _ hfound.ne_nil] at hy
      exact (hplain y (List.mem_of_head? hy)).1)
    (by simp)
  have hmem : w ∈ us ++ w :: vs := by simp
  rcases sign_behind hw.symm (hunbroken w hmem) (fun y hy => (hplain y hy).1) hbefore (by decide)
    with ⟨q, rfl, htail⟩ | ⟨rfl, -⟩
  · have hoption : optionName (found ++ '=' :: q) = found := by
      rw [optionName, List.takeWhile_append_of_pos hsigns, List.takeWhile_cons_of_neg (by decide),
        List.append_nil]
    obtain ⟨-, -, rfl⟩ := eq_of_runs (p := (· != '=')) (honly _ hmem (hoption.symm ▸ hfound))
      hsigns (by decide) hnames (by decide)
    exact takeWhile_of_tail hbehind hvalue htail
  · have hoption : optionName w = w := List.takeWhile_eq_self_iff.2 hsigns
    have hwhole := honly w hmem (hoption.symm ▸ hfound)
    exact absurd (hsigns '=' (hwhole ▸ by simp)) (by decide)

/-! ## Lines -/

/-- Behind the only colon that has anything behind it stands the rest of the line. -/
theorem eq_of_colon {p q a b : List Char} (ha : ':' ∉ a) (hlast : ∀ p q, b = p ++ ':' :: q → q = [])
    (hq : q ≠ []) (h : p ++ ':' :: q = a ++ ':' :: b) : q = b := by
  rcases List.append_eq_append_iff.1 h with ⟨c, rfl, hc⟩ | ⟨c, rfl, hc⟩
  · cases c with
    | nil => exact (List.cons.inj hc).2
    | cons y c =>
      obtain rfl := (List.cons.inj hc).1
      exact absurd (by simp) ha
  · cases c with
    | nil => exact ((List.cons.inj hc).2).symm
    | cons y c =>
      exact absurd (hlast c q (List.cons.inj hc).2) hq

theorem leadsToValue_cons (hunbroken : ∀ w ∈ us, ∀ x ∈ w, isBlank x = false)
    (hcolon : ∀ w ∈ us, ':' ∉ w) (hname : IsTypeName name) :
    LeadsToValue (' ' :: (spaced us ++ (name ++ ['=']))) := by
  refine ⟨[' '], [], spaced us, name, [], [], rfl, by decide, .inr rfl, ?_, hname, by simp, by simp⟩
  by_cases hnil : us = []
  · exact .inr (hnil ▸ rfl)
  · have hfeed : '\n' ∉ joinWith [' '] us := notMem_joinWith hunbroken (by decide) (by decide)
    refine .inl ⟨joinWith [' '] us, ' ', (joinWith_concat hnil).symm,
      fun y hy => ⟨?_, fun heq => hfeed (heq ▸ hy)⟩, by decide⟩
    rcases mem_joinWith hy with rfl | ⟨w, hw, hmem⟩
    · decide
    · exact fun heq => hcolon w hw (heq ▸ hmem)

/-- What the pattern keeps of a line, by its words. -/
abbrev Finds (line v : List Char) : Prop :=
  Running (Words.followedBy (fun c w => IsHead c w) fun _ w => LeadsToValue w)
    (.ofItems folding false false [.category .word false, .char 43, .char 45]) line v

/-- A match of the colon form keeps a value. -/
theorem finds_of_search {line : List Char} {m : Match} (h : colon.search line = some m) :
    ∃ v, Finds line v ∧ m.group? 1 = some v := by
  rw [colon_eq] at h
  exact running_of_search (passes_seqAll_append passes_colonHead passes_colonLead) h

theorem search_colon_of_finds {line v : List Char} (h : Finds line v)
    (honly : ∀ w, Finds line w → w = v) :
    (colon.search line).bind (·.group? 1) = some v := by
  rw [colon_eq]
  exact search_eq_of_running (passes_seqAll_append passes_colonHead passes_colonLead) h honly

theorem contains_type_eq : CharClass.contains (.ofItems folding false false
    [.category .word false, .char 43, .char 45]) = isTypeCharacter := funext contains_type

/-- The value of an option for the file type is kept. -/
theorem finds_value (hbefore : ∀ x ∈ before.getLast?, isBlank x = true)
    (heditor : editor ∈ ["vi".toList, "vim".toList, "ex".toList])
    (hunbroken : ∀ w ∈ us, ∀ x ∈ w, isBlank x = false) (hus : ∀ w ∈ us, ':' ∉ w)
    (hname : IsTypeName name) (hvalue : value ≠ [] ∧ ∀ x ∈ value, isTypeCharacter x = true) :
    Finds (before ++ (editor ++ ':' :: ' ' :: joinWith [' '] (us ++ (name ++ '=' :: value) :: vs)))
      value := by
  obtain ⟨rest, hrest, hspace⟩ := joinWith_split us (name ++ '=' :: value) vs
  have hlead := leadsToValue_cons hunbroken hus hname
  obtain ⟨more, l, rfl, hl⟩ : ∃ more l, before = more ++ l ∧
      (l = [] ∧ more = [] ∨ ∃ x, l = [x] ∧ isBlank x = true) := by
    rcases List.eq_nil_or_concat before with rfl | ⟨more, x, rfl⟩
    · exact ⟨[], [], rfl, .inl ⟨rfl, rfl⟩⟩
    · exact ⟨more, [x], List.concat_eq_append, .inr ⟨x, rfl, hbefore x (by simp)⟩⟩
  have heditors : Spells folding "vi".toList editor ∨ Spells folding "vim".toList editor ∨
      Spells folding "ex".toList editor := by
    have hall : ∀ e ∈ ["vi".toList, "vim".toList, "ex".toList], Spells folding "vi".toList e ∨
        Spells folding "vim".toList e ∨ Spells folding "ex".toList e := by decide +kernel
    exact hall editor heditor
  refine ⟨more, (l ++ (editor ++ ([] ++ [':']))) ++ (' ' :: (spaced us ++ (name ++ ['=']))),
    value ++ rest, ?_, ⟨_, _, rfl, ⟨l, editor, [], rfl, ?_, heditors, .inl rfl⟩, hlead⟩, ?_,
    hvalue.1⟩
  · rw [hrest]
    simp
  · refine hl.imp_left fun ⟨hl, hmore⟩ => ⟨hl, ?_⟩
    rw [hmore]
    rfl
  · rw [contains_type_eq, List.takeWhile_append_of_pos hvalue.2]
    rcases hspace with rfl | ⟨more', rfl⟩
    · exact List.append_nil value
    · rw [List.takeWhile_cons_of_neg (by decide), List.append_nil]

/-- What is kept stands behind the first colon of the line. -/
theorem lead_of_finds {v : List Char} (hcolon : ':' ∉ before)
    (heditor : editor ∈ ["vi".toList, "vim".toList, "ex".toList])
    (hlast : ∀ p q, joinWith [' '] ws = p ++ ':' :: q → q = [])
    (h : Finds (before ++ (editor ++ ':' :: ' ' :: joinWith [' '] ws)) v) :
    ∃ lead rest, LeadsToValue lead ∧ lead ++ rest = ' ' :: joinWith [' '] ws ∧
      rest.takeWhile isTypeCharacter = v := by
  obtain ⟨more, _, rest, hline, ⟨head, lead, rfl, ⟨l, e, version, rfl, -⟩, hlead⟩, hv, -⟩ := h
  have hhead : ':' ∉ before ++ editor := by
    have hno : ∀ e ∈ ["vi".toList, "vim".toList, "ex".toList], ':' ∉ e := by decide
    simp [hcolon, hno editor heditor]
  refine ⟨lead, rest, hlead, ?_, by rw [← contains_type_eq]; exact hv⟩
  refine eq_of_colon (p := more ++ (l ++ (e ++ version))) hhead (fun p q h => ?_) ?_
    (by simpa using hline)
  · cases p with
    | nil => cases h
    | cons y p => exact hlast p q (List.cons.inj h).2
  · obtain ⟨gap, set, skipped, found, before, behind, rfl, -⟩ := hlead
    simp

/-- **Options.** Behind the first colon of a line, the value of the only option for the file type is
found. -/
theorem search_colon {option : List Char} (hbefore : ∀ x ∈ before.getLast?, isBlank x = true)
    (hcolon : ':' ∉ before) (heditor : editor ∈ ["vi".toList, "vim".toList, "ex".toList])
    (hunbroken : ∀ w ∈ us ++ option :: vs, ∀ x ∈ w, isBlank x = false)
    (hus : ∀ w ∈ us, ':' ∉ w)
    (hlast : ∀ p q, joinWith [' '] (us ++ option :: vs) = p ++ ':' :: q → q = [])
    (hoption : option = name ++ '=' :: value) (hname : IsTypeName name)
    (hvalue : value ≠ [] ∧ ∀ x ∈ value, isTypeCharacter x = true)
    (honly : ∀ w ∈ us ++ vs, ¬IsTypeName (optionName w)) :
    (colon.search (before ++ (editor ++ ':' :: ' ' :: joinWith [' '] (us ++ option :: vs)))).bind
      (·.group? 1) = some value := by
  subst hoption
  have hsign : '=' ∉ name := fun hmem => (hname.plain '=' hmem).2 (by simp)
  have honce : ∀ w ∈ us ++ (name ++ '=' :: value) :: vs, IsTypeName (optionName w) →
      w = name ++ '=' :: value := by
    intro w hw hfound
    rcases List.mem_append.1 hw with hw | hw
    · exact absurd hfound (honly w (List.mem_append_left _ hw))
    · rcases List.mem_cons.1 hw with rfl | hw
      · rfl
      · exact absurd hfound (honly w (List.mem_append_right _ hw))
  refine search_colon_of_finds (finds_value hbefore heditor
    (fun w hw => hunbroken w (List.mem_append_left _ hw)) hus hname hvalue) fun v hv => ?_
  obtain ⟨lead, rest, hlead, hrest, rfl⟩ := lead_of_finds hcolon heditor hlast hv
  exact value_of_lead hunbroken (by simp) hrest hlead honce hsign hvalue

end LangId.Modeline
