import LangId.Proofs.Regex.Joining
import LangId.Proofs.Regex.Passing
import Mathlib.Data.List.Forall2

/-!
# Patterns of single characters

Many patterns are no more than characters one after the other: each part stands for one character of
a class, and leaves nothing behind in the reader (`IsSingle`). Such parts may be put together
(`Singles`), and a text holds a match where its characters are of the classes, one by one.

**Results.**
* `isSingle_plain`: a character that is no sign stands for itself.
* `parse_wrap_singles`: the tree of such a pattern.
* `search_singles`: where a text holds a match.
* `found_iff_of_length_lt`: patterns of different length are found in different texts.
-/
namespace LangId.Regex

open Reader

/-! ## Texts with no backslash left open -/

/-- No backslash at the end of a text waits for a character. -/
def Closed (text : List Char) : Prop := Token.dangling ∉ tokens text

instance (text : List Char) : Decidable (Closed text) :=
  inferInstanceAs (Decidable (Token.dangling ∉ tokens text))

theorem Closed.of_pair {c : Char} {rest : List Char} (h : Closed ('\\' :: c :: rest)) :
    Closed rest := fun hmem => h (List.mem_cons_of_mem _ hmem)

theorem Closed.of_cons {c : Char} {rest : List Char} (h : Closed (c :: rest)) (hc : c ≠ '\\') :
    Closed rest := fun hmem => h (tokens_plain hc rest ▸ List.mem_cons_of_mem _ hmem)

/-- A backslash that is not the end of a text has a character behind it. -/
theorem Closed.head_ne {c : Char} {rest : List Char} (h : Closed (c :: rest))
    (hpair : ∀ d more, c = '\\' → rest = d :: more → False) : c ≠ '\\' := by
  rintro rfl
  cases rest with
  | nil => exact h List.mem_cons_self
  | cons d more => exact hpair d more rfl rfl

theorem tokens_append_of_closed {u : List Char} (h : Closed u) (v : List Char) :
    tokens (u ++ v) = tokens u ++ tokens v := by
  fun_induction tokens u with
  | case1 => rfl
  | case2 c rest ih =>
    simp only [List.cons_append, tokens]
    rw [ih h.of_pair]
  | case3 c rest hpair ih =>
    have hc := h.head_ne hpair
    rw [List.cons_append, tokens_plain hc, ih (h.of_cons hc), if_neg (by simpa using hc),
      List.cons_append]

theorem closed_append {u v : List Char} (hu : Closed u) (hv : Closed v) : Closed (u ++ v) := by
  rw [Closed, tokens_append_of_closed hu, List.mem_append]
  exact not_or.2 ⟨hu, hv⟩

theorem closed_singleton {c : Char} (h : c ≠ '\\') : Closed [c] := by
  rw [Closed, tokens_plain h]
  simp [tokens]

/-! ## Single characters -/

/-- A part that is one character of a class. -/
def Part.ofClass (s : CharClass) : Part := ⟨.one s, 1, 1, .other⟩

/-- Wherever it stands, a text is read as one character of a class. -/
structure IsSingle (flags : Flags) (text : List Char) (s : CharClass) : Prop where
  closed : Closed text
  ne_nil : text ≠ []
  read : ∀ n top found (r : Reader) rest, r.rest = tokens text ++ rest →
    sequence (n + 1) flags top found r =
      sequence n flags top (.ofClass s :: found) { r with rest }

/-- A text is read as characters of some classes, one after the other. -/
inductive Singles (flags : Flags) : List Char → List CharClass → Prop where
  | nil : Singles flags [] []
  | cons {u v : List Char} {s : CharClass} {ss : List CharClass} (first : IsSingle flags u s)
      (rest : Singles flags v ss) : Singles flags (u ++ v) (s :: ss)

variable {flags : Flags} {u v text : List Char} {s : CharClass} {ss ss' : List CharClass}

theorem IsSingle.singles (h : IsSingle flags u s) : Singles flags u [s] := by
  simpa using Singles.cons h .nil

theorem Singles.append (h : Singles flags u ss) (h' : Singles flags v ss') :
    Singles flags (u ++ v) (ss ++ ss') := by
  induction h with
  | nil => exact h'
  | cons first _ ih =>
    rw [List.append_assoc]
    exact .cons first ih

theorem Singles.closed (h : Singles flags u ss) : Closed u := by
  induction h with
  | nil => exact List.not_mem_nil
  | cons first _ ih => exact closed_append first.closed ih

theorem tokens_ne_nil (h : u ≠ []) : tokens u ≠ [] := by
  unfold tokens
  split <;> simp_all

theorem Singles.length_le (h : Singles flags u ss) : ss.length ≤ (tokens u).length := by
  induction h with
  | nil => exact Nat.le_refl 0
  | cons first _ ih =>
    have hpos := List.length_pos_iff.2 (tokens_ne_nil first.ne_nil)
    rw [tokens_append_of_closed first.closed, List.length_append, List.length_cons]
    omega

/-- The parts of such a text, the latest first. -/
theorem Singles.read (h : Singles flags u ss) (n : Nat) (top : Bool) (found : List Part)
    {r : Reader} {rest : List Token} (hr : r.rest = tokens u ++ rest) :
    sequence (n + ss.length) flags top found r =
      sequence n flags top ((ss.map Part.ofClass).reverse ++ found) { r with rest } := by
  induction h generalizing found r with
  | nil =>
    obtain rfl := hr
    rfl
  | cons first _ ih =>
    rw [tokens_append_of_closed first.closed, List.append_assoc] at hr
    rw [List.length_cons, ← Nat.add_assoc, first.read _ _ _ _ _ hr, ih _ rfl, List.map_cons,
      List.reverse_cons, List.append_assoc, List.singleton_append]

/-- The characters that do not stand for themselves. -/
def signs : List Char :=
  ['\\', '|', '(', ')', '[', '.', '^', '$', '?', '*', '+', '\x7b']

theorem sequence_plain {n : Nat} {top : Bool} {found : List Part} {r : Reader} {rest : List Token}
    {c : Char} (hr : r.rest = .plain c :: rest) (hc : c ∉ signs) (hflags : flags.verbose = false) :
    sequence (n + 1) flags top found r =
      sequence n flags top (single flags c.toNat :: found) { r with rest } := by
  simp only [signs, List.mem_cons, List.not_mem_nil, or_false, not_or] at hc
  conv => lhs; unfold Reader.sequence
  rw [bind_of_ok (peek_apply r), hr, List.head?_cons]
  simp only [hc, Token.plain.injEq, imp_self, hflags, Bool.false_and, Bool.false_eq_true, if_false,
    beq_iff_eq, Bool.or_eq_true, or_self]
  exact bind_of_ok (take_cons hr)

/-- A character that is no sign stands for itself. -/
theorem isSingle_plain {c : Char} (hc : c ∉ signs) (hflags : flags.verbose = false) :
    IsSingle flags [c] (.ofItems flags.folding flags.ascii false [.char c.toNat]) := by
  have hslash : c ≠ '\\' := fun h => hc (h ▸ by decide)
  refine ⟨closed_singleton hslash, List.cons_ne_nil _ _, fun n top found r rest hr => ?_⟩
  rw [tokens_plain hslash] at hr
  exact sequence_plain hr hc hflags

/-! ## The tree of a pattern -/

/-- Such a text in a group, up to its end. -/
theorem enclosed_singles (h : Singles flags u ss) (n : Nat) {r : Reader} {rest : List Token}
    (hr : r.rest = tokens u ++ .plain ')' :: rest) : enclosed (n + 1 + ss.length + 2) flags r =
      .ok (Part.seqAll (ss.map .ofClass), { r with rest }) := by
  have hsequence : sequence (n + 1 + ss.length) flags false [] r =
      .ok ((Part.seqAll (ss.map .ofClass), flags), { r with rest := .plain ')' :: rest }) := by
    rw [h.read _ _ _ hr, List.append_nil]
    exact (sequence_of_atEnd (.inr (.inr rfl))).2
      ⟨Nat.succ_pos n, by rw [List.reverse_reverse], rfl⟩
  have hmore : moreAlternatives (n + 1 + ss.length) flags { r with rest := .plain ')' :: rest } =
      .ok ([], { r with rest := .plain ')' :: rest }) :=
    (moreAlternatives_of_noBar (by simp)).2 ⟨by omega, rfl, rfl⟩
  exact enclosed_of_alternatives (alternatives_eq_ok.2 ⟨_, _, _, hsequence, hmore, rfl⟩) rfl

/-- **The tree** of a pattern of single characters, which has been put into a group. -/
theorem parse_wrap_singles (h : Singles flags u ss)
    (hflags : (flags.ascii && flags.unicode) = false) :
    parse flags (wrap u) = .ok (.seqAll (ss.map .one)) := by
  have htokens : tokens (wrap u) = .plain '(' :: .plain '?' :: .plain ':' ::
      (tokens u ++ [.plain ')']) := by
    have hinner : tokens (u ++ [')']) = tokens u ++ [.plain ')'] :=
      tokens_append_of_closed h.closed [')']
    rw [← hinner]
    rfl
  have hbegins : BeginsGroup (tokens (wrap u)) := ⟨_, htokens⟩
  obtain ⟨n, hn⟩ : ∃ n, 4 * (tokens (wrap u)).length + 7 = n + 1 + ss.length + 2 + 2 := by
    have hlength := h.length_le
    have hwrap : (tokens (wrap u)).length = (tokens u).length + 4 := by
      rw [htokens]
      simp
    exact ⟨4 * (tokens (wrap u)).length + 7 - ss.length - 5, by omega⟩
  have hsequence : sequence (n + 1 + ss.length + 2 + 2) flags true [] { rest := tokens (wrap u) } =
      .ok ((Part.seqAll [Part.seqAll (ss.map .ofClass)], flags), { rest := [] }) := by
    rw [sequence_of_beginsGroup htokens, bind_of_ok (enclosed_singles h n rfl)]
    exact (sequence_of_atEnd (.inl rfl)).2 ⟨Nat.succ_pos _, rfl, rfl⟩
  have hchoices : choices (n + 1 + ss.length + 2 + 2) flags true { rest := tokens (wrap u) } =
      .ok ([Part.seqAll [Part.seqAll (ss.map .ofClass)]], { rest := [] }) := by
    rw [choices_of_sequence hsequence, moreAlternatives_of_ne (by simp)]
    rfl
  have hnode : Node.altAll ([Part.seqAll [Part.seqAll (ss.map .ofClass)]].map (·.node)) =
      .seqAll (ss.map .one) := by
    have hparts : (ss.map Part.ofClass).map (·.node) = ss.map .one := by
      rw [List.map_map]
      rfl
    rw [← hparts]
    rfl
  refine parse_eq_ok.2 ⟨{ rest := [] }, ?_⟩
  rw [whole_of_beginsGroup hbegins, hn, hchoices]
  exact finish_eq_ok.2 ⟨hflags, rfl, nofun, rfl, hnode.symm, rfl⟩

/-! ## Where such a pattern matches -/

/-- Somewhere in a text there stand characters of the classes, one after the other. -/
def Found (ss : List CharClass) (text : List Char) : Prop :=
  ∃ before word after, before ++ (word ++ after) = text ∧
    List.Forall₂ (fun s c => s.contains c = true) ss word

/-- **Where a text holds a match** of such a pattern. -/
theorem search_singles (ss : List CharClass) {text : List Char} :
    ((Node.seqAll (ss.map .one)).search text).isSome = true ↔ Found ss text :=
  isSome_search_of_passes (passes_singles ss)

theorem Found.length_le (h : Found ss text) : ss.length ≤ text.length := by
  obtain ⟨before, word, after, rfl, hword⟩ := h
  rw [hword.length_eq, List.length_append, List.length_append]
  omega

/-- What is found anywhere is found in a text that holds nothing else. -/
theorem Found.exists_length_eq (h : Found ss text) :
    ∃ word, Found ss word ∧ word.length = ss.length := by
  obtain ⟨before, word, after, -, hword⟩ := h
  exact ⟨word, ⟨[], word, [], by simp, hword⟩, hword.length_eq.symm⟩

/-- Patterns of single characters that differ in length are found in the same texts only if they are
found in none. -/
theorem found_iff_of_length_lt (h : ss.length < ss'.length) :
    (∀ text, Found ss' text ↔ Found ss text) ↔ ∀ text, ¬Found ss' text ∧ ¬Found ss text := by
  refine ⟨fun hsame text => ?_, fun hnone text => iff_of_false (hnone text).1 (hnone text).2⟩
  have hshort : ¬Found ss text := fun hfound => by
    obtain ⟨word, hword, hlength⟩ := hfound.exists_length_eq
    have hlong := ((hsame word).2 hword).length_le
    omega
  exact ⟨mt (hsame text).1 hshort, hshort⟩

end LangId.Regex
