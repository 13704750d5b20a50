import LangId.Gitignore.Pattern
import LangId.Proofs.Regex.Passing
import LangId.Proofs.Text.Pieces

/-!
# Patterns for the ends of names

A line of a `.gitignore` file that is a `*` and a plain text stands for names that end in the text. It
has no slash, so it matches at any depth, and what is below a directory with such a name as well.

**Results.**
* `ofLine_star`: the pattern of such a line.
* `accepts_endsIn`: the texts that it matches.
* `nameEnds_iff`: for a path without line feeds, these are the paths with such a name on the way.
-/
namespace LangId.Gitignore

open Regex Text

/-- What the pattern for names that end in a text consists of. -/
def endsInNodes (text : List Char) : List Node :=
  .anchor .textStart
    :: Node.optional (.seq (Node.some (.one .anyInLine)) (Node.char .none '/'))
    :: Node.many notSlash
    :: (text.map (Node.char .none) ++ [.alt (Node.char .none '/') (.anchor .finalLineEnd)])

/-- The pattern for names that end in a text. -/
def endsIn (text : List Char) : Node := .seqAll (endsInNodes text)

/-- The characters that stand for something else in a line. -/
def signs : List Char := ['/', '\\', '*', '?', '[']

/-- A text that patterns read as it is. -/
structure Literal (text : List Char) : Prop where
  plain : ∀ c ∈ text, c ∉ signs
  last : text.getLast?.map isBlank = some false

instance (text : List Char) : Decidable (Literal text) :=
  -- the characters of the text are gone through, and not all that there are
  have : Decidable (∀ c ∈ text, c ∉ signs) := List.decidableBAll (· ∉ signs) text
  decidable_of_iff (_ ∧ _) ⟨fun h => ⟨h.1, h.2⟩, fun h => ⟨h.plain, h.last⟩⟩

/-- What stands in front of a name: nothing, or directories whose names have no line feed. -/
def IsWay (way : List Char) : Prop := way = [] ∨ ∃ dirs, dirs ≠ [] ∧ '\n' ∉ dirs ∧ way = dirs ++ ['/']

/-- What stands behind a name: nothing, or a line feed that ends the text, or what is below. -/
def IsBelow (rest : List Char) : Prop := rest = [] ∨ rest = ['\n'] ∨ ['/'] <+: rest

/-- A name in a text ends in another text. -/
def NameEnds (text s : List Char) : Prop :=
  ∃ way name rest, way ++ (name ++ (text ++ rest)) = s ∧ IsWay way ∧ '/' ∉ name ∧ IsBelow rest

variable {text s : List Char}

/-! ## Reading the line -/

/-- A character that stands for itself is a unit of its own. -/
theorem globs_plain {c : Char} (hc : c ∉ signs) (bound : Nat) (rest : List Char) :
    globs (bound + 1) (c :: rest) = (globs bound rest).map (.char c :: ·) := by
  simp only [signs, List.mem_cons, List.not_mem_nil, or_false, not_or] at hc
  cases rest <;> simp [globs, hc]

theorem globs_of_plain (h : ∀ c ∈ text, c ∉ signs) (bound : Nat)
    (hbound : text.length ≤ bound) : globs bound text = some (text.map .char) := by
  induction text generalizing bound with
  | nil => cases bound <;> rfl
  | cons c rest ih =>
    obtain ⟨bound, rfl⟩ := Nat.exists_eq_add_of_le' (Nat.le_trans (Nat.le_add_left 1 _) hbound)
    obtain ⟨hc, hrest⟩ := List.forall_mem_cons.1 h
    rw [globs_plain hc, ih hrest bound (Nat.le_of_succ_le_succ hbound)]
    rfl

theorem globs_star (bound : Nat) (rest : List Char) :
    globs (bound + 1) ('*' :: rest) = (globs bound rest).map (.anyRun :: ·) := by
  cases rest <;> rfl

theorem withoutTrailingBlanks_of_last {c : Char} (hlast : s.getLast? = some c)
    (hc : isBlank c = false) : withoutTrailingBlanks s = s := by
  obtain ⟨front, rfl⟩ := List.getLast?_eq_some_iff.1 hlast
  have htrim : trimRight (front ++ [c]) = front ++ [c] := by
    simp [trimRight, hc]
  unfold withoutTrailingBlanks
  split
  · rfl
  · exact htrim

theorem mapM_node_char (text : List Char) :
    (text.map Glob.char).mapM Glob.node = .ok (text.map (Node.char .none)) := by
  induction text with
  | nil => rfl
  | cons c text ih =>
    rw [List.map_cons, List.mapM_cons, ih]
    rfl

theorem Literal.ne_nil (h : Literal text) : text ≠ [] := by
  rintro rfl
  cases h.last

theorem Literal.notMem (h : Literal text) {c : Char} (hc : c ∈ signs) : c ∉ text :=
  fun hmem => h.plain c hmem hc

theorem normalize_star (h : Literal text) :
    normalize (splitOn '/' ('*' :: text)) = [['*', '*'], '*' :: text] := by
  have hslash : '/' ∉ '*' :: text :=
    List.not_mem_cons_of_ne_of_not_mem (by decide) (h.notMem (by decide))
  have hstar : text ≠ ['*'] := by
    rintro rfl
    exact h.notMem (by decide) List.mem_cons_self
  rw [splitOn_of_notMem hslash]
  simp [normalize, collapse, hstar]

theorem read?_star (h : Literal text) :
    Segment.read? ('*' :: text) = some (.glob (.anyRun :: text.map .char)) := by
  have hstar : text ≠ ['*'] := by
    rintro rfl
    exact h.notMem (by decide) List.mem_cons_self
  rw [Segment.read?, if_neg (by simpa using hstar), if_neg (by simpa using h.ne_nil),
    List.length_cons, globs_star, globs_of_plain h.plain _ (Nat.le_refl _)]
  rfl

theorem segmentNodes_star (text : List Char) :
    segmentNodes true false [.anyDepth, .glob (.anyRun :: text.map .char)] =
      .ok (endsInNodes text) := by
  have hunits : (Glob.anyRun :: text.map .char).mapM Glob.node =
      .ok (Node.many notSlash :: text.map (Node.char .none)) := by
    rw [List.mapM_cons, mapM_node_char]
    rfl
  simp [segmentNodes, hunits, segmentNodes.lead, endsInNodes, bind, Except.bind, pure, Except.pure]

theorem nodeOf_star (h : Literal text) (line : String) (directory : Bool) :
    nodeOf line directory [['*', '*'], '*' :: text] = .ok (endsIn text) := by
  have hread : [['*', '*'], '*' :: text].mapM Segment.read? =
      some [.anyDepth, .glob (.anyRun :: text.map .char)] := by
    rw [List.mapM_cons, List.mapM_cons, read?_star h]
    rfl
  obtain ⟨c, rest, rfl⟩ := List.exists_cons_of_ne_nil h.ne_nil
  simp only [nodeOf, hread, segmentNodes_star]
  rfl

/-- **The line** is read to the pattern. -/
theorem ofLine_star (h : Literal text) :
    Pattern.ofLine (String.ofList ('*' :: text)) = .ok (some ⟨true, endsIn text⟩) := by
  obtain ⟨last, hlast, hblank⟩ := Option.map_eq_some_iff.1 h.last
  have hline : withoutTrailingBlanks ('*' :: text) = '*' :: text :=
    withoutTrailingBlanks_of_last (by rw [List.getLast?_cons_of_ne_nil h.ne_nil, hlast]) hblank
  have hbody (line : String) (directory : Bool) :
      nodeOf line directory (normalize (splitOn '/' ('*' :: text))) = .ok (endsIn text) := by
    rw [normalize_star h, nodeOf_star h]
  rw [Pattern.ofLine, String.toList_ofList, hline]
  exact congrArg (Except.map _) (hbody _ _)

/-! ## What the pattern matches -/

theorem contains_anyInLine (c : Char) : CharClass.anyInLine.contains c = true ↔ c ≠ '\n' :=
  contains_other '\n' c

theorem passes_notSlash : (Node.many notSlash).Passes fun _ name => '/' ∉ name := by
  refine (passes_run _ 0).congr fun c name => ?_
  have hclass (x : Char) :
      CharClass.contains (.ofItems .none false true [.char 47]) x = true ↔ x ≠ '/' :=
    contains_other '/' x
  simp only [hclass, Nat.zero_le, true_and]
  exact ⟨fun h hmem => h _ hmem rfl, fun h x hx hslash => h (hslash ▸ hx)⟩

theorem passes_way :
    (Node.optional (.seq (Node.some (.one .anyInLine)) (Node.char .none '/'))).Passes
      fun _ way => IsWay way := by
  refine (passes_optional (passes_seq (passes_run _ 1) (passes_char '/')) nofun).congr
    fun c way => ?_
  simp only [contains_anyInLine]
  constructor
  · rintro (⟨dirs, _, rfl, ⟨hlength, hline⟩, rfl⟩ | rfl)
    · exact .inr ⟨dirs, List.ne_nil_of_length_pos hlength, fun hmem => hline _ hmem rfl, rfl⟩
    · exact .inl rfl
  · rintro (rfl | ⟨dirs, hne, hline, rfl⟩)
    · exact .inr rfl
    · exact .inl ⟨dirs, ['/'], rfl, ⟨List.length_pos_of_ne_nil hne, fun x hx heq => hline (heq ▸ hx)⟩,
        rfl⟩

theorem passes_below : (Node.seqAll [.alt (Node.char .none '/') (.anchor .finalLineEnd)]).Passes
    fun c word => word = ['/'] ∨ word = [] ∧ Anchor.holds c .finalLineEnd = true :=
  passes_alt (passes_char '/') (passes_anchor .finalLineEnd)

/-- What is left behind a way, a name, and its end. -/
theorem after_past (before : List Char) (position : Nat) (way name rest : List Char) :
    (((Cursor.past ⟨before, way ++ (name ++ (text ++ rest)), position⟩ way).past name).past
      text).after = rest := by
  simp [Cursor.past]

theorem holds_finalLineEnd {c : Cursor} :
    Anchor.holds c .finalLineEnd = true ↔ c.after = [] ∨ c.after = ['\n'] := by
  simp [Anchor.holds]

/-- **Search.** The texts in which the pattern is found. -/
theorem isSome_search_endsIn : ((endsIn text).search s).isSome = true ↔ NameEnds text s := by
  have hpasses := passes_seqAll_cons (passes_anchor .textStart) (passes_seqAll_cons passes_way
    (passes_seqAll_cons passes_notSlash (passes_text text passes_below)))
  rw [endsIn, endsInNodes, isSome_search_of_passes hpasses]
  constructor
  · rintro ⟨more, _, rest, rfl, _, _, rfl, ⟨rfl, hstart⟩, way, _, rfl, hway, name, _, rfl, hname,
      stop, rfl, hstop⟩
    obtain rfl : more = [] := by simpa [Anchor.holds] using hstart
    refine ⟨way, name, stop ++ rest, by simp, hway, hname, ?_⟩
    rcases hstop with rfl | ⟨rfl, hend⟩
    · exact .inr (.inr (List.prefix_append ['/'] rest))
    · simp only [List.nil_append, List.append_nil, List.append_assoc, Cursor.past_nil,
        holds_finalLineEnd, after_past] at hend
      exact hend.elim .inl fun hline => .inr (.inl hline)
  · rintro ⟨way, name, rest, rfl, hway, hname, hrest⟩
    by_cases hslash : ['/'] <+: rest
    · obtain ⟨rest, rfl⟩ := hslash
      exact ⟨[], way ++ (name ++ (text ++ ['/'])), rest, by simp, [], _, rfl, ⟨rfl, rfl⟩, way, _, rfl,
        hway, name, _, rfl, hname, ['/'], rfl, .inl rfl⟩
    · refine ⟨[], way ++ (name ++ (text ++ [])), rest, by simp, [], _, rfl, ⟨rfl, rfl⟩, way, _, rfl,
        hway, name, _, rfl, hname, [], rfl, .inr ⟨rfl, ?_⟩⟩
      simp only [List.append_nil, List.append_assoc, Cursor.past_nil, holds_finalLineEnd, after_past]
      exact hrest.imp_right fun h => h.resolve_right hslash

theorem accepts_endsIn {path : List Char} :
    Pattern.accepts ⟨true, endsIn text⟩ path = true ↔ NameEnds text (seenPath path) :=
  isSome_search_endsIn

/-! ## Names on the way -/

/-- **Names.** In a text without line feeds and without a slash in front, the ends of names are the
ends of its pieces. -/
theorem nameEnds_iff (hline : '\n' ∉ s) (hslash : ¬['/'] <+: s) (htext : '/' ∉ text) :
    NameEnds text s ↔ ∃ piece ∈ splitOn '/' s, text <:+ piece := by
  constructor
  · rintro ⟨way, name, rest, rfl, hway, hname, hrest⟩
    refine ⟨name ++ text, mem_splitOn_iff.2 ⟨by simp [hname, htext], way, rest, by simp, ?_, ?_⟩,
      List.suffix_append name text⟩
    · exact hway.imp_right fun ⟨dirs, _, _, hdirs⟩ => ⟨dirs, hdirs.symm⟩
    · refine hrest.imp_right fun h => h.resolve_left ?_
      rintro rfl
      exact hline (by simp)
  · rintro ⟨_, hpiece, name, rfl⟩
    obtain ⟨hno, front, back, rfl, hfront, hback⟩ := mem_splitOn_iff.1 hpiece
    refine ⟨front, name, back, by simp, ?_, fun h => hno (List.mem_append_left _ h),
      hback.imp_right .inr⟩
    rcases hfront with rfl | ⟨dirs, rfl⟩
    · exact .inl rfl
    · refine .inr ⟨dirs, ?_, fun h => hline (by simp [h]), rfl⟩
      rintro rfl
      exact hslash (List.prefix_append ['/'] _)

end LangId.Gitignore
