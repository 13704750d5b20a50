import LangId.Proofs.Regex.Choices

/-!
# Joined patterns

A pattern in a group, with bars between it and others, is read as it is on its own, as long as the
conditions hold under which readings are followed in a frame. The frame of each part is what the
parts before it have left (`frameAt`).

**Results.**
* `joins_cons`: one more part before joined parts.
* `joins_whole`: joined parts are read as a choice between them, or fail for a name that two groups
  have.
* `parse_joined`: the same for the texts of patterns, and where they occur.
-/
namespace LangId.Regex

/-! ## Tokens of joined texts -/

theorem tokens_plain {c : Char} (h : c ≠ '\\') (rest : List Char) :
    tokens (c :: rest) = .plain c :: tokens rest := by
  rw [tokens]
  · rw [if_neg (by simpa using h)]
  · rintro d more rfl
    exact absurd rfl h

/-- A parenthesis at the end of a text leaves no backslash open. -/
theorem tokens_append (s t : List Char) :
    tokens (s ++ ')' :: t) = tokens (s ++ [')']) ++ tokens t := by
  fun_induction tokens s with
  | case1 => rfl
  | case2 c rest ih => simp only [List.cons_append, tokens, ih]
  | case3 c rest hno ih =>
    by_cases hc : c = '\\'
    · cases rest with
      | nil =>
        subst hc
        rfl
      | cons d more => exact absurd rfl (hno d more hc)
    · rw [List.cons_append, List.cons_append, tokens_plain hc, tokens_plain hc, ih, List.cons_append]

/-- A pattern as it is joined with others. -/
def wrap (text : List Char) : List Char := '(' :: '?' :: ':' :: text ++ [')']

theorem tokens_wrap_append (text rest : List Char) :
    tokens (wrap text ++ rest) = tokens (wrap text) ++ tokens rest := by
  have h := tokens_append ('(' :: '?' :: ':' :: text) rest
  simpa only [wrap, List.cons_append, List.append_assoc, List.nil_append] using h

/-- The text of joined patterns. -/
def joined (texts : List (List Char)) : List Char := ['|'].intercalate (texts.map wrap)

theorem tokens_joined (text : List Char) (texts : List (List Char)) :
    tokens (joined (text :: texts)) =
      tokens (wrap text) ++ texts.flatMap fun t => .plain '|' :: tokens (wrap t) := by
  induction texts generalizing text with
  | nil => simp [joined]
  | cons t texts ih =>
    have hjoin : joined (text :: t :: texts) = wrap text ++ '|' :: joined (t :: texts) := by
      simp [joined]
    rw [hjoin, tokens_wrap_append, tokens_plain (by decide), ih]
    rfl

namespace Reader

open Follows

variable {e : Frame} {r s : Reader} {n m : Nat} {flags : Flags}

/-! ## Joining -/

/-- What the reader remembers between two parts. -/
structure Between (r : Reader) : Prop where
  sound : r.Sound
  behind : r.behindGroups = none
  expected : ∀ i ∈ r.expected, i < r.groups
  deferred : r.deferred = none

theorem Between.ofRest (h : Between r) (rest : List Token) : Between { r with rest } :=
  ⟨⟨h.sound.groups, h.sound.names, h.sound.widths⟩, h.behind, h.expected, h.deferred⟩

/-- A part with how it is read on its own. -/
structure Piece (flags : Flags) where
  text : List Char
  found : List Part
  last : Reader
  read : choices (4 * (tokens (wrap text)).length + 7) flags true { rest := tokens (wrap text) } =
    .ok (found, last)
  rest : last.rest = []
  expected : ∀ i ∈ last.expected, i < last.groups
  deferred : last.deferred = none

theorem sound_start (ts : List Token) : Reader.Sound { rest := ts } := ⟨Nat.le_refl 1, nofun, nofun⟩

theorem later_choices {top : Bool} {found : List Part} (hr : r.Sound)
    (h : choices n flags top r = .ok (found, s)) : Later r s := by
  obtain ⟨p, more, rest, u, rfl, hp, hrest⟩ := choices_eq_ok.1 h
  have hlater := later_sequence hr hp
  exact hlater.trans (later_moreAlternatives (hlater.sound hr) hrest)

namespace Piece

/-- The tokens of the part. -/
def tokens (p : Piece flags) : List Token := Regex.tokens (wrap p.text)

theorem beginsGroup (p : Piece flags) : BeginsGroup p.tokens :=
  ⟨Regex.tokens (p.text ++ [')']), rfl⟩

theorem choices_tokens (p : Piece flags) :
    choices (4 * p.tokens.length + 7) flags true { rest := p.tokens } = .ok (p.found, p.last) :=
  p.read

theorem between (p : Piece flags) : Between p.last := by
  have hlater := later_choices (sound_start p.tokens) p.choices_tokens
  exact ⟨hlater.sound (sound_start _), hlater.behind, p.expected, p.deferred⟩

end Piece

/-- The frame of a part that is read from the state `r` on, with what follows it. -/
def frameAt (r : Reader) (h : r.Sound) (tail : List Token)
    (htail : ∀ t ∈ tail.head?, t = .plain '|') : Frame where
  shift := r.groups - 1
  widths := r.widths
  names := r.names
  expected := r.expected
  tail := tail
  widths_le := fun w hw => Nat.le_sub_one_of_lt (h.widths w hw)
  tail_ends := fun t ht => .inl (htail t ht)

theorem embed_frameAt (hr : Between r) {ts tail : List Token} (hrest : r.rest = ts ++ tail)
    (htail : ∀ t ∈ tail.head?, t = .plain '|') :
    (frameAt r hr.sound tail htail).embed { rest := ts } = r := by
  have hgroups : 1 + (r.groups - 1) = r.groups := Nat.add_sub_cancel' hr.sound.groups
  have hbehind := hr.behind
  have hdeferred := hr.deferred
  cases r
  simp_all [frameAt, Frame.embed]

/-- Behind a part the next one can be read. -/
theorem between_embed (hr : Between r) (hs : Between s) {tail : List Token}
    (htail : ∀ t ∈ tail.head?, t = .plain '|') :
    Between ((frameAt r hr.sound tail htail).embed s) := by
  have hgroups : 1 + (r.groups - 1) = r.groups := Nat.add_sub_cancel' hr.sound.groups
  have hpos := hs.sound.groups
  have hbehind : s.behindGroups = none := hs.behind
  refine ⟨⟨?_, ?_, ?_⟩, ?_, ?_, hs.deferred⟩
  · simp only [Frame.embed, frameAt]
    omega
  · simp only [Frame.embed, frameAt, List.forall_mem_append, List.forall_mem_map]
    exact ⟨fun n hn => Nat.le_add_right_of_le (hs.sound.names n hn), hr.sound.names⟩
  · simp only [Frame.embed, frameAt, List.forall_mem_append, List.forall_mem_map]
    refine ⟨fun w hw => Nat.add_lt_add_right (hs.sound.widths w hw) _, fun w hw => ?_⟩
    have hlt := hr.sound.widths w hw
    omega
  · simp only [Frame.embed, hbehind, Option.map_none]
  · simp only [Frame.embed, frameAt, List.forall_mem_append, List.forall_mem_map]
    refine ⟨fun i hi => Nat.add_lt_add_right (hs.expected i hi) _, fun i hi => ?_⟩
    have hlt := hr.expected i hi
    omega

/-- Parts with a bar before each. -/
def barred (ps : List (Piece flags)) : List Token := ps.flatMap (.plain '|' :: ·.tokens)

theorem head?_barred (ps : List (Piece flags)) : ∀ t ∈ (barred ps).head?, t = .plain '|' := by
  cases ps with
  | nil => nofun
  | cons p ps =>
    intro t ht
    exact (Option.some.inj ht).symm

/-- No group of the second reading has the name of a group of the first. -/
def NamesApart (a b : Reader) : Prop := ∀ n ∈ b.names, n.1 ∉ a.names.map (·.1)

namespace Piece

variable (p : Piece flags)

/-- The part matches from a place on. -/
def Matches (c : Cursor) : Prop := ∃ x ∈ p.found, x.node.Matches c

theorem length_found : p.found.length ≤ p.tokens.length + 1 := by
  obtain ⟨x, more, rest, u, hfound, hx, hrest⟩ := choices_eq_ok.1 p.choices_tokens
  have hlater := (follows_beginsGroup true (Nat.le_refl _) p.beginsGroup
    (e := emptyFrame) (sound_start p.tokens) _ _ hx).1
  have hlength := length_moreAlternatives (hlater.sound (sound_start _)) hrest
  have hle : u.rest.length ≤ p.tokens.length := hlater.rest.length_le
  rw [hfound, List.length_cons]
  omega

theorem continued (hverbose : flags.verbose = false) {top : Bool} {tail : List Token}
    (htail : ∀ t ∈ tail.head?, t = .plain '|') (hr : Between r)
    (hrest : r.rest = p.tokens ++ tail) (hn : 4 * p.tokens.length + 7 ≤ n)
    (hfree : r.groups = 1 ∨ p.last.expected = []) :
    Continued (frameAt r hr.sound tail htail) flags (n + 1) p.found p.last
      (choices n flags top r) := by
  obtain ⟨m, rfl⟩ : ∃ m, n = m + 2 := ⟨n - 2, by omega⟩
  have hembed := embed_frameAt hr hrest htail
  have hallows : (frameAt r hr.sound tail htail).Allows p.last :=
    hfree.imp_left fun h => Nat.sub_eq_zero_of_le (Nat.le_of_eq h)
  have happly := continued_choices top (r := { rest := p.tokens })
    ((follows_beginsGroup (m := m) top (by omega) p.beginsGroup).weaken fun _ => hverbose)
    (fun u rest hu hapart h =>
      continued_moreAlternatives hverbose (m := m + 2) (by omega) hu hapart hallows h)
    (sound_start _) nofun hallows p.choices_tokens
  rwa [hembed] at happly

end Piece

/-- What comes of reading joined parts: a choice between them, unless two groups have one name. -/
structure Joins (r : Reader) (ps : List (Piece flags)) (y : Except Error (List Part × Reader)) :
    Prop where
  ok : (∀ q ∈ ps, NamesApart r q.last) → ps.Pairwise (fun a b => NamesApart a.last b.last) →
    ∃ found s, y = .ok (found, s) ∧ Between s ∧ s.rest = [] ∧
      ∀ c, (∃ x ∈ found, x.node.Matches c) ↔ ∃ q ∈ ps, q.Matches c
  error : ¬((∀ q ∈ ps, NamesApart r q.last) ∧ ps.Pairwise fun a b => NamesApart a.last b.last) →
    y = .error (.malformed .duplicateName)

theorem namesApart_embed {e : Frame} {a : Reader} (h : e.names = r.names) :
    NamesApart (e.embed s) a ↔ NamesApart s a ∧ NamesApart r a := by
  simp only [NamesApart, Frame.embed, h, List.map_append, List.map_map, List.mem_append, not_or]
  exact ⟨fun ha => ⟨fun n hn => (ha n hn).1, fun n hn => (ha n hn).2⟩,
    fun ha n hn => ⟨ha.1 n hn, ha.2 n hn⟩⟩

theorem joins_cons {e : Frame} {p : Piece flags} {ps : List (Piece flags)} {m : Nat}
    {y : Except Error (List Part × Reader)} (hnames : e.names = r.names)
    (hcontinued : Continued e flags m p.found p.last y)
    (hmore : Joins (e.embed p.last) ps
      (moreAlternatives (m - p.found.length) flags (e.embed p.last))) :
    Joins r (p :: ps) y := by
  have hiff : e.Apart p.last ↔ NamesApart r p.last := by
    rw [NamesApart, ← hnames]
    rfl
  have hrest : ((∀ q ∈ ps, NamesApart (e.embed p.last) q.last)) ↔
      (∀ q ∈ ps, NamesApart p.last q.last) ∧ ∀ q ∈ ps, NamesApart r q.last := by
    simp only [namesApart_embed hnames]
    exact ⟨fun h => ⟨fun q hq => (h q hq).1, fun q hq => (h q hq).2⟩,
      fun h q hq => ⟨h.1 q hq, h.2 q hq⟩⟩
  constructor
  · -- what was named before a part behind this one was named before this one or by it
    intro hbefore hpairs
    obtain ⟨hp, hps⟩ := List.forall_mem_cons.1 hbefore
    obtain ⟨hbehind, hpairs⟩ := List.pairwise_cons.1 hpairs
    obtain ⟨found, s, hy, hs, hend, hmatches⟩ := hmore.ok (hrest.2 ⟨hbehind, hps⟩) hpairs
    refine ⟨p.found.map (Part.renumber e.shift) ++ found, s, ?_, hs, hend, fun c => ?_⟩
    · rw [hcontinued.ok (hiff.2 hp), hy]
      rfl
    · have hown : (∃ x ∈ p.found.map (Part.renumber e.shift), x.node.Matches c) ↔ p.Matches c := by
        simp only [Piece.Matches, List.mem_map]
        constructor
        · rintro ⟨_, ⟨x, hx, rfl⟩, hc⟩
          exact ⟨x, hx, matches_renumber.1 hc⟩
        · rintro ⟨x, hx, hc⟩
          exact ⟨_, ⟨x, hx, rfl⟩, matches_renumber.2 hc⟩
      simp only [List.mem_append, or_and_right, exists_or, hown, hmatches c, List.mem_cons,
        exists_eq_left]
  · intro hnot
    by_cases hp : e.Apart p.last
    · rw [hcontinued.ok hp, hmore.error]
      · rfl
      · rintro ⟨hall, hpairs⟩
        obtain ⟨hbehind, hps⟩ := hrest.1 hall
        exact hnot ⟨List.forall_mem_cons.2 ⟨hiff.1 hp, hps⟩, List.pairwise_cons.2 ⟨hbehind, hpairs⟩⟩
    · exact hcontinued.error hp

/-- The parts behind the state `r` refer to no groups by number if there are any before them. -/
structure NumbersHold (r : Reader) (ps : List (Piece flags)) : Prop where
  before : ∀ q ∈ ps, r.groups = 1 ∨ q.last.expected = []
  among : ps.Pairwise fun a b => a.last.groups = 1 ∨ b.last.expected = []

/-- Behind a part there are the groups from before it and its own. -/
theorem NumbersHold.tail {e : Frame} {p : Piece flags} {ps : List (Piece flags)}
    (h : NumbersHold r (p :: ps)) (hshift : e.shift = r.groups - 1) :
    NumbersHold (e.embed p.last) ps := by
  obtain ⟨hbehind, hamong⟩ := List.pairwise_cons.1 h.among
  refine ⟨fun q hq => ?_, hamong⟩
  rcases h.before q (List.mem_cons_of_mem p hq) with hr | hfree
  · refine (hbehind q hq).imp_left fun hp => ?_
    simp only [Frame.embed, hshift, hr, hp]
  · exact .inr hfree

theorem joins_choices_of (hverbose : flags.verbose = false) {p : Piece flags}
    {ps : List (Piece flags)} {top : Bool}
    (hmore : ∀ {s : Reader} {m : Nat}, Between s → s.rest = barred ps →
      4 * s.rest.length + 4 ≤ m → NumbersHold s ps → Joins s ps (moreAlternatives m flags s))
    (hr : Between r) (hrest : r.rest = p.tokens ++ barred ps) (hn : 4 * r.rest.length + 7 ≤ n)
    (hnumbers : NumbersHold r (p :: ps)) : Joins r (p :: ps) (choices n flags top r) := by
  have htail := head?_barred ps
  have hlength : r.rest.length = p.tokens.length + (barred ps).length := by
    rw [hrest, List.length_append]
  have hfound := p.length_found
  have hcontinued : Continued (frameAt r hr.sound (barred ps) htail) flags (n + 1) p.found p.last
      (choices n flags top r) :=
    p.continued hverbose htail hr hrest (by omega) (hnumbers.before p List.mem_cons_self)
  have hend : ((frameAt r hr.sound (barred ps) htail).embed p.last).rest = barred ps := by
    simp only [Frame.embed, p.rest, frameAt, List.nil_append]
  -- each sequence of the part has taken a token, so that enough steps are left for the others
  refine joins_cons rfl hcontinued (hmore (between_embed hr p.between htail) hend ?_
    (hnumbers.tail rfl))
  rw [hend]
  omega

theorem joins_moreAlternatives (hverbose : flags.verbose = false) {ps : List (Piece flags)}
    (hr : Between r) (hrest : r.rest = barred ps) (hn : 4 * r.rest.length + 4 ≤ n)
    (hnumbers : NumbersHold r ps) : Joins r ps (moreAlternatives n flags r) := by
  obtain ⟨n, rfl⟩ := Nat.exists_eq_succ_of_ne_zero (n := n) (by omega)
  induction ps generalizing r n with
  | nil =>
    have hend : r.rest = [] := hrest
    refine ⟨fun _ _ => ⟨[], r, moreAlternatives_of_ne (by simp [hend]), hr, hend, fun c => ?_⟩,
      fun hnot => absurd ⟨nofun, .nil⟩ hnot⟩
    simp
  | cons p ps ih =>
    have hbar : r.rest = .plain '|' :: (p.tokens ++ barred ps) := hrest
    have hlength : r.rest.length = (p.tokens ++ barred ps).length + 1 := congrArg List.length hbar
    rw [moreAlternatives_of_bar hbar]
    have hjoins : Joins { r with rest := p.tokens ++ barred ps } (p :: ps)
        (choices n flags false { r with rest := p.tokens ++ barred ps }) := by
      refine joins_choices_of hverbose ?_ (hr.ofRest _) rfl (by dsimp only; omega)
        ⟨hnumbers.before, hnumbers.among⟩
      intro s m hs hs' hm hnumbers
      obtain ⟨m, rfl⟩ := Nat.exists_eq_succ_of_ne_zero (n := m) (by omega)
      exact ih hs hs' hnumbers m hm
    exact ⟨hjoins.ok, hjoins.error⟩

/-- **Joining.** A choice between parts is read as the parts are on their own. -/
theorem joins_whole (hverbose : flags.verbose = false) (p : Piece flags)
    (ps : List (Piece flags))
    (hnumbers : (p :: ps).Pairwise fun a b => a.last.groups = 1 ∨ b.last.expected = []) :
    Joins { rest := p.tokens ++ barred ps } (p :: ps)
      (choices (4 * (p.tokens ++ barred ps).length + 7) flags true
        { rest := p.tokens ++ barred ps }) := by
  refine joins_choices_of hverbose ?_ ⟨sound_start _, rfl, nofun, rfl⟩ rfl (Nat.le_refl _)
    ⟨fun _ _ => .inl rfl, hnumbers⟩
  intro s m hs hrest hm hnumbers
  exact joins_moreAlternatives hverbose hs hrest hm hnumbers

end Reader

/-! ## Patterns that are joined -/

open Reader

variable {flags : Flags}

theorem parse_eq_ok {text : List Char} {node : Node} :
    parse flags text = .ok node ↔ ∃ s, whole flags { rest := tokens text } = .ok (node, s) := by
  have hrun : parse flags text = (whole flags { rest := tokens text }).map (·.1) := rfl
  rw [hrun, map_eq_ok]
  constructor
  · rintro ⟨⟨node, s⟩, h, rfl⟩
    exact ⟨s, h⟩
  · rintro ⟨s, h⟩
    exact ⟨(node, s), h, rfl⟩

/-- The number of groups of a pattern. -/
def groupCount (flags : Flags) (text : List Char) : Nat :=
  match whole flags { rest := tokens text } with
  | .ok (_, r) => r.groups - 1
  | .error _ => 0

/-- The numbers by which a pattern refers to groups. -/
def groupNumbers (flags : Flags) (text : List Char) : List Nat :=
  match whole flags { rest := tokens text } with
  | .ok (_, r) => r.expected
  | .error _ => []

/-- The names of the groups of a pattern. -/
def groupNames (flags : Flags) (text : List Char) : List (List Char) :=
  match whole flags { rest := tokens text } with
  | .ok (_, r) => r.names.map (·.1)
  | .error _ => []

theorem found_ne_nil {n : Nat} {top : Bool} {found : List Part} {r s : Reader}
    (h : choices n flags top r = .ok (found, s)) : found ≠ [] := by
  obtain ⟨p, more, rest, u, rfl, -⟩ := choices_eq_ok.1 h
  exact List.cons_ne_nil _ _

theorem matches_altAll_parts {found : List Part} (h : found ≠ []) {c : Cursor} :
    (Node.altAll (found.map (·.node))).Matches c ↔ ∃ x ∈ found, x.node.Matches c := by
  rw [matches_altAll (by simpa using h)]
  simp only [List.mem_map]
  constructor
  · rintro ⟨_, ⟨x, hx, rfl⟩, hc⟩
    exact ⟨x, hx, hc⟩
  · rintro ⟨x, hx, hc⟩
    exact ⟨_, ⟨x, hx, rfl⟩, hc⟩

namespace Reader.Piece

variable (p : Piece flags)

/-- The tree of the part. -/
def node : Node := Node.altAll (p.found.map (·.node))

theorem matches_node (c : Cursor) : p.node.Matches c ↔ p.Matches c :=
  matches_altAll_parts (found_ne_nil p.choices_tokens)

theorem whole_tokens (hflags : (flags.ascii && flags.unicode) = false) :
    whole flags { rest := p.tokens } = .ok (p.node, p.last) := by
  rw [whole_of_beginsGroup (r := { rest := p.tokens }) p.beginsGroup, p.choices_tokens]
  exact finish_eq_ok.2 ⟨hflags, p.rest, p.expected, p.deferred, rfl, rfl⟩

variable (hflags : (flags.ascii && flags.unicode) = false)

include hflags

theorem parse_wrap : parse flags (wrap p.text) = .ok p.node :=
  parse_eq_ok.2 ⟨p.last, p.whole_tokens hflags⟩

theorem whole_wrap :
    whole flags { rest := Regex.tokens (wrap p.text) } = .ok (p.node, p.last) :=
  p.whole_tokens hflags

theorem groupCount_wrap : groupCount flags (wrap p.text) = p.last.groups - 1 := by
  rw [groupCount, p.whole_wrap hflags]

theorem groupNumbers_wrap : groupNumbers flags (wrap p.text) = p.last.expected := by
  rw [groupNumbers, p.whole_wrap hflags]

theorem groupNames_wrap : groupNames flags (wrap p.text) = p.last.names.map (·.1) := by
  rw [groupNames, p.whole_wrap hflags]

end Reader.Piece

theorem exists_piece {text : List Char} {node : Node}
    (h : parse flags (wrap text) = .ok node) : ∃ p : Piece flags, p.text = text := by
  obtain ⟨s, h⟩ := parse_eq_ok.1 h
  rw [whole_of_beginsGroup (r := { rest := tokens (wrap text) }) ⟨_, rfl⟩] at h
  obtain ⟨⟨found, u⟩, hread, hfinish⟩ := bind_eq_ok.1 h
  obtain ⟨-, hrest, hexpected, hdeferred, -, rfl⟩ := finish_eq_ok.1 hfinish
  exact ⟨⟨text, found, s, hread, hrest, hexpected, hdeferred⟩, rfl⟩

theorem exists_pieces {texts : List (List Char)}
    (h : ∀ t ∈ texts, ∃ node, parse flags (wrap t) = .ok node) :
    ∃ ps : List (Piece flags), ps.map (·.text) = texts := by
  induction texts with
  | nil => exact ⟨[], rfl⟩
  | cons t texts ih =>
    obtain ⟨⟨node, ht⟩, htexts⟩ := List.forall_mem_cons.1 h
    obtain ⟨p, rfl⟩ := exists_piece ht
    obtain ⟨ps, rfl⟩ := ih htexts
    exact ⟨p :: ps, rfl⟩

variable (hverbose : flags.verbose = false) (hflags : (flags.ascii && flags.unicode) = false)

include hverbose hflags

theorem parse_pieces (p : Piece flags) (ps : List (Piece flags))
    (hnumbers : (p :: ps).Pairwise fun a b => a.last.groups = 1 ∨ b.last.expected = []) :
    ((p :: ps).Pairwise (fun a b => NamesApart a.last b.last) →
      ∃ node, parse flags (joined ((p :: ps).map (·.text))) = .ok node ∧
        ∀ s, (node.search s).isSome = true ↔ ∃ q ∈ p :: ps, (q.node.search s).isSome = true) ∧
    (¬(p :: ps).Pairwise (fun a b => NamesApart a.last b.last) →
      parse flags (joined ((p :: ps).map (·.text))) =
        .error (.malformed .duplicateName)) := by
  have htokens : tokens (joined ((p :: ps).map (·.text))) =
      p.tokens ++ barred ps := by
    have h := tokens_joined p.text (ps.map (·.text))
    rw [List.flatMap_map] at h
    exact h
  have hbegins : BeginsGroup (p.tokens ++ barred ps) := by
    obtain ⟨rest, hrest⟩ := p.beginsGroup
    exact ⟨rest ++ barred ps, by rw [hrest]; rfl⟩
  have hwhole : whole flags { rest := p.tokens ++ barred ps } = _ := whole_of_beginsGroup hbegins
  have hstart : ∀ q ∈ p :: ps, NamesApart { rest := p.tokens ++ barred ps } q.last :=
    fun q _ n _ => List.not_mem_nil
  have hjoins := joins_whole hverbose p ps hnumbers
  constructor
  · intro hnames
    obtain ⟨found, s, hread, hs, hend, hmatches⟩ := hjoins.ok hstart hnames
    refine ⟨Node.altAll (found.map (·.node)), parse_eq_ok.2 ⟨s, ?_⟩, fun text => ?_⟩
    · rw [htokens, hwhole, hread]
      exact finish_eq_ok.2 ⟨hflags, hend, hs.expected, hs.deferred, rfl, rfl⟩
    · simp only [isSome_search, matches_altAll_parts (found_ne_nil hread), hmatches,
        Piece.matches_node]
      constructor
      · rintro ⟨more, rest, hsplit, q, hq, hc⟩
        exact ⟨q, hq, more, rest, hsplit, hc⟩
      · rintro ⟨q, hq, more, rest, hsplit, hc⟩
        exact ⟨more, rest, hsplit, q, hq, hc⟩
  · intro hnames
    have hread := hjoins.error fun h => hnames h.2
    have hrun : parse flags (joined ((p :: ps).map (·.text))) =
        (whole flags { rest := p.tokens ++ barred ps }).map (·.1) := by
      rw [← htokens]
      rfl
    rw [hrun, hwhole, hread]
    rfl

/-- **Joining.** Patterns that can be read on their own can be read joined if no two groups have one
name, and occur where one of them does, as long as those behind groups refer to none by number. -/
theorem parse_joined {texts : List (List Char)} (hne : texts ≠ [])
    (halone : ∀ t ∈ texts, ∃ node, parse flags (wrap t) = .ok node)
    (hnumbers : texts.Pairwise fun a b =>
      groupCount flags (wrap a) = 0 ∨ groupNumbers flags (wrap b) = []) :
    (texts.Pairwise (fun a b => ∀ l ∈ groupNames flags (wrap b), l ∉ groupNames flags (wrap a)) →
      ∃ node, parse flags (joined texts) = .ok node ∧
        ∀ s, (node.search s).isSome = true ↔
          ∃ t ∈ texts, ∃ n, parse flags (wrap t) = .ok n ∧ (n.search s).isSome = true) ∧
    (¬texts.Pairwise (fun a b => ∀ l ∈ groupNames flags (wrap b), l ∉ groupNames flags (wrap a)) →
      parse flags (joined texts) = .error (.malformed .duplicateName)) := by
  obtain ⟨ps, rfl⟩ := exists_pieces halone
  cases ps with
  | nil => exact absurd rfl hne
  | cons p ps =>
    have hnames : ((p :: ps).map (·.text)).Pairwise (fun a b =>
        ∀ l ∈ groupNames flags (wrap b), l ∉ groupNames flags (wrap a)) ↔
        (p :: ps).Pairwise fun a b => NamesApart a.last b.last := by
      simp only [List.pairwise_map, Piece.groupNames_wrap _ hflags, List.forall_mem_map]
      exact Iff.rfl
    have hfree : (p :: ps).Pairwise fun a b => a.last.groups = 1 ∨ b.last.expected = [] := by
      refine (List.pairwise_map.1 hnumbers).imp fun {a b} h => ?_
      rw [a.groupCount_wrap hflags, b.groupNumbers_wrap hflags] at h
      have hpos := a.between.sound.groups
      exact h.imp_left fun hcount => by omega
    obtain ⟨hok, herror⟩ := parse_pieces hverbose hflags p ps hfree
    refine ⟨fun h => ?_, fun h => herror (mt hnames.2 h)⟩
    obtain ⟨node, hnode, hsearch⟩ := hok (hnames.1 h)
    refine ⟨node, hnode, fun s => (hsearch s).trans ?_⟩
    constructor
    · rintro ⟨q, hq, hs⟩
      exact ⟨q.text, List.mem_map_of_mem hq, q.node, q.parse_wrap hflags, hs⟩
    · rintro ⟨t, ht, n, hn, hs⟩
      obtain ⟨q, hq, rfl⟩ := List.mem_map.1 ht
      obtain rfl : q.node = n := Except.ok.inj ((q.parse_wrap hflags).symm.trans hn)
      exact ⟨q, hq, hs⟩

end LangId.Regex
