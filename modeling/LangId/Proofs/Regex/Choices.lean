import LangId.Proofs.Regex.Nesting

/-!
# Choices in a frame

A sequence either ends where it stands or takes a turn and goes on (`sequence_of_atEnd`,
`sequence_turn`), and what is kept by a turn is kept by the sequence (`later_sequence`).

The outermost choice of a pattern may go on behind the end of a part. What it reads there is said by
`Continued`: the sequences of the part come out as on their own, and before those of what follows
(`continued_moreAlternatives`). Parts that begin with a group are followed even where they begin the
pattern, where flags for the whole pattern might come otherwise (`follows_beginsGroup`).
-/
namespace LangId.Regex.Reader

open Follows

variable {e : Frame} {r s : Reader} {n m : Nat} {flags : Flags}

/-! ## Token by token -/

/-- A sequence ends where the pattern ends, at a bar, or at the end of a group. -/
def AtEnd (r : Reader) : Prop := r.rest.head? = none ∨ r.rest.head? = some (.plain '|') ∨
  r.rest.head? = some (.plain ')')

theorem sequence_of_atEnd {top : Bool} {found : List Part} {a : Part × Flags} (h : r.AtEnd) :
    sequence n flags top found r = .ok (a, s) ↔
      0 < n ∧ a = (.seqAll found.reverse, flags) ∧ s = r := by
  cases n with
  | zero => exact ⟨nofun, fun h => absurd h.1 (Nat.lt_irrefl 0)⟩
  | succ n =>
    have hrun : sequence (n + 1) flags top found r = .ok ((.seqAll found.reverse, flags), r) := by
      rw [sequence_succ, bind_of_ok (peek_apply r)]
      rcases h with h | h | h <;> rw [h] <;> rfl
    rw [hrun]
    constructor
    · intro h
      cases h
      exact ⟨Nat.succ_pos n, rfl, rfl⟩
    · rintro ⟨-, rfl, rfl⟩
      rfl

theorem exists_of_not_atEnd (h : ¬r.AtEnd) :
    ∃ t rest, r.rest = t :: rest ∧ t ≠ .plain '|' ∧ t ≠ .plain ')' := by
  cases hrest : r.rest with
  | nil => exact absurd (.inl (by rw [hrest]; rfl)) h
  | cons t rest =>
    refine ⟨t, rest, rfl, ?_, ?_⟩
    · rintro rfl
      exact h (.inr (.inl (by rw [hrest]; rfl)))
    · rintro rfl
      exact h (.inr (.inr (by rw [hrest]; rfl)))

theorem sequence_turn {top : Bool} {found : List Part} {t : Token} {rest : List Token}
    (hrest : r.rest = t :: rest) (hbar : t ≠ .plain '|') (hclose : t ≠ .plain ')') :
    sequence (n + 1) flags top found r =
      (turn n flags top found t >>= fun x => sequence n x.1 top x.2) { r with rest } := by
  rw [sequence_succ, bind_of_ok (peek_apply r), hrest, List.head?_cons]
  simp only
  exact bind_of_ok (take_cons hrest)

theorem turn_parenthesis {top : Bool} {found : List Part} :
    turn n flags top found (.plain '(') = (parenthesis n flags >>= afterOpening flags top found) := by
  obtain ⟨ignoreCase, multiline, dotAll, verbose, ascii, unicode, template⟩ := flags
  cases verbose <;> rfl

/-- What a parenthesis has opened is put behind the parts without a look at the tokens. -/
theorem state_of_afterOpening {top : Bool} {found : List Part} {opening : Opening}
    {x : Flags × List Part} (h : afterOpening flags top found opening r = .ok (x, s)) : s = r := by
  cases opening with
  | part p | nothing =>
    cases h
    rfl
  | flags more =>
    rw [afterOpening] at h
    split at h
    · cases h
      rfl
    · cases h

/-! ## Flags of sequences -/

/-- Only what stands at the beginning of a pattern may change the flags. -/
theorem keeps_sequence {top : Bool} {found : List Part} (h : top = false ∨ found ≠ []) :
    Yields (fun a => a.2 = flags) (sequence n flags top found) := by
  induction n generalizing found with
  | zero => exact .fail
  | succ n ih =>
    rw [sequence_succ]
    refine .bind fun t _ _ _ => ?_
    split
    · exact .pure rfl
    · exact .pure rfl
    · exact .pure rfl
    refine .bind fun _ _ _ _ => .bind fun x _ _ hx => ?_
    obtain ⟨more, parts⟩ := x
    obtain ⟨hflags, hfound⟩ := keeps_turn h hx
    obtain rfl : more = flags := hflags
    exact ih (h.imp_right hfound)

/-! ## Choices -/

/-- The sequences of a choice, one after the other. -/
def choices (n : Nat) (flags : Flags) (top : Bool) : Reading (List Part) := do
  let (p, _) ← sequence n flags top []
  return p :: (← moreAlternatives n flags)

/-- What is read behind parts that have been read already. -/
def behind (found : List Part) (y : Except Error (List Part × Reader)) :
    Except Error (List Part × Reader) := y.map fun x => (found ++ x.1, x.2)

theorem behind_nil (y : Except Error (List Part × Reader)) : behind [] y = y := by
  cases y <;> rfl

theorem behind_cons (p : Part) (found : List Part) (y : Except Error (List Part × Reader)) :
    behind [p] (behind found y) = behind (p :: found) y := by
  cases y <;> rfl

theorem choices_of_sequence {top : Bool} {p : Part} {more : Flags}
    (h : sequence n flags top [] r = .ok ((p, more), s)) :
    choices n flags top r = behind [p] (moreAlternatives n flags s) := by
  have hrest : choices n flags top r =
      (moreAlternatives n flags >>= fun rest => Pure.pure (p :: rest)) s := bind_of_ok h
  rw [hrest, bind_apply]
  cases moreAlternatives n flags s <;> rfl

theorem choices_of_error {top : Bool} {x : Error} (h : sequence n flags top [] r = .error x) :
    choices n flags top r = .error x := bind_of_error h

theorem choices_eq_ok {top : Bool} {found : List Part} : choices n flags top r = .ok (found, s) ↔
    ∃ p more rest u, found = p :: rest ∧ sequence n flags top [] r = .ok ((p, more), u) ∧
      moreAlternatives n flags u = .ok (rest, s) := by
  constructor
  · intro h
    obtain ⟨⟨p, more⟩, u, hp, h⟩ := Reader.bind_eq_ok.1 h
    obtain ⟨rest, v, hrest, h⟩ := Reader.bind_eq_ok.1 h
    cases h
    exact ⟨p, more, rest, u, rfl, hp, hrest⟩
  · rintro ⟨p, more, rest, u, rfl, hp, hrest⟩
    rw [choices_of_sequence hp, hrest]
    rfl

theorem moreAlternatives_of_bar {rest : List Token} (h : r.rest = .plain '|' :: rest) :
    moreAlternatives (n + 1) flags r = choices n flags false { r with rest } := by
  rw [moreAlternatives, bind_apply, accept_apply, h]
  rfl

theorem moreAlternatives_of_ne (h : r.rest.head? ≠ some (.plain '|')) :
    moreAlternatives (n + 1) flags r = .ok ([], r) := by
  rw [moreAlternatives, bind_apply, accept_apply, if_neg (by simpa using h)]
  rfl

theorem moreAlternatives_of_noBar {found : List Part} (h : r.rest.head? ≠ some (.plain '|')) :
    moreAlternatives n flags r = .ok (found, s) ↔ 0 < n ∧ found = [] ∧ s = r := by
  cases n with
  | zero => exact ⟨nofun, fun h => absurd h.1 (Nat.lt_irrefl 0)⟩
  | succ n =>
    rw [moreAlternatives_of_ne h]
    constructor
    · intro h
      cases h
      exact ⟨Nat.succ_pos n, rfl, rfl⟩
    · rintro ⟨-, rfl, rfl⟩
      rfl

theorem alternatives_eq_ok {top : Bool} {p : Part} {all : Flags} :
    alternatives (n + 1) flags top r = .ok ((p, all), s) ↔
      ∃ first others u, sequence n flags top [] r = .ok ((first, all), u) ∧
        moreAlternatives n all u = .ok (others, s) ∧
        p = if others.isEmpty then first else .altAll (first :: others) := by
  rw [alternatives, bind_eq_ok]
  constructor
  · rintro ⟨⟨first, more⟩, u, hfirst, h⟩
    obtain ⟨others, v, hothers, h⟩ := bind_eq_ok.1 h
    cases h
    exact ⟨first, others, u, hfirst, hothers, rfl⟩
  · rintro ⟨first, others, u, hfirst, hothers, rfl⟩
    refine ⟨(first, all), u, hfirst, ?_⟩
    dsimp only
    rw [bind_of_ok hothers]
    rfl

theorem enclosed_of_alternatives {p : Part} {all : Flags} {rest : List Token}
    (h : alternatives n flags false r = .ok ((p, all), s)) (hs : s.rest = .plain ')' :: rest) :
    enclosed (n + 1) flags r = .ok ({ p with kind := .other }, { s with rest }) := by
  have hclose : closeParenthesis s = .ok ((), { s with rest }) := by
    rw [closeParenthesis, bind_apply, accept_apply, hs]
    rfl
  rw [enclosed, bind_of_ok h]
  dsimp only
  rw [bind_of_ok hclose]
  rfl

/-! ## Lengths -/

/-- Nothing has been read before, and nothing follows. -/
def emptyFrame : Frame where
  shift := 0
  widths := []
  names := []
  expected := []
  tail := []
  widths_le := nofun
  tail_ends := nofun

theorem later_turn {top : Bool} {found : List Part} {t : Token} {x : Flags × List Part}
    (hr : r.Sound) (h : turn n flags top found t r = .ok (x, s)) : Later r s := by
  by_cases ht : t ≠ .plain '(' ∨ found ≠ []
  · rw [turn_top top false ht] at h
    exact (follows_turn (tracks emptyFrame n) (Nat.le_refl n) false (.inl rfl) t hr x s h).1
  · -- where flags may be set, the reading in a frame need not be the same
    obtain ⟨ht, -⟩ := not_or.1 ht
    obtain rfl := Decidable.not_not.1 ht
    rw [turn_parenthesis] at h
    obtain ⟨opening, u, hopening, h⟩ := bind_eq_ok.1 h
    obtain rfl := state_of_afterOpening h
    exact ((tracks emptyFrame n).parenthesis (Nat.le_refl n) flags r True hr opening _ hopening).1

/-- What stands before the end of a sequence is taken, token by token. -/
theorem later_sequence {top : Bool} {found : List Part} {a : Part × Flags} (hr : r.Sound)
    (h : sequence n flags top found r = .ok (a, s)) : Later r s := by
  induction n generalizing flags found r with
  | zero => cases h
  | succ n ih =>
    by_cases hend : r.AtEnd
    · obtain ⟨-, -, rfl⟩ := (sequence_of_atEnd hend).1 h
      exact .refl s
    obtain ⟨t, rest, hrest, hbar, hclose⟩ := exists_of_not_atEnd hend
    rw [sequence_turn hrest hbar hclose] at h
    obtain ⟨x, u, hturn, h⟩ := bind_eq_ok.1 h
    have ht : .dangling ∉ [t] := by
      intro hmem
      obtain rfl := List.mem_singleton.1 hmem
      cases hturn
    have htaken : Later r { r with rest } := .ofRest [t] hrest ht
    have hbehind := later_turn (htaken.sound hr) hturn
    have hthere := htaken.trans hbehind
    exact hthere.trans (ih (hthere.sound hr) h)

theorem later_moreAlternatives {found : List Part} (hr : r.Sound)
    (h : moreAlternatives n flags r = .ok (found, s)) : Later r s :=
  ((tracks emptyFrame n).moreAlternatives (Nat.le_refl n) flags r hr found s h).1

/-- Each sequence behind the first takes a token at least, which is the bar before it. -/
theorem length_moreAlternatives {found : List Part} (hr : r.Sound)
    (h : moreAlternatives n flags r = .ok (found, s)) :
    found.length + s.rest.length ≤ r.rest.length := by
  induction n generalizing r found with
  | zero => cases h
  | succ n ih =>
    by_cases hbar : r.rest.head? = some (.plain '|')
    · obtain ⟨rest, hrest⟩ := List.head?_eq_some_iff.1 hbar
      rw [moreAlternatives_of_bar hrest] at h
      obtain ⟨p, more, found, u, rfl, hp, hmore⟩ := choices_eq_ok.1 h
      have hentry : Reader.Sound { r with rest } := ⟨hr.groups, hr.names, hr.widths⟩
      have hlater : Later { r with rest } u := later_sequence hentry hp
      have hlength := ih (hlater.sound hentry) hmore
      have hle : u.rest.length ≤ rest.length := hlater.rest.length_le
      rw [hrest, List.length_cons, List.length_cons]
      omega
    · rw [moreAlternatives_of_ne hbar] at h
      cases h
      simp

/-! ## A part and what follows it -/

/-- What comes of parts in a frame that have been read on their own up to the state `s`: what
stands behind them is read next, unless two groups have one name. -/
structure Continued (e : Frame) (flags : Flags) (m : Nat) (found : List Part) (s : Reader)
    (y : Except Error (List Part × Reader)) : Prop where
  ok : e.Apart s → y = behind (found.map (Part.renumber e.shift))
    (moreAlternatives (m - found.length) flags (e.embed s))
  error : ¬e.Apart s → y = .error (.malformed .duplicateName)

theorem continued_choices {top : Bool} (top' : Bool) {found : List Part}
    (hseq : Follows e True (renumberRead e.shift) (sequence n flags top [])
      (sequence m flags top' []) r)
    (hmore : ∀ u rest, u.Sound → e.Apart u → moreAlternatives n flags u = .ok (rest, s) →
      Continued e flags m rest s (moreAlternatives m flags (e.embed u)))
    (hr : r.Sound) (hapart : e.Apart r) (hallows : e.Allows s)
    (h : choices n flags top r = .ok (found, s)) :
    Continued e flags (m + 1) found s (choices m flags top' (e.embed r)) := by
  obtain ⟨p, more, rest, u, rfl, hp, hrest⟩ := choices_eq_ok.1 h
  obtain ⟨hlater, hy⟩ := hseq hr _ _ hp
  have hu := hlater.sound hr
  have hbehind := later_moreAlternatives hu hrest
  have hfirst := hy hapart (hallows.before hbehind) (.inl trivial)
  by_cases hapartu : e.Apart u
  · obtain ⟨hok, herror⟩ := hmore u rest hu hapartu hrest
    rw [choices_of_sequence (hfirst.1 hapartu)]
    constructor
    · intro hs
      rw [hok hs, behind_cons, List.length_cons, Nat.add_sub_add_right]
      rfl
    · intro hs
      rw [herror hs]
      rfl
  · -- the name that two groups have is found before the sequences behind this one
    have hs : ¬e.Apart s := fun hs => hapartu (hs.before hbehind)
    exact ⟨fun h => absurd h hs, fun _ => choices_of_error (hfirst.2 hapartu)⟩

theorem continued_moreAlternatives (hverbose : flags.verbose = false) (hnm : n ≤ m)
    {found : List Part} (hr : r.Sound) (hapart : e.Apart r) (hallows : e.Allows s)
    (h : moreAlternatives n flags r = .ok (found, s)) :
    Continued e flags m found s (moreAlternatives m flags (e.embed r)) := by
  induction n generalizing m r found with
  | zero => cases h
  | succ n ih =>
    by_cases hbar : r.rest.head? = some (.plain '|')
    · obtain ⟨m, rfl⟩ := Nat.exists_eq_succ_of_ne_zero (Nat.ne_zero_of_lt hnm)
      replace hnm := Nat.le_of_succ_le_succ hnm
      obtain ⟨rest, hrest⟩ := List.head?_eq_some_iff.1 hbar
      have hlater : Later r { r with rest } := .ofRest [_] hrest (by decide)
      have hembed : (e.embed r).rest = .plain '|' :: (rest ++ e.tail) := by
        rw [Frame.embed, hrest, List.cons_append]
      rw [moreAlternatives_of_bar hrest] at h
      rw [moreAlternatives_of_bar hembed]
      refine continued_choices false (r := { r with rest }) ?_ ?_ (hlater.sound hr) hapart hallows h
      · exact ((tracks e n).sequence hnm false (.inl rfl) _).weaken fun _ => hverbose
      · exact fun u found hu hapartu hmore => ih hnm hu hapartu hmore
    · -- on its own the reading ends here, and in the frame it is the reading of what follows
      rw [moreAlternatives_of_ne hbar] at h
      cases h
      refine ⟨fun _ => ?_, fun hs => absurd hapart hs⟩
      rw [List.map_nil, behind_nil]
      rfl

/-! ## Parts that are groups -/

/-- Tokens that begin with the opening of a group that is not kept. -/
def BeginsGroup (ts : List Token) : Prop :=
  ∃ rest, ts = .plain '(' :: .plain '?' :: .plain ':' :: rest

theorem sequence_of_beginsGroup {top : Bool} {rest : List Token}
    (h : r.rest = .plain '(' :: .plain '?' :: .plain ':' :: rest) :
    sequence (n + 2) flags top [] r =
      (enclosed n flags >>= fun p => sequence (n + 1) flags top [p]) { r with rest } := by
  have hopening : parenthesis (n + 1) flags { r with rest := .plain '?' :: .plain ':' :: rest } =
      (enclosed n flags >>= fun p => pure (.part p)) { r with rest } := rfl
  rw [sequence_turn h (by decide) (by decide), turn_parenthesis, bind_apply, bind_apply, hopening,
    bind_apply, bind_apply]
  cases enclosed n flags { r with rest } <;> rfl

/-- Behind the opening of a group it does not matter whether the sequence is the first one. -/
theorem follows_beginsGroup {top : Bool} (top' : Bool) (hnm : n ≤ m) (h : BeginsGroup r.rest) :
    Follows e (flags.verbose = false) (renumberRead e.shift) (sequence (n + 2) flags top [])
      (sequence (m + 2) flags top' []) r := by
  obtain ⟨rest, hrest⟩ := h
  have hlater : Later r { r with rest } := .ofRest [_, _, _] hrest (by decide)
  have hembed : (e.embed r).rest = .plain '(' :: .plain '?' :: .plain ':' :: (rest ++ e.tail) := by
    rw [Frame.embed, hrest]
    rfl
  have hbehind : Follows e (flags.verbose = false) (renumberRead e.shift)
      (enclosed n flags >>= fun p => sequence (n + 1) flags top [p])
      (enclosed m flags >>= fun p => sequence (m + 1) flags top' [p]) { r with rest } :=
    Follows.bind ((tracks e n).enclosed hnm flags _ _) fun p s _ =>
      (tracks e (n + 1)).sequence (by omega) top' (.inr (List.cons_ne_nil _ _)) s
  intro hr a s ha
  rw [sequence_of_beginsGroup hrest] at ha
  rw [sequence_of_beginsGroup hembed]
  obtain ⟨hl, hy⟩ := hbehind (hlater.sound hr) a s ha
  exact ⟨hlater.trans hl, hy⟩

theorem keeps_beginsGroup {top : Bool} {a : Part × Flags} (h : BeginsGroup r.rest)
    (ha : sequence (n + 2) flags top [] r = .ok (a, s)) : a.2 = flags := by
  obtain ⟨rest, hrest⟩ := h
  rw [sequence_of_beginsGroup hrest] at ha
  obtain ⟨p, u, -, ha⟩ := Reader.bind_eq_ok.1 ha
  exact keeps_sequence (.inr (List.cons_ne_nil _ _)) u a s ha

/-- The checks at the end of a whole pattern. -/
def finish (flags : Flags) (node : Node) : Reading Node := do
  if flags.ascii && flags.unicode then throw .conflictingFlags
  let r ← get
  if !r.rest.isEmpty then fail .strayParenthesis
  if r.expected.any (· ≥ r.groups) then fail .unknownGroup
  match r.deferred with
  | some fault => fail fault
  | none => return node

theorem whole_eq (flags : Flags) (r : Reader) : whole flags r =
    alternatives (4 * r.rest.length + 8) flags true r >>= fun x => finish x.1.2 x.1.1.node x.2 := rfl

theorem alternatives_of_beginsGroup (h : BeginsGroup r.rest) :
    alternatives (n + 3) flags true r = choices (n + 2) flags true r >>= fun x =>
      .ok ((match x.1 with
        | [p] => p
        | found => Part.altAll found, flags), x.2) := by
  have hrun : alternatives (n + 3) flags true r = (sequence (n + 2) flags true [] >>= fun x =>
      moreAlternatives (n + 2) x.2 >>= fun others =>
      pure (if others.isEmpty then x.1 else .altAll (x.1 :: others), x.2)) r := rfl
  rw [hrun]
  cases hp : sequence (n + 2) flags true [] r with
  | error x =>
    rw [choices_of_error hp, bind_of_error hp]
    rfl
  | ok a =>
    obtain ⟨⟨p, more⟩, s⟩ := a
    obtain rfl : more = flags := keeps_beginsGroup h hp
    rw [choices_of_sequence hp, bind_of_ok hp, bind_apply]
    cases moreAlternatives (n + 2) more s with
    | error x => rfl
    | ok b =>
      obtain ⟨others, u⟩ := b
      cases others <;> rfl

theorem whole_of_beginsGroup (h : BeginsGroup r.rest) :
    whole flags r = choices (4 * r.rest.length + 7) flags true r >>= fun x =>
      finish flags (Node.altAll (x.1.map (·.node))) x.2 := by
  rw [whole_eq, alternatives_of_beginsGroup h]
  cases choices (4 * r.rest.length + 7) flags true r with
  | error x => rfl
  | ok b =>
    obtain ⟨found, s⟩ := b
    match found with
    | [] => rfl
    | [p] => rfl
    | p :: q :: rest => rfl

theorem finish_eq_ok {node node' : Node} : finish flags node r = .ok (node', s) ↔
    (flags.ascii && flags.unicode) = false ∧ r.rest = [] ∧ (∀ i ∈ r.expected, i < r.groups) ∧
      r.deferred = none ∧ node' = node ∧ s = r := by
  have hany : (∀ i ∈ r.expected, i < r.groups) ↔ r.expected.any (· ≥ r.groups) = false := by
    simp
  rw [hany]
  cases hflags : flags.ascii && flags.unicode with
  | true =>
    simp only [finish, hflags]
    exact ⟨nofun, nofun⟩
  | false =>
    have hrun : finish flags node r = (do
        if !r.rest.isEmpty then fail .strayParenthesis
        if r.expected.any (· ≥ r.groups) then fail .unknownGroup
        match r.deferred with
        | some fault => fail fault
        | none => return node : Reading Node) r := by
      simp only [finish, hflags]
      rfl
    rw [hrun]
    cases r.rest with
    | cons t rest => exact ⟨nofun, nofun⟩
    | nil =>
      cases r.expected.any (· ≥ r.groups) with
      | true => exact ⟨nofun, nofun⟩
      | false =>
        cases r.deferred with
        | some fault => exact ⟨nofun, nofun⟩
        | none =>
          constructor
          · intro h
            cases h
            exact ⟨rfl, rfl, rfl, rfl, rfl, rfl⟩
          · rintro ⟨-, -, -, -, rfl, rfl⟩
            rfl

end LangId.Regex.Reader
