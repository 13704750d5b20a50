import LangId.Proofs.Regex.Choices
import Mathlib.Data.List.TakeWhile

/-!
# Parts at the end of groups

A part of a pattern is read in the same way where parentheses follow that close the groups around it,
but for one case: in a verbose pattern, a comment that the part ends with runs on behind it and takes
the parentheses with it. Which of the two it is depends neither on their number nor on the bound of
the reading (`ends_sequence`, `ends_choices`).
-/
namespace LangId.Regex.Reader

open Follows

variable {α β : Type} {o : Prop} {r s : Reader} {n m k : Nat} {flags : Flags}

/-! ## Within groups -/

/-- Parentheses that each close a group. -/
def closers (k : Nat) : List Token := List.replicate (k + 1) (.plain ')')

/-- The state of the reader of a part, within groups that end behind it. -/
def within (r : Reader) (k : Nat) : Reader := { r with rest := r.rest ++ closers k }

theorem eq_of_closers {t : Token} (h : t ∈ (closers k).head?) : t = .plain ')' :=
  (Option.some.inj h).symm

/-- Nothing has been read before, and groups end behind the part. -/
def closing (k : Nat) : Frame :=
  { emptyFrame with
    tail := closers k
    tail_ends := fun _ ht => .inr (eq_of_closers ht) }

theorem embed_closing (r : Reader) (k : Nat) : (closing k).embed r = r.within k := by
  simp [Frame.embed, closing, emptyFrame, within]

theorem renumber_zero : Part.renumber 0 = id := by
  funext p
  rw [Part.renumber, Node.renumber_zero, id]

/-- What is followed in every frame is followed within groups. -/
theorem within_of_follows {φ : α → β} {x : Reading α} {y : Reading β} {a : α}
    (h : Follows (closing k) o φ x y r) (hr : r.Sound) (hx : x r = .ok (a, s))
    (hend : o ∨ s.rest ≠ []) : y (r.within k) = .ok (φ a, s.within k) := by
  have hapart (r : Reader) : (closing k).Apart r := fun _ _ => List.not_mem_nil
  rw [← embed_closing, ← embed_closing]
  exact ((h hr a s hx).2 (hapart r) (.inl rfl) hend).1 (hapart s)

theorem turn_within {top : Bool} (top' : Bool) {found : List Part} {t : Token}
    {x : Flags × List Part} (hnm : n ≤ m) (htop : top = false ∨ found ≠ []) (hr : r.Sound)
    (h : turn n flags top found t r = .ok (x, s)) (ht : flags.verbose = false ∨ t ≠ .plain '#') :
    turn m flags top' found t (r.within k) = .ok (x, s.within k) := by
  have hturn := within_of_follows
    (follows_turn (tracks (closing k) n) hnm top' htop t) hr h (.inl ht)
  have hsame : renumberTurn (closing k).shift x = x := by
    rw [renumberTurn, show (closing k).shift = 0 from rfl, renumber_zero, List.map_id]
  rwa [hsame, show (closing k).shift = 0 from rfl, renumber_zero, List.map_id] at hturn

/-! ## Comments -/

/-- What stands behind the first of a sign. -/
def behindSign (c : Char) (ts : List Token) : List Token := (ts.dropWhile (· != .plain c)).tail

theorem skipComment_eq_ok {c : Char} {endAllowed : Bool} (hn : r.rest.length < n) :
    skipComment c endAllowed n r = .ok ((), s) ↔
      (.dangling ∉ r.rest.takeWhile (· != .plain c)) ∧ (endAllowed = true ∨ .plain c ∈ r.rest) ∧
        s = { r with rest := behindSign c r.rest } := by
  induction n generalizing r with
  | zero => exact absurd hn (Nat.not_lt_zero _)
  | succ n ih =>
    obtain ⟨ts, groups, widths, names, behindGroups, expected, deferred⟩ := r
    rw [skipComment]
    cases ts with
    | nil =>
      rw [bind_of_ok (take_nil rfl)]
      cases endAllowed with
      | true =>
        constructor
        · intro h
          cases h
          exact ⟨List.not_mem_nil, .inl rfl, rfl⟩
        · rintro ⟨-, -, rfl⟩
          rfl
      | false => exact ⟨nofun, fun h => by simp at h⟩
    | cons t rest =>
      rw [bind_of_ok (take_cons rfl)]
      have hlength : rest.length < n := Nat.lt_of_succ_lt_succ hn
      have hmore := ih (r := ⟨rest, groups, widths, names, behindGroups, expected, deferred⟩) hlength
      cases t with
      | dangling => exact ⟨nofun, fun h => absurd List.mem_cons_self h.1⟩
      | escaped d =>
        refine hmore.trans ?_
        simp [behindSign]
      | plain d =>
        by_cases hd : d = c
        · subst hd
          simp only [BEq.rfl, if_true, behindSign]
          constructor
          · intro h
            cases h
            simp
          · rintro ⟨-, -, rfl⟩
            simp
            rfl
        · refine Iff.trans ?_ (hmore.trans ?_)
          · simp [hd]
          · simp [behindSign, hd, Ne.symm hd]

theorem ne_sign {c : Char} {ts : List Token} (h : Token.plain c ∉ ts) :
    ∀ t ∈ ts, (t != .plain c) = true := fun _ ht => bne_iff_ne.2 fun heq => h (heq ▸ ht)

theorem takeWhile_sign {c : Char} {body rest : List Token} (h : Token.plain c ∉ body) :
    (body ++ .plain c :: rest).takeWhile (· != .plain c) = body := by
  rw [List.takeWhile_append_of_pos (ne_sign h), List.takeWhile_cons_of_neg (by simp),
    List.append_nil]

theorem behindSign_append {c : Char} {body rest : List Token} (h : Token.plain c ∉ body) :
    behindSign c (body ++ .plain c :: rest) = rest := by
  rw [behindSign, List.dropWhile_append_of_pos (ne_sign h), List.dropWhile_cons_of_neg (by simp),
    List.tail_cons]

theorem behindSign_of_notMem {c : Char} {ts : List Token} (h : Token.plain c ∉ ts) :
    behindSign c ts = [] := by
  rw [behindSign, List.dropWhile_eq_nil_iff.2 (ne_sign h), List.tail_nil]

/-- A comment ends with its line, or runs on behind the part and takes the parentheses. -/
theorem comment_within (h : skipComment '\n' true (r.rest.length + 1) r = .ok ((), s)) (k : Nat) :
    skipComment '\n' true ((r.within k).rest.length + 1) (r.within k) =
      .ok ((), if .plain '\n' ∈ r.rest then s.within k else s) := by
  obtain ⟨hdangling, -, rfl⟩ := (skipComment_eq_ok (Nat.lt_succ_self _)).1 h
  refine (skipComment_eq_ok (Nat.lt_succ_self _)).2 ?_
  by_cases hline : Token.plain '\n' ∈ r.rest
  · obtain ⟨body, rest, hrest, hbody⟩ := List.eq_append_cons_of_mem hline
    rw [hrest, takeWhile_sign hbody] at hdangling
    have hwithin : (r.within k).rest = body ++ .plain '\n' :: (rest ++ closers k) := by
      rw [within, hrest, List.append_assoc, List.cons_append]
    rw [hwithin, takeWhile_sign hbody, behindSign_append hbody, if_pos hline, hrest,
      behindSign_append hbody]
    exact ⟨hdangling, .inl rfl, rfl⟩
  · have hclosers : Token.plain '\n' ∉ closers k ∧ Token.dangling ∉ closers k := by
      simp [closers]
    have hwithin : Token.plain '\n' ∉ (r.within k).rest :=
      List.not_mem_append hline hclosers.1
    rw [List.takeWhile_eq_self_iff.2 (ne_sign hline)] at hdangling
    rw [List.takeWhile_eq_self_iff.2 (ne_sign hwithin), behindSign_of_notMem hwithin, if_neg hline,
      behindSign_of_notMem hline]
    exact ⟨List.not_mem_append hdangling hclosers.2, .inl rfl, rfl⟩

/-! ## Turns -/

/-- What a reading comes to within groups: it leaves the parentheses that close them, or takes them
with a comment that the part ends with. `read last` says that it leaves `last k` within `k + 1`
groups. -/
def Closes (verbose : Bool) (s : Reader) (read : (Nat → Reader) → Prop) : Prop :=
  read s.within ∨ verbose = true ∧ s.rest = [] ∧ read fun _ => s

theorem Closes.imp {verbose : Bool} {read read' : (Nat → Reader) → Prop}
    (h : Closes verbose s read) (hread : ∀ last, read last → read' last) :
    Closes verbose s read' :=
  Or.imp (hread _) (fun h => ⟨h.1, h.2.1, hread _ h.2.2⟩) h

theorem turn_comment {top : Bool} {found : List Part} {x : Flags × List Part}
    (hverbose : flags.verbose = true) : turn n flags top found (.plain '#') r = .ok (x, s) ↔
      x = (flags, found) ∧ skipComment '\n' true (r.rest.length + 1) r = .ok ((), s) := by
  have hrun : turn n flags top found (.plain '#') r =
      (skipComment '\n' true (r.rest.length + 1) >>= fun _ => pure (flags, found)) r := by
    obtain ⟨ignoreCase, multiline, dotAll, verbose, ascii, unicode, template⟩ := flags
    obtain rfl := hverbose
    rfl
  rw [hrun, bind_eq_ok]
  constructor
  · rintro ⟨_, u, hskip, h⟩
    cases h
    exact ⟨rfl, hskip⟩
  · rintro ⟨rfl, hskip⟩
    exact ⟨(), s, hskip, rfl⟩

/-- One turn of a sequence at the end of groups. -/
theorem ends_turn {top : Bool} {found : List Part} {t : Token} {x : Flags × List Part}
    (htop : top = false ∨ found ≠ []) (hr : r.Sound) (h : turn n flags top found t r = .ok (x, s)) :
    Closes flags.verbose s fun last => ∀ m top' k, n ≤ m →
      turn m flags top' found t (r.within k) = .ok (x, last k) := by
  by_cases hcomment : flags.verbose = true ∧ t = .plain '#'
  · obtain ⟨hverbose, rfl⟩ := hcomment
    obtain ⟨hx, hskip⟩ := (turn_comment hverbose).1 h
    have hwithin (m : Nat) (top' : Bool) (k : Nat) :
        turn m flags top' found (.plain '#') (r.within k) =
          .ok (x, if .plain '\n' ∈ r.rest then s.within k else s) :=
      (turn_comment hverbose).2 ⟨hx, comment_within hskip k⟩
    by_cases hline : Token.plain '\n' ∈ r.rest
    · simp only [if_pos hline] at hwithin
      exact .inl fun m top' k _ => hwithin m top' k
    · simp only [if_neg hline] at hwithin
      obtain ⟨-, -, rfl⟩ := (skipComment_eq_ok (Nat.lt_succ_self _)).1 hskip
      exact .inr ⟨hverbose, behindSign_of_notMem hline, fun m top' k _ => hwithin m top' k⟩
  · have hno : flags.verbose = false ∨ t ≠ .plain '#' :=
      (not_and_or.1 hcomment).imp Bool.eq_false_iff.2 id
    exact .inl fun m top' k hnm => turn_within top' hnm htop hr h hno

/-! ## Sequences -/

theorem AtEnd.within (h : r.AtEnd) (k : Nat) : (r.within k).AtEnd := by
  rw [AtEnd, Reader.within]
  cases hrest : r.rest with
  | nil => exact .inr (.inr rfl)
  | cons t rest =>
    rw [AtEnd, hrest] at h
    exact h

/-- A sequence comes to the same at the end of groups, but for a comment that takes their ends. -/
theorem ends_sequence {top : Bool} {found : List Part} {a : Part × Flags}
    (htop : top = false ∨ found ≠ []) (hr : r.Sound)
    (h : sequence n flags top found r = .ok (a, s)) :
    Closes flags.verbose s fun last => ∀ m top' k, n ≤ m →
      sequence m flags top' found (r.within k) = .ok (a, last k) := by
  induction n generalizing found r with
  | zero => cases h
  | succ n ih =>
    by_cases hend : r.AtEnd
    · obtain ⟨hpos, rfl, rfl⟩ := (sequence_of_atEnd hend).1 h
      exact .inl fun m top' k hnm =>
        (sequence_of_atEnd (hend.within k)).2 ⟨Nat.lt_of_lt_of_le hpos hnm, rfl, rfl⟩
    obtain ⟨t, rest, hrest, hbar, hclose⟩ := exists_of_not_atEnd hend
    have hbehind : Reader.Sound { r with rest } := ⟨hr.groups, hr.names, hr.widths⟩
    rw [sequence_turn hrest hbar hclose] at h
    obtain ⟨⟨more, parts⟩, u, hturn, hmore⟩ := bind_eq_ok.1 h
    obtain ⟨hflags, hfound⟩ := keeps_turn htop hturn
    obtain rfl : more = flags := hflags
    -- within groups the rest of the sequence comes behind the same turn
    have hgo {last : Nat → Reader} (hlast : ∀ m top' k, n ≤ m →
          turn m more top' found t (within { r with rest } k) = .ok ((more, parts), last k))
        {m k : Nat} {top' : Bool} (hnm : n ≤ m) :
        sequence (m + 1) more top' found (r.within k) = sequence m more top' parts (last k) := by
      have hwithin : (r.within k).rest = t :: (rest ++ closers k) := by
        rw [within, hrest, List.cons_append]
      rw [sequence_turn hwithin hbar hclose]
      exact bind_of_ok (hlast m top' k hnm)
    rcases ends_turn htop hbehind hturn with hleaves | ⟨hverbose, hnil, htakes⟩
    · have hu : u.Sound := (later_turn hbehind hturn).sound hbehind
      refine (ih (htop.imp_right hfound) hu hmore).imp fun last hlast m top' k hnm => ?_
      obtain ⟨m, rfl⟩ := Nat.exists_eq_succ_of_ne_zero (Nat.ne_zero_of_lt hnm)
      rw [hgo hleaves (Nat.le_of_succ_le_succ hnm)]
      exact hlast m top' k (Nat.le_of_succ_le_succ hnm)
    · -- a comment has taken all that is left, so that the sequence ends behind it
      have hend : u.AtEnd := .inl (by rw [hnil]; rfl)
      obtain ⟨hpos, rfl, rfl⟩ := (sequence_of_atEnd hend).1 hmore
      refine .inr ⟨hverbose, hnil, fun m top' k hnm => ?_⟩
      obtain ⟨m, rfl⟩ := Nat.exists_eq_succ_of_ne_zero (Nat.ne_zero_of_lt hnm)
      have hnm := Nat.le_of_succ_le_succ hnm
      rw [hgo htakes hnm]
      exact (sequence_of_atEnd hend).2 ⟨Nat.lt_of_lt_of_le hpos hnm, rfl, rfl⟩

/-! ## Choices -/

/-- A first sequence and those behind it, which come to the same at the end of groups. -/
theorem ends_choices {p : Part} {found : List Part} {u : Reader} {n' : Nat} (hr : r.Sound)
    (hp : sequence n flags false [] r = .ok ((p, flags), u))
    (hmore : moreAlternatives n' flags u = .ok (found, s))
    (hends : Closes flags.verbose s fun last => ∀ m k, n' ≤ m →
      moreAlternatives m flags (u.within k) = .ok (found, last k)) :
    Closes flags.verbose s fun last => ∀ m m' top' k, n ≤ m → n' ≤ m' → ∃ v,
      sequence m flags top' [] (r.within k) = .ok ((p, flags), v) ∧
        moreAlternatives m' flags v = .ok (found, last k) := by
  rcases ends_sequence (.inl rfl) hr hp with hleaves | ⟨hverbose, hnil, htakes⟩
  · exact hends.imp fun last hlast m m' top' k hm hm' =>
      ⟨u.within k, hleaves m top' k hm, hlast m' k hm'⟩
  · have hbar : u.rest.head? ≠ some (.plain '|') := by simp [hnil]
    obtain ⟨hpos, rfl, rfl⟩ := (moreAlternatives_of_noBar hbar).1 hmore
    exact .inr ⟨hverbose, hnil, fun m m' top' k hm hm' => ⟨s, htakes m top' k hm,
      (moreAlternatives_of_noBar hbar).2 ⟨Nat.lt_of_lt_of_le hpos hm', rfl, rfl⟩⟩⟩

/-- The sequences behind the first come to the same at the end of groups. -/
theorem ends_moreAlternatives {found : List Part} (hr : r.Sound)
    (h : moreAlternatives n flags r = .ok (found, s)) :
    Closes flags.verbose s fun last => ∀ m k, n ≤ m →
      moreAlternatives m flags (r.within k) = .ok (found, last k) := by
  induction n generalizing r found with
  | zero => cases h
  | succ n ih =>
    by_cases hbar : r.rest.head? = some (.plain '|')
    · obtain ⟨rest, hrest⟩ := List.head?_eq_some_iff.1 hbar
      have hbehind : Reader.Sound { r with rest } := ⟨hr.groups, hr.names, hr.widths⟩
      rw [moreAlternatives_of_bar hrest] at h
      obtain ⟨p, more, found, u, rfl, hp, hmore⟩ := choices_eq_ok.1 h
      obtain rfl : more = flags := keeps_sequence (.inl rfl) _ _ _ hp
      have hu : u.Sound := (later_sequence hbehind hp).sound hbehind
      refine (ends_choices hbehind hp hmore (ih hu hmore)).imp fun last hlast m k hnm => ?_
      obtain ⟨m, rfl⟩ := Nat.exists_eq_succ_of_ne_zero (Nat.ne_zero_of_lt hnm)
      have hnm := Nat.le_of_succ_le_succ hnm
      obtain ⟨v, hv, hmore⟩ := hlast m m false k hnm hnm
      have hwithin : (r.within k).rest = .plain '|' :: (rest ++ closers k) := by
        rw [within, hrest, List.cons_append]
      rw [moreAlternatives_of_bar hwithin]
      exact choices_eq_ok.2 ⟨p, more, found, v, rfl, hv, hmore⟩
    · obtain ⟨hpos, rfl, rfl⟩ := (moreAlternatives_of_noBar hbar).1 h
      refine .inl fun m k hnm => ?_
      have hwithin : (s.within k).rest.head? ≠ some (.plain '|') := by
        rw [within]
        cases hrest : s.rest with
        | nil => simp [closers, List.replicate_succ]
        | cons t rest => rwa [hrest] at hbar
      exact (moreAlternatives_of_noBar hwithin).2 ⟨Nat.lt_of_lt_of_le hpos hnm, rfl, rfl⟩

end LangId.Regex.Reader
