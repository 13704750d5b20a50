import LangId.Proofs.Regex.Signs

/-!
# Readings with groups in them

The readings that call each other are followed together, by induction on the bound of the reading on
its own (`tracks`). A sequence is read in turns of one token each (`turn`), and it is a turn that is
followed, so that what a parenthesis opens stands in one place (`afterOpening`). Within a group the
end of the part cannot be reached, since the parenthesis that closes the group still has to come.
-/
namespace LangId.Regex.Reader

open LangId.Text Follows

variable {e : Frame} {o : Prop} {r : Reader} {k : Nat}

/-! ## Numbers in parts -/

/-- Raises the numbers of groups in what a parenthesis opens. -/
def Opening.renumber (k : Nat) : Opening → Opening
  | .part p => .part (p.renumber k)
  | .nothing => .nothing
  | .flags more => .flags more

theorem renumber_seqAll (parts : List Part) :
    (Part.seqAll parts).renumber k = .seqAll (parts.map (·.renumber k)) := by
  simp only [Part.renumber, Part.seqAll, Node.renumber_seqAll, List.map_map]
  rfl

theorem renumber_altAll (parts : List Part) :
    (Part.altAll parts).renumber k = .altAll (parts.map (·.renumber k)) := by
  cases parts with
  | nil => rfl
  | cons p rest =>
    simp only [Part.renumber, Part.altAll, Node.renumber_altAll, List.map_cons, List.map_map,
      List.foldl_map]
    rfl

/-- What is read of a sequence or a choice, with its numbers raised. -/
def renumberRead (k : Nat) (x : Part × Flags) : Part × Flags := (x.1.renumber k, x.2)

/-- What one token makes of the parts of a sequence, with its numbers raised. -/
def renumberTurn (k : Nat) (x : Flags × List Part) : Flags × List Part :=
  (x.1, x.2.map (Part.renumber k))

/-! ## One step -/

/-- All readings with a bound are followed by those with the same bound or a larger one. -/
structure Tracks (e : Frame) (n : Nat) : Prop where
  alternatives {m : Nat} (hnm : n ≤ m) (flags : Flags) (r : Reader) :
    Follows e False (renumberRead e.shift) (alternatives n flags false) (alternatives m flags false) r
  moreAlternatives {m : Nat} (hnm : n ≤ m) (flags : Flags) (r : Reader) :
    Follows e False (List.map (Part.renumber e.shift)) (moreAlternatives n flags)
      (moreAlternatives m flags) r
  sequence {m : Nat} (hnm : n ≤ m) {flags : Flags} {top : Bool} (top' : Bool) {found : List Part}
    (htop : top = false ∨ found ≠ []) (r : Reader) :
    Follows e (flags.verbose = false) (renumberRead e.shift) (sequence n flags top found)
      (sequence m flags top' (found.map (Part.renumber e.shift))) r
  parenthesis {m : Nat} (hnm : n ≤ m) (flags : Flags) (r : Reader) (o : Prop) :
    Follows e o (Opening.renumber e.shift) (parenthesis n flags) (parenthesis m flags) r
  enclosed {m : Nat} (hnm : n ≤ m) (flags : Flags) (r : Reader) (o : Prop) :
    Follows e o (Part.renumber e.shift) (enclosed n flags) (enclosed m flags) r
  numbered {m : Nat} (hnm : n ≤ m) (flags : Flags) (label : Option (List Char)) (r : Reader)
    (o : Prop) :
    Follows e o (Part.renumber e.shift) (numbered n flags label) (numbered m flags label) r
  lookAhead {m : Nat} (hnm : n ≤ m) (flags : Flags) (negated : Bool) (r : Reader) (o : Prop) :
    Follows e o (Part.renumber e.shift) (lookAhead n flags negated) (lookAhead m flags negated) r
  lookBehind {m : Nat} (hnm : n ≤ m) (flags : Flags) (negated : Bool) (r : Reader) (o : Prop) :
    Follows e o (Part.renumber e.shift) (lookBehind n flags negated) (lookBehind m flags negated) r

/-! ## What a parenthesis opens -/

/-- A reference by name, from behind its equals sign. -/
def namedReference (flags : Flags) : Reading Opening := do
  let label ← name ')'
  if !isIdentifier label then fail .badName
  match (← get).names.lookup label with
  | none => fail .unknownName
  | some index => return .part (← reference flags index)

/-- A group or a reference with a name, from behind the letter that says so. -/
def named (n : Nat) (flags : Flags) : Reading Opening := do
  if ← accept '<' then
    let label ← name '>'
    if isIdentifier label then return .part (← numbered n flags (some label))
    else fail .badName
  else if ← accept '=' then namedReference flags
  else fail .unknownExtension

/-- A test of what stands before, from behind its angle bracket. -/
def testBefore (n : Nat) (flags : Flags) : Reading Opening := do
  match ← take with
  | some (.plain '=') => return .part (← lookBehind n flags false)
  | some (.plain '!') => return .part (← lookBehind n flags true)
  | _ => fail .unknownExtension

/-- The end of a condition with two branches. -/
def closeCondition (index : Nat) (yes no : Part) : Reading Opening := do
  if (← peek) == some (.plain '|') then fail .tooManyBranches
  closeParenthesis
  let node := Node.cond index yes.node no.node
  return .part ⟨node, min yes.low no.low, max yes.high no.high, .other⟩

/-- A condition, from behind its first branch. -/
def secondBranch (n : Nat) (flags : Flags) (index : Nat) (yes : Part) : Reading Opening := do
  if ← accept '|' then
    let (no, _) ← sequence n flags false []
    closeCondition index yes no
  else
    closeParenthesis
    return .part ⟨.cond index yes.node .empty, 0, yes.high, .other⟩

/-- A condition, from behind its opening. -/
def condition (n : Nat) (flags : Flags) : Reading Opening := do
  let index ← conditionGroup (← name ')')
  checkBehind index
  let (yes, _) ← sequence n flags false []
  secondBranch n flags index yes

theorem follows_namedReference (flags : Flags) :
    Follows e o (Opening.renumber e.shift) (namedReference flags) (namedReference flags) r := by
  refine bind (follows_name ')') fun label s _ => ?_
  dsimp only [id]
  split
  · exact .fail_bind
  refine of_sound fun hsound => get_bind ?_
  cases hl : s.names.lookup label with
  | none => exact .fail
  | some index =>
    rw [Frame.lookup_names hl]
    obtain ⟨pre, post, hsplit, -⟩ := List.lookup_eq_some_iff.1 hl
    have hpos : 1 ≤ index := hsound.names (label, index) (by simp [hsplit])
    exact bind (follows_reference flags hpos) fun _ _ _ => .pure _

/-- Nothing closes at the end of the part. -/
theorem closeParenthesis_atEnd {α β : Type} {φ : α → β} {f : Unit → Reading α} {y : Reading β}
    (h : r.rest = []) : Follows e o φ (closeParenthesis >>= f) y r := by
  intro _ a r' ha
  obtain ⟨_, s, hclose, -⟩ := Reader.bind_eq_ok.1 ha
  have hrest := rest_of_closeParenthesis hclose
  rw [h] at hrest
  cases hrest

theorem follows_closeCondition (index : Nat) (yes no : Part) :
    Follows e o (Opening.renumber e.shift) (closeCondition index yes no)
      (closeCondition (index + e.shift) (yes.renumber e.shift) (no.renumber e.shift)) r := by
  refine follows_peek (fun t rest _ => ?_) fun hnil t _ => ?_
  · split
    · exact .fail_bind
    · exact bind follows_closeParenthesis fun _ _ _ => .pure _
  · exact closeParenthesis_atEnd hnil

theorem rest_of_closeCondition {index : Nat} {yes no : Part} {a : Opening} {s : Reader}
    (h : closeCondition index yes no r = .ok (a, s)) : r.rest ≠ [] := by
  obtain ⟨t, u, hpeek, h⟩ := Reader.bind_eq_ok.1 h
  cases hpeek
  by_cases hbar : (r.rest.head? == some (.plain '|')) = true
  · rw [if_pos hbar] at h
    cases h
  · rw [if_neg hbar] at h
    obtain ⟨_, v, hclose, -⟩ := Reader.bind_eq_ok.1 h
    rw [rest_of_closeParenthesis hclose]
    exact List.cons_ne_nil _ _

theorem rest_of_secondBranch {n : Nat} {flags : Flags} {index : Nat} {yes : Part} {a : Opening}
    {s : Reader} (h : secondBranch n flags index yes r = .ok (a, s)) : r.rest ≠ [] := by
  obtain ⟨more, u, hmore, h⟩ := Reader.bind_eq_ok.1 h
  cases more with
  | true =>
    rw [rest_of_accept hmore]
    exact List.cons_ne_nil _ _
  | false =>
    obtain ⟨_, v, hclose, -⟩ := Reader.bind_eq_ok.1 h
    rw [accept_apply] at hmore
    split at hmore
    · cases hmore
    · cases hmore
      rw [rest_of_closeParenthesis hclose]
      exact List.cons_ne_nil _ _

/-! ## One turn of a sequence -/

/-- How a turn ends behind what a parenthesis has opened. -/
def afterOpening (flags : Flags) (top : Bool) (found : List Part) :
    Opening → Reading (Flags × List Part)
  | .part p => return (flags, p :: found)
  | .nothing => return (flags, found)
  | .flags more => if top && found.isEmpty then return (flags.union more, found) else fail .lateFlags

/-- What a character that is not passed over makes of the flags and the parts found so far. -/
def turnAt (n : Nat) (flags : Flags) (top : Bool) (found : List Part) :
    Char → Reading (Flags × List Part)
  | '[' => do return (flags, (← classBody flags) :: found)
  | '.' =>
    let s : CharClass := if flags.dotAll then .any else .anyInLine
    return (flags, ⟨.one s, 1, 1, .other⟩ :: found)
  | '^' =>
    let a : Anchor := if flags.multiline then .lineStart else .textStart
    return (flags, .ofAnchor a :: found)
  | '$' =>
    let a : Anchor := if flags.multiline then .lineEnd else .finalLineEnd
    return (flags, .ofAnchor a :: found)
  | '(' => parenthesis n flags >>= afterOpening flags top found
  | c => do
    if c == '?' || c == '*' || c == '+' || c == '\x7b' then
      match ← counts c with
      | none => return (flags, single flags c.toNat :: found)
      | some (least, largest) => return (flags, ← repeatLatest flags least largest found)
    else return (flags, single flags c.toNat :: found)

/-- What one token that has been taken makes of the flags and the parts found so far. -/
def turn (n : Nat) (flags : Flags) (top : Bool) (found : List Part) : Token →
    Reading (Flags × List Part)
  | .dangling => fail .badEscape
  | .escaped c => do return (flags, (← escape flags c) :: found)
  | .plain c => do
    if flags.verbose && isVerboseBlank c then return (flags, found)
    else if flags.verbose && c == '#' then
      skipComment '\n' true ((← remaining) + 1)
      return (flags, found)
    else turnAt n flags top found c

/-- **A sequence** takes one turn after the other. -/
theorem sequence_succ (n : Nat) (flags : Flags) (top : Bool) (found : List Part) :
    sequence (n + 1) flags top found = (do
      match ← peek with
      | none | some (.plain '|') | some (.plain ')') => return (.seqAll found.reverse, flags)
      | some t =>
        let _ ← take
        let (flags, found) ← turn n flags top found t
        sequence n flags top found) := by
  rw [sequence]
  refine congrArg (peek >>= ·) (funext fun t => ?_)
  split
  · rfl
  · rfl
  · rfl
  rename_i t hbar hclose
  simp only
  refine congrArg (take >>= ·) (funext fun _ => ?_)
  cases t with
  | dangling => rfl
  | escaped c => simp only [turn, bind_assoc, LawfulMonad.pure_bind]
  | plain c =>
    simp only [turn]
    by_cases hblank : (flags.verbose && isVerboseBlank c) = true
    · rw [if_pos hblank, if_pos hblank]
      rfl
    rw [if_neg hblank, if_neg hblank]
    by_cases hcomment : (flags.verbose && c == '#') = true
    · rw [if_pos hcomment, if_pos hcomment]
      simp only [bind_assoc, LawfulMonad.pure_bind]
    rw [if_neg hcomment, if_neg hcomment]
    split
    · simp only [turnAt, bind_assoc, LawfulMonad.pure_bind]
    · rfl
    · rfl
    · rfl
    · simp only [turnAt, bind_assoc]
      refine congrArg (parenthesis n flags >>= ·) (funext fun opening => ?_)
      cases opening with
      | part p => rfl
      | nothing => rfl
      | flags more =>
        rw [afterOpening]
        cases top && found.isEmpty <;> rfl
    · rename_i hclass hdot hcaret hdollar hopen
      rw [turnAt.eq_6 _ _ _ _ _ hclass hdot hcaret hdollar hopen]
      split
      · rw [bind_assoc]
        refine congrArg (counts _ >>= ·) (funext fun bounds => ?_)
        cases bounds with
        | none => rfl
        | some bounds => simp only [bind_assoc, LawfulMonad.pure_bind]
      · rfl

/-- What may be passed over between the parts of a sequence: a comment in parentheses, and in a verbose
pattern white space and comments up to the end of a line. -/
def BeginsGap (flags : Flags) (t : Token) : Prop :=
  t = .plain '(' ∨ flags.verbose = true ∧ (t = .plain '#' ∨ ∃ c, t = .plain c ∧ isVerboseBlank c = true)

/-- A token adds parts or is passed over, or sets flags for the whole pattern where they may come. -/
theorem yields_turn (n : Nat) (flags : Flags) (top : Bool) (found : List Part) (t : Token) :
    Yields (fun x => x.1 = flags ∧ (x.2 ≠ [] ∨ x.2 = found ∧ BeginsGap flags t) ∨
      (top && found.isEmpty) = true) (turn n flags top found t) := by
  have hmore (p : Part) : Yields (fun x => x.1 = flags ∧ (x.2 ≠ [] ∨ x.2 = found ∧ BeginsGap flags t) ∨
      (top && found.isEmpty) = true) (pure (flags, p :: found)) :=
    .pure (.inl ⟨rfl, .inl (List.cons_ne_nil _ _)⟩)
  unfold turn
  split
  · exact .fail
  · exact .bind fun p _ _ _ => hmore p
  split
  · rename_i c hblank
    rw [Bool.and_eq_true] at hblank
    exact .pure (.inl ⟨rfl, .inr ⟨rfl, .inr ⟨hblank.1, .inr ⟨c, rfl, hblank.2⟩⟩⟩⟩)
  split
  · rename_i hcomment
    rw [Bool.and_eq_true, beq_iff_eq] at hcomment
    obtain ⟨hverbose, rfl⟩ := hcomment
    exact .bind fun _ _ _ _ => .bind fun _ _ _ _ =>
      .pure (.inl ⟨rfl, .inr ⟨rfl, .inr ⟨hverbose, .inl rfl⟩⟩⟩)
  unfold turnAt
  split
  · exact .bind fun p _ _ _ => hmore p
  · exact hmore _
  · exact hmore _
  · exact hmore _
  · refine .bind fun opening _ _ _ => ?_
    cases opening with
    | part p => exact hmore p
    | nothing => exact .pure (.inl ⟨rfl, .inr ⟨rfl, .inl rfl⟩⟩)
    | flags more =>
      rw [afterOpening]
      split
      · rename_i hfirst
        exact .pure (.inr hfirst)
      · exact .fail
  · split
    · refine .bind fun bounds _ _ _ => ?_
      split
      · exact hmore _
      · exact .bind fun parts _ _ hparts => .pure (.inl ⟨rfl, .inl (repeatLatest_ne_nil hparts)⟩)
    · exact hmore _

/-- Only what stands at the beginning of a pattern may change the flags. -/
theorem keeps_turn {n : Nat} {flags : Flags} {top : Bool} {found : List Part} {t : Token}
    {x : Flags × List Part} {s : Reader} (htop : top = false ∨ found ≠ [])
    (h : turn n flags top found t r = .ok (x, s)) :
    x.1 = flags ∧ (found ≠ [] → x.2 ≠ []) := by
  rcases yields_turn n flags top found t r x s h with ⟨hflags, hfound⟩ | hfirst
  · refine ⟨hflags, fun hne => hfound.elim id fun hsame => ?_⟩
    rwa [hsame.1]
  · rw [Bool.and_eq_true, List.isEmpty_iff] at hfirst
    rcases htop with hlate | hne
    · rw [hfirst.1] at hlate
      cases hlate
    · exact absurd hfirst.2 hne

/-- Whether the turn is the first of the pattern matters only to what a parenthesis opens. -/
theorem turn_top {n : Nat} {flags : Flags} (top top' : Bool) {found : List Part} {t : Token}
    (h : t ≠ .plain '(' ∨ found ≠ []) : turn n flags top found t = turn n flags top' found t := by
  by_cases hnil : found = []
  · have ht := h.resolve_right (not_not_intro hnil)
    unfold turn
    split
    · rfl
    · rfl
    split
    · rfl
    split
    · rfl
    unfold turnAt
    split
    · rfl
    · rfl
    · rfl
    · rfl
    · exact absurd rfl ht
    · rfl
  · have hfound : found.isEmpty = false := by simpa using hnil
    have hafter : afterOpening flags top found = afterOpening flags top' found := by
      funext opening
      cases opening with
      | part p | nothing => rfl
      | flags more => rw [afterOpening, afterOpening, hfound, Bool.and_false, Bool.and_false]
    unfold turn turnAt
    rw [hafter]

/-! ## Each reading -/

variable {n m : Nat} (ih : Tracks e n) (hnm : n ≤ m)

include ih hnm

theorem follows_alternatives (flags : Flags) :
    Follows e False (renumberRead e.shift) (alternatives (n + 1) flags false)
      (alternatives (m + 1) flags false) r := by
  unfold alternatives
  refine bind ((ih.sequence hnm false (.inl rfl) r).weaken False.elim) fun first s _ => ?_
  refine bind (ih.moreAlternatives hnm _ s) fun others _ _ => .pure_of ?_
  simp only [renumberRead, List.isEmpty_map]
  split
  · rfl
  · rw [renumber_altAll, List.map_cons]

theorem follows_moreAlternatives (flags : Flags) :
    Follows e False (List.map (Part.renumber e.shift)) (moreAlternatives (n + 1) flags)
      (moreAlternatives (m + 1) flags) r := by
  unfold moreAlternatives
  refine bind (follows_accept '|' False.elim) fun more s _ => ?_
  dsimp only [id]
  split
  · refine bind ((ih.sequence hnm false (.inl rfl) s).weaken False.elim) fun p s _ => ?_
    exact bind (ih.moreAlternatives hnm flags s) fun rest _ _ => .pure _
  · exact .pure []

theorem follows_enclosed (flags : Flags) :
    Follows e o (Part.renumber e.shift) (enclosed (n + 1) flags) (enclosed (m + 1) flags) r := by
  unfold enclosed
  refine bind_within (ih.alternatives hnm flags r) (fun p s _ => ?_) fun p s _ _ _ hc _ _ => .inr ?_
  · exact bind follows_closeParenthesis fun _ _ _ => .pure _
  · obtain ⟨_, u, hclose, -⟩ := Reader.bind_eq_ok.1 hc
    rw [rest_of_closeParenthesis hclose]
    exact List.cons_ne_nil _ _

theorem follows_numbered (flags : Flags) (label : Option (List Char)) :
    Follows e o (Part.renumber e.shift) (numbered (n + 1) flags label)
      (numbered (m + 1) flags label) r := by
  unfold numbered
  refine bind (follows_openGroup label) fun index s hindex => of_sound fun hsound => ?_
  refine bind (ih.enclosed hnm flags s o) fun p u hp => ?_
  have hlater := (ih.enclosed hnm flags s o hsound p u hp).1
  have hlt : index < u.groups := Nat.lt_of_lt_of_le (lt_of_openGroup hindex) hlater.groups
  refine modify_bind ⟨List.suffix_refl _, id, List.suffix_refl _, rfl, Nat.le_refl _,
    List.suffix_refl _, fun hs => ?_⟩ rfl rfl (.pure _)
  exact ⟨hs.groups, hs.names, List.forall_mem_cons.2 ⟨hlt, hs.widths⟩⟩

theorem follows_lookAhead (flags : Flags) (negated : Bool) :
    Follows e o (Part.renumber e.shift) (lookAhead (n + 1) flags negated)
      (lookAhead (m + 1) flags negated) r := by
  unfold lookAhead
  exact bind (ih.enclosed hnm flags r o) fun p s _ => .pure _

theorem follows_lookBehind (flags : Flags) (negated : Bool) :
    Follows e o (Part.renumber e.shift) (lookBehind (n + 1) flags negated)
      (lookBehind (m + 1) flags negated) r := by
  unfold lookBehind
  refine get_bind ?_
  dsimp only
  refine around ?_ (ih.enclosed hnm flags _ o) fun p s => ?_
  · simp only [Frame.embed]
    cases r.behindGroups <;> rfl
  · exact .ite (fun _ => bind (follows_defer _) fun _ _ _ => .pure _) fun _ => .pure _

theorem follows_secondBranch (flags : Flags) (index : Nat) (yes : Part) :
    Follows e o (Opening.renumber e.shift) (secondBranch n flags index yes)
      (secondBranch m flags (index + e.shift) (yes.renumber e.shift)) r := by
  by_cases hnil : r.rest = []
  · exact fun _ a s h => absurd hnil (rest_of_secondBranch h)
  refine bind (follows_accept_within '|' hnil) fun more s _ => ?_
  dsimp only [id]
  split
  · refine bind_within (ih.sequence hnm false (.inl rfl) s |>.weaken False.elim) (fun no u _ => ?_)
      fun _ _ _ _ _ hc _ _ => .inr (rest_of_closeCondition hc)
    exact follows_closeCondition index yes no.1
  · exact bind follows_closeParenthesis fun _ _ _ => .pure _

theorem follows_condition (flags : Flags) :
    Follows e o (Opening.renumber e.shift) (condition n flags) (condition m flags) r := by
  refine bind (follows_name ')') fun found s _ => of_sound fun hsound => ?_
  refine bind (follows_conditionGroup found) fun index u hindex => ?_
  have hpos := one_le_conditionGroup hsound hindex
  refine bind (follows_checkBehind hpos) fun _ v _ => ?_
  refine bind_within (ih.sequence hnm false (.inl rfl) v |>.weaken False.elim) (fun yes w _ => ?_)
    fun _ _ _ _ _ hc _ _ => .inr (rest_of_secondBranch hc)
  exact follows_secondBranch ih hnm flags index yes.1

theorem follows_named (flags : Flags) :
    Follows e o (Opening.renumber e.shift) (named n flags) (named m flags) r := by
  refine bind (follows_accept '<' fun _ => by decide) fun groups s _ => ?_
  dsimp only [id]
  split
  · refine bind (follows_name '>') fun label u _ => ?_
    dsimp only [id]
    split
    · exact bind (ih.numbered hnm flags _ u o) fun p _ _ => .pure _
    · exact .fail
  refine bind (follows_accept '=' fun _ => by decide) fun refers u _ => ?_
  dsimp only [id]
  split
  · exact follows_namedReference flags
  · exact .fail

theorem follows_testBefore (flags : Flags) :
    Follows e o (Opening.renumber e.shift) (testBefore n flags) (testBefore m flags) r := by
  refine follows_take (fun _ _ => .fail) (fun t rest _ => ?_) fun _ _ => .fail
  split
  · exact bind (ih.lookBehind hnm flags false _ o) fun p _ _ => .pure _
  · exact bind (ih.lookBehind hnm flags true _ o) fun p _ _ => .pure _
  · exact .fail

theorem follows_parenthesis (flags : Flags) :
    Follows e o (Opening.renumber e.shift) (parenthesis (n + 1) flags)
      (parenthesis (m + 1) flags) r := by
  unfold parenthesis
  refine bind (follows_accept '?' fun _ => by decide) fun special s _ => ?_
  dsimp only [id]
  split
  · exact bind (ih.numbered hnm flags none s o) fun p _ _ => .pure _
  refine follows_take
    (fun _ _ => .bind fun g r s hg => (yields_flagGroup_dangling r g s hg).elim)
    (fun t rest hrest => ?_) fun _ _ => .fail
  split
  · exact .fail
  · exact bind (ih.enclosed hnm flags _ o) fun p _ _ => .pure _
  · exact bind (ih.enclosed hnm flags _ o) fun p _ _ => .pure _
  · refine follows_remaining (bind (follows_skipComment ')' nofun (by omega)) fun _ _ _ => ?_)
    exact .pure _
  · exact follows_named ih hnm flags
  · exact bind (ih.lookAhead hnm flags false _ o) fun p _ _ => .pure _
  · exact bind (ih.lookAhead hnm flags true _ o) fun p _ _ => .pure _
  · exact follows_testBefore ih hnm flags
  · exact follows_condition ih hnm flags
  · refine bind (follows_flagGroup _) fun group u _ => ?_
    dsimp only [id]
    split
    · exact .pure _
    · exact bind (ih.enclosed hnm _ u o) fun p _ _ => .pure _

theorem follows_turn {flags : Flags} {top : Bool} (top' : Bool) {found : List Part}
    (htop : top = false ∨ found ≠ []) (t : Token) :
    Follows e (flags.verbose = false ∨ t ≠ .plain '#') (renumberTurn e.shift)
      (turn n flags top found t) (turn m flags top' (found.map (Part.renumber e.shift)) t) r := by
  unfold turn
  split
  · exact .fail
  · exact bind (follows_escape flags _) fun p s _ => .pure _
  split
  · exact .pure _
  split
  · rename_i hcomment
    rw [Bool.and_eq_true, beq_iff_eq] at hcomment
    obtain ⟨hverbose, rfl⟩ := hcomment
    -- only a comment may run on behind the end of the part
    refine follows_remaining (bind (follows_skipComment '\n' (fun _ hend => ?_) (by omega)) ?_)
    · rcases hend with hplain | hne
      · rw [hverbose] at hplain
        cases hplain
      · exact hne rfl
    · exact fun _ s _ => .pure _
  unfold turnAt
  split
  · exact bind (follows_classBody flags) fun p s _ => .pure _
  · exact .pure _
  · exact .pure _
  · exact .pure _
  · refine bind (ih.parenthesis hnm flags r _) fun opening s _ => ?_
    cases opening with
    | part p => exact .pure _
    | nothing => exact .pure _
    | flags more =>
      have hlate : (top && found.isEmpty) = false := by
        rcases htop with rfl | hne
        · rfl
        · simp [hne]
      rw [afterOpening, hlate]
      exact .fail
  · split
    · refine bind (follows_counts _) fun counts s _ => ?_
      cases counts with
      | none => exact .pure _
      | some bounds => exact bind (follows_repeatLatest flags _ _ _) fun parts u _ => .pure _
    · exact .pure _

theorem follows_sequence {flags : Flags} {top : Bool} (top' : Bool) {found : List Part}
    (htop : top = false ∨ found ≠ []) :
    Follows e (flags.verbose = false) (renumberRead e.shift) (sequence (n + 1) flags top found)
      (sequence (m + 1) flags top' (found.map (Part.renumber e.shift))) r := by
  rw [sequence_succ, sequence_succ]
  have hend : Follows e (flags.verbose = false) (renumberRead e.shift)
      (pure (.seqAll found.reverse, flags))
      (pure (.seqAll (found.map (Part.renumber e.shift)).reverse, flags)) r := by
    refine .pure_of ?_
    rw [← List.map_reverse]
    exact congrArg (·, flags) (renumber_seqAll _).symm
  refine follows_peek (fun t rest hrest => ?_) fun hnil t ht => ?_
  · split
    · exact hend
    · exact hend
    · exact hend
    rename_i u hbar hclose heq
    obtain rfl := Option.some.inj heq
    refine follows_take (fun _ hrest' => ?_) (fun u rest' hrest' => ?_)
      fun hnil => by simp [hrest] at hnil
    · obtain ⟨rfl, -⟩ := List.cons.inj (hrest.symm.trans hrest')
      exact .fail_bind
    obtain ⟨rfl, rfl⟩ := List.cons.inj (hrest.symm.trans hrest')
    refine bind ((follows_turn ih hnm top' htop t).weaken .inl) fun x s hx => ?_
    obtain ⟨more, parts⟩ := x
    obtain ⟨hflags, hfound⟩ := keeps_turn htop hx
    obtain rfl : more = flags := hflags
    exact ih.sequence hnm top' (htop.imp_right hfound) s
  · rcases ht with rfl | rfl | rfl
    · exact hend
    · exact hend
    · exact hend

omit ih hnm

/-- **Following.** Every reading with a bound is followed in a frame. -/
theorem tracks (e : Frame) (n : Nat) : Tracks e n := by
  induction n with
  | zero =>
    constructor
    all_goals intros; exact .fail
  | succ n ih =>
    constructor
    -- a larger bound is not zero either
    all_goals
      intro m hnm
      obtain ⟨m, rfl⟩ := Nat.exists_eq_succ_of_ne_zero (Nat.ne_zero_of_lt hnm)
      replace hnm := Nat.le_of_succ_le_succ hnm
    · exact fun flags r => follows_alternatives ih hnm flags
    · exact fun flags r => follows_moreAlternatives ih hnm flags
    · intro flags top top' found htop r
      exact follows_sequence ih hnm top' htop
    · exact fun flags r o => follows_parenthesis ih hnm flags
    · exact fun flags r o => follows_enclosed ih hnm flags
    · exact fun flags label r o => follows_numbered ih hnm flags label
    · exact fun flags negated r o => follows_lookAhead ih hnm flags negated
    · exact fun flags negated r o => follows_lookBehind ih hnm flags negated

end LangId.Regex.Reader
