import LangId.Proofs.Regex.Following

/-!
# Readings of signs

Flags, the openings and ends of groups, repetitions and comments follow their counterparts in a
frame. Three of them say more than that the frame does not show. The name of a group is where the
two readings part (`follows_openGroup`); counts in braces may turn out to be none, and the reading
goes back then, so that what is followed is a whole beginning (`FollowsFrom`), behind which only
tokens have been taken so far (`Took`); and a comment may end at the end of the part only where
comments are part of groups (`follows_skipComment`).
-/
namespace LangId.Regex.Reader

open LangId.Text Follows

variable {α γ δ : Type} {e : Frame} {o : Prop} {r : Reader}

/-! ## Flags -/

theorem follows_flagsOn {n m : Nat} (hnm : n ≤ m) (found : Flags) (t : Token) :
    Follows e o id (flagsOn n found t) (flagsOn m found t) r := by
  induction n generalizing m r found t with
  | zero => exact .fail
  | succ n ih =>
    cases m with
    | zero => omega
    | succ m =>
      unfold flagsOn
      split
      · split
        · exact .fail
        · dsimp only
          split
          · exact .fail_bind
          · refine follows_take (fun _ _ => .fail) (fun u rest hrest => ?_) fun _ _ => .fail
            split
            · split
              · exact .pure _
              · exact ih (by omega) _ _
            · exact .fail
      · exact .fail

theorem follows_flagsOff {n m : Nat} (hnm : n ≤ m) (found : Flags) (t : Token) :
    Follows e o id (flagsOff n found t) (flagsOff m found t) r := by
  induction n generalizing m r found t with
  | zero => exact .fail
  | succ n ih =>
    cases m with
    | zero => omega
    | succ m =>
      unfold flagsOff
      split
      · split
        · exact .fail
        · dsimp only
          split
          · exact .fail_bind
          · refine follows_take (fun _ _ => .fail) (fun u rest hrest => ?_) fun _ _ => .fail
            split
            · split
              · exact .pure _
              · exact ih (by omega) _ _
            · exact .fail
      · exact .fail

theorem follows_flagGroup (t : Token) : Follows e o id (flagGroup t) (flagGroup t) r := by
  refine follows_remaining ?_
  dsimp only
  split
  case' isTrue => refine pure_bind ?_
  case' isFalse => refine bind (follows_flagsOn (by omega) _ _) fun x s _ => ?_
  all_goals
    dsimp only [id]
    split
    · exact .pure _
    split
    · exact .fail_bind
    split
    · exact .pure _
    refine follows_take (fun _ _ => .fail) (fun u rest hrest => ?_) fun _ _ => .fail
    dsimp only
    refine bind (follows_flagsOff (by omega) _ _) fun off _ _ => ?_
    dsimp only [id]
    split
    · exact .fail_bind
    · exact .pure _

/-- No flags begin with a lone backslash. -/
theorem yields_flagGroup_dangling : Yields (fun _ => False) (flagGroup .dangling) :=
  .bind fun _ _ _ _ => .fail_bind

/-! ## Groups -/

theorem follows_conditionGroup (found : List Char) :
    Follows e o (· + e.shift) (conditionGroup found) (conditionGroup found) r := by
  unfold conditionGroup
  split
  · refine get_bind ?_
    split
    · rename_i index hindex
      rw [Frame.lookup_names hindex]
      exact .pure index
    · exact .fail
  · split
    · exact .fail
    · exact .fail
    · refine follows_refer _ (.pure _) fun hshift => ?_
      rw [hshift]
      rfl

/-- A condition names a group from the first one on. -/
theorem one_le_conditionGroup {found : List Char} {index : Nat} {s : Reader} (hr : r.Sound)
    (h : conditionGroup found r = .ok (index, s)) : 1 ≤ index := by
  cases hid : isIdentifier found with
  | true =>
    rw [conditionGroup, if_pos hid] at h
    obtain ⟨u, v, hget, h⟩ := Reader.bind_eq_ok.1 h
    cases hget
    cases hl : r.names.lookup found with
    | none =>
      rw [hl] at h
      cases h
    | some i =>
      rw [hl] at h
      cases h
      obtain ⟨pre, post, hsplit, -⟩ := List.lookup_eq_some_iff.1 hl
      exact hr.names (found, index) (by simp [hsplit])
  | false =>
    rw [conditionGroup, if_neg (Bool.eq_false_iff.1 hid)] at h
    cases hg : groupNumber? found with
    | none =>
      rw [hg] at h
      cases h
    | some i =>
      rw [hg] at h
      cases i with
      | zero => cases h
      | succ i =>
        cases h
        omega

theorem openGroup_some (label : List Char) (r : Reader) : openGroup (some label) r =
    if (r.names.lookup label).isSome then .error (.malformed .duplicateName)
    else .ok (r.groups,
      { r with groups := r.groups + 1, names := (label, r.groups) :: r.names }) := by
  have hrun : openGroup (some label) r = (if (r.names.lookup label).isSome then do
      fail .duplicateName
      set { r with groups := r.groups + 1, names := (label, r.groups) :: r.names }
      return r.groups
    else do
      set { r with groups := r.groups + 1, names := (label, r.groups) :: r.names }
      return r.groups : Reading Nat) r := rfl
  rw [hrun]
  cases (r.names.lookup label).isSome <;> rfl

theorem lt_of_openGroup {label : Option (List Char)} {index : Nat} {s : Reader}
    (h : openGroup label r = .ok (index, s)) : index < s.groups := by
  cases label with
  | none =>
    cases h
    exact Nat.lt_succ_self _
  | some label =>
    rw [openGroup_some] at h
    split at h
    · cases h
    · cases h
      exact Nat.lt_succ_self _

theorem follows_openGroup (label : Option (List Char)) :
    Follows e o (· + e.shift) (openGroup label) (openGroup label) r := by
  cases label with
  | none =>
    intro _ index r' h
    cases h
    have hsound (hs : r.Sound) : Reader.Sound { r with groups := r.groups + 1 } :=
      ⟨Nat.le_add_left 1 r.groups, hs.names, fun w hw => Nat.lt_succ_of_lt (hs.widths w hw)⟩
    refine ⟨⟨List.suffix_refl _, id, List.suffix_refl _, rfl, Nat.le_succ _,
      List.suffix_refl _, hsound⟩, fun hapart _ _ => ?_⟩
    refine ⟨fun _ => ?_, fun h => absurd hapart h⟩
    have hrun : openGroup none (e.embed r) =
        .ok (r.groups + e.shift, { e.embed r with groups := r.groups + e.shift + 1 }) := rfl
    rw [hrun, Nat.add_right_comm]
    rfl
  | some label =>
    have hrun := openGroup_some label
    intro _ index r' h
    rw [hrun] at h
    split at h
    · cases h
    rename_i hnone
    cases h
    have hown := Frame.lookup_names_of_none (e := e) (Option.not_isSome_iff_eq_none.1 hnone)
    have hsound (hs : r.Sound) :
        Reader.Sound { r with groups := r.groups + 1, names := (label, r.groups) :: r.names } :=
      ⟨Nat.le_add_left 1 r.groups, List.forall_mem_cons.2 ⟨hs.groups, hs.names⟩,
        fun w hw => Nat.lt_succ_of_lt (hs.widths w hw)⟩
    refine ⟨⟨List.suffix_refl _, id, List.suffix_cons _ _, rfl, Nat.le_succ _,
      List.suffix_refl _, hsound⟩, fun hapart _ _ => ?_⟩
    rw [hrun, hown]
    constructor
    · intro h
      have hfree := h _ List.mem_cons_self
      rw [← Frame.isSome_lookup_iff] at hfree
      rw [if_neg hfree]
      simp [Frame.embed, Nat.add_right_comm]
    · intro h
      rw [if_pos]
      rw [Frame.isSome_lookup_iff]
      refine Decidable.byContradiction fun hfree => h ?_
      exact List.forall_mem_cons.2 ⟨hfree, hapart⟩

theorem rest_of_closeParenthesis {s : Reader} (h : closeParenthesis r = .ok ((), s)) :
    r.rest = .plain ')' :: s.rest := by
  obtain ⟨closed, u, hclosed, h⟩ := Reader.bind_eq_ok.1 h
  cases closed with
  | true =>
    cases h
    exact rest_of_accept hclosed
  | false => cases h

/-- At the end of the part nothing closes, whatever the frame shows there. -/
theorem follows_closeParenthesis : Follows e o id closeParenthesis closeParenthesis r := by
  by_cases hnil : r.rest = []
  · intro _ a s h
    have hrest := rest_of_closeParenthesis h
    rw [hnil] at hrest
    cases hrest
  refine bind (follows_accept_within ')' hnil) fun closed _ _ => ?_
  dsimp only [id]
  split
  · exact .pure ()
  · exact .fail

/-! ## Repetitions and comments -/

theorem follows_defer (fault : Fault) : Follows e o id (defer fault) (defer fault) r := by
  intro _ a r' h
  cases h
  exact ⟨⟨List.suffix_refl _, id, List.suffix_refl _, rfl, Nat.le_refl _, List.suffix_refl _,
    fun hs => ⟨hs.groups, hs.names, hs.widths⟩⟩, fun hapart _ _ =>
    ⟨fun _ => rfl, fun h => absurd hapart h⟩⟩

/-- A repetition of a part, from behind its counts: a sign may follow that says how often it is
tried. -/
def repeated (p : Part) (least : Nat) (largest : Option Nat) (rest : List Part) :
    Reading (List Part) := do
  if ← accept '?' then return p.loop least largest .lazy :: rest
  if ← accept '+' then return p.loop least largest .possessive :: rest
  return p.loop least largest .greedy :: rest

theorem repeatLatest_cons (flags : Flags) (least : Nat) (largest : Option Nat) (p : Part)
    (rest : List Part) : repeatLatest flags least largest (p :: rest) =
      (match p.kind with
      | .anchor => fail .nothingToRepeat
      | .loop => fail .repeatedRepeat
      | .other => do
        if flags.template then defer .repeatNotAllowed
        repeated p least largest rest) := rfl

theorem follows_repeated (p : Part) (least : Nat) (largest : Option Nat) (rest : List Part) :
    Follows e o (List.map (Part.renumber e.shift)) (repeated p least largest rest)
      (repeated (p.renumber e.shift) least largest (rest.map (Part.renumber e.shift))) r := by
  refine bind (follows_accept '?' fun _ => by decide) fun _ _ _ => ?_
  dsimp only [id]
  split
  · exact .pure _
  refine bind (follows_accept '+' fun _ => by decide) fun _ _ _ => ?_
  dsimp only [id]
  split
  · exact .pure _
  · exact .pure _

theorem follows_repeatLatest (flags : Flags) (least : Nat) (largest : Option Nat)
    (found : List Part) :
    Follows e o (List.map (Part.renumber e.shift)) (repeatLatest flags least largest found)
      (repeatLatest flags least largest (found.map (Part.renumber e.shift))) r := by
  cases found with
  | nil => exact .fail
  | cons p rest =>
    rw [List.map_cons, repeatLatest_cons, repeatLatest_cons]
    simp only [Part.renumber]
    split
    · exact .fail
    · exact .fail
    · split
      · exact bind (follows_defer _) fun _ _ _ => follows_repeated p least largest rest
      · exact follows_repeated p least largest rest

/-- A repetition leaves a part. -/
theorem repeated_ne_nil {p : Part} {least : Nat} {largest : Option Nat} {rest parts : List Part}
    {s : Reader} (h : repeated p least largest rest r = .ok (parts, s)) : parts ≠ [] := by
  obtain ⟨reluctant, u, -, h⟩ := Reader.bind_eq_ok.1 h
  cases reluctant with
  | true =>
    cases h
    exact List.cons_ne_nil _ _
  | false =>
    obtain ⟨possessive, v, -, h⟩ := Reader.bind_eq_ok.1 h
    cases possessive <;>
    · cases h
      exact List.cons_ne_nil _ _

theorem repeatLatest_ne_nil {flags : Flags} {least : Nat} {largest : Option Nat}
    {found parts : List Part} {s : Reader}
    (h : repeatLatest flags least largest found r = .ok (parts, s)) : parts ≠ [] := by
  cases found with
  | nil => cases h
  | cons p rest =>
    rw [repeatLatest_cons] at h
    cases hkind : p.kind with
    | anchor | loop =>
      rw [hkind] at h
      cases h
    | other =>
      rw [hkind] at h
      cases htemplate : flags.template with
      | true =>
        rw [htemplate] at h
        obtain ⟨_, u, -, h⟩ := Reader.bind_eq_ok.1 h
        exact repeated_ne_nil h
      | false =>
        rw [htemplate] at h
        exact repeated_ne_nil h

theorem follows_skipComment (terminator : Char) {endAllowed : Bool} (h : endAllowed = true → ¬o)
    {n m : Nat} (hnm : n ≤ m) :
    Follows e o id (skipComment terminator endAllowed n) (skipComment terminator endAllowed m) r := by
  induction n generalizing m r with
  | zero => exact .fail
  | succ n ih =>
    cases m with
    | zero => omega
    | succ m =>
      refine follows_take (fun _ _ => .fail) (fun t rest hrest => ?_) fun hnil y => ?_
      · cases t with
        | dangling => exact .fail
        | plain c | escaped c =>
          dsimp only
          split
          · exact .pure ()
          · exact ih (by omega)
      · cases endAllowed with
        | true => exact atEnd (h rfl) hnil
        | false => exact .fail

/-! ## Counts -/

/-- Only tokens have been taken. -/
def Took (r s : Reader) : Prop := s = { r with rest := s.rest }

namespace Took

variable {s u : Reader}

theorem refl (r : Reader) : Took r r := rfl

theorem trans (h : Took r s) (h' : Took s u) : Took r u := by
  unfold Took at h h' ⊢
  rw [h', h]

theorem apart (h : Took r s) (hapart : e.Apart r) : e.Apart s := by
  rw [h]
  exact hapart

theorem allows (h : Took r s) (hallows : e.Allows r) : e.Allows s := by
  rw [h]
  exact hallows

end Took

theorem took_takeWhile {p : Char → Bool} {n : Nat} {cs : List Char} {s : Reader}
    (h : takeWhile p n r = .ok (cs, s)) : Took r s := by
  induction n generalizing r cs with
  | zero =>
    cases h
    exact .refl _
  | succ n ih =>
    rw [takeWhile_succ] at h
    cases hrest : r.rest with
    | nil =>
      rw [hrest] at h
      cases h
      exact .refl _
    | cons t rest =>
      rw [hrest] at h
      cases t with
      | plain c =>
        simp only [List.head?_cons] at h
        split at h
        · obtain ⟨_, u, htake, h⟩ := Reader.bind_eq_ok.1 h
          rw [take_cons hrest] at htake
          cases htake
          obtain ⟨ds, v, hds, h⟩ := Reader.bind_eq_ok.1 h
          cases h
          have hfirst : Took r { r with rest } := rfl
          exact hfirst.trans (ih hds)
        · cases h
          exact .refl _
      | escaped c | dangling =>
        cases h
        exact .refl _

theorem took_accept {c : Char} {b : Bool} {s : Reader} (h : accept c r = .ok (b, s)) : Took r s := by
  rw [accept_apply] at h
  split at h
  · cases h
    rfl
  · cases h
    rfl

/-- A reading in a frame follows a reading on its own that has begun at `r` and may go back there. -/
def FollowsFrom {α β : Type} (e : Frame) (o : Prop) (φ : α → β) (r : Reader) (x : Reading α)
    (y : Reading β) (s : Reader) : Prop :=
  r.Sound → ∀ a r', x s = .ok (a, r') → Later r r' ∧
    (e.Apart r → e.Allows r' → (o ∨ r'.rest ≠ []) →
      (e.Apart r' → y (e.embed s) = .ok (φ a, e.embed r')) ∧
      (¬e.Apart r' → y (e.embed s) = .error (.malformed .duplicateName)))

namespace FollowsFrom

variable {α β γ δ : Type} {φ : α → β} {ψ : γ → δ} {s : Reader}

theorem of_follows {x : Reading α} {y : Reading β} (hl : Later r s) (ht : Took r s)
    (h : Follows e o φ x y s) : FollowsFrom e o φ r x y s := by
  intro hsound a r' ha
  obtain ⟨hl', hy⟩ := h (hl.sound hsound) a r' ha
  exact ⟨hl.trans hl', fun hapart => hy (ht.apart hapart)⟩

theorem bind {x : Reading α} {y : Reading β} {f : α → Reading γ} {g : β → Reading δ}
    (hl : Later r s) (ht : Took r s) (hx : Follows e True φ x y s)
    (hxt : ∀ a u, x s = .ok (a, u) → Took s u)
    (hf : ∀ a u, x s = .ok (a, u) → Later r u → Took r u →
      FollowsFrom e o ψ r (f a) (g (φ a)) u) :
    FollowsFrom e o ψ r (x >>= f) (y >>= g) s := by
  intro hsound c r' hc
  obtain ⟨a, u, ha, hc⟩ := Reader.bind_eq_ok.1 hc
  obtain ⟨hlu, hy⟩ := hx (hl.sound hsound) a u ha
  have htu : Took r u := ht.trans (hxt a u ha)
  obtain ⟨hl', hg⟩ := hf a u ha (hl.trans hlu) htu hsound c r' hc
  refine ⟨hl', fun hapart hallows hend => ?_⟩
  have hstart : e.Allows r := hallows.before hl'
  have hread := hy (ht.apart hapart) (htu.allows hstart) (.inl trivial)
  rw [bind_of_ok (hread.1 (htu.apart hapart))]
  exact hg hapart hallows hend

/-- Going back. -/
theorem back {a : α} : FollowsFrom e o φ r (set r >>= fun _ => pure a)
    (set (e.embed r) >>= fun _ => pure (φ a)) s := by
  intro _ b r' h
  cases h
  exact ⟨Later.refl r, fun hapart _ _ => ⟨fun _ => rfl, fun h => absurd hapart h⟩⟩

end FollowsFrom

/-- The last checks of counts. -/
def checkCounts (least : Nat) (largest : Option Nat) : Reading (Option (Nat × Option Nat)) := do
  if least ≥ countLimit || largest.any (· ≥ countLimit) then throw .countTooLarge
  if largest.any (· < least) then fail .emptyCounts
  return some (least, largest)

theorem follows_checkCounts (least : Nat) (largest : Option Nat) :
    Follows e o id (checkCounts least largest) (checkCounts least largest) r := by
  unfold checkCounts
  dsimp only
  split
  · exact .throw_bind
  split
  · exact .fail_bind
  · exact .pure _

/-- How counts in braces end, whose least and largest have been read; without a closing brace there
are none. -/
def closeCounts (start : Reader) (low high : List Char) : Reading (Option (Nat × Option Nat)) := do
  if !(← accept '}') then
    set start
    return none
  let ended := (← peek) == some .dangling
  if ended then fail .badEscape
  checkCounts (number 10 low) (if high.isEmpty then none else some (number 10 high))

theorem followsFrom_closeCounts (low high : List Char) {s : Reader} (hl : Later r s)
    (ht : Took r s) :
    FollowsFrom e o id r (closeCounts r low high) (closeCounts (e.embed r) low high) s := by
  refine FollowsFrom.bind hl ht (follows_accept '}' fun _ => by decide) (fun _ _ => took_accept)
    fun closed u _ hlu htu => ?_
  dsimp only [id]
  split
  · exact FollowsFrom.back
  refine FollowsFrom.of_follows hlu htu (follows_peek (fun t rest _ => ?_) fun _ t ht => ?_)
  · split
    · exact .fail_bind
    · exact follows_checkCounts _ _
  · -- nothing that the frame shows at the end of the part is a lone backslash
    have hended : (t == some .dangling) = false := by rcases ht with rfl | rfl | rfl <;> rfl
    rw [hended, show ((none : Option Token) == some .dangling) = false from rfl]
    exact follows_checkCounts _ _

/-- Counts in braces, from behind the opening brace. -/
def bracedCounts : Reading (Option (Nat × Option Nat)) := do
  let start ← get
  if start.rest.head? == some (.plain '\x7d') then return none
  let bound ← remaining
  let low ← takeWhile isAsciiDigit bound
  let ranged ← accept ','
  let high ← if ranged then takeWhile isAsciiDigit bound else pure low
  closeCounts start low high

theorem counts_eq (sign : Char) : counts sign =
    match sign with
    | '?' => pure (some (0, some 1))
    | '*' => pure (some (0, none))
    | '+' => pure (some (1, none))
    | _ => bracedCounts := rfl

theorem follows_bracedCounts : Follows e o id bracedCounts bracedCounts r := by
  refine get_bind ?_
  have hhead : ((e.embed r).rest.head? == some (.plain '\x7d')) =
      (r.rest.head? == some (.plain '\x7d')) := by
    rw [Frame.embed]
    cases r.rest with
    | cons t rest => rfl
    | nil =>
      rw [List.nil_append]
      rcases head?_tail (e := e) with h | h | h <;> rw [h] <;> rfl
  rw [hhead]
  refine Follows.ite (fun _ => .pure none) fun _ => follows_remaining ?_
  refine FollowsFrom.bind (.refl r) (.refl r) (follows_takeWhile (by decide) (by omega) (.inr (by omega)))
    (fun _ _ => took_takeWhile) fun low s _ hl ht => ?_
  refine FollowsFrom.bind hl ht (follows_accept ',' fun _ => by decide) (fun _ _ => took_accept)
    fun ranged u _ hl ht => ?_
  dsimp only [id]
  split
  · refine FollowsFrom.bind hl ht
      (follows_takeWhile (by decide) (by omega) (.inr hl.rest.length_le))
      (fun _ _ => took_takeWhile) fun high v _ hl ht => ?_
    exact followsFrom_closeCounts low high hl ht
  · exact followsFrom_closeCounts low low hl ht

theorem follows_counts (sign : Char) : Follows e o id (counts sign) (counts sign) r := by
  rw [counts_eq]
  split
  · exact .pure _
  · exact .pure _
  · exact .pure _
  · exact follows_bracedCounts

end LangId.Regex.Reader
