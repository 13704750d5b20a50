import LangId.Proofs.Regex.Framing

/-!
# Readings of tokens

The readings that look at tokens one after the other follow their counterparts in a frame token by
token: names and codes, classes, and escapes. Those with a bound on their steps may have a larger
one in the frame, where more tokens are left. A reference by number notes its number, and is followed
where the frame allows what has been noted (`follows_refer`).
-/
namespace LangId.Regex.Reader

open LangId.Text Follows

variable {α γ δ : Type} {e : Frame} {o : Prop} {r : Reader}

/-! ## Single tokens -/

/-- The frame shows behind the part: the pattern ends there, or a sign stands there that ends parts. -/
theorem head?_tail : e.tail.head? = none ∨ e.tail.head? = some (.plain '|') ∨
    e.tail.head? = some (.plain ')') := by
  cases h : e.tail.head? with
  | none => exact .inl rfl
  | some t => exact .inr ((e.tail_ends t h).imp (congrArg some) (congrArg some))

theorem peek_apply (r : Reader) : peek r = .ok (r.rest.head?, r) := rfl

theorem follows_peek {ψ : γ → δ} {f : Option Token → Reading γ} {g : Option Token → Reading δ}
    (h : ∀ t rest, r.rest = t :: rest → Follows e o ψ (f (some t)) (g (some t)) r)
    (hend : r.rest = [] → ∀ t, t = none ∨ t = some (.plain '|') ∨ t = some (.plain ')') →
      Follows e o ψ (f none) (g t) r) :
    Follows e o ψ (peek >>= f) (peek >>= g) r := by
  have hf : (peek >>= f) r = f r.rest.head? r := rfl
  have hg : (peek >>= g) (e.embed r) = g (r.rest ++ e.tail).head? (e.embed r) := rfl
  intro hsound c r' hc
  rw [hf] at hc
  rw [hg]
  cases hrest : r.rest with
  | nil =>
    rw [hrest] at hc
    exact hend hrest _ head?_tail hsound c r' hc
  | cons t rest =>
    rw [hrest] at hc
    exact h t rest hrest hsound c r' hc

theorem take_nil (h : r.rest = []) : take r = .ok (none, r) := by
  cases r
  obtain rfl := h
  rfl

theorem take_cons {t : Token} {rest : List Token} (h : r.rest = t :: rest) :
    take r = .ok (some t, { r with rest }) := by
  cases r
  obtain rfl := h
  rfl

/-- A token is taken, after which a lone backslash is refused. -/
theorem follows_take {ψ : γ → δ} {f : Option Token → Reading γ} {g : Option Token → Reading δ}
    (hdangling : ∀ rest, r.rest = .dangling :: rest → Yields (fun _ => False) (f (some .dangling)))
    (h : ∀ t rest, r.rest = t :: rest → Follows e o ψ (f (some t)) (g (some t)) { r with rest })
    (hend : r.rest = [] → ∀ y, Follows e o ψ (f none) y r) :
    Follows e o ψ (take >>= f) (take >>= g) r := by
  intro hsound c r' hc
  cases hrest : r.rest with
  | nil =>
    rw [bind_of_ok (take_nil hrest)] at hc
    exact hend hrest _ hsound c r' hc
  | cons t rest =>
    rw [bind_of_ok (take_cons hrest)] at hc
    have ht : .dangling ∉ [t] := by
      intro hmem
      obtain rfl := List.mem_singleton.1 hmem
      exact hdangling rest hrest _ _ _ hc
    have hl : Later r { r with rest } := .ofRest [t] hrest ht
    obtain ⟨hl', hg⟩ := h t rest hrest (hl.sound hsound) c r' hc
    refine ⟨hl.trans hl', fun hapart hallows hend => ?_⟩
    have htake : take (e.embed r) = .ok (some t, e.embed { r with rest }) :=
      take_cons (by simp [Frame.embed, hrest])
    rw [bind_of_ok htake]
    exact hg hapart hallows hend

theorem follows_remaining {ψ : γ → δ} {f : Nat → Reading γ} {g : Nat → Reading δ}
    (h : Follows e o ψ (f r.rest.length) (g (r.rest.length + e.tail.length)) r) :
    Follows e o ψ (remaining >>= f) (remaining >>= g) r := by
  have hg : (remaining >>= g) (e.embed r) = g (r.rest ++ e.tail).length (e.embed r) := rfl
  intro hsound c r' hc
  rw [hg, List.length_append]
  exact h hsound c r' hc

theorem accept_apply (c : Char) (r : Reader) : accept c r =
    if r.rest.head? == some (.plain c) then .ok (true, { r with rest := r.rest.tail })
    else .ok (false, r) := by
  have hrun : accept c r = (if r.rest.head? == some (.plain c) then do
      let _ ← take
      return true
    else return false : Reading Bool) r := rfl
  rw [hrun]
  cases hrest : r.rest with
  | nil => rfl
  | cons t rest =>
    split
    · rw [bind_of_ok (take_cons hrest)]
      rfl
    · rfl

theorem rest_of_accept {c : Char} {s : Reader} (h : accept c r = .ok (true, s)) :
    r.rest = .plain c :: s.rest := by
  rw [accept_apply] at h
  split at h
  · rename_i hhead
    cases h
    cases hrest : r.rest with
    | nil => simp [hrest] at hhead
    | cons t rest =>
      rw [hrest, List.head?_cons, beq_iff_eq, Option.some.injEq] at hhead
      rw [hhead, List.tail_cons]
  · cases h

/-- Before the end of the part any sign is taken as it is on its own. -/
theorem follows_accept_within (c : Char) (h : r.rest ≠ []) :
    Follows e o id (accept c) (accept c) r := by
  refine follows_peek (fun t rest hrest => ?_) fun hnil => absurd hnil h
  split
  · rename_i heq
    obtain rfl := Option.some.inj (eq_of_beq heq)
    exact follows_take (fun _ hrest' => by simp [hrest] at hrest') (fun _ _ _ => .pure true)
      fun hnil => absurd hnil h
  · exact .pure false

/-- A sign is taken or not; one that ends parts only where the part does not end. -/
theorem follows_accept (c : Char) (hc : o → c ≠ '|' ∧ c ≠ ')') :
    Follows e o id (accept c) (accept c) r := by
  by_cases hne : r.rest ≠ []
  · exact follows_accept_within c hne
  refine follows_peek (fun t rest hrest => ?_) fun hend t ht => ?_
  · exact absurd (hrest ▸ List.cons_ne_nil t rest) hne
  · by_cases ho : o
    · have hne : t ≠ some (.plain c) := by
        rcases ht with rfl | rfl | rfl
        · nofun
        · intro heq
          exact (hc ho).1 (Token.plain.inj (Option.some.inj heq)).symm
        · intro heq
          exact (hc ho).2 (Token.plain.inj (Option.some.inj heq)).symm
      simp only [beq_eq_false_iff_ne.2 hne]
      exact .pure false
    · exact atEnd ho hend

theorem takeWhile_succ (p : Char → Bool) (n : Nat) (r : Reader) : takeWhile p (n + 1) r =
    (match r.rest.head? with
    | some (.plain c) =>
      if p c then do
        let _ ← take
        return c :: (← takeWhile p n)
      else return []
    | _ => return [] : Reading (List Char)) r := rfl

theorem follows_takeWhile {p : Char → Bool} (hp : p '|' = false ∧ p ')' = false) {n m : Nat}
    (hnm : n ≤ m) (hbound : n = m ∨ r.rest.length ≤ n) :
    Follows e o id (takeWhile p n) (takeWhile p m) r := by
  induction n generalizing m r with
  | zero =>
    rcases hbound with rfl | hlength
    · exact .pure []
    · have hnil : r.rest = [] := List.length_eq_zero_iff.1 (by omega)
      refine .stop ?_
      cases m with
      | zero => rfl
      | succ m =>
        rw [takeWhile_succ, Frame.embed, hnil, List.nil_append]
        rcases head?_tail (e := e) with h | h | h
        · rw [h]
          rfl
        all_goals
          rw [h]
          simp only [hp]
          rfl
  | succ n ih =>
    cases m with
    | zero => omega
    | succ m =>
      refine follows_peek (fun t rest hrest => ?_) fun hend t ht => ?_
      · cases t with
        | plain c =>
          dsimp only
          split
          · refine follows_take (fun _ hrest' => by simp [hrest] at hrest')
              (fun u rest' hrest' => ?_) fun hnil => by simp [hrest] at hnil
            refine bind (ih (by omega) ?_) fun _ _ _ => .pure _
            rw [hrest'] at hbound
            rcases hbound with heq | hlength
            · exact .inl (by omega)
            · exact .inr (by simpa using hlength)
          · exact .pure []
        | escaped c => exact .pure []
        | dangling => exact .pure []
      · rcases ht with rfl | rfl | rfl
        · exact .pure []
        all_goals
          simp only [hp]
          exact .pure []

/-! ## Names and codes -/

theorem follows_takeName (terminator : Char) {n m : Nat} (hnm : n ≤ m) :
    Follows e o id (takeName terminator n) (takeName terminator m) r := by
  induction n generalizing m r with
  | zero => exact .fail
  | succ n ih =>
    cases m with
    | zero => omega
    | succ m =>
      refine follows_take (fun _ _ => .fail) (fun t rest hrest => ?_) fun _ _ => .fail
      cases t with
      | dangling => exact .fail
      | plain c | escaped c =>
        dsimp only
        split
        · exact .pure []
        · exact bind (ih (by omega)) fun _ _ _ => .pure _

theorem follows_name (terminator : Char) : Follows e o id (name terminator) (name terminator) r := by
  refine follows_remaining (bind (follows_takeName terminator (by omega)) fun found _ _ => ?_)
  dsimp only [id]
  split
  · exact .fail
  · exact .pure found

theorem follows_hexCode (n : Nat) : Follows e o id (hexCode n) (hexCode n) r := by
  refine bind (follows_takeWhile (by decide) (Nat.le_refl n) (.inl rfl)) fun digits _ _ => ?_
  dsimp only [id]
  split
  · exact .fail
  · exact .pure _

theorem follows_escapedCode (c : Char) : Follows e o id (escapedCode c) (escapedCode c) r := by
  unfold escapedCode
  split
  · exact follows_hexCode 2
  · exact follows_hexCode 4
  · refine bind (follows_hexCode 8) fun code _ _ => ?_
    dsimp only [id]
    split
    · exact .pure code
    · exact .fail
  all_goals first
    | exact .pure _
    | skip
  split
  · exact .fail
  · exact .pure _

/-! ## Classes -/

theorem follows_classEscape (c : Char) : Follows e o id (classEscape c) (classEscape c) r := by
  unfold classEscape
  split
  · exact .pure _
  · split
    · exact .pure _
    · split
      · refine bind (follows_takeWhile (by decide) (Nat.le_refl 2) (.inl rfl)) fun more _ _ => ?_
        dsimp only [id]
        split
        · exact .fail
        · exact .pure _
      · exact bind (follows_escapedCode c) fun _ _ _ => .pure _

theorem follows_classMember (t : Token) : Follows e o id (classMember t) (classMember t) r := by
  cases t with
  | plain c => exact .pure _
  | escaped c => exact follows_classEscape c
  | dangling => exact .fail

theorem follows_classItems {n m : Nat} (hnm : n ≤ m) (found : List ClassItem) :
    Follows e o id (classItems n found) (classItems m found) r := by
  induction n generalizing m r found with
  | zero => exact .fail
  | succ n ih =>
    cases m with
    | zero => omega
    | succ m =>
      have hnm : n ≤ m := by omega
      refine follows_take (fun _ _ => .fail_bind) (fun t rest hrest => ?_) fun _ _ => .fail
      dsimp only
      split
      · exact .pure _
      refine bind (follows_classMember t) fun first _ _ => ?_
      refine bind (follows_accept '-' fun _ => by decide) fun ranged _ _ => ?_
      dsimp only [id]
      split
      · exact ih hnm _
      refine follows_take (fun _ _ => .fail_bind) (fun u rest' hrest' => ?_) fun _ _ => .fail
      dsimp only
      split
      · exact .pure _
      refine bind (follows_classMember u) fun last _ _ => ?_
      dsimp only [id]
      split
      · split
        · exact .fail
        · exact ih hnm _
      · exact .fail

theorem follows_classBody (flags : Flags) :
    Follows e o (Part.renumber e.shift) (classBody flags) (classBody flags) r := by
  refine bind (follows_accept '^' fun _ => by decide) fun negated _ _ => ?_
  refine follows_remaining (bind (follows_classItems (by omega) []) fun items _ _ => ?_)
  exact .pure _

/-! ## References -/

theorem follows_checkBehind {index : Nat} (h : 1 ≤ index) :
    Follows e o id (checkBehind index) (checkBehind (index + e.shift)) r := by
  refine get_bind ?_
  rw [Frame.lookup_widths h]
  simp only [Frame.embed]
  cases r.behindGroups with
  | none => exact .pure ()
  | some limit =>
    simp only [Option.map_some]
    split
    · exact .fail
    · by_cases hlimit : index ≥ limit
      · rw [if_pos hlimit]
        exact .fail
      · rw [if_neg hlimit, if_neg (by omega)]
        exact .pure ()

theorem follows_reference (flags : Flags) {index : Nat} (h : 1 ≤ index) :
    Follows e o (Part.renumber e.shift) (reference flags index)
      (reference flags (index + e.shift)) r := by
  refine get_bind ?_
  rw [Frame.lookup_widths h]
  split
  · exact .fail
  · exact bind (follows_checkBehind h) fun _ _ _ => .pure _

/-- A reference is noted under its own number, which is the number of another group in the frame. -/
theorem follows_refer {ψ : γ → δ} {f : Reading γ} {g g' : Reading δ} (index : Nat)
    (h : Follows e o ψ f g { r with expected := index :: r.expected })
    (hg : e.shift = 0 → g' = g) :
    Follows e o ψ (refer index >>= fun _ => f) (refer index >>= fun _ => g') r := by
  have hl : Later r { r with expected := index :: r.expected } :=
    ⟨List.suffix_refl _, id, List.suffix_refl _, rfl, Nat.le_refl _, List.suffix_cons _ _,
      fun hs => ⟨hs.groups, hs.names, hs.widths⟩⟩
  intro hsound c r' hc
  obtain ⟨hl', hy⟩ := h (hl.sound hsound) c r' hc
  refine ⟨hl.trans hl', fun hapart hallows hend => ?_⟩
  -- the number stays noted, so that the frame allows it only if no groups come before
  have hshift : e.shift = 0 := by
    refine hallows.resolve_right fun hnil => ?_
    have hnoted := hl'.expected
    rw [hnil, List.suffix_nil] at hnoted
    cases hnoted
  have hnote : (refer index >>= fun _ => g' : Reading δ) (e.embed r) =
      g (e.embed { r with expected := index :: r.expected }) := by
    rw [hg hshift]
    simp only [Frame.embed, List.map_cons, hshift]
    rfl
  rw [hnote]
  exact hy hapart hallows hend

theorem number_pos {c : Char} {more : List Char} (h : '1' ≤ c) : 1 ≤ number 10 (c :: more) := by
  have hc : 49 ≤ c.toNat := UInt32.le_iff_toNat_le.1 h
  have hpos : ∀ (ds : List Nat) n, 1 ≤ n → 1 ≤ ds.foldl (fun n d => n * 10 + d) n := by
    intro ds
    induction ds with
    | nil => exact fun n hn => hn
    | cons d ds ih => exact fun n hn => ih (n * 10 + d) (by omega)
  rw [number, ofDigits, List.map_cons, List.foldl_cons]
  exact hpos _ _ (by omega)

/-- How an escape ends that begins with a digit: a character if there is a third digit, and a
reference otherwise. -/
def numericEnd (flags : Flags) (c : Char) (more third : List Char) : Reading Part := do
  if third.isEmpty then
    let index := number 10 (c :: more)
    if index < (← get).groups then
      refer index
      reference flags index
    else fail .unknownGroup
  else
    let code := number 8 (c :: more ++ third)
    if code > 0o377 then fail .badEscape else return single flags code

theorem follows_numericEnd (flags : Flags) {c : Char} (h1 : '1' ≤ c) (more third : List Char) :
    Follows e o (Part.renumber e.shift) (numericEnd flags c more third)
      (numericEnd flags c more third) r := by
  unfold numericEnd
  split
  · dsimp only
    have hpos : 1 ≤ number 10 (c :: more) := number_pos h1
    refine get_bind ?_
    by_cases hlt : number 10 (c :: more) < r.groups
    · have hlt' : number 10 (c :: more) < (e.embed r).groups := Nat.lt_add_right e.shift hlt
      rw [if_pos hlt, if_pos hlt']
      refine follows_refer _ (follows_reference flags hpos) fun hshift => ?_
      rw [hshift]
      rfl
    · rw [if_neg hlt]
      exact .fail
  · dsimp only
    split
    · exact .fail
    · exact .pure _

theorem follows_numericEscape (flags : Flags) {c : Char} (h1 : '1' ≤ c) :
    Follows e o (Part.renumber e.shift) (numericEscape flags c) (numericEscape flags c) r := by
  unfold numericEscape
  dsimp only
  refine bind (follows_takeWhile (by decide) (Nat.le_refl 1) (.inl rfl)) fun more s _ => ?_
  dsimp only [id]
  split
  · split
    · refine bind (follows_takeWhile (by decide) (Nat.le_refl 1) (.inl rfl)) fun third _ _ => ?_
      exact follows_numericEnd flags h1 _ third
    · exact pure_bind (follows_numericEnd flags h1 _ [])
  · exact pure_bind (follows_numericEnd flags h1 _ [])

theorem one_le_digit {c : Char} (hc : isAsciiDigit c = true) (h0 : c ≠ '0') : '1' ≤ c := by
  simp only [isAsciiDigit, Bool.and_eq_true, decide_eq_true_eq] at hc
  have hne : c.toNat ≠ 48 := fun h => h0 (Char.toNat_inj.1 h)
  have h1 : 49 ≤ c.val.toNat := by
    change 49 ≤ c.toNat
    omega
  exact UInt32.le_iff_toNat_le.2 h1

theorem follows_escape (flags : Flags) (c : Char) :
    Follows e o (Part.renumber e.shift) (escape flags c) (escape flags c) r := by
  unfold escape
  split
  · exact .pure _
  split
  · exact .pure _
  · exact .pure _
  · exact .pure _
  · exact .pure _
  · exact bind (follows_takeWhile (by decide) (Nat.le_refl 2) (.inl rfl)) fun _ _ _ => .pure _
  · rename_i h0
    split
    · rename_i hc
      exact follows_numericEscape flags (one_le_digit hc h0)
    · exact bind (follows_escapedCode c) fun _ _ _ => .pure _

end LangId.Regex.Reader
