import LangId.Proofs.Regex.Singles

/-!
# Classes in any place

A class is read member by member. No member is read beyond an opening bracket, so what a class holds
up to such a bracket does not depend on what comes behind it, nor on what has been read before. It is
therefore told by trying the text out in a class of its own, which ends behind the bracket
(`BeginsClass`).

**Results.**
* `stops_classMember`: a member stops before a bracket.
* `classItems_of_bracket`: members up to a bracket are read as they are on their own.
* `BeginsClass.isSingle`: where the class of hexadecimal digits stands behind the members, its
  bracket is one of them, and the digits end the class.
-/
namespace LangId.Regex.Reader

open LangId.Text

/-! ## Readings that stop -/

/-- A reading stops before a character: in front of it, the same is read whatever stands behind the
character, and whatever else is remembered. -/
def Stops {α : Type} (c : Char) (x : Reading α) : Prop :=
  ∀ ⦃r s : Reader⦄ ⦃ts tail : List Token⦄ ⦃a : α⦄, r.rest = ts ++ .plain c :: tail →
    x r = .ok (a, s) → ∃ us, us <:+ ts ∧ s.rest = us ++ .plain c :: tail ∧
      ∀ ⦃r' : Reader⦄ ⦃tail' : List Token⦄, r'.rest = ts ++ .plain c :: tail' →
        x r' = .ok (a, { r' with rest := us ++ .plain c :: tail' })

variable {α β : Type} {c : Char} {x : Reading α}

theorem with_rest {r : Reader} {rest : List Token} (h : r.rest = rest) : { r with rest } = r := by
  subst h
  rfl

theorem stops_pure (a : α) : Stops c (pure a : Reading α) := by
  intro r s ts tail b hr h
  obtain ⟨rfl, rfl⟩ := Prod.mk.inj (Except.ok.inj h)
  refine ⟨ts, List.suffix_refl ts, hr, fun r' tail' hr' => ?_⟩
  rw [with_rest hr']
  rfl

theorem stops_fail (fault : Fault) : Stops c (fail fault : Reading α) :=
  fun _ _ _ _ _ _ h => nomatch h

theorem stops_bind {f : α → Reading β} (hx : Stops c x) (hf : ∀ a, Stops c (f a)) :
    Stops c (x >>= f) := by
  intro r s ts tail b hr h
  obtain ⟨a, u, hfirst, hrest⟩ := Reader.bind_eq_ok.1 h
  obtain ⟨us, hus, hu, hfirst'⟩ := hx hr hfirst
  obtain ⟨vs, hvs, hs, hrest'⟩ := hf a hu hrest
  refine ⟨vs, hvs.trans hus, hs, fun r' tail' hr' => ?_⟩
  rw [bind_of_ok (hfirst' hr')]
  exact hrest' rfl

theorem stops_ite {p : Prop} [Decidable p] {y : Reading α} (hx : Stops c x) (hy : Stops c y) :
    Stops c (if p then x else y) := by
  split
  · exact hx
  · exact hy

/-- Where no character comes that is wanted, none is taken. -/
theorem takeWhile_stop {p : Char → Bool} {n : Nat} {r : Reader}
    (h : ∀ d, r.rest.head? = some (.plain d) → p d = false) : takeWhile p n r = .ok ([], r) := by
  cases n with
  | zero => rfl
  | succ n =>
    rw [takeWhile_succ]
    cases hhead : r.rest.head? with
    | none => rfl
    | some t =>
      cases t with
      | plain d =>
        simp only [h d hhead]
        rfl
      | escaped d => rfl
      | dangling => rfl

theorem takeWhile_step {p : Char → Bool} {n : Nat} {r : Reader} {d : Char} {rest : List Token}
    (hr : r.rest = .plain d :: rest) (hd : p d = true) : takeWhile p (n + 1) r =
      (takeWhile p n >>= fun more => pure (d :: more)) { r with rest } := by
  rw [takeWhile_succ, hr, List.head?_cons]
  simp only [hd, if_true]
  rw [bind_of_ok (take_cons hr)]

theorem stops_takeWhile {p : Char → Bool} (hp : p c = false) (n : Nat) :
    Stops c (takeWhile p n) := by
  induction n with
  | zero => exact stops_pure []
  | succ n ih =>
    intro r s ts tail found hr h
    by_cases hgo : ∃ d rest, ts = .plain d :: rest ∧ p d = true
    · obtain ⟨d, rest, rfl, hd⟩ := hgo
      rw [takeWhile_step hr hd] at h
      have hmore : Stops c (takeWhile p n >>= fun more => pure (d :: more)) :=
        stops_bind ih fun more => stops_pure (d :: more)
      obtain ⟨us, hus, hs, hsame⟩ := @hmore _ _ rest _ _ rfl h
      refine ⟨us, hus.trans (List.suffix_cons _ _), hs, fun r' tail' hr' => ?_⟩
      rw [takeWhile_step hr' hd]
      exact hsame rfl
    · have hnone {r' : Reader} {tail' : List Token} (hr' : r'.rest = ts ++ .plain c :: tail') :
          takeWhile p (n + 1) r' = .ok ([], r') := by
        refine takeWhile_stop fun d hd => ?_
        rw [hr'] at hd
        cases ts with
        | nil =>
          obtain rfl := Token.plain.inj (Option.some.inj hd)
          exact hp
        | cons t rest =>
          obtain rfl := Option.some.inj hd
          exact Bool.eq_false_iff.2 fun htrue => hgo ⟨d, rest, rfl, htrue⟩
      rw [hnone hr] at h
      obtain ⟨rfl, rfl⟩ := Prod.mk.inj (Except.ok.inj h)
      refine ⟨ts, List.suffix_refl ts, hr, fun r' tail' hr' => ?_⟩
      rw [hnone hr', with_rest hr']

theorem accept_cons {d : Char} {r : Reader} {rest : List Token} (hr : r.rest = .plain d :: rest) :
    accept d r = .ok (true, { r with rest }) := by
  rw [accept_apply, hr, if_pos (by simp)]
  rfl

theorem accept_of_ne {d : Char} {r : Reader} (h : r.rest.head? ≠ some (.plain d)) :
    accept d r = .ok (false, r) := by
  rw [accept_apply, if_neg (by simpa using h)]

/-- In front of a character, a text begins with another one exactly if it does so on its own. -/
theorem head?_ne {d : Char} {ts tail : List Token} (hc : c ≠ d)
    (h : ¬∃ rest, ts = .plain d :: rest) : (ts ++ .plain c :: tail).head? ≠ some (.plain d) := by
  intro hd
  cases ts with
  | nil => exact hc (Token.plain.inj (Option.some.inj hd))
  | cons t rest => exact h ⟨rest, congrArg (· :: rest) (Option.some.inj hd)⟩

theorem stops_accept {d : Char} (hc : c ≠ d) : Stops c (accept d) := by
  intro r s ts tail taken hr h
  by_cases hhead : ∃ rest, ts = .plain d :: rest
  · obtain ⟨rest, rfl⟩ := hhead
    rw [accept_cons hr] at h
    obtain ⟨rfl, rfl⟩ := Prod.mk.inj (Except.ok.inj h)
    exact ⟨rest, List.suffix_cons _ _, rfl, fun r' tail' hr' => accept_cons hr'⟩
  · rw [accept_of_ne (hr ▸ head?_ne hc hhead)] at h
    obtain ⟨rfl, rfl⟩ := Prod.mk.inj (Except.ok.inj h)
    refine ⟨ts, List.suffix_refl ts, hr, fun r' tail' hr' => ?_⟩
    rw [accept_of_ne (hr' ▸ head?_ne hc hhead), with_rest hr']

theorem stops_hexCode (hc : isHexDigit c = false) (n : Nat) : Stops c (hexCode n) :=
  stops_bind (stops_takeWhile hc n) fun _ => stops_ite (stops_fail _) (stops_pure _)

theorem stops_escapedCode (hc : isHexDigit c = false) (d : Char) : Stops c (escapedCode d) := by
  unfold escapedCode
  split
  · exact stops_hexCode hc 2
  · exact stops_hexCode hc 4
  · exact stops_bind (stops_hexCode hc 8) fun _ => stops_ite (stops_pure _) (stops_fail _)
  all_goals first
    | exact stops_pure _
    | exact stops_ite (stops_fail _) (stops_pure _)

theorem stops_classEscape (hc : isHexDigit c = false) (ho : isOctal c = false) (d : Char) :
    Stops c (classEscape d) := by
  unfold classEscape
  split
  · exact stops_pure _
  · refine stops_ite (stops_pure _) (stops_ite ?_ ?_)
    · exact stops_bind (stops_takeWhile ho 2) fun _ => stops_ite (stops_fail _) (stops_pure _)
    · exact stops_bind (stops_escapedCode hc d) fun _ => stops_pure _

/-- **A member** stops before any character that is no digit. -/
theorem stops_classMember (hc : isHexDigit c = false) (ho : isOctal c = false) (t : Token) :
    Stops c (classMember t) := by
  cases t with
  | plain d => exact stops_pure _
  | escaped d => exact stops_classEscape hc ho d
  | dangling => exact stops_fail _

/-! ## Members up to a bracket -/

variable {n m : Nat} {found items : List ClassItem} {r s : Reader} {ts tail : List Token}

/-- What is read behind the members of a range. Only single characters have one. -/
def afterRange (n : Nat) (found : List ClassItem) (first last : ClassItem) :
    Reading (List ClassItem) :=
  match first, last with
  | .char low, .char high =>
    if high < low then fail .badRange else classItems n (.range low high :: found)
  | _, _ => fail .badRange

/-- What is read behind the first member: that it stands alone, or begins a range. -/
def afterMember (n : Nat) (found : List ClassItem) (first : ClassItem) :
    Reading (List ClassItem) := do
  if !(← accept '-') then classItems n (first :: found)
  else
    match ← take with
    | none => fail .openClass
    | some u =>
      if u == .plain ']' then return (.char '-'.toNat :: first :: found).reverse
      classMember u >>= afterRange n found first

theorem classItems_cons {t : Token} {rest : List Token} (hr : r.rest = t :: rest) :
    classItems (n + 1) found r =
      (if t == .plain ']' && !found.isEmpty then pure found.reverse
      else classMember t >>= afterMember n found) { r with rest } := by
  have hrun : classItems (n + 1) found r = (take >>= fun u => match u with
      | none => fail .openClass
      | some t =>
        if t == .plain ']' && !found.isEmpty then pure found.reverse
        else classMember t >>= afterMember n found) r := rfl
  rw [hrun, bind_of_ok (take_cons hr)]

theorem afterMember_single {first : ClassItem} (h : r.rest.head? ≠ some (.plain '-')) :
    afterMember n found first r = classItems n (first :: found) r := by
  rw [afterMember, bind_of_ok (accept_of_ne h)]
  rfl

theorem afterMember_dash {first : ClassItem} {u : Token} {rest : List Token}
    (h : r.rest = .plain '-' :: u :: rest) : afterMember n found first r =
      (if u == .plain ']' then pure (.char '-'.toNat :: first :: found).reverse
      else classMember u >>= afterRange n found first) { r with rest } := by
  rw [afterMember, bind_of_ok (accept_cons h)]
  exact bind_of_ok (take_cons rfl)

/-- Where a range can be read, it is a further member. -/
theorem afterRange_eq_ok {first last : ClassItem} {out : List ClassItem}
    (h : afterRange n found first last r = .ok (out, s)) : ∃ low high,
      (∀ m, afterRange m found first last = classItems m (.range low high :: found)) ∧
      classItems n (.range low high :: found) r = .ok (out, s) := by
  cases first with
  | char low =>
    cases last with
    | char high =>
      by_cases hlt : high < low
      · rw [afterRange, if_pos hlt] at h
        cases h
      · have hrange (m : Nat) : afterRange m found (.char low) (.char high) =
            classItems m (.range low high :: found) := if_neg hlt
        rw [hrange] at h
        exact ⟨low, high, hrange, h⟩
    | range _ _ => cases h
    | category _ _ => cases h
  | range _ _ => cases h
  | category _ _ => cases h

/-- A class ends at a closing bracket, unless it would be empty. -/
theorem classItems_close {rest : List Token} (hr : r.rest = .plain ']' :: rest) (h : found ≠ []) :
    classItems (n + 1) found r = .ok (found.reverse, { r with rest }) := by
  rw [classItems_cons hr, if_pos (by simpa using h)]
  rfl

theorem classItems_member {t : Token} {rest : List Token} (hr : r.rest = t :: rest)
    (h : t = .plain ']' → found = []) :
    classItems (n + 1) found r = (classMember t >>= afterMember n found) { r with rest } := by
  rw [classItems_cons hr, if_neg]
  rw [Bool.and_eq_true, beq_iff_eq]
  rintro ⟨rfl, hne⟩
  simp [h rfl] at hne

theorem classItems_bracket (hr : r.rest = .plain '[' :: tail)
    (h : tail.head? ≠ some (.plain '-')) :
    classItems (n + 1) found r =
      classItems n (.char '['.toNat :: found) { r with rest := tail } := by
  rw [classItems_member hr nofun]
  exact afterMember_single h

/-- What is read of a bracket that ends its class. -/
theorem eq_of_classItems_close (hr : r.rest = [.plain ']']) {first : ClassItem} {out}
    (h : classItems n (first :: found) r = .ok (out, s)) : out = found.reverse ++ [first] := by
  cases n with
  | zero => cases h
  | succ n =>
    rw [classItems_close hr (List.cons_ne_nil _ _)] at h
    rw [← List.reverse_cons]
    exact (Prod.mk.inj (Except.ok.inj h)).1.symm

/-- The members read so far do not end in a range up to a bracket. -/
theorem range_ne_bracket {low high : Nat} :
    found.reverse ++ [.range low high] ≠ items ++ [.char '['.toNat] := fun h => by
  cases (List.append_inj' h rfl).2

/-- Behind a member, what stands before a bracket decides whether a range is read, and which. -/
theorem afterMember_of_bracket {us : List Token} {first : ClassItem}
    (hr : r.rest = us ++ [.plain '[', .plain ']'])
    (h : afterMember n found first r = .ok (items ++ [.char '['.toNat], s)) (hs : s.rest = []) :
    ∃ vs found', vs.length ≤ us.length ∧
      (∃ u : Reader, u.rest = vs ++ [.plain '[', .plain ']'] ∧
        classItems n found' u = .ok (items ++ [.char '['.toNat], s)) ∧
      ∀ ⦃r' : Reader⦄ ⦃tail : List Token⦄ ⦃m : Nat⦄, r'.rest = us ++ .plain '[' :: tail →
        afterMember m found first r' =
          classItems m found' { r' with rest := vs ++ .plain '[' :: tail } := by
  by_cases hdash : ∃ ws, us = .plain '-' :: ws
  · obtain ⟨ws, rfl⟩ := hdash
    cases ws with
    | nil =>
      -- a range up to the bracket would be read
      rw [afterMember_dash hr, if_neg (by decide)] at h
      obtain ⟨last, u, hlast, h⟩ := Reader.bind_eq_ok.1 h
      obtain ⟨rfl, rfl⟩ := Prod.mk.inj (Except.ok.inj hlast)
      obtain ⟨low, high, -, h⟩ := afterRange_eq_ok h
      exact absurd (eq_of_classItems_close rfl h).symm range_ne_bracket
    | cons w ws =>
      rw [afterMember_dash hr] at h
      have hopen : ¬(w == .plain ']') = true := by
        intro hw
        rw [if_pos hw] at h
        obtain ⟨-, rfl⟩ := Prod.mk.inj (Except.ok.inj h)
        simp at hs
      rw [if_neg hopen] at h
      obtain ⟨last, u, hlast, h⟩ := Reader.bind_eq_ok.1 h
      obtain ⟨vs, hvs, hu, hsame⟩ :=
        stops_classMember (by decide) (by decide) w (show _ = ws ++ _ from rfl) hlast
      obtain ⟨low, high, hrange, h⟩ := afterRange_eq_ok h
      have hshort : vs.length ≤ (.plain '-' :: w :: ws : List Token).length := by
        have hlength := hvs.length_le
        simp only [List.length_cons]
        omega
      refine ⟨vs, .range low high :: found, hshort, ⟨u, hu, h⟩, fun r' tail m hr' => ?_⟩
      rw [afterMember_dash hr', if_neg hopen, bind_of_ok (hsame rfl), hrange]
  · have hhead (tail : List Token) : (us ++ .plain '[' :: tail).head? ≠ some (.plain '-') :=
      head?_ne (by decide) hdash
    rw [afterMember_single (hr ▸ hhead _)] at h
    refine ⟨us, first :: found, Nat.le_refl _, ⟨r, hr, h⟩, fun r' tail m hr' => ?_⟩
    rw [afterMember_single (hr' ▸ hhead tail), with_rest hr']

/-- **Members up to a bracket.** If a class that ends behind a bracket holds some members and the
bracket, these are read wherever the text stands, and whatever comes behind the bracket but a dash. -/
theorem classItems_of_bracket (hr : r.rest = ts ++ [.plain '[', .plain ']'])
    (h : classItems n found r = .ok (items ++ [.char '['.toNat], s)) (hs : s.rest = []) :
    ∃ k ≤ ts.length, ∀ ⦃r' : Reader⦄ ⦃tail : List Token⦄ ⦃m : Nat⦄,
      r'.rest = ts ++ .plain '[' :: tail → tail.head? ≠ some (.plain '-') →
      classItems (m + k + 1) found r' =
        classItems m (.char '['.toNat :: items.reverse) { r' with rest := tail } := by
  induction n generalizing found r ts with
  | zero => cases h
  | succ n ih =>
    cases ts with
    | nil =>
      rw [classItems_bracket hr nofun] at h
      have hitems := (List.append_inj' (eq_of_classItems_close rfl h) rfl).1
      refine ⟨0, Nat.le_refl 0, fun r' tail m hr' htail => ?_⟩
      rw [classItems_bracket hr' htail, hitems, List.reverse_reverse]
    | cons t rest =>
      have hopen : t = .plain ']' → found = [] := by
        rintro rfl
        refine Decidable.byContradiction fun hne => ?_
        rw [classItems_close hr hne] at h
        obtain ⟨-, rfl⟩ := Prod.mk.inj (Except.ok.inj h)
        simp at hs
      rw [classItems_member hr hopen] at h
      obtain ⟨first, u, hfirst, h⟩ := Reader.bind_eq_ok.1 h
      obtain ⟨us, hus, hu, hsame⟩ :=
        stops_classMember (by decide) (by decide) t (show _ = rest ++ _ from rfl) hfirst
      obtain ⟨vs, found', hvs, ⟨w, hw, h⟩, hafter⟩ := afterMember_of_bracket hu h hs
      obtain ⟨k, hk, hread⟩ := ih hw h
      have hlength := hus.length_le
      refine ⟨k + 1, by rw [List.length_cons]; omega, fun r' tail m hr' htail => ?_⟩
      rw [classItems_member hr' hopen, bind_of_ok (hsame rfl), hafter rfl]
      exact hread rfl htail

/-! ## Hexadecimal digits behind a bracket -/

/-- The hexadecimal digits as members of a class. -/
def digitItems : List ClassItem := [.range 48 57, .range 97 102, .range 65 70]

/-- How the hexadecimal digits are written in a class, with its end. -/
def digitsEnd : List Char := ['0', '-', '9', 'a', '-', 'f', 'A', '-', 'F', ']']

theorem tokens_digitsEnd : tokens digitsEnd = digitsEnd.map .plain := by decide

theorem classItems_range {low high : Char} {rest : List Token}
    (hr : r.rest = .plain low :: .plain '-' :: .plain high :: rest) (hlow : low ≠ ']')
    (hhigh : high ≠ ']') (hle : low.toNat ≤ high.toNat) :
    classItems (n + 1) found r =
      classItems n (.range low.toNat high.toNat :: found) { r with rest } := by
  rw [classItems_member hr fun h => absurd (Token.plain.inj h) hlow]
  have hafter : afterMember n found (.char low.toNat)
      { r with rest := .plain '-' :: .plain high :: rest } = _ := afterMember_dash rfl
  refine hafter.trans ?_
  rw [if_neg (by simpa using hhigh)]
  exact congrFun (if_neg (Nat.not_lt.2 hle)) _

theorem classItems_digits {rest : List Token} (hr : r.rest = digitsEnd.map .plain ++ rest) :
    classItems (n + 4) found r = .ok (found.reverse ++ digitItems, { r with rest }) := by
  rw [classItems_range hr (by decide) (by decide) (by decide),
    classItems_range rfl (by decide) (by decide) (by decide),
    classItems_range rfl (by decide) (by decide) (by decide),
    classItems_close rfl (List.cons_ne_nil _ _)]
  simp [digitItems]

/-- Whether a class is complemented, and its members. -/
def members : Reading (Bool × List ClassItem) := do
  let negated ← accept '^'
  return (negated, ← classItems ((← remaining) + 1) [])

theorem remaining_apply (r : Reader) : remaining r = .ok (r.rest.length, r) := rfl

theorem members_eq_ok {negated : Bool} : members r = .ok ((negated, items), s) ↔
    ∃ u, accept '^' r = .ok (negated, u) ∧
      classItems (u.rest.length + 1) [] u = .ok (items, s) := by
  constructor
  · intro h
    obtain ⟨b, u, hnegated, h⟩ := Reader.bind_eq_ok.1 h
    rw [bind_of_ok (remaining_apply u)] at h
    obtain ⟨found, v, hitems, h⟩ := Reader.bind_eq_ok.1 h
    obtain ⟨hfound, rfl⟩ := Prod.mk.inj (Except.ok.inj h)
    obtain ⟨rfl, rfl⟩ := Prod.mk.inj hfound
    exact ⟨u, hnegated, hitems⟩
  · rintro ⟨u, hnegated, hitems⟩
    rw [members, bind_of_ok hnegated, bind_of_ok (remaining_apply u)]
    exact bind_of_ok hitems

theorem classBody_of_members {flags : Flags} {negated : Bool}
    (h : members r = .ok ((negated, items), s)) : classBody flags r =
      .ok (.ofClass (.ofItems flags.folding flags.ascii negated items.eraseDups), s) := by
  obtain ⟨u, hnegated, hitems⟩ := members_eq_ok.1 h
  rw [classBody, bind_of_ok hnegated, bind_of_ok (remaining_apply u)]
  exact bind_of_ok hitems

/-- In a class of its own, a text is read as some members, up to a bracket behind it. -/
structure BeginsClass (text : List Char) (negated : Bool) (items : List ClassItem) : Prop where
  closed : Closed text
  read : ∃ s : Reader, s.rest = [] ∧ members { rest := tokens text ++ [.plain '[', .plain ']'] } =
    .ok ((negated, items ++ [.char '['.toNat]), s)

/-- A complemented class without members of its own. -/
example : BeginsClass ['^'] true [] := ⟨by decide, { rest := [] }, rfl, rfl⟩

/-- Where the digits of a class stand behind the bracket, the class ends with them. -/
theorem BeginsClass.members_digits {text : List Char} {negated : Bool}
    (h : BeginsClass text negated items) {rest : List Token}
    (hr : r.rest = tokens text ++ .plain '[' :: (digitsEnd.map .plain ++ rest)) :
    members r = .ok ((negated, items ++ .char '['.toNat :: digitItems), { r with rest }) := by
  obtain ⟨-, s, hs, hread⟩ := h
  obtain ⟨u, hnegated, hitems⟩ := members_eq_ok.1 hread
  obtain ⟨us, -, hu, hsame⟩ :=
    stops_accept (by decide) (show _ = tokens text ++ .plain '[' :: _ from rfl) hnegated
  obtain ⟨k, hk, hsame'⟩ := classItems_of_bracket hu hitems hs
  obtain ⟨m, hm⟩ : ∃ m, us.length + ((digitsEnd.length + rest.length) + 1) + 1 = m + 4 + k + 1 := by
    have hdigits : digitsEnd.length = 10 := rfl
    exact ⟨us.length + rest.length + 7 - k, by omega⟩
  refine members_eq_ok.2 ⟨_, hsame hr, ?_⟩
  rw [List.length_append, List.length_cons, List.length_append, List.length_map, hm,
    hsame' rfl (by simp [digitsEnd]), classItems_digits rfl]
  simp

/-- A class is read behind its bracket, under all flags. -/
theorem sequence_bracket {flags : Flags} {top : Bool} {found : List Part} {rest : List Token}
    (hr : r.rest = .plain '[' :: rest) : sequence (n + 1) flags top found r =
      (classBody flags >>= fun p => sequence n flags top (p :: found)) { r with rest } := by
  conv => lhs; unfold sequence
  rw [bind_of_ok (peek_apply r), hr, List.head?_cons]
  cases flags.verbose <;> exact bind_of_ok (take_cons hr)

/-- **Digits in a class.** Where the class of hexadecimal digits is put into a class, this class
gets an opening bracket as a further member, and ends with the digits. -/
theorem BeginsClass.isSingle {text : List Char} {negated : Bool}
    (h : BeginsClass text negated items) (flags : Flags) : IsSingle flags ('[' :: (text ++ '[' :: digitsEnd))
      (.ofItems flags.folding flags.ascii negated
        (items ++ .char '['.toNat :: digitItems).eraseDups) := by
  have htokens : tokens ('[' :: (text ++ '[' :: digitsEnd)) =
      .plain '[' :: (tokens text ++ .plain '[' :: digitsEnd.map .plain) := by
    rw [tokens_plain (by decide), tokens_append_of_closed h.closed, tokens_plain (by decide),
      tokens_digitsEnd]
  refine ⟨?_, List.cons_ne_nil _ _, fun n top found r rest hr => ?_⟩
  · have hclosed := h.closed
    rw [Closed, htokens]
    simp_all [Closed, digitsEnd]
  · rw [htokens, List.cons_append, List.append_assoc] at hr
    rw [sequence_bracket hr, bind_of_ok (classBody_of_members (h.members_digits rfl))]

end LangId.Regex.Reader
