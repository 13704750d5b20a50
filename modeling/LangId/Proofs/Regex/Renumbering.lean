import LangId.Regex.Pattern

/-!
# Numbers of groups

Numbers tie groups to the places that refer to them and mean nothing else: a pattern whose numbers
are all raised by the same amount takes the same steps (`renumbers_step`), and matches from the same
places on (`matches_renumber`). A search tries the places of a text one after the other
(`search_eq_findSome?`), so a pattern occurs in a text if it matches from one of its places on
(`isSome_search`). A choice matches where one of its patterns does (`matches_altAll`), since the
patterns of a choice begin with no groups kept.
-/
namespace LangId.Regex

variable {k : Nat}

/-- Raises all numbers of groups. -/
def Node.renumber (k : Nat) : Node → Node
  | .empty => .empty
  | .one s => .one s
  | .seq a b => .seq (a.renumber k) (b.renumber k)
  | .alt a b => .alt (a.renumber k) (b.renumber k)
  | .group index body => .group (index + k) (body.renumber k)
  | .back index f => .back (index + k) f
  | .loop body min max appetite => .loop (body.renumber k) min max appetite
  | .ahead negated body => .ahead negated (body.renumber k)
  | .behind negated width body => .behind negated width (body.renumber k)
  | .atomic body => .atomic (body.renumber k)
  | .cond index a b => .cond (index + k) (a.renumber k) (b.renumber k)
  | .anchor a => .anchor a

/-- Raises the numbers of the groups that are kept. -/
def Thread.renumber (k : Nat) (t : Thread) : Thread :=
  { t with captures := t.captures.map fun c => (c.1 + k, c.2) }

theorem Node.renumber_zero (n : Node) : n.renumber 0 = n := by
  induction n with
  | empty | one | back | anchor => rfl
  | seq a b iha ihb | alt a b iha ihb | cond _ a b iha ihb =>
    simp only [renumber, iha, ihb, Nat.add_zero]
  | group _ body ih | loop body _ _ _ ih | ahead _ body ih | behind _ _ body ih | atomic body ih =>
    simp only [renumber, ih, Nat.add_zero]

theorem Node.renumber_seqAll (ns : List Node) :
    (Node.seqAll ns).renumber k = .seqAll (ns.map (·.renumber k)) := by
  induction ns with
  | nil => rfl
  | cons n rest ih =>
    cases rest with
    | nil => rfl
    | cons m rest => exact congrArg (Node.seq (n.renumber k)) ih

theorem Node.renumber_altAll (ns : List Node) :
    (Node.altAll ns).renumber k = .altAll (ns.map (·.renumber k)) := by
  induction ns with
  | nil => rfl
  | cons n rest ih =>
    cases rest with
    | nil => rfl
    | cons m rest => exact congrArg (Node.alt (n.renumber k)) ih

/-- Looking up behind a change of keys that keeps them apart. -/
theorem lookup_map_add {α β : Type} {f : α → β} (entries : List (Nat × α)) (index : Nat) :
    (entries.map fun e => (e.1 + k, f e.2)).lookup (index + k) = (entries.lookup index).map f := by
  induction entries with
  | nil => rfl
  | cons e rest ih =>
    rw [List.map_cons, List.lookup_cons, List.lookup_cons, ih]
    by_cases h : index = e.1
    · simp [h]
    · have hne : ¬index + k = e.1 + k := by omega
      simp [beq_eq_false_iff_ne.2 h, beq_eq_false_iff_ne.2 hne]

@[simp] theorem Thread.captured?_renumber (t : Thread) (index : Nat) :
    (t.renumber k).captured? (index + k) = t.captured? index := by
  have h := lookup_map_add (k := k) (f := id) t.captures index
  rw [Option.map_id] at h
  exact h

-- by cases, as a definitional equation would be used inside the tests of conditionals
@[simp] theorem Thread.cursor_renumber (t : Thread) : (t.renumber k).cursor = t.cursor := by
  cases t; rfl

/-! ## Steps -/

/-- What follows does the same behind raised numbers. -/
def Continues (k : Nat) (f g : Continuation) : Prop :=
  ∀ t, g (t.renumber k) = (f t).map (·.renumber k)

/-- A step does the same behind raised numbers. -/
def Renumbers (k : Nat) (a b : Step) : Prop :=
  ∀ t f g, Continues k f g → b (t.renumber k) g = (a t f).map (·.renumber k)

variable {f g : Continuation} {a b : Step}

theorem continues_some : Continues k some some := fun _ => rfl

/-- A step that ends at once. -/
theorem Renumbers.alone (h : Renumbers k a b) (t : Thread) :
    b (t.renumber k) some = (a t some).map (·.renumber k) := h t some some continues_some

theorem continues_greedyLoop (h : Renumbers k a b) (hfg : Continues k f g) {min : Nat}
    {max : Option Nat} (bound : Nat) : ∀ count last,
    Continues k (greedyLoop a min max f bound count last)
      (greedyLoop b min max g bound count last) := by
  induction bound with
  | zero => exact fun _ _ _ => rfl
  | succ bound ih =>
    intro count last t
    simp only [greedyLoop, Thread.cursor_renumber]
    by_cases hmin : count < min
    · rw [if_pos hmin, if_pos hmin]
      exact h t _ _ (ih _ _)
    rw [if_neg hmin, if_neg hmin]
    by_cases hmore : (below count max && last != some t.cursor.position) = true
    · rw [if_pos hmore, if_pos hmore, h t _ _ (ih _ _)]
      cases a t fun u => greedyLoop a min max f bound (count + 1) (some t.cursor.position) u with
      | some u => rfl
      | none => exact hfg t
    · rw [if_neg hmore, if_neg hmore]
      exact hfg t

theorem continues_lazyLoop (h : Renumbers k a b) (hfg : Continues k f g) {min : Nat}
    {max : Option Nat} (bound : Nat) : ∀ count last,
    Continues k (lazyLoop a min max f bound count last) (lazyLoop b min max g bound count last) := by
  induction bound with
  | zero => exact fun _ _ _ => rfl
  | succ bound ih =>
    intro count last t
    simp only [lazyLoop, Thread.cursor_renumber]
    by_cases hmin : count < min
    · rw [if_pos hmin, if_pos hmin]
      exact h t _ _ (ih _ _)
    rw [if_neg hmin, if_neg hmin, hfg t]
    cases f t with
    | some u => rfl
    | none =>
      simp only [Option.map_none]
      by_cases hmore : (below count max && last != some t.cursor.position) = true
      · rw [if_pos hmore, if_pos hmore]
        exact h t _ _ (ih _ _)
      · rw [if_neg hmore, if_neg hmore]
        rfl

theorem continues_possessiveLoop (h : Renumbers k a b) (min : Nat) (max : Option Nat)
    (bound : Nat) : ∀ count,
    Continues k (possessiveLoop a min max bound count) (possessiveLoop b min max bound count) := by
  induction bound with
  | zero => exact fun _ _ => rfl
  | succ bound ih =>
    intro count t
    simp only [possessiveLoop, h.alone t]
    split
    · cases a t some with
      | none => rfl
      | some u => exact ih _ u
    · split
      · cases a t some with
        | none => rfl
        | some u =>
          simp only [Option.map_some, Thread.cursor_renumber]
          by_cases hsame : (u.cursor.position == t.cursor.position) = true
          · rw [if_pos hsame, if_pos hsame]
            rfl
          · rw [if_neg hsame, if_neg hsame]
            exact ih _ u
      · rfl

theorem renumbers_loopStep (h : Renumbers k a b) (min : Nat) (max : Option Nat)
    (appetite : Appetite) : Renumbers k (loopStep a min max appetite) (loopStep b min max appetite) := by
  intro t f g hfg
  cases appetite with
  | greedy => exact continues_greedyLoop h hfg _ _ _ t
  | lazy => exact continues_lazyLoop h hfg _ _ _ t
  | possessive =>
    have hloop := continues_possessiveLoop h min max (loopBound min t) 0 t
    simp only [loopStep]
    rw [show loopBound min (t.renumber k) = loopBound min t from rfl, hloop]
    cases possessiveLoop a min max (loopBound min t) 0 t with
    | none => rfl
    | some u => exact hfg u

/-- A thread at another place. -/
theorem Continues.move (h : Continues k f g) (t : Thread) (c : Cursor) :
    g { t.renumber k with cursor := c } = (f { t with cursor := c }).map (·.renumber k) :=
  h { t with cursor := c }

theorem renumbers_oneStep (s : CharClass) : Renumbers k (oneStep s) (oneStep s) := by
  intro t f g hfg
  simp only [oneStep, Thread.cursor_renumber]
  split
  · rfl
  · split
    · exact hfg.move t _
    · rfl

theorem renumbers_runStep (s : CharClass) (min : Nat) (max : Option Nat) (appetite : Appetite) :
    Renumbers k (runStep s min max (oneStep s) appetite)
      (runStep s min max (oneStep s) appetite) := by
  intro t f g hfg
  cases appetite with
  | greedy =>
    simp only [runStep, Thread.cursor_renumber]
    induction t.cursor.run s min max with
    | nil => rfl
    | cons c rest ih =>
      rw [List.findSome?_cons, List.findSome?_cons, hfg.move t c, ih]
      cases f { t with cursor := c } <;> rfl
  | lazy => exact continues_lazyLoop (renumbers_oneStep s) hfg _ _ _ t
  | possessive =>
    simp only [runStep, Thread.cursor_renumber]
    split
    · rfl
    · exact hfg.move t _

/-- A look behind is a look ahead from an earlier place, and back. -/
theorem step_behind (negated : Bool) (width : Nat) (body : Node) (t : Thread) (f : Continuation) :
    (Node.behind negated width body).step t f = match t.cursor.back? width with
      | none => if negated then f t else none
      | some c => (Node.ahead negated body).step { t with cursor := c }
          fun u => f { u with cursor := t.cursor } := by
  cases negated <;> simp only [Node.step] <;> cases t.cursor.back? width <;> rfl

variable {body body' : Node}

theorem renumbers_ahead (h : Renumbers k body.step body'.step) (negated : Bool) :
    Renumbers k (Node.ahead negated body).step (Node.ahead negated body').step := by
  intro t f g hfg
  cases negated with
  | false =>
    simp only [Node.step, h.alone t]
    cases body.step t some with
    | none => rfl
    | some u => exact hfg { t with captures := u.captures }
  | true =>
    simp only [Node.step, h.alone t]
    cases body.step t some with
    | none => exact hfg t
    | some u => rfl

theorem renumbers_behind (h : Renumbers k body.step body'.step) (negated : Bool) (width : Nat) :
    Renumbers k (Node.behind negated width body).step (Node.behind negated width body').step := by
  intro t f g hfg
  simp only [step_behind, Thread.cursor_renumber]
  cases t.cursor.back? width with
  | none =>
    cases negated with
    | false => rfl
    | true => exact hfg t
  | some c =>
    exact renumbers_ahead h negated { t with cursor := c } _ _
      fun u => hfg { u with cursor := t.cursor }

/-- **Steps.** A pattern takes the same steps behind raised numbers. -/
theorem renumbers_step (n : Node) : Renumbers k n.step (n.renumber k).step := by
  induction n with
  | empty => exact fun t f g hfg => hfg t
  | one s => exact renumbers_oneStep s
  | seq a b iha ihb => exact fun t f g hfg => iha t _ _ fun u => ihb u _ _ hfg
  | alt a b iha ihb =>
    intro t f g hfg
    simp only [Node.renumber, Node.step, iha t _ _ hfg]
    cases a.step t f with
    | some u => rfl
    | none => exact ihb t _ _ hfg
  | group index body ih => exact fun t f g hfg => ih t _ _ fun u => hfg (u.capture index t.cursor)
  | back index f =>
    intro t f g hfg
    simp only [Node.renumber, Node.step, Thread.captured?_renumber, Thread.cursor_renumber]
    split
    · rfl
    · split
      · rfl
      · exact hfg.move t _
  | loop body min max appetite ih =>
    cases body with
    | one s => exact renumbers_runStep s min max appetite
    | _ => exact renumbers_loopStep ih min max appetite
  | ahead negated body ih => exact renumbers_ahead ih negated
  | behind negated width body ih => exact renumbers_behind ih negated width
  | atomic body ih =>
    intro t f g hfg
    simp only [Node.renumber, Node.step, ih.alone t]
    cases body.step t some with
    | none => rfl
    | some u => exact hfg u
  | cond index a b iha ihb =>
    intro t f g hfg
    simp only [Node.renumber, Node.step, Thread.captured?_renumber]
    split
    · exact iha t _ _ hfg
    · exact ihb t _ _ hfg
  | anchor a =>
    intro t f g hfg
    simp only [Node.renumber, Node.step, Thread.cursor_renumber]
    by_cases ha : a.holds t.cursor = true
    · rw [if_pos ha, if_pos ha]
      exact hfg t
    · rw [if_neg ha, if_neg ha]
      rfl

/-! ## Occurrences -/

/-- A pattern matches from a place on. -/
def Node.Matches (n : Node) (c : Cursor) : Prop := (n.step { cursor := c } Option.some).isSome = true

/-- The places from one place of a text on, one after the other. -/
def places (before : List Char) (position : Nat) : List Char → List Cursor
  | [] => [⟨before, [], position⟩]
  | x :: rest => ⟨before, x :: rest, position⟩ :: places (x :: before) (position + 1) rest

theorem mem_places {c : Cursor} {before after : List Char} {position : Nat} :
    c ∈ places before position after ↔ ∃ more rest, more ++ rest = after ∧
      ⟨more.reverse ++ before, rest, position + more.length⟩ = c := by
  induction after generalizing before position with
  | nil =>
    rw [places, List.mem_singleton]
    constructor
    · rintro rfl
      exact ⟨[], [], rfl, rfl⟩
    · rintro ⟨more, rest, hsplit, rfl⟩
      obtain ⟨rfl, rfl⟩ := List.append_eq_nil_iff.1 hsplit
      rfl
  | cons x after ih =>
    rw [places, List.mem_cons, ih]
    constructor
    · rintro (rfl | ⟨more, rest, rfl, rfl⟩)
      · exact ⟨[], x :: after, rfl, rfl⟩
      · exact ⟨x :: more, rest, rfl, by simp [Nat.add_assoc, Nat.add_comm 1]⟩
    · rintro ⟨more, rest, hsplit, rfl⟩
      cases more with
      | nil =>
        obtain rfl : rest = x :: after := hsplit
        exact .inl rfl
      | cons y more =>
        obtain ⟨rfl, rfl⟩ := List.cons.inj hsplit
        exact .inr ⟨more, rest, rfl, by simp [Nat.add_assoc, Nat.add_comm 1]⟩

theorem searchFrom_eq_findSome? (n : Node) (before : List Char) (position : Nat)
    (after : List Char) :
    n.searchFrom before position after = (places before position after).findSome? n.matchAt := by
  induction after generalizing before position with
  | nil => rw [Node.searchFrom, places, List.findSome?_singleton]
  | cons x after ih =>
    rw [Node.searchFrom, places, List.findSome?_cons, ih]
    cases n.matchAt ⟨before, x :: after, position⟩ <;> rfl

/-- **Search.** The places of a text are tried one after the other. -/
theorem search_eq_findSome? (n : Node) (text : List Char) :
    n.search text = (places [] 0 text).findSome? n.matchAt := searchFrom_eq_findSome? n [] 0 text

/-- A pattern occurs in a text if it matches from one of its places on. -/
theorem isSome_search {n : Node} {text : List Char} :
    (n.search text).isSome = true ↔
      ∃ more rest, more ++ rest = text ∧ n.Matches ⟨more.reverse, rest, more.length⟩ := by
  have hmatches (c : Cursor) : (n.matchAt c).isSome = true ↔ n.Matches c := by
    rw [Node.matchAt, Option.isSome_map]
    exact Iff.rfl
  rw [search_eq_findSome?, List.findSome?_isSome_iff]
  simp only [hmatches, mem_places, List.append_nil, Nat.zero_add]
  constructor
  · rintro ⟨_, ⟨more, rest, hsplit, rfl⟩, h⟩
    exact ⟨more, rest, hsplit, h⟩
  · rintro ⟨more, rest, hsplit, h⟩
    exact ⟨_, ⟨more, rest, hsplit, rfl⟩, h⟩

theorem matches_renumber {n : Node} {c : Cursor} : (n.renumber k).Matches c ↔ n.Matches c := by
  have h := (renumbers_step n).alone (k := k) { cursor := c }
  rw [Node.Matches, Node.Matches, show ({ cursor := c } : Thread) =
    Thread.renumber k { cursor := c } from rfl, h, Option.isSome_map]
  exact Iff.rfl

theorem matches_altAll {ns : List Node} (hne : ns ≠ []) {c : Cursor} :
    (Node.altAll ns).Matches c ↔ ∃ n ∈ ns, n.Matches c := by
  induction ns with
  | nil => exact absurd rfl hne
  | cons n rest ih =>
    cases rest with
    | nil => simp [Node.altAll]
    | cons m rest =>
      have halt : (Node.altAll (n :: m :: rest)).Matches c ↔
          n.Matches c ∨ (Node.altAll (m :: rest)).Matches c := by
        simp only [Node.Matches, Node.altAll, Node.step]
        cases n.step { cursor := c } some <;> simp
      rw [halt, ih (by simp)]
      simp

end LangId.Regex
