import LangId.Proofs.Regex.Renumbering
import LangId.Regex.Build
import Mathlib.Data.List.Forall2

/-!
# What patterns pass over

The matcher tries the ways of a pattern in order of preference, and goes back to the next one when the
rest fails. Where it only counts whether there is a match, the order does not show: a pattern without
groups stands for the words that it can pass over from a place on (`Node.Passes`), and the rest has to
succeed behind one of them. There is one lemma for each way to put patterns together.

**Results.**
* `passes_run`, `passes_few`, `passes_optional`: the repetitions, whose order of trying is lost here.
* `passes_text`: a given text, and what comes behind it.
* `isSome_search_of_passes`: where a text holds a match.
-/
namespace LangId.Regex

/-- The place behind the characters of a word that comes next. -/
def Cursor.past (c : Cursor) (word : List Char) : Cursor :=
  ⟨word.reverse ++ c.before, c.after.drop word.length, c.position + word.length⟩

/-- A partial match moved past a word. -/
def Thread.past (t : Thread) (word : List Char) : Thread := { t with cursor := t.cursor.past word }

/-- Words that can be passed over from a place on. -/
abbrev Words := Cursor → List Char → Prop

/-- A step passes over some words: the rest succeeds exactly if it does so behind one of them. -/
def Step.Passes (a : Step) (words : Words) : Prop :=
  ∀ t k, (a t k).isSome = true ↔
    ∃ word, word <+: t.cursor.after ∧ words t.cursor word ∧ (k (t.past word)).isSome = true

/-- The words that a pattern passes over. -/
def Node.Passes (n : Node) (words : Words) : Prop := Step.Passes n.step words

/-- Words of one kind behind words of another one. -/
def Words.followedBy (first second : Words) : Words := fun c word =>
  ∃ u v, word = u ++ v ∧ first c u ∧ second (c.past u) v

variable {c : Cursor} {t : Thread} {k : Continuation} {n m : Node} {s : CharClass}
  {words words' : Words} {u v : List Char}

/-! ## Places -/

@[simp] theorem Cursor.past_nil (c : Cursor) : c.past [] = c := rfl

theorem Cursor.past_append (c : Cursor) (u v : List Char) : c.past (u ++ v) = (c.past u).past v := by
  simp only [past, List.reverse_append, List.append_assoc, List.length_append, List.drop_drop,
    Nat.add_assoc]

theorem Thread.past_append (t : Thread) (u v : List Char) : t.past (u ++ v) = (t.past u).past v :=
  congrArg (fun c => { t with cursor := c }) (t.cursor.past_append u v)

theorem append_prefix_iff {after : List Char} :
    u ++ v <+: after ↔ u <+: after ∧ v <+: after.drop u.length := by
  constructor
  · rintro ⟨rest, rfl⟩
    rw [List.append_assoc, List.drop_left]
    exact ⟨List.prefix_append _ _, List.prefix_append _ _⟩
  · rintro ⟨⟨rest, rfl⟩, hv⟩
    rw [List.drop_left] at hv
    exact (List.prefix_append_right_inj u).2 hv

/-! ## Single characters and sequences -/

theorem Node.Passes.congr (h : n.Passes words) (hwords : ∀ c u, words c u ↔ words' c u) :
    n.Passes words' := fun t k => by simp only [h t k, hwords]

theorem passes_empty : Node.empty.Passes fun _ word => word = [] := fun t k =>
  ⟨fun h => ⟨[], List.nil_prefix, rfl, h⟩, fun ⟨_, _, hnil, h⟩ => by subst hnil; exact h⟩

theorem passes_anchor (a : Anchor) :
    (Node.anchor a).Passes fun c word => word = [] ∧ a.holds c = true := by
  intro t k
  rw [Node.step]
  constructor
  · intro h
    split at h
    · rename_i ha
      exact ⟨[], List.nil_prefix, ⟨rfl, ha⟩, h⟩
    · cases h
  · rintro ⟨_, -, ⟨rfl, ha⟩, h⟩
    rw [if_pos ha]
    exact h

theorem passes_one (s : CharClass) :
    (Node.one s).Passes fun _ word => ∃ x, word = [x] ∧ s.contains x = true := by
  intro t k
  obtain ⟨⟨before, after, position⟩, captures⟩ := t
  rw [Node.step, oneStep]
  cases after with
  | nil =>
    refine iff_of_false Bool.false_ne_true ?_
    rintro ⟨_, hword, ⟨x, rfl, -⟩, -⟩
    exact List.cons_ne_nil x [] (List.prefix_nil.1 hword)
  | cons y rest =>
    dsimp only [Cursor.next?]
    constructor
    · intro h
      split at h
      · rename_i hy
        exact ⟨[y], List.prefix_append [y] rest, ⟨y, rfl, hy⟩, h⟩
      · cases h
    · rintro ⟨_, hword, ⟨x, rfl, hx⟩, h⟩
      obtain rfl := (List.cons_prefix_cons.1 hword).1
      rw [if_pos hx]
      exact h

/-- Two steps, the second from where the first has come to. -/
theorem passes_steps {a b : Step} (ha : Step.Passes a words) (hb : Step.Passes b words') :
    Step.Passes (fun t k => a t fun u => b u k) (words.followedBy words') := by
  intro t k
  rw [ha]
  constructor
  · rintro ⟨u, hu, hfirst, h⟩
    obtain ⟨v, hv, hsecond, h⟩ := (hb _ _).1 h
    exact ⟨u ++ v, append_prefix_iff.2 ⟨hu, hv⟩, ⟨u, v, rfl, hfirst, hsecond⟩,
      t.past_append u v ▸ h⟩
  · rintro ⟨_, hword, ⟨u, v, rfl, hfirst, hsecond⟩, h⟩
    obtain ⟨hu, hv⟩ := append_prefix_iff.1 hword
    exact ⟨u, hu, hfirst, (hb _ _).2 ⟨v, hv, hsecond, t.past_append u v ▸ h⟩⟩

theorem passes_seq (hn : n.Passes words) (hm : m.Passes words') :
    (Node.seq n m).Passes (words.followedBy words') := by
  have hstep : (Node.seq n m).step = fun t k => n.step t fun u => m.step u k := by
    funext t k
    rw [Node.step]
  rw [Node.Passes, hstep]
  exact passes_steps hn hm

theorem passes_seqAll_singleton (hn : n.Passes words) : (Node.seqAll [n]).Passes words := hn

theorem passes_seqAll_cons {ns : List Node} (hn : n.Passes words)
    (hns : (Node.seqAll ns).Passes words') :
    (Node.seqAll (n :: ns)).Passes (words.followedBy words') := by
  cases ns with
  | nil => exact passes_steps hn hns
  | cons m rest => exact passes_seq hn hns

theorem passes_alt (hn : n.Passes words) (hm : m.Passes words') :
    (Node.alt n m).Passes fun c word => words c word ∨ words' c word := by
  intro t k
  have heither : ((Node.alt n m).step t k).isSome = true ↔
      (n.step t k).isSome = true ∨ (m.step t k).isSome = true := by
    rw [Node.step]
    cases n.step t k <;> simp
  simp only [heither, hn t k, hm t k, or_and_right, and_or_left, exists_or]

/-! ## Given characters -/

/-- A class whose members have no case holds what one of them holds. -/
theorem contains_ofItems_of_uncased {f : Folding} {items : List ClassItem}
    (h : items.any (·.foldsCase f) = false) (ascii negated : Bool) (y : Char) :
    CharClass.contains (.ofItems f ascii negated items) y =
      (items.any (·.holds ascii y) != negated) := by
  have hplain : CharClass.ofItems f ascii negated items = { items, negated, ascii } := by
    unfold CharClass.ofItems
    split
    · rename_i code
      simp only [List.any_cons, ClassItem.foldsCase, Bool.or_eq_false_iff] at h
      rw [if_neg (by simp [h.1.2])]
    · rw [if_neg (by simp [h])]
  rw [hplain]
  rfl

theorem contains_ofItems_char {f : Folding} {x : Char} (h : f.isCased x.toNat = false)
    (negated : Bool) (y : Char) :
    CharClass.contains (.ofItems f false negated [.char x.toNat]) y = ((y == x) != negated) := by
  have hcode : (y.toNat == x.toNat) = (y == x) := by
    rw [Bool.eq_iff_iff, beq_iff_eq, beq_iff_eq, Char.toNat_inj]
  simp [CharClass.ofItems, CharClass.contains, h, ClassItem.holds, hcode]

theorem contains_other (x y : Char) :
    CharClass.contains (.ofItems .none false true [.char x.toNat]) y = true ↔ y ≠ x := by
  rw [contains_ofItems_char rfl, Bool.bne_true, Bool.not_eq_true', beq_eq_false_iff_ne]

/-- A character without a case stands for itself. -/
theorem passes_uncased {f : Folding} {x : Char} (h : f.isCased x.toNat = false) :
    (Node.char f x).Passes fun _ word => word = [x] := by
  refine (passes_one _).congr fun c word => ?_
  simp only [contains_ofItems_char h, Bool.bne_false, beq_iff_eq]
  exact ⟨fun ⟨_, hword, hx⟩ => hx ▸ hword, fun h => ⟨x, h, rfl⟩⟩

theorem passes_char (x : Char) : (Node.char .none x).Passes fun _ word => word = [x] :=
  passes_uncased rfl

/-- Characters of classes, one after the other. -/
theorem passes_singles (ss : List CharClass) : (Node.seqAll (ss.map .one)).Passes fun _ word =>
    List.Forall₂ (fun s c => s.contains c = true) ss word := by
  induction ss with
  | nil => exact passes_empty.congr fun _ word => List.forall₂_nil_left_iff.symm
  | cons s ss ih =>
    refine (passes_seqAll_cons (passes_one s) ih).congr fun _ word => ?_
    rw [List.forall₂_cons_left_iff]
    constructor
    · rintro ⟨_, v, rfl, ⟨x, rfl, hx⟩, hv⟩
      exact ⟨x, v, hx, hv, rfl⟩
    · rintro ⟨x, v, hx, hv, rfl⟩
      exact ⟨[x], v, rfl, ⟨x, rfl, hx⟩, hv⟩

/-- A given text, and what comes behind it. -/
theorem passes_text (text : List Char) {ns : List Node} (h : (Node.seqAll ns).Passes words) :
    (Node.seqAll (text.map (Node.char .none) ++ ns)).Passes fun c word =>
      ∃ v, word = text ++ v ∧ words (c.past text) v := by
  induction text with
  | nil => exact h.congr fun c word => by simp
  | cons x text ih =>
    refine (passes_seqAll_cons (passes_char x) ih).congr fun c word => ?_
    constructor
    · rintro ⟨_, _, rfl, rfl, v, rfl, hv⟩
      exact ⟨v, rfl, c.past_append [x] text ▸ hv⟩
    · rintro ⟨v, rfl, hv⟩
      exact ⟨[x], text ++ v, rfl, rfl, v, rfl, c.past_append [x] text ▸ hv⟩

/-! ## Repetitions -/

/-- Without a limit, all places up to the end of the run are reached. -/
theorem spread_eq (s : CharClass) (found : List Cursor) (c : Cursor) :
    Cursor.spread s none found c.before c.position c.after =
      (List.range ((c.after.takeWhile s.contains).length + 1)).reverse.map
        (fun i => c.past (c.after.take i)) ++ found := by
  obtain ⟨before, after, position⟩ := c
  induction after generalizing before position found with
  | nil => rfl
  | cons x rest ih =>
    rw [Cursor.spread]
    by_cases hx : s.contains x = true
    · rw [if_pos (by simp [hx]), List.takeWhile_cons_of_pos hx, List.length_cons,
        List.range_succ_eq_map, List.reverse_cons, List.map_append, List.append_assoc]
      refine (ih _ (x :: before) (position + 1)).trans (congrArg (· ++ _) ?_)
      rw [← List.map_reverse, List.map_map]
      refine List.map_congr_left fun i _ => ?_
      exact (Cursor.past_append ⟨before, x :: rest, position⟩ [x] (rest.take i)).symm
    · rw [if_neg (by simp [hx]), List.takeWhile_cons_of_neg hx]
      rfl

theorem mem_take_reverse_range {m n i : Nat} :
    i ∈ (List.range (m + 1)).reverse.take (m + 1 - n) ↔ n ≤ i ∧ i ≤ m := by
  simp only [List.mem_take_iff_getElem, List.getElem_reverse, List.getElem_range,
    List.length_reverse, List.length_range]
  constructor
  · rintro ⟨j, hj, rfl⟩
    omega
  · rintro ⟨hn, hm⟩
    exact ⟨m - i, by omega, by omega⟩

/-- What a class leaves of the front of a text. -/
theorem take_all_iff {after : List Char} {i : Nat} (hi : i ≤ after.length) :
    (∀ x ∈ after.take i, s.contains x = true) ↔ i ≤ (after.takeWhile s.contains).length := by
  induction after generalizing i with
  | nil => simp_all
  | cons x rest ih =>
    cases i with
    | zero => simp
    | succ i =>
      have hrest := ih (Nat.le_of_succ_le_succ hi)
      by_cases hx : s.contains x = true
      · simp [hx, hrest]
      · simp [hx]

/-- Places that a run reaches lie behind words of the class. -/
theorem mem_run {min : Nat} {d : Cursor} : d ∈ c.run s min none ↔
    ∃ word, word <+: c.after ∧ (min ≤ word.length ∧ ∀ x ∈ word, s.contains x = true) ∧
      c.past word = d := by
  have hlength : (c.after.takeWhile s.contains).length ≤ c.after.length :=
    (List.takeWhile_prefix _).length_le
  rw [Cursor.run, spread_eq, List.append_nil, ← List.map_take, List.mem_map]
  simp only [List.length_map, List.length_reverse, List.length_range, mem_take_reverse_range]
  constructor
  · rintro ⟨i, ⟨hmin, hi⟩, rfl⟩
    have hle := Nat.le_trans hi hlength
    refine ⟨c.after.take i, List.take_prefix _ _, ⟨?_, (take_all_iff hle).2 hi⟩, rfl⟩
    rw [List.length_take_of_le hle]
    exact hmin
  · rintro ⟨word, hword, ⟨hmin, hall⟩, rfl⟩
    rw [List.prefix_iff_eq_take.1 hword] at hall ⊢
    exact ⟨word.length, ⟨hmin, (take_all_iff hword.length_le).1 hall⟩, rfl⟩

/-- Words of a class, of no less than a given length. -/
theorem passes_run (s : CharClass) (min : Nat) :
    (Node.loop (.one s) min none .greedy).Passes fun _ word =>
      min ≤ word.length ∧ ∀ x ∈ word, s.contains x = true := by
  intro t k
  rw [Node.step, runStep, List.findSome?_isSome_iff]
  constructor
  · rintro ⟨d, hd, h⟩
    obtain ⟨word, hword, hclass, rfl⟩ := mem_run.1 hd
    exact ⟨word, hword, hclass, h⟩
  · rintro ⟨word, hword, hclass, h⟩
    exact ⟨_, mem_run.2 ⟨word, hword, hclass, rfl⟩, h⟩

/-- One turn of a lazy loop past its least count: the rest is tried here, and else behind one more
iteration. -/
theorem lazyLoop_turn {a : Step} {min bound count : Nat} {last : Option Nat} (hmin : min ≤ count)
    (hlast : ∀ p ∈ last, p < t.cursor.position) :
    lazyLoop a min none k (bound + 1) count last t = (k t).or
      (a t fun u => lazyLoop a min none k bound (count + 1) (some t.cursor.position) u) := by
  have hmore : (below count none && last != some t.cursor.position) = true := by
    have hne : last ≠ some t.cursor.position := fun h => Nat.lt_irrefl _ (hlast _ h)
    simpa [below] using hne
  rw [lazyLoop, if_neg (Nat.not_lt.2 hmin), if_pos hmore]
  cases k t <;> rfl

/-- All counts are tried, with enough iterations left to reach the end. -/
theorem isSome_lazyLoop {bound count : Nat} {last : Option Nat}
    (hbound : t.cursor.after.length < bound) (hlast : ∀ p ∈ last, p < t.cursor.position) :
    (lazyLoop (oneStep s) 0 none k bound count last t).isSome = true ↔
      ∃ word, word <+: t.cursor.after ∧ (∀ x ∈ word, s.contains x = true) ∧
        (k (t.past word)).isSome = true := by
  induction bound generalizing t count last with
  | zero => exact absurd hbound (Nat.not_lt_zero _)
  | succ bound ih =>
    have hone := passes_one s t fun u =>
      lazyLoop (oneStep s) 0 none k bound (count + 1) (some t.cursor.position) u
    rw [Node.step] at hone
    have hrest {x : Char} (hx : [x] <+: t.cursor.after) :
        (lazyLoop (oneStep s) 0 none k bound (count + 1) (some t.cursor.position)
          (t.past [x])).isSome = true ↔
        ∃ word, word <+: t.cursor.after.drop 1 ∧ (∀ x ∈ word, s.contains x = true) ∧
          (k ((t.past [x]).past word)).isSome = true := by
      have hlength : (t.past [x]).cursor.after.length = t.cursor.after.length - 1 :=
        List.length_drop
      have hsome : 1 ≤ t.cursor.after.length := hx.length_le
      exact ih (by omega) fun p hp => Option.some.inj hp ▸ Nat.lt_succ_self _
    rw [lazyLoop_turn (Nat.zero_le count) hlast, Option.isSome_or, Bool.or_eq_true, hone]
    constructor
    · rintro (h | ⟨_, hx, ⟨x, rfl, hclass⟩, h⟩)
      · exact ⟨[], List.nil_prefix, by simp, h⟩
      · obtain ⟨word, hword, hall, h⟩ := (hrest hx).1 h
        exact ⟨[x] ++ word, append_prefix_iff.2 ⟨hx, hword⟩, List.forall_mem_cons.2 ⟨hclass, hall⟩,
          t.past_append [x] word ▸ h⟩
    · rintro ⟨word, hword, hall, h⟩
      cases word with
      | nil => exact .inl h
      | cons x word =>
        obtain ⟨hx, hword⟩ := append_prefix_iff.1 (show [x] ++ word <+: _ from hword)
        obtain ⟨hclass, hall⟩ := List.forall_mem_cons.1 hall
        exact .inr ⟨[x], hx, ⟨x, rfl, hclass⟩,
          (hrest hx).2 ⟨word, hword, hall, t.past_append [x] word ▸ h⟩⟩

/-- Words of a class, the shortest first. -/
theorem passes_few (s : CharClass) :
    (Node.few (.one s)).Passes fun _ word => ∀ x ∈ word, s.contains x = true := by
  intro t k
  rw [Node.few, Node.step, runStep, isSome_lazyLoop (by rw [loopBound]; omega) (by simp)]

theorem greedyLoop_once (body : Step) (t : Thread) (k : Continuation) (bound : Nat) :
    greedyLoop body 0 (some 1) k (bound + 2) 0 none t = (body t k).or (k t) := by
  have hbehind (u : Thread) (last : Option Nat) :
      greedyLoop body 0 (some 1) k (bound + 1) 1 last u = k u := by
    simp [greedyLoop, below]
  rw [greedyLoop]
  simp only [hbehind, below]
  cases body t k <;> simp

/-- What may be missing. A class of its own would be a run. -/
theorem passes_optional (hn : n.Passes words) (hbody : ∀ s, n ≠ .one s) :
    n.optional.Passes fun c word => words c word ∨ word = [] := by
  intro t k
  have hstep : n.optional.step t k = (n.step t k).or (k t) := by
    rw [Node.optional, Node.step]
    · exact greedyLoop_once n.step t k _
    · exact hbody
  have hempty := passes_empty t k
  rw [Node.step] at hempty
  simp only [hstep, Option.isSome_or, Bool.or_eq_true, hn t k, hempty, or_and_right, and_or_left,
    exists_or]

/-- A character of a class that may be missing. -/
theorem passes_optional_one (s : CharClass) : (Node.optional (.one s)).Passes fun _ word =>
    (∃ x, word = [x] ∧ s.contains x = true) ∨ word = [] := by
  intro t k
  obtain ⟨⟨before, after, position⟩, captures⟩ := t
  have hrun : (Node.optional (.one s)).step ⟨⟨before, after, position⟩, captures⟩ k =
      ((Node.one s).step ⟨⟨before, after, position⟩, captures⟩ k).or
        (k ⟨⟨before, after, position⟩, captures⟩) := by
    rw [Node.optional, Node.step, Node.step]
    cases after with
    | nil => simp [runStep, oneStep, Cursor.run, Cursor.spread, Cursor.next?]
    | cons x rest =>
      by_cases hx : s.contains x = true
      · have hplaces : Cursor.run s 0 (some 1) ⟨before, x :: rest, position⟩ =
            [⟨x :: before, rest, position + 1⟩, ⟨before, x :: rest, position⟩] := by
          cases rest <;> simp [Cursor.run, Cursor.spread, hx]
        simp only [runStep, hplaces, oneStep, Cursor.next?, hx, if_true, List.findSome?_cons,
          List.findSome?_nil]
        cases k ⟨⟨x :: before, rest, position + 1⟩, captures⟩ <;>
          cases k ⟨⟨before, x :: rest, position⟩, captures⟩ <;> rfl
      · simp [runStep, oneStep, Cursor.run, Cursor.spread, Cursor.next?, hx]
  have hone := passes_one s
  have hempty := passes_empty ⟨⟨before, after, position⟩, captures⟩ k
  rw [Node.step] at hempty
  simp only [hrun, Option.isSome_or, Bool.or_eq_true, hone _ k, hempty, or_and_right, and_or_left,
    exists_or]

/-! ## Search -/

/-- A text holds a match where some word can be passed over. -/
theorem isSome_search_of_passes (h : n.Passes words) {text : List Char} :
    (n.search text).isSome = true ↔ ∃ more word rest, more ++ (word ++ rest) = text ∧
      words ⟨more.reverse, word ++ rest, more.length⟩ word := by
  rw [isSome_search]
  constructor
  · rintro ⟨more, _, rfl, hmatch⟩
    obtain ⟨word, ⟨rest, rfl⟩, hword, -⟩ := (h _ _).1 hmatch
    exact ⟨more, word, rest, rfl, hword⟩
  · rintro ⟨more, word, rest, rfl, hword⟩
    exact ⟨more, _, rfl, (h _ _).2 ⟨word, List.prefix_append word rest, hword, rfl⟩⟩

end LangId.Regex
