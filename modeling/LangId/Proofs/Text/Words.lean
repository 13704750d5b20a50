import LangId.Proofs.Text.Pieces
import LangId.Text.Word
import LangId.Text.Blank
import Mathlib.Data.List.TakeWhile

/-!
# Words of a text

The words of a text are what stands between its white space: words that are written with spaces
between them are read as they were (`words_joinWith`). A text of words with a space behind each of
them is cut between two words or within one of them (`cut_spaced`).
-/
namespace LangId.Text

variable {w s : List Char} {ws us : List (List Char)} {separator : Char} {c : Char}

/-- What is said of the characters of a text is decided for these only, not for all characters. -/
instance (priority := high) decidableForallMem (P : Char → Prop) [DecidablePred P]
    (text : List Char) : Decidable (∀ c ∈ text, P c) := List.decidableBAll P text

instance (priority := high) decidableForallMemOption (P : Char → Prop) [DecidablePred P]
    (end? : Option Char) : Decidable (∀ c ∈ end?, P c) := Option.decidableForallMem end?

/-- A text that is a word: not empty, and without white space. -/
structure Solid (w : List Char) : Prop where
  nonempty : w ≠ []
  unbroken : ∀ c ∈ w, isBlank c = false

instance (w : List Char) : Decidable (Solid w) :=
  decidable_of_iff (w ≠ [] ∧ ∀ c ∈ w, isBlank c = false) ⟨fun h => ⟨h.1, h.2⟩,
    fun h => ⟨h.nonempty, h.unbroken⟩⟩

/-! ## Texts put together -/

theorem joinWith_append (h : ws ≠ []) (h' : us ≠ []) :
    joinWith [separator] (ws ++ us) = joinWith [separator] ws ++ separator :: joinWith [separator] us := by
  induction ws with
  | nil => exact absurd rfl h
  | cons w ws ih =>
    by_cases hws : ws = []
    · subst hws
      rw [List.singleton_append, joinWith_cons _ _ h', joinWith, List.append_assoc,
        List.singleton_append]
    · rw [List.cons_append, joinWith_cons _ _ (by simp [hws]), joinWith_cons _ _ hws, ih hws]
      simp

theorem mem_joinWith (h : c ∈ joinWith [separator] ws) : c = separator ∨ ∃ w ∈ ws, c ∈ w := by
  induction ws with
  | nil => cases h
  | cons w ws ih =>
    by_cases hws : ws = []
    · subst hws
      exact .inr ⟨w, List.mem_cons_self, h⟩
    · rw [joinWith_cons _ _ hws, List.mem_append, List.mem_append, List.mem_singleton] at h
      rcases h with (h | h) | h
      · exact .inr ⟨w, List.mem_cons_self, h⟩
      · exact .inl h
      · exact (ih h).imp_right fun ⟨u, hu, hc⟩ => ⟨u, List.mem_cons_of_mem w hu, hc⟩

/-- Words with spaces between them hold no other white space. -/
theorem notMem_joinWith (h : ∀ w ∈ ws, ∀ x ∈ w, isBlank x = false) (hblank : isBlank c = true)
    (hc : c ≠ ' ') : c ∉ joinWith [' '] ws := by
  intro hmem
  rcases mem_joinWith hmem with hspace | ⟨w, hw, hin⟩
  · exact hc hspace
  · rw [h w hw c hin] at hblank
    cases hblank

/-! ## Words taken apart -/

theorem foldr_step_append (h : ∀ c ∈ w, isBlank c = false) (s : List Char) :
    (w ++ s).foldr words.step ([], []) =
      (w ++ (s.foldr words.step ([], [])).1, (s.foldr words.step ([], [])).2) := by
  induction w with
  | nil => rfl
  | cons c w ih =>
    obtain ⟨hc, hw⟩ := List.forall_mem_cons.1 h
    rw [List.cons_append, List.foldr_cons, ih hw, words.step, hc]
    rfl

theorem words_singleton (h : Solid w) : words w = [w] := by
  have hall := foldr_step_append h.unbroken []
  rw [List.append_nil, List.foldr_nil, List.append_nil] at hall
  rw [words, hall]
  simp [h.nonempty]

theorem words_append_blank (h : Solid w) (hc : isBlank c = true) (s : List Char) :
    words (w ++ c :: s) = w :: words s := by
  have hrest : (c :: s).foldr words.step ([], []) = ([], words s) := by
    rw [List.foldr_cons, words]
    cases s.foldr words.step ([], []) with
    | mk u us => simp [words.step, hc]
  rw [words, foldr_step_append h.unbroken, hrest]
  simp [h.nonempty]

/-- **Words.** Words with spaces between them are read as they were written. -/
theorem words_joinWith (h : ∀ w ∈ ws, Solid w) : words (joinWith [' '] ws) = ws := by
  induction ws with
  | nil => rfl
  | cons w ws ih =>
    obtain ⟨hw, hws⟩ := List.forall_mem_cons.1 h
    by_cases hlast : ws = []
    · subst hlast
      exact words_singleton hw
    · rw [joinWith_cons _ _ hlast, List.append_assoc, List.singleton_append,
        words_append_blank hw (by decide), ih hws]

/-- What is read is a word, even where a text begins or ends within it. -/
theorem solid_of_mem_words (h : w ∈ words s) : Solid w := by
  have hall (s : List Char) : (∀ c ∈ (s.foldr words.step ([], [])).1, isBlank c = false) ∧
      ∀ w ∈ (s.foldr words.step ([], [])).2, Solid w := by
    induction s with
    | nil => exact ⟨nofun, nofun⟩
    | cons c s ih =>
      obtain ⟨hopen, hclosed⟩ := ih
      rw [List.foldr_cons, words.step]
      by_cases hc : isBlank c = true
      · rw [if_pos hc]
        refine ⟨nofun, ?_⟩
        split
        · exact hclosed
        · rename_i hne
          exact List.forall_mem_cons.2 ⟨⟨by simpa using hne, hopen⟩, hclosed⟩
      · rw [if_neg hc]
        exact ⟨List.forall_mem_cons.2 ⟨by simpa using hc, hopen⟩, hclosed⟩
  obtain ⟨hopen, hclosed⟩ := hall s
  rw [words] at h
  split at h
  rename_i unfinished finished heq
  rw [heq] at hopen hclosed
  split at h
  · exact hclosed w h
  · rename_i hne
    rcases List.mem_cons.1 h with rfl | h
    · exact ⟨by simpa using hne, hopen⟩
    · exact hclosed w h

/-! ## White space -/

theorem Ranges.mem_of_search {r : Ranges} {n low high rounds : Nat} {run : Nat × Nat}
    (h : r.search n low high rounds = some run) : run ∈ r.intervals := by
  induction rounds generalizing low high with
  | zero => cases h
  | succ rounds ih =>
    rw [search] at h
    dsimp only at h
    split at h
    · split at h
      · cases h
      · rename_i first last hmiddle
        split at h
        · exact ih h
        · split at h
          · exact ih h
          · obtain rfl := Option.some.inj h
            exact Array.mem_of_getElem? hmiddle
    · cases h

/-- The characters that are white space. -/
def blankCharacters : List Char :=
  blanks.intervals.toList.flatMap fun run => (List.range' run.1 (run.2 + 1 - run.1)).map Char.ofNat

theorem mem_blankCharacters (h : isBlank c = true) : c ∈ blankCharacters := by
  obtain ⟨run, hrun, hfirst, hlast⟩ :
      ∃ run ∈ blanks.intervals.toList, run.1 ≤ c.toNat ∧ c.toNat ≤ run.2 := by
    rw [isBlank] at h
    split at h
    · simp only [Bool.or_eq_true, Bool.and_eq_true, beq_iff_eq, decide_eq_true_eq] at h
      rcases h with (h | h) | h
      · exact ⟨(0x1C, 0x20), by decide, by omega⟩
      · exact ⟨(0x9, 0xD), by decide, h⟩
      · exact ⟨(0x1C, 0x20), by decide, by omega⟩
    · obtain ⟨run, hrun⟩ := Option.isSome_iff_exists.1 h
      exact ⟨run, Array.mem_toList_iff.2 (Ranges.mem_of_search hrun), Ranges.search_bounds hrun⟩
  exact List.mem_flatMap.2 ⟨run, hrun, List.mem_map.2
    ⟨c.toNat, List.mem_range'_1.2 ⟨hfirst, by omega⟩, Char.ofNat_toNat c⟩⟩

theorem isBlank_of_isWord (h : isWord c = true) : isBlank c = false := by
  have hnone : ∀ c ∈ blankCharacters, isWord c = false := by decide +kernel
  exact Bool.eq_false_iff.2 fun hblank => by simp [hnone c (mem_blankCharacters hblank)] at h

/-! ## Where a text is cut -/

/-- What stands behind a character of another kind does not count. -/
theorem takeWhile_before {p : Char → Bool} {d : Char} (hp : p d = false) (s more : List Char) :
    (s ++ d :: more).takeWhile p = s.takeWhile p := by
  induction s with
  | nil => rw [List.nil_append, List.takeWhile_cons_of_neg (by simp [hp]), List.takeWhile_nil]
  | cons c rest ih => rw [List.cons_append, List.takeWhile_cons, List.takeWhile_cons, ih]

theorem dropWhile_before {p : Char → Bool} {d : Char} (hp : p d = false) (s more : List Char) :
    (s ++ d :: more).dropWhile p = s.dropWhile p ++ d :: more := by
  induction s with
  | nil => rw [List.nil_append, List.dropWhile_cons_of_neg (by simp [hp]), List.dropWhile_nil,
      List.nil_append]
  | cons c rest ih =>
    rw [List.cons_append, List.dropWhile_cons, List.dropWhile_cons, ih]
    split <;> rfl

/-- Where the first character stands that is not of a kind. -/
theorem eq_of_runs {p : Char → Bool} {u v rest rest' : List Char} {d : Char}
    (h : u ++ c :: rest = v ++ d :: rest') (hu : ∀ x ∈ u, p x = true) (hc : p c = false)
    (hv : ∀ x ∈ v, p x = true) (hd : p d = false) : u = v ∧ c = d ∧ rest = rest' := by
  have htake := congrArg (List.takeWhile p) h
  rw [List.takeWhile_append_of_pos hu, List.takeWhile_append_of_pos hv,
    List.takeWhile_cons_of_neg (by simp [hc]), List.takeWhile_cons_of_neg (by simp [hd]),
    List.append_nil, List.append_nil] at htake
  subst htake
  exact ⟨rfl, List.cons.inj (List.append_cancel_left h)⟩

/-- Words with a space behind each of them. -/
def spaced (ws : List (List Char)) : List Char := ws.flatMap fun w => w ++ [' ']

@[simp] theorem spaced_cons (w : List Char) (ws : List (List Char)) :
    spaced (w :: ws) = w ++ ' ' :: spaced ws := by simp [spaced]

@[simp] theorem spaced_append (us ws : List (List Char)) :
    spaced (us ++ ws) = spaced us ++ spaced ws := List.flatMap_append

theorem joinWith_concat (h : ws ≠ []) : joinWith [' '] ws ++ [' '] = spaced ws := by
  induction ws with
  | nil => exact absurd rfl h
  | cons w ws ih =>
    by_cases hws : ws = []
    · subst hws
      simp [joinWith, spaced]
    · rw [joinWith_cons _ _ hws, spaced_cons, ← ih hws]
      simp

/-- Words before, a word, and what comes behind it, which begins with a space. -/
theorem joinWith_split (us : List (List Char)) (w : List Char) (vs : List (List Char)) :
    ∃ rest, joinWith [' '] (us ++ w :: vs) = spaced us ++ (w ++ rest) ∧
      (rest = [] ∨ ∃ more, rest = ' ' :: more) := by
  obtain ⟨rest, hrest, hspace⟩ : ∃ rest, joinWith [' '] (w :: vs) = w ++ rest ∧
      (rest = [] ∨ ∃ more, rest = ' ' :: more) := by
    by_cases hvs : vs = []
    · exact ⟨[], by rw [hvs, joinWith, List.append_nil], .inl rfl⟩
    · exact ⟨' ' :: joinWith [' '] vs, by rw [joinWith_cons _ _ hvs, List.append_assoc]; rfl,
        .inr ⟨_, rfl⟩⟩
  refine ⟨rest, ?_, hspace⟩
  by_cases hus : us = []
  · subst hus
    exact hrest
  · rw [joinWith_append hus (List.cons_ne_nil w vs), hrest, ← joinWith_concat hus]
    simp

/-- Words with spaces behind them are cut between two words, or within one. -/
theorem cut_spaced {f g : List Char} (h : f ++ g = spaced ws) : ∃ us vs, us ++ vs = ws ∧
    (f = spaced us ∧ g = spaced vs ∨ ∃ p q vs', vs = (p ++ q) :: vs' ∧ p ≠ [] ∧
      f = spaced us ++ p ∧ g = q ++ ' ' :: spaced vs') := by
  induction ws generalizing f with
  | nil =>
    obtain ⟨rfl, rfl⟩ := List.append_eq_nil_iff.1 h
    exact ⟨[], [], rfl, .inl ⟨rfl, rfl⟩⟩
  | cons w ws ih =>
    rw [spaced_cons] at h
    rcases List.append_eq_append_iff.1 h with ⟨q, rfl, hg⟩ | ⟨rest, rfl, hrest⟩
    · by_cases hf : f = []
      · subst hf
        exact ⟨[], _, rfl, .inl ⟨rfl, by rw [spaced_cons]; exact hg⟩⟩
      · exact ⟨[], _, rfl, .inr ⟨f, q, ws, rfl, hf, rfl, hg⟩⟩
    · cases rest with
      | nil =>
        -- behind the whole of the word
        rw [List.append_nil]
        by_cases hw : w = []
        · subst hw
          exact ⟨[], _, rfl, .inl ⟨rfl, by rw [spaced_cons]; exact hrest.symm⟩⟩
        · exact ⟨[], _, rfl, .inr ⟨w, [], ws, by rw [List.append_nil], hw, rfl, hrest.symm⟩⟩
      | cons b rest =>
        obtain ⟨rfl, hbehind⟩ := List.cons.inj hrest
        obtain ⟨us, vs, rfl, ⟨rfl, rfl⟩ | ⟨p, q, vs', rfl, hp, rfl, rfl⟩⟩ := ih hbehind.symm
        · exact ⟨w :: us, vs, rfl, .inl ⟨by simp, rfl⟩⟩
        · exact ⟨w :: us, _, rfl, .inr ⟨p, q, vs', rfl, hp, by simp, rfl⟩⟩

/-- Behind a character that can only end a word, a text of words goes on with a word or with a blank. -/
theorem word_of_cut {f g : List Char} {p : Char → Bool}
    (hends : ∀ u x v, u ++ x :: v ∈ ws → p x = true → v = [])
    (h : f ++ g = ' ' :: spaced ws) (hf : ∀ y ∈ f.getLast?, p y = true)
    (hg : ∀ y ∈ g.head?, isBlank y = false) (hne : g ≠ []) :
    ∃ us w vs, us ++ w :: vs = ws ∧ g = w ++ ' ' :: spaced vs := by
  have hspaced : f ++ g = spaced ([] :: ws) := by rw [h, spaced_cons]; rfl
  obtain ⟨us, vs, hcut, ⟨-, rfl⟩ | ⟨u, v, vs', rfl, hu, rfl, rfl⟩⟩ := cut_spaced hspaced
  · cases vs with
    | nil => exact absurd rfl hne
    | cons w vs =>
      rcases us with - | ⟨u, us⟩
      · obtain ⟨rfl, -⟩ := List.cons.inj hcut
        exact absurd (hg ' ' rfl) (by decide)
      · exact ⟨us, w, vs, (List.cons.inj hcut).2, spaced_cons w vs⟩
  · -- within a word, only the blank behind it can follow
    obtain ⟨u, y, rfl⟩ := (List.eq_nil_or_concat u).resolve_left hu
    have hy : p y = true := hf y (by simp [← List.append_assoc])
    have hmem : u ++ y :: v ∈ [] :: ws := hcut ▸ by simp
    rw [hends u y v ((List.mem_cons.1 hmem).resolve_left (by simp)) hy] at hg
    exact absurd (hg ' ' rfl) (by decide)

/-- A name in a text of words, with a sign behind it and perhaps white space between them: the sign
stands in the same word, or in a later one. -/
theorem sign_behind {name gap tail rest : List Char} {sign : Char}
    (h : w ++ ' ' :: rest = name ++ (gap ++ sign :: tail)) (hw : ∀ x ∈ w, isBlank x = false)
    (hname : ∀ x ∈ name, isBlank x = false) (hgap : ∀ x ∈ gap, isBlank x = true)
    (hsign : isBlank sign = false) :
    (∃ q, w = name ++ sign :: q ∧ tail = q ++ ' ' :: rest) ∨
      w = name ∧ ∃ gap', rest = gap' ++ sign :: tail := by
  cases gap with
  | nil =>
    left
    rcases List.append_eq_append_iff.1 h with ⟨a, rfl, ha⟩ | ⟨a, rfl, ha⟩
    · cases a with
      | nil =>
        rw [← (List.cons.inj ha).1] at hsign
        cases hsign
      | cons y a =>
        have hy := hname y (by simp)
        rw [← (List.cons.inj ha).1] at hy
        cases hy
    · cases a with
      | nil =>
        rw [(List.cons.inj ha).1] at hsign
        cases hsign
      | cons y q =>
        obtain ⟨rfl, htail⟩ := List.cons.inj ha
        exact ⟨q, rfl, htail⟩
  | cons y gap =>
    obtain ⟨hy, hgap⟩ := List.forall_mem_cons.1 hgap
    obtain ⟨rfl, -, hrest⟩ := eq_of_runs (p := fun x => !isBlank x) h (by simpa using hw) (by decide)
      (by simpa using hname) (by simp [hy])
    exact .inr ⟨rfl, gap, hrest⟩

end LangId.Text
