import LangId.Gitignore.Pattern
import LangId.Proofs.Steps
import Mathlib.Data.List.TakeDrop

/-!
# Which ignore patterns can be read

A line of a `.gitignore` file is cut at its slashes, and each segment is read on its own. `Readable`
is the grammar of a segment: everything is allowed but a backslash that nothing follows and a bracket
expression that is no class. Normalising the segments neither adds nor drops anything that cannot be
read, so a line can be read exactly if it says nothing, or has something behind its `!` and readable
segments only.

**Results.**
* `ofLine_eq_ok_iff`: the lines that can be read.
-/
namespace LangId.Gitignore

open Text

/-- A segment that can be read. -/
inductive Readable : List Char → Prop
  | nil : Readable []
  | escaped {c : Char} {rest : List Char} : Readable rest → Readable ('\\' :: c :: rest)
  | bracket {rest body behind : List Char} {node : Regex.Node} :
      bracketBody? rest = some (body, behind) → bracketNode body = .ok node → Readable behind →
      Readable ('[' :: rest)
  /-- A bracket that is not closed is a character. -/
  | loneBracket {rest : List Char} : bracketBody? rest = none → Readable rest →
      Readable ('[' :: rest)
  | other {c : Char} {rest : List Char} : c ≠ '\\' → c ≠ '[' → Readable rest →
      Readable (c :: rest)

/-- What a line says can be read: there is something, and each segment can be read. -/
def ReadableBody (body : List Char) : Prop :=
  body ≠ [] ∧ ∀ s ∈ splitOn '/' body, Readable s

/-- A line that can be read: it says nothing, or what it says can be read. -/
def ReadableLine (line : String) : Prop :=
  match withoutTrailingBlanks line.toList with
  | [] => True
  | c :: rest => c = '#' ∨ ReadableBody (if c = '!' then rest else c :: rest)

/-! ## The grammar -/

section Grammar

variable {c : Char} {rest body behind : List Char}

theorem not_readable_backslash : ¬Readable ['\\'] := by
  intro h
  cases h with
  | other hne => exact hne rfl

theorem readable_escaped_iff : Readable ('\\' :: c :: rest) ↔ Readable rest := by
  refine ⟨fun h => ?_, .escaped⟩
  cases h with
  | escaped h => exact h
  | other hne => exact absurd rfl hne

theorem readable_bracket_iff (hbody : bracketBody? rest = some (body, behind)) :
    Readable ('[' :: rest) ↔ (∃ node, bracketNode body = .ok node) ∧ Readable behind := by
  refine ⟨fun h => ?_, fun ⟨⟨_, hnode⟩, h⟩ => .bracket hbody hnode h⟩
  cases h with
  | bracket hsome hnode h =>
    cases hbody.symm.trans hsome
    exact ⟨⟨_, hnode⟩, h⟩
  | loneBracket hnone => cases hbody.symm.trans hnone
  | other _ hne => exact absurd rfl hne

theorem readable_loneBracket_iff (hbody : bracketBody? rest = none) :
    Readable ('[' :: rest) ↔ Readable rest := by
  refine ⟨fun h => ?_, .loneBracket hbody⟩
  cases h with
  | bracket hsome => cases hbody.symm.trans hsome
  | loneBracket _ h => exact h
  | other _ hne => exact absurd rfl hne

theorem readable_other_iff (hslash : c ≠ '\\') (hbracket : c ≠ '[') :
    Readable (c :: rest) ↔ Readable rest := by
  refine ⟨fun h => ?_, .other hslash hbracket⟩
  cases h with
  | escaped | bracket | loneBracket => contradiction
  | other _ _ h => exact h

theorem readable_anyName : Readable ['*'] := .other (by decide) (by decide) .nil

theorem readable_anyDepth : Readable ['*', '*'] := .other (by decide) (by decide) readable_anyName

end Grammar

/-! ## Units -/

theorem length_of_bracketBody? {s body behind : List Char}
    (h : bracketBody? s = some (body, behind)) : behind.length < s.length := by
  have hspan {t piece rest : List Char} {c : Char} (ht : t.span (· != ']') = (piece, c :: rest)) :
      rest.length < t.length := by
    rw [List.span_eq_takeWhile_dropWhile] at ht
    have hle := (List.dropWhile_suffix (l := t) (· != ']')).length_le
    rw [(Prod.mk.inj ht).2] at hle
    exact hle
  revert h
  fun_cases bracketBody? s with
  | case1 lead afterLead hlead first afterFirst hfirst piece c rest hrest =>
    intro h
    obtain ⟨-, rfl⟩ := Prod.mk.inj (Option.some.inj h)
    have h₁ : afterLead.length ≤ s.length := by
      split at hlead
      · split at hlead <;> cases hlead <;> simp
      · cases hlead
        simp
    have h₂ : afterFirst.length ≤ afterLead.length := by
      split at hfirst <;> cases hfirst <;> simp
    exact Nat.lt_of_lt_of_le (hspan hrest) (Nat.le_trans h₂ h₁)
  | case2 => exact nofun

/-- The units of a segment are read, each to a pattern. -/
def Reads (bound : Nat) (s : List Char) : Prop :=
  ∃ units, globs bound s = some units ∧ ∀ u ∈ units, ∃ node, u.node = .ok node

variable {bound : Nat} {s : List Char}

/-- One unit more. -/
theorem reads_of_cons (u : Glob) (rest : List Char)
    (h : globs (bound + 1) s = (globs bound rest).map (u :: ·)) :
    Reads (bound + 1) s ↔ (∃ node, u.node = .ok node) ∧ Reads bound rest := by
  simp only [Reads, h, Option.map_eq_some_iff]
  constructor
  · rintro ⟨_, ⟨units, hunits, rfl⟩, hok⟩
    obtain ⟨hu, hrest⟩ := List.forall_mem_cons.1 hok
    exact ⟨hu, units, hunits, hrest⟩
  · rintro ⟨hu, units, hunits, hrest⟩
    exact ⟨_, ⟨units, hunits, rfl⟩, List.forall_mem_cons.2 ⟨hu, hrest⟩⟩

theorem globs_bracket (bound : Nat) (rest : List Char) : globs (bound + 1) ('[' :: rest) =
    match bracketBody? rest with
    | some (body, behind) => (globs bound behind).map (.bracket body :: ·)
    | none => (globs bound rest).map (.char '[' :: ·) := by
  cases rest <;> rfl

/-- A character that opens nothing is a unit of its own, and has a pattern. -/
theorem globs_other {c : Char} (hslash : c ≠ '\\') (hbracket : c ≠ '[') :
    ∃ u : Glob, (∃ node, u.node = .ok node) ∧
      ∀ bound rest, globs (bound + 1) (c :: rest) = (globs bound rest).map (u :: ·) := by
  have heq (bound : Nat) (rest : List Char) : globs (bound + 1) (c :: rest) =
      if c == '*' then (globs bound rest).map (.anyRun :: ·)
      else if c == '?' then (globs bound rest).map (.anyOne :: ·)
      else (globs bound rest).map (.char c :: ·) := by
    cases rest <;> simp [globs, hslash, hbracket]
  simp only [heq]
  split
  · exact ⟨.anyRun, ⟨_, rfl⟩, fun _ _ => rfl⟩
  split
  · exact ⟨.anyOne, ⟨_, rfl⟩, fun _ _ => rfl⟩
  · exact ⟨.char c, ⟨_, rfl⟩, fun _ _ => rfl⟩

/-- The units of a segment are read exactly if the segment belongs to the grammar. -/
theorem reads_iff (h : s.length ≤ bound) : Reads bound s ↔ Readable s := by
  induction bound generalizing s with
  | zero =>
    obtain rfl := List.length_eq_zero_iff.1 (Nat.le_zero.1 h)
    exact iff_of_true ⟨[], rfl, nofun⟩ .nil
  | succ bound ih =>
    match s with
    | [] => exact iff_of_true ⟨[], rfl, nofun⟩ .nil
    | c :: rest =>
      have hrest : rest.length ≤ bound := Nat.le_of_succ_le_succ h
      by_cases hslash : c = '\\'
      · subst hslash
        match rest with
        | [] => exact iff_of_false (fun ⟨_, hunits, _⟩ => nomatch hunits) not_readable_backslash
        | d :: rest =>
          rw [readable_escaped_iff, reads_of_cons (.char d) rest rfl,
            ih (Nat.le_of_succ_le hrest)]
          exact and_iff_right ⟨_, rfl⟩
      by_cases hbracket : c = '['
      · subst hbracket
        cases hbody : bracketBody? rest with
        | none =>
          rw [readable_loneBracket_iff hbody, ← ih hrest,
            reads_of_cons (.char '[') rest (by rw [globs_bracket, hbody])]
          exact and_iff_right ⟨_, rfl⟩
        | some found =>
          obtain ⟨body, behind⟩ := found
          have hbehind : behind.length ≤ bound :=
            Nat.le_trans (Nat.le_of_lt (length_of_bracketBody? hbody)) hrest
          rw [readable_bracket_iff hbody, ← ih hbehind,
            reads_of_cons (.bracket body) behind (by rw [globs_bracket, hbody])]
          rfl
      · obtain ⟨u, hu, hglobs⟩ := globs_other hslash hbracket
        rw [readable_other_iff hslash hbracket, ← ih hrest, reads_of_cons u rest (hglobs bound rest)]
        exact and_iff_right hu

/-! ## Segments -/

/-- A segment has a pattern. -/
def Segment.Readable : Segment → Prop
  | .anyDepth | .anyName => True
  | .glob units => ∀ u ∈ units, ∃ node, u.node = .ok node

theorem read?_iff : (∃ segment, Segment.read? s = some segment ∧ segment.Readable) ↔ Readable s := by
  unfold Segment.read?
  split
  · rename_i h
    obtain rfl := eq_of_beq h
    exact iff_of_true ⟨_, rfl, trivial⟩ readable_anyDepth
  split
  · rename_i h
    obtain rfl := eq_of_beq h
    exact iff_of_true ⟨_, rfl, trivial⟩ readable_anyName
  · rw [← reads_iff (Nat.le_refl s.length)]
    simp only [Option.map_eq_some_iff, Reads]
    constructor
    · rintro ⟨_, ⟨units, hunits, rfl⟩, hok⟩
      exact ⟨units, hunits, hok⟩
    · rintro ⟨units, hunits, hok⟩
      exact ⟨_, ⟨units, hunits, rfl⟩, hok⟩

/-- Segments are all read, each to a pattern, exactly if each of them belongs to the grammar. -/
theorem mapM_read?_iff {segments : List (List Char)} :
    (∃ found, segments.mapM Segment.read? = some found ∧ ∀ segment ∈ found, segment.Readable) ↔
      ∀ s ∈ segments, Readable s := by
  induction segments with
  | nil => exact iff_of_true ⟨[], rfl, nofun⟩ nofun
  | cons s rest ih =>
    rw [List.forall_mem_cons, ← ih, ← read?_iff, List.mapM_cons]
    simp only [bind, pure, Option.bind_eq_some_iff]
    constructor
    · rintro ⟨_, ⟨segment, hs, found, hrest, h⟩, hok⟩
      obtain rfl := Option.some.inj h
      obtain ⟨hsegment, hfound⟩ := List.forall_mem_cons.1 hok
      exact ⟨⟨segment, hs, hsegment⟩, found, hrest, hfound⟩
    · rintro ⟨⟨segment, hs, hsegment⟩, found, hrest, hfound⟩
      exact ⟨_, ⟨segment, hs, found, hrest, rfl⟩, List.forall_mem_cons.2 ⟨hsegment, hfound⟩⟩

theorem segmentNodes_iff (first slash : Bool) {segments : List Segment} :
    (∃ nodes, segmentNodes first slash segments = .ok nodes) ↔
      ∀ segment ∈ segments, segment.Readable := by
  induction segments generalizing first slash with
  | nil => exact iff_of_true ⟨[], rfl⟩ nofun
  | cons segment rest ih =>
    rw [List.forall_mem_cons]
    cases segment with
    | anyDepth =>
      rw [segmentNodes]
      split
      · rw [exists_bind_pure, ih]
        exact (and_iff_right trivial).symm
      split
      · rename_i hrest
        obtain rfl := List.isEmpty_iff.1 hrest
        exact iff_of_true ⟨_, rfl⟩ ⟨trivial, nofun⟩
      · rw [exists_bind_pure, ih]
        exact (and_iff_right trivial).symm
    | anyName =>
      rw [segmentNodes, exists_bind_pure, ih]
      exact (and_iff_right trivial).symm
    | glob units =>
      rw [segmentNodes]
      constructor
      · rintro ⟨nodes, h⟩
        obtain ⟨found, hfound, h⟩ := bind_eq_ok.1 h
        obtain ⟨behind, hbehind, -⟩ := bind_eq_ok.1 h
        exact ⟨mapM_eq_ok.1 ⟨_, hfound⟩, (ih _ _).1 ⟨_, hbehind⟩⟩
      · rintro ⟨hunits, hrest⟩
        obtain ⟨found, hfound⟩ := mapM_eq_ok.2 hunits
        obtain ⟨behind, hbehind⟩ := (ih false true).2 hrest
        exact ⟨_, bind_eq_ok.2 ⟨found, hfound, bind_eq_ok.2 ⟨behind, hbehind, rfl⟩⟩⟩

/-! ## Lines -/

theorem nodeOf_iff {line : String} {directory : Bool} {segments : List (List Char)} :
    (∃ node, nodeOf line directory segments = .ok node) ↔
      segments ≠ [] ∧ ∀ s ∈ segments, Readable s := by
  have hwild {segments : List (List Char)} (h : segments ⊆ [['*', '*'], ['*']]) :
      ∀ s ∈ segments, Readable s := fun s hs => by
    rcases List.mem_cons.1 (h hs) with rfl | hname
    · exact readable_anyDepth
    · rw [List.mem_singleton.1 hname]
      exact readable_anyName
  unfold nodeOf
  split
  · exact iff_of_false (fun ⟨_, h⟩ => nomatch h) fun h => h.1 rfl
  · exact iff_of_true ⟨_, rfl⟩ ⟨nofun, hwild (by simp)⟩
  · exact iff_of_true ⟨_, rfl⟩ ⟨nofun, hwild (by simp)⟩
  · exact iff_of_true ⟨_, rfl⟩ ⟨nofun, hwild (by simp)⟩
  · rename_i hne _ _ _
    rw [and_iff_right hne, ← mapM_read?_iff]
    cases segments.mapM Segment.read? with
    | none => exact iff_of_false (fun ⟨_, h⟩ => nomatch h) fun ⟨_, h, _⟩ => nomatch h
    | some found =>
      simp only [Option.some.injEq, exists_eq_left', ← segmentNodes_iff true false]
      cases segmentNodes true false found <;> simp

/-- Segments that say where they begin to match. -/
def anchored : List (List Char) → List (List Char)
  | [] => []
  | first :: rest =>
    if first.isEmpty then rest
    else if (rest.isEmpty || rest == [[]]) && first != ['*', '*'] then
      ['*', '*'] :: first :: rest
    else first :: rest

/-- Segments that say whether they match what is below. -/
def closed (segments : List (List Char)) : List (List Char) :=
  match segments.getLast? with
  | some [] => segments.dropLast ++ [['*', '*']]
  | _ => segments

theorem normalize_eq (segments : List (List Char)) :
    normalize segments = collapse (closed (anchored segments)) := by
  cases segments <;> rfl

theorem mem_collapse {segments : List (List Char)} {s : List Char} :
    s ∈ collapse segments ↔ s ∈ segments := by
  induction segments with
  | nil => rfl
  | cons t rest ih =>
    rw [List.mem_cons, ← ih, collapse]
    split
    · rename_i hnil
      simp [hnil]
    · rename_i u more hcons
      rw [hcons]
      split
      · rename_i hboth
        simp only [Bool.and_eq_true, beq_iff_eq] at hboth
        rw [hboth.1, hboth.2]
        simp
      · simp

theorem forall_mem_anchored {segments : List (List Char)} :
    (∀ s ∈ anchored segments, Readable s) ↔ ∀ s ∈ segments, Readable s := by
  cases segments with
  | nil => rfl
  | cons first rest =>
    rw [anchored]
    split
    · rename_i hempty
      obtain rfl := List.isEmpty_iff.1 hempty
      rw [List.forall_mem_cons]
      exact (and_iff_right .nil).symm
    split
    · rw [List.forall_mem_cons]
      exact and_iff_right readable_anyDepth
    · rfl

theorem forall_mem_closed {segments : List (List Char)} :
    (∀ s ∈ closed segments, Readable s) ↔ ∀ s ∈ segments, Readable s := by
  unfold closed
  split
  · rename_i hlast
    obtain ⟨front, rfl⟩ := List.getLast?_eq_some_iff.1 hlast
    rw [List.dropLast_concat, List.forall_mem_append, List.forall_mem_append,
      List.forall_mem_singleton, List.forall_mem_singleton]
    exact and_congr_right fun _ => iff_of_true readable_anyDepth .nil
  · rfl

/-- Normalising adds or drops no segments but those that can be read. -/
theorem forall_mem_normalize {segments : List (List Char)} :
    (∀ s ∈ normalize segments, Readable s) ↔ ∀ s ∈ segments, Readable s := by
  simp only [normalize_eq, mem_collapse]
  exact forall_mem_closed.trans forall_mem_anchored

theorem collapse_eq_nil {segments : List (List Char)} : collapse segments = [] ↔ segments = [] := by
  rw [List.eq_nil_iff_forall_not_mem, List.eq_nil_iff_forall_not_mem]
  simp only [mem_collapse]

theorem closed_eq_nil {segments : List (List Char)} : closed segments = [] ↔ segments = [] := by
  unfold closed
  split
  · rename_i hlast
    obtain ⟨front, rfl⟩ := List.getLast?_eq_some_iff.1 hlast
    simp
  · rfl

/-- Nothing is left of a single empty segment only. -/
theorem normalize_eq_nil {segments : List (List Char)} (h : segments ≠ []) :
    normalize segments = [] ↔ segments = [[]] := by
  rw [normalize_eq, collapse_eq_nil, closed_eq_nil]
  cases segments with
  | nil => exact absurd rfl h
  | cons first rest =>
    rw [anchored]
    split
    · rename_i hempty
      simp [List.isEmpty_iff.1 hempty]
    · rename_i hfirst
      have hne : first ≠ [] := fun hnil => hfirst (List.isEmpty_iff.2 hnil)
      split <;> simp [hne]

theorem splitOn_eq_singleton {separator : Char} {s : List Char} :
    splitOn separator s = [[]] ↔ s = [] := by
  cases s with
  | nil => exact iff_of_true rfl rfl
  | cons c s =>
    refine iff_of_false (fun h => ?_) (List.cons_ne_nil c s)
    change (if c == separator then [] :: splitOn separator s
      else consFirst c (splitOn separator s)) = [[]] at h
    split at h
    · exact splitOn_ne_nil separator s (List.cons.inj h).2
    · cases hrest : splitOn separator s with
      | nil => exact splitOn_ne_nil separator s hrest
      | cons piece pieces =>
        rw [hrest, consFirst] at h
        cases h

theorem nodeOf_normalize_iff {line : String} {directory : Bool} {body : List Char} :
    (∃ node, nodeOf line directory (normalize (splitOn '/' body)) = .ok node) ↔
      ReadableBody body := by
  rw [nodeOf_iff, forall_mem_normalize, ReadableBody, ne_eq,
    normalize_eq_nil (splitOn_ne_nil '/' body), splitOn_eq_singleton]

/-- **Lines.** The lines that can be read. -/
theorem ofLine_eq_ok_iff {line : String} :
    (∃ p, Pattern.ofLine line = .ok p) ↔ ReadableLine line := by
  unfold Pattern.ofLine ReadableLine
  generalize withoutTrailingBlanks line.toList = text
  dsimp only
  split
  · exact iff_of_true ⟨_, rfl⟩ trivial
  · exact iff_of_true ⟨_, rfl⟩ (.inl rfl)
  · rename_i c rest hcomment
    have hbody : (if (c == '!') = true then rest else c :: rest) =
        if c = '!' then rest else c :: rest := by simp
    change _ ↔ c = '#' ∨ ReadableBody (if c = '!' then rest else c :: rest)
    rw [or_iff_right hcomment, hbody, ← nodeOf_normalize_iff, exists_map_iff]

end LangId.Gitignore
