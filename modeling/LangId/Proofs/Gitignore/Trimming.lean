import LangId.Gitignore.Filter
import LangId.Proofs.Gitignore.Weights
import Mathlib.Data.List.DropRight

/-!
# Lines without the white space around them

The lines of a `.gitignore` file are read without the white space around them, and blank lines and
comments are left out (`readLine`). The pattern language has rules of its own for white space, under
which white space in front of a line is a part of the pattern, and so is a space at the end behind a
backslash. A line that has neither says the same either way (`Trimmable`); of every other line, less is
read than it says (`lineWeight_lt`).

**Results.**
* `readLine_of_trimmable`: the lines that nothing is lost of.
* `lineWeight_lt`: less is read of all others than they say.
* `readLine_iff`: the lines that are read to what they say.
-/
namespace LangId.Gitignore

open Text

variable {line lead rest : List Char} {c : Char} {o o' : Option Pattern}

/-! ## White space -/

theorem trimRight_cons (hc : isBlank c = false) (rest : List Char) :
    trimRight (c :: rest) = c :: trimRight rest := by
  rw [trimRight, trimRight, List.reverse_cons, List.dropWhile_append]
  cases rest.reverse.dropWhile isBlank <;> simp [hc]

theorem trim_cons (hc : isBlank c = false) (rest : List Char) :
    trim (c :: rest) = c :: trimRight rest := by
  rw [trim, trimLeft, List.dropWhile_cons_of_neg (by simp [hc]), trimRight_cons hc]

theorem trimRight_of_blank (h : ∀ c ∈ line, isBlank c = true) : trimRight line = [] :=
  List.rdropWhile_eq_nil_iff.2 h

theorem trim_of_blank (h : ∀ c ∈ line, isBlank c = true) : trim line = [] := by
  rw [trim, trimLeft, List.dropWhile_eq_nil_iff.2 h]
  rfl

/-- White space at the end of a line does not count, but for an escaped space. -/
theorem withoutTrailingBlanks_of_unescaped (h : ¬['\\', ' '] <:+ line) :
    withoutTrailingBlanks line = trimRight line := by
  unfold withoutTrailingBlanks
  split
  · rename_i rest heq
    refine absurd ⟨rest.reverse, ?_⟩ h
    simpa using congrArg List.reverse heq.symm
  · rfl

theorem withoutTrailingBlanks_trimRight (line : List Char) :
    withoutTrailingBlanks (trimRight line) = trimRight line := by
  by_cases hne : trimRight line = []
  · rw [hne]
    rfl
  · have hlast : ¬isBlank ((trimRight line).getLast hne) = true :=
      List.rdropWhile_last_not isBlank line hne
    exact withoutTrailingBlanks_of_last (List.getLast?_eq_some_getLast hne)
      (Bool.eq_false_iff.2 hlast)

theorem ne_of_isBlank {d : Char} (hc : isBlank c = true) (hd : isBlank d = false) : c ≠ d := by
  rintro rfl
  cases hc.symm.trans hd

theorem notMem_signs_of_isBlank (hc : isBlank c = true) : c ∉ signs := by
  have hsigns : ∀ d ∈ signs, isBlank d = false := by decide
  exact fun hmem => ne_of_isBlank hc (hsigns c hmem) rfl

/-- A line that is not blank has something behind the white space in front. -/
theorem exists_front (h : ¬∀ c ∈ line, isBlank c = true) : ∃ lead c rest, line = lead ++ c :: rest ∧
    (∀ c ∈ lead, isBlank c = true) ∧ isBlank c = false := by
  have hne : line.dropWhile isBlank ≠ [] := fun hnil => h (List.dropWhile_eq_nil_iff.1 hnil)
  have hhead := List.head_dropWhile_not isBlank hne
  obtain ⟨c, rest, hrest⟩ := List.exists_cons_of_ne_nil hne
  refine ⟨line.takeWhile isBlank, c, rest, ?_, fun c hc => List.mem_takeWhile_imp hc, ?_⟩
  · rw [← hrest, List.takeWhile_append_dropWhile]
  · simpa [hrest] using hhead

theorem trim_append (hlead : ∀ c ∈ lead, isBlank c = true) (hc : isBlank c = false) :
    trim (lead ++ c :: rest) = trimRight (c :: rest) := by
  rw [trim, trimLeft, List.dropWhile_append_of_pos hlead, List.dropWhile_cons_of_neg (by simp [hc])]

/-- White space in front of something else stays when the white space at the end goes. -/
theorem trimRight_append (hc : isBlank c = false) :
    trimRight (lead ++ c :: rest) = lead ++ trimRight (c :: rest) := by
  have hrest : (c :: rest).reverse.dropWhile isBlank ≠ [] := fun hnil => by
    have h := List.dropWhile_eq_nil_iff.1 hnil c (by simp)
    rw [hc] at h
    cases h
  rw [trimRight, List.reverse_append, List.dropWhile_append, if_neg (by simpa using hrest),
    List.reverse_append, List.reverse_reverse, trimRight]

/-- An escaped space at the end is kept. -/
theorem withoutTrailingBlanks_escaped (s : List Char) :
    withoutTrailingBlanks (s ++ ['\\', ' ']) = s ++ ['\\', ' '] := by
  simp [withoutTrailingBlanks]

theorem trimRight_escaped (s : List Char) : trimRight (s ++ ['\\', ' ']) = s ++ ['\\'] := by
  have hspace : isBlank ' ' = true := by decide
  have hbackslash : isBlank '\\' = false := by decide
  simp [trimRight, hspace, hbackslash]

/-- White space in front does not matter for what is done at the end. -/
theorem withoutTrailingBlanks_append (hc : isBlank c = false) :
    withoutTrailingBlanks (lead ++ c :: rest) = lead ++ withoutTrailingBlanks (c :: rest) := by
  by_cases hend : ['\\', ' '] <:+ c :: rest
  · obtain ⟨s, hs⟩ := hend
    rw [← hs, ← List.append_assoc, withoutTrailingBlanks_escaped, withoutTrailingBlanks_escaped,
      List.append_assoc]
  · have hlong : ¬['\\', ' '] <:+ lead ++ c :: rest := fun h => by
      cases rest with
      | nil =>
        obtain rfl : ' ' = c := by
          obtain ⟨front, hfront⟩ := h
          have hlast := congrArg List.getLast? hfront
          simpa using hlast
        revert hc
        decide
      | cons d rest =>
        exact hend (List.suffix_of_suffix_length_le h (List.suffix_append lead _) (by simp))
    rw [withoutTrailingBlanks_of_unescaped hlong, withoutTrailingBlanks_of_unescaped hend,
      trimRight_append hc]

/-! ## Lines -/

/-- The pattern of some segments does not depend on the line, which only errors tell. -/
theorem nodeOf_of_line {l l' : String} {directory : Bool} {segments : List (List Char)}
    {node : Regex.Node} (h : nodeOf l directory segments = .ok node) :
    nodeOf l' directory segments = .ok node := by
  unfold nodeOf at h ⊢
  split at h
  · cases h
  · exact h
  · exact h
  · exact h
  · split at h
    · cases h
    · exact h

/-- What is read of a line depends on the line without the white space at its end. -/
theorem ofLine_of_same {l l' : String}
    (h : withoutTrailingBlanks l.toList = withoutTrailingBlanks l'.toList)
    (hl : Pattern.ofLine l = .ok o) : Pattern.ofLine l' = .ok o := by
  unfold Pattern.ofLine at hl ⊢
  rw [h] at hl
  generalize withoutTrailingBlanks l'.toList = text at hl
  dsimp only at hl ⊢
  split at hl
  · exact hl
  · exact hl
  · obtain ⟨node, hnode, rfl⟩ := map_eq_ok.1 hl
    exact map_eq_ok.2 ⟨node, nodeOf_of_line hnode, rfl⟩

theorem ofLine_blank (h : ∀ c ∈ line, isBlank c = true) :
    Pattern.ofLine (String.ofList line) = .ok none := by
  have hescaped : ¬['\\', ' '] <:+ line := fun hend =>
    absurd (h '\\' (hend.subset List.mem_cons_self)) (by decide)
  rw [Pattern.ofLine, String.toList_ofList, withoutTrailingBlanks_of_unescaped hescaped,
    trimRight_of_blank h]

theorem withoutTrailingBlanks_cons (hc : isBlank c = false) (rest : List Char) :
    ∃ more, withoutTrailingBlanks (c :: rest) = c :: more := by
  unfold withoutTrailingBlanks
  split
  · exact ⟨rest, rfl⟩
  · exact ⟨_, trimRight_cons hc rest⟩

theorem ofLine_comment (rest : List Char) :
    Pattern.ofLine (String.ofList ('#' :: rest)) = .ok none := by
  have hblank : isBlank '#' = false := by decide
  obtain ⟨more, hmore⟩ := withoutTrailingBlanks_cons hblank rest
  rw [Pattern.ofLine, String.toList_ofList, hmore]
  rfl

/-- Without an escaped space at its end, a line is read as without the white space there. -/
theorem ofLine_trimRight (h : ¬['\\', ' '] <:+ line) :
    Pattern.ofLine (String.ofList (trimRight line)) = .ok o ↔
      Pattern.ofLine (String.ofList line) = .ok o := by
  have hsame : withoutTrailingBlanks (String.ofList (trimRight line)).toList =
      withoutTrailingBlanks (String.ofList line).toList := by
    rw [String.toList_ofList, String.toList_ofList, withoutTrailingBlanks_trimRight,
      withoutTrailingBlanks_of_unescaped h]
  exact ⟨ofLine_of_same hsame, ofLine_of_same hsame.symm⟩

/-- A line that says the same without the white space around it: a blank one, or a comment, or one with
no white space in front and no escaped space at its end. -/
def Trimmable (line : List Char) : Prop :=
  (∀ c ∈ line, isBlank c = true) ∨ line.head? = some '#' ∨
    line.head?.map isBlank = some false ∧ ¬['\\', ' '] <:+ line

instance (line : List Char) : Decidable (Trimmable line) :=
  -- the characters of the line are gone through, and not all that there are
  have : Decidable (∀ c ∈ line, isBlank c = true) := List.decidableBAll (isBlank · = true) line
  inferInstanceAs (Decidable (_ ∨ _))

/-- What is left of a line without the white space around it counts: it is not empty, and no
comment. -/
def Counts (line : List Char) : Prop := trim line ≠ [] ∧ (trim line).head? ≠ some '#'

instance (line : List Char) : Decidable (Counts line) := inferInstanceAs (Decidable (_ ∧ _))

/-- What is read of a line. -/
def readLine (line : List Char) : Except Error (Option Pattern) :=
  if Counts line then Pattern.ofLine (String.ofList (trim line)) else .ok none

/-- A comment is left out, whether white space stands behind it or not. -/
theorem readLine_comment (rest : List Char) : readLine ('#' :: rest) = .ok none := by
  refine if_neg fun hcounts => hcounts.2 ?_
  rw [trim_cons (by decide)]
  rfl

theorem readLine_of_trimmable (h : Trimmable line) :
    readLine line = .ok o ↔ Pattern.ofLine (String.ofList line) = .ok o := by
  rcases h with hblank | hcomment | ⟨hfront, hback⟩
  · rw [readLine, if_neg fun hcounts => hcounts.1 (trim_of_blank hblank), ofLine_blank hblank]
  · obtain ⟨rest, rfl⟩ := List.head?_eq_some_iff.1 hcomment
    rw [readLine_comment, ofLine_comment]
  · obtain ⟨c, hhead, hc⟩ := Option.map_eq_some_iff.1 hfront
    obtain ⟨rest, rfl⟩ := List.head?_eq_some_iff.1 hhead
    by_cases hcomment : c = '#'
    · rw [hcomment, readLine_comment, ofLine_comment]
    · have hcounts : Counts (c :: rest) := by
        rw [Counts, trim_cons hc]
        exact ⟨List.cons_ne_nil _ _, by simpa using hcomment⟩
      have htrim : trim (c :: rest) = trimRight (c :: rest) := by
        rw [trim_cons hc, trimRight_cons hc]
      rw [readLine, if_pos hcounts, htrim, ofLine_trimRight hback]

/-! ## What is lost -/

/-- What a line says: `!` in front negates it. -/
def saidBy (s : List Char) : List Char :=
  match s with
  | '!' :: rest => rest
  | _ => s

theorem saidBy_cons (hc : c ≠ '!') (rest : List Char) : saidBy (c :: rest) = c :: rest := by
  simp [saidBy, hc]

/-- What is read of a line weighs one more than its pattern, and nothing without one. -/
def lineWeight : Option Pattern → Nat
  | none => 0
  | some p => 1 + p.node.weight

/-- A line that is neither blank nor a comment is read to what it says. -/
theorem lineWeight_of_ofLine (hhead : (withoutTrailingBlanks line).head? = some c) (hc : c ≠ '#')
    (h : Pattern.ofLine (String.ofList line) = .ok o) :
    lineWeight o = 1 + bodyWeight (saidBy (withoutTrailingBlanks line)) ∧
      ReadableBody (saidBy (withoutTrailingBlanks line)) := by
  obtain ⟨rest, htext⟩ := List.head?_eq_some_iff.1 hhead
  have hbody : (if (c == '!') = true then rest else c :: rest) = saidBy (c :: rest) := by
    by_cases hbang : c = '!'
    · rw [hbang]
      rfl
    · rw [saidBy_cons hbang, if_neg (by simpa using hbang)]
  rw [htext]
  unfold Pattern.ofLine at h
  rw [String.toList_ofList, htext] at h
  dsimp only at h
  split at h
  · rename_i heq
    cases heq
  · rename_i heq
    exact absurd (List.cons.inj heq).1 hc
  · rename_i heq
    obtain ⟨rfl, rfl⟩ := List.cons.inj heq
    rw [hbody] at h
    obtain ⟨node, hnode, rfl⟩ := map_eq_ok.1 h
    exact ⟨congrArg (1 + ·) (weight_nodeOf hnode), nodeOf_normalize_iff.1 ⟨node, hnode⟩⟩

theorem saidBy_heavier {s : List Char} (h : ReadableBody (saidBy s)) :
    ReadableBody s ∧ bodyWeight (saidBy s) ≤ bodyWeight s := by
  unfold saidBy at h ⊢
  split at h
  · have hmore := Heavier.cons (c := '!') (by decide) h
    exact ⟨hmore.readable, Nat.le_of_lt hmore.lt⟩
  · exact ⟨h, Nat.le_refl _⟩

theorem withoutTrailingBlanks_heavier {s : List Char} (h : ReadableBody (trimRight s)) :
    ReadableBody (withoutTrailingBlanks s) ∧
      bodyWeight (trimRight s) ≤ bodyWeight (withoutTrailingBlanks s) := by
  by_cases hend : ['\\', ' '] <:+ s
  · obtain ⟨front, rfl⟩ := hend
    rw [trimRight_escaped] at h ⊢
    rw [withoutTrailingBlanks_escaped]
    have hmore := Heavier.concat front h
    exact ⟨hmore.readable, Nat.le_of_lt hmore.lt⟩
  · rw [withoutTrailingBlanks_of_unescaped hend]
    exact ⟨h, Nat.le_refl _⟩

/-- An escaped space at the end makes what a line says heavier. -/
theorem saidBy_escaped {s : List Char} (h : ReadableBody (saidBy (s ++ ['\\']))) :
    bodyWeight (saidBy (s ++ ['\\'])) < bodyWeight (saidBy (s ++ ['\\', ' '])) := by
  cases s with
  | nil => exact (Heavier.concat [] h).lt
  | cons c s =>
    by_cases hc : c = '!'
    · subst hc
      exact (Heavier.concat s h).lt
    · rw [List.cons_append, saidBy_cons hc] at h ⊢
      rw [List.cons_append, saidBy_cons hc]
      exact (Heavier.concat (c :: s) h).lt

/-- What is said by a line weighs more than what is said by what is left of it. -/
theorem bodyWeight_lt (hlead : ∀ c ∈ lead, isBlank c = true)
    (hloss : lead ≠ [] ∨ ['\\', ' '] <:+ c :: rest)
    (h : ReadableBody (saidBy (trimRight (c :: rest)))) :
    bodyWeight (saidBy (trimRight (c :: rest))) <
      bodyWeight (saidBy (lead ++ withoutTrailingBlanks (c :: rest))) := by
  by_cases hfront : lead = []
  · subst hfront
    obtain ⟨s, hs⟩ := hloss.resolve_left fun hne => hne rfl
    rw [← hs, trimRight_escaped] at h ⊢
    rw [withoutTrailingBlanks_escaped]
    exact saidBy_escaped h
  · have hsigns : ∀ c ∈ lead, c ∉ signs := fun c hmem => notMem_signs_of_isBlank (hlead c hmem)
    have hsaid : saidBy (lead ++ withoutTrailingBlanks (c :: rest)) =
        lead ++ withoutTrailingBlanks (c :: rest) := by
      obtain ⟨b, lead, rfl⟩ := List.exists_cons_of_ne_nil hfront
      exact saidBy_cons (ne_of_isBlank (hlead b List.mem_cons_self) (by decide)) _
    obtain ⟨hleft, hle⟩ := saidBy_heavier h
    obtain ⟨hread, hle'⟩ := withoutTrailingBlanks_heavier hleft
    have hlt := (Heavier.append hsigns hfront hread).lt
    rw [hsaid]
    omega

/-- A line that is not the same without the white space around it has white space in front, or an escaped
space at its end, and is no comment. -/
theorem exists_loss (h : ¬Trimmable line) : ∃ lead c rest, line = lead ++ c :: rest ∧
    (∀ c ∈ lead, isBlank c = true) ∧ isBlank c = false ∧ line.head? ≠ some '#' ∧
    (lead ≠ [] ∨ ['\\', ' '] <:+ c :: rest) := by
  obtain ⟨hblank, hcomment, hplain⟩ : ¬(∀ c ∈ line, isBlank c = true) ∧ line.head? ≠ some '#' ∧
      ¬(line.head?.map isBlank = some false ∧ ¬['\\', ' '] <:+ line) := by
    simpa [Trimmable] using h
  obtain ⟨lead, c, rest, rfl, hlead, hc⟩ := exists_front hblank
  refine ⟨lead, c, rest, rfl, hlead, hc, hcomment, ?_⟩
  by_cases hne : lead = []
  · subst hne
    exact .inr (Decidable.not_not.1 fun hend => hplain ⟨by simp [hc], hend⟩)
  · exact .inl hne

/-- **Loss.** Of a line that is not the same without the white space around it, less is read than it
says. -/
theorem lineWeight_lt (hline : ¬Trimmable line)
    (ho : Pattern.ofLine (String.ofList line) = .ok o) (ho' : readLine line = .ok o') :
    lineWeight o' < lineWeight o := by
  obtain ⟨lead, c, rest, rfl, hlead, hc, hcomment, hloss⟩ := exists_loss hline
  have htext : withoutTrailingBlanks (lead ++ c :: rest) =
      lead ++ withoutTrailingBlanks (c :: rest) := withoutTrailingBlanks_append hc
  have hhead : (withoutTrailingBlanks (lead ++ c :: rest)).head? = (lead ++ c :: rest).head? := by
    obtain ⟨more, hmore⟩ := withoutTrailingBlanks_cons hc rest
    rw [htext, hmore]
    cases lead <;> rfl
  obtain ⟨first, hfirst⟩ : ∃ first, (lead ++ c :: rest).head? = some first :=
    Option.isSome_iff_exists.1 (by simp)
  have hweight := (lineWeight_of_ofLine (hhead.trans hfirst)
    (fun heq => hcomment (heq ▸ hfirst)) ho).1
  rw [readLine] at ho'
  split at ho'
  · rename_i hcounts
    rw [Counts, trim_append hlead hc] at hcounts
    rw [trim_append hlead hc] at ho'
    have hleft := withoutTrailingBlanks_trimRight (c :: rest)
    have hbegin : (withoutTrailingBlanks (trimRight (c :: rest))).head? = some c := by
      rw [hleft, trimRight_cons hc]
      rfl
    have hc' : c ≠ '#' := fun heq => hcounts.2 (by rw [← hleft, hbegin, heq])
    obtain ⟨hweight', hread⟩ := lineWeight_of_ofLine hbegin hc' ho'
    rw [hleft] at hweight' hread
    have hlt := bodyWeight_lt hlead hloss hread
    rw [hweight, hweight', htext]
    omega
  · obtain rfl := Except.ok.inj ho'
    rw [hweight, lineWeight]
    omega

/-- **Lines** are read to what they say exactly if this is the same without the white space around
them. -/
theorem readLine_iff (ho : Pattern.ofLine (String.ofList line) = .ok o) :
    readLine line = .ok o ↔ Trimmable line := by
  refine ⟨fun h => Decidable.not_not.1 fun hline => ?_, fun h => (readLine_of_trimmable h).2 ho⟩
  exact Nat.lt_irrefl _ (lineWeight_lt hline ho h)

end LangId.Gitignore
