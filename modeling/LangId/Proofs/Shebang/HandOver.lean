import LangId.Proofs.Text.Words
import LangId.Shebang

/-!
# Handing over

A shell script hands itself over to another interpreter with a line that runs a command on the script:
`exec`, the command, and the name and the arguments of the script, with white space or quotation marks
between them (`HandsOver`). A line without `$0` hands nothing over (`handOver?_eq_none`), and what
stands behind the arguments does not count (`handOver?_concat`).
-/
namespace LangId.Shebang

open Text

variable {s r rest text command : List Char} {c : Char} {p : Char → Bool}

/-! ## Reading a line -/

theorem after?_eq_some : after? text s = some r ↔ s = text ++ r := by
  induction text generalizing s with
  | nil => exact ⟨fun h => Option.some.inj h, fun h => congrArg some h⟩
  | cons x text ih =>
    cases s with
    | nil => simp [after?]
    | cons y s =>
      rw [after?]
      by_cases h : x = y
      · simp [h, ih]
      · simp [h, Ne.symm h]

/-- A text that holds no separator stands in front of a line as it stands in front of all lines. -/
theorem after?_upTo {text : List Char} {separator : Char} (h : separator ∉ text) (s : List Char) :
    after? text (upTo separator s) = (after? text s).map (upTo separator) := by
  induction text generalizing s with
  | nil => rfl
  | cons x text ih =>
    obtain ⟨hx, htext⟩ := not_or.1 (List.mem_cons.not.1 h)
    cases s with
    | nil => rfl
    | cons y s =>
      by_cases hy : y = separator
      · subst hy
        have hstop : upTo y (y :: s) = [] := List.takeWhile_cons_of_neg (by simp)
        rw [hstop, after?, after?, if_neg (by simpa using Ne.symm hx)]
        rfl
      · have hkeep : upTo separator (y :: s) = y :: upTo separator s :=
          List.takeWhile_cons_of_pos (by simp [hy])
        rw [hkeep, after?, after?]
        split
        · exact ih htext s
        · rfl

/-- A run takes one character at least. -/
theorem suffix_of_afterRun? (h : afterRun? p (c :: rest) = some r) : r <:+ rest := by
  rw [afterRun?] at h
  split at h
  · rename_i hc
    rw [← Option.some.inj h, List.dropWhile_cons_of_pos hc]
    exact List.dropWhile_suffix p
  · cases h

/-- A run of characters of a kind, at least one. -/
def IsRun (p : Char → Bool) (w : List Char) : Prop := w ≠ [] ∧ ∀ x ∈ w, p x = true

theorem IsRun.append {u v : List Char} (hu : IsRun p u) (hv : IsRun p v) : IsRun p (u ++ v) :=
  ⟨List.append_ne_nil_of_left_ne_nil hu.1 v, List.forall_mem_append.2 ⟨hu.2, hv.2⟩⟩

/-- A run is taken as far as it goes. -/
theorem afterRun?_eq_some : afterRun? p s = some r ↔
    ∃ run, IsRun p run ∧ (∀ x ∈ r.head?, p x = false) ∧ s = run ++ r := by
  constructor
  · intro h
    cases s with
    | nil => cases h
    | cons c rest =>
      rw [afterRun?] at h
      split at h
      · rename_i hc
        obtain rfl := Option.some.inj h
        refine ⟨(c :: rest).takeWhile p, ⟨?_, fun x => List.mem_takeWhile_imp⟩, fun x hx => ?_,
          List.takeWhile_append_dropWhile.symm⟩
        · rw [List.takeWhile_cons_of_pos hc]
          exact List.cons_ne_nil c _
        · have hfirst := List.head?_dropWhile_not p (c :: rest)
          rw [hx] at hfirst
          simpa using hfirst
      · cases h
  · rintro ⟨run, ⟨hne, hrun⟩, hr, rfl⟩
    have hstop : r.dropWhile p = r := by
      cases r with
      | nil => rfl
      | cons x r => exact List.dropWhile_cons_of_neg (by simp [hr x rfl])
    obtain ⟨c, run, rfl⟩ := List.exists_cons_of_ne_nil hne
    rw [List.cons_append, afterRun?, if_pos (hrun c List.mem_cons_self), ← List.cons_append,
      List.dropWhile_append_of_pos hrun, hstop]

/-! ## Lines that hand over -/

/-- A text begins by handing the script over to a command. -/
def HandsOver (s command : List Char) : Prop :=
  ∃ blanks gap gap' rest,
    s = "exec".toList ++ (blanks ++ (command ++ (gap ++ ("$0".toList ++
      (gap' ++ ("$@".toList ++ rest)))))) ∧
    IsRun isBlank blanks ∧ IsRun isWord command ∧
    IsRun isBetweenArguments gap ∧ IsRun isBetweenArguments gap'

theorem isBetweenArguments_of_isWord (h : isWord c = true) : isBetweenArguments c = false := by
  have hmarks : isWord '\'' = false ∧ isWord '"' = false := by decide
  rw [isBetweenArguments, isBlank_of_isWord h, Bool.false_or, Bool.or_eq_false_iff]
  constructor <;> refine beq_false_of_ne fun heq => ?_
  · rw [heq, hmarks.1] at h
    cases h
  · rw [heq, hmarks.2] at h
    cases h

theorem handsOver_of_handOverAt? (h : handOverAt? s = some command) : HandsOver s command := by
  simp only [handOverAt?, Option.bind_eq_bind, Option.bind_eq_some_iff, after?_eq_some,
    afterRun?_eq_some] at h
  obtain ⟨_, rfl, behind, ⟨blanks, hblanks, -, rfl⟩, h⟩ := h
  split at h
  · cases h
  · rename_i hne
    simp only [Option.bind_eq_some_iff, after?_eq_some, afterRun?_eq_some] at h
    obtain ⟨_, ⟨gap, hgap, -, hbehind⟩, _, rfl, _, ⟨gap', hgap', -, rfl⟩, rest, rfl, h⟩ := h
    obtain rfl := Option.some.inj h
    refine ⟨blanks, gap, gap', rest, ?_, hblanks,
      ⟨by simpa using hne, fun x => List.mem_takeWhile_imp⟩, hgap, hgap'⟩
    rw [← hbehind, List.takeWhile_append_dropWhile]

/-- **Handing over.** The command that a text begins by handing over to. -/
theorem handOverAt?_eq_some : handOverAt? s = some command ↔ HandsOver s command := by
  refine ⟨handsOver_of_handOverAt?, ?_⟩
  rintro ⟨blanks, gap, gap', rest, rfl, hblanks, ⟨hne, hword⟩, ⟨hgap, hgaps⟩, hgap'⟩
  -- no kind of characters goes on into the next: words hold neither blanks nor quotation marks, and
  -- the dollar signs are of no kind
  have hdollar : isBetweenArguments '$' = false := by decide
  have hfirst : ∀ x ∈ command.head?, isBlank x = false := fun x hx =>
    isBlank_of_isWord (hword x (List.mem_of_head? hx))
  obtain ⟨d, gap, rfl⟩ := List.exists_cons_of_ne_nil hgap
  have hd : isWord d = false := Bool.eq_false_iff.2 fun hd => by
    simpa [hgaps d List.mem_cons_self] using isBetweenArguments_of_isWord hd
  generalize htail : gap ++ ("$0".toList ++ (gap' ++ ("$@".toList ++ rest))) = tail
  have hbehindBlanks : afterRun? isBlank (blanks ++ (command ++ d :: tail)) =
      some (command ++ d :: tail) := by
    refine afterRun?_eq_some.2 ⟨blanks, hblanks, ?_, rfl⟩
    rwa [List.head?_append_of_ne_nil _ hne]
  have hcommand : (command ++ d :: tail).takeWhile isWord = command := by
    rw [List.takeWhile_append_of_pos hword, List.takeWhile_cons_of_neg (by simp [hd]),
      List.append_nil]
  have hbehind : (command ++ d :: tail).dropWhile isWord = d :: tail := by
    rw [List.dropWhile_append_of_pos hword, List.dropWhile_cons_of_neg (by simp [hd])]
  have hname : afterRun? isBetweenArguments (d :: tail) =
      some ("$0".toList ++ (gap' ++ ("$@".toList ++ rest))) :=
    afterRun?_eq_some.2 ⟨d :: gap, ⟨hgap, hgaps⟩, fun x hx => Option.some.inj hx ▸ hdollar,
      by rw [← htail, List.cons_append]⟩
  have harguments : afterRun? isBetweenArguments (gap' ++ ("$@".toList ++ rest)) =
      some ("$@".toList ++ rest) :=
    afterRun?_eq_some.2 ⟨gap', hgap', fun x hx => Option.some.inj hx ▸ hdollar, rfl⟩
  rw [List.cons_append, htail, handOverAt?, after?_eq_some.2 rfl]
  simp only [Option.bind_eq_bind, Option.bind_some, hbehindBlanks, hcommand, hbehind, hname,
    after?_eq_some.2 rfl, harguments, List.isEmpty_iff, hne, if_false]
  rfl

/-- What is handed over is told the name of the script. -/
theorem infix_of_handOverAt? (h : handOverAt? s = some r) : "$0".toList <:+: s := by
  obtain ⟨blanks, gap, gap', rest, rfl, -⟩ := handOverAt?_eq_some.1 h
  exact ⟨"exec".toList ++ (blanks ++ (r ++ gap)), gap' ++ ("$@".toList ++ rest), by simp⟩

/-- A line without `$0` hands nothing over. -/
theorem handOver?_eq_none (h : ¬"$0".toList <:+: s) : handOver? s = none := by
  induction s with
  | nil => rfl
  | cons c rest ih =>
    have hat : handOverAt? (c :: rest) = none := by
      cases hat : handOverAt? (c :: rest) with
      | none => rfl
      | some r => exact absurd (infix_of_handOverAt? hat) h
    rw [handOver?, hat, ih fun hrest => h (hrest.trans (List.suffix_cons c rest).isInfix)]
    rfl

/-- What is handed over to is a word. -/
theorem isRun_of_handOver? (h : handOver? s = some command) : IsRun isWord command := by
  induction s with
  | nil => cases h
  | cons c rest ih =>
    rw [handOver?] at h
    cases hat : handOverAt? (c :: rest) with
    | none =>
      rw [hat] at h
      exact ih h
    | some r =>
      rw [hat] at h
      obtain rfl := Option.some.inj h
      obtain ⟨-, -, -, -, -, -, hcommand, -⟩ := handOverAt?_eq_some.1 hat
      exact hcommand

/-! ## The end of a line -/

/-- One character more at the end of a text changes nothing, unless it completes the arguments. -/
theorem handOverAt?_concat (hc : c ≠ '@') (s : List Char) :
    handOverAt? (s ++ [c]) = handOverAt? s := by
  refine Option.ext fun command => ?_
  rw [handOverAt?_eq_some, handOverAt?_eq_some]
  constructor
  · rintro ⟨blanks, gap, gap', rest, heq, hkinds⟩
    rcases List.eq_nil_or_concat rest with rfl | ⟨rest, x, rfl⟩
    · have hall : s ++ [c] = "exec".toList ++ (blanks ++ (command ++ (gap ++ ("$0".toList ++
          (gap' ++ "$".toList))))) ++ ['@'] := by simpa using heq
      exact absurd (List.singleton_inj.1 (List.append_inj' hall rfl).2) hc
    · refine ⟨blanks, gap, gap', rest, ?_, hkinds⟩
      have hall : s ++ [c] = "exec".toList ++ (blanks ++ (command ++ (gap ++ ("$0".toList ++
          (gap' ++ ("$@".toList ++ rest)))))) ++ [x] := by simpa using heq
      exact (List.append_inj' hall rfl).1
  · rintro ⟨blanks, gap, gap', rest, rfl, hkinds⟩
    exact ⟨blanks, gap, gap', rest ++ [c], by simp, hkinds⟩

theorem handOver?_concat (hc : c ≠ '@') (s : List Char) : handOver? (s ++ [c]) = handOver? s := by
  induction s with
  | nil =>
    have hat : handOverAt? [c] = handOverAt? [] := handOverAt?_concat hc []
    change (handOverAt? [c]).orElse _ = none
    rw [hat]
    rfl
  | cons x s ih =>
    rw [List.cons_append, handOver?, handOver?, ih, ← List.cons_append, handOverAt?_concat hc]

end LangId.Shebang
