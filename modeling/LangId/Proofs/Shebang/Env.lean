import LangId.Proofs.Shebang.HandOver
import LangId.Proofs.Text.Words
import Mathlib.Data.List.TakeDrop
import Mathlib.Data.List.TakeWhile

/-!
# Commands behind `env`

The interpreter is told by the first line (`asked?`), and for shell scripts by what the first lines hand
over to as well. A first line may ask for an interpreter by way of `env`, which takes some words for
itself: options, assignments and variables. What is found is the same as without `env` and these words,
through all that is looked at later: the arguments of the command, and the whole first line once more
where the command is `sh`. But a variable is passed over only if its name holds no digit, other than the
name of an assignment: the first variable with a digit in its name is taken for the command, and is found.

**Results.**
* `interpreter?_eq_asked`: nothing else of a content is looked at.
* `isForEnv_iff`, `forEnv_iff`: the words that are passed over, and those that `env` takes for itself.
* `interpreter?_script`: of a first line that hands nothing over only the command and its arguments
  count.
* `env_transparent`: the same interpreter with `env` and without it, and none if no command follows,
  where no variable has a digit in its name; otherwise the first such variable.
* `numberedVariable_found`: a variable in place of the command behind it.
-/
namespace LangId.Shebang

open Text

variable {e c w : List Char} {skipped args ws : List (List Char)} {body : Option (List Char)}

/-! ## What is read of a content -/

/-- The command that a first line asks for, and its arguments. -/
def asked? (line : List Char) : Option (List Char × List (List Char)) :=
  (after? "#!".toList line).bind fun body => command? (words (withoutReturns body))

/-- What the first of some lines hand over to. -/
def handedOver? (lines : List (List Char)) : Option (List Char) :=
  (lines.take searchedLines).findSome? handOver?

/-- What is found for a command with its arguments, given what the first lines hand over to. -/
def found? (handedOver : Option (List Char)) (command : List Char) (args : List (List Char)) :
    Option String :=
  let handed := if command == "sh".toList then handedOver.getD command else command
  let interpreter := majorVersion handed
  if interpreter == "osascript".toList && args.contains "-l".toList then none
  else if interpreter.isEmpty then none
  else String.ofList interpreter

/-- **One run.** The first line is read, and perhaps what the first lines hand over to. -/
theorem interpreter?_eq_asked (content : List Char) :
    interpreter? content = (asked? (upTo '\n' content)).bind fun p =>
      found? (handedOver? (splitOn '\n' content)) p.1 p.2 := by
  have hline := after?_upTo (by decide : '\n' ∉ "#!".toList) content
  rw [interpreter?, asked?, hline]
  cases after? "#!".toList content with
  | none => rfl
  | some body =>
    simp only [Option.bind_eq_bind, Option.bind_some, Option.map_some]
    cases command? (words (withoutReturns (upTo '\n' body))) with
    | none => rfl
    | some p => rfl

/-! ## Words that `env` takes for itself -/

/-- A name of a variable: letters, digits and underscores, the first no digit. -/
def IsName (name : List Char) : Prop :=
  ∃ c rest, name = c :: rest ∧ isAsciiDigit c = false ∧ ∀ d ∈ name, isAsciiWord d = true

/-- The words that `env` takes for itself. -/
inductive EnvWord : List Char → Prop where
  /-- A dash, and letters or digits. -/
  | option {letters : List Char} : letters ≠ [] →
      (∀ c ∈ letters, isAsciiLetter c = true ∨ isAsciiDigit c = true) → EnvWord ('-' :: letters)
  /-- Two dashes and a text. -/
  | longOption {text : List Char} : text ≠ [] → EnvWord ('-' :: '-' :: text)
  /-- A name, an equals sign and a value, which may be empty. -/
  | assignment {name : List Char} (value : List Char) : IsName name → EnvWord (name ++ '=' :: value)
  /-- A dollar sign and a name. -/
  | variable {name : List Char} : IsName name → EnvWord ('$' :: name)

/-- A variable whose name holds a digit. -/
def NumberedVariable (w : List Char) : Prop :=
  ∃ name, w = '$' :: name ∧ IsName name ∧ ∃ d ∈ name, isAsciiDigit d = true

/-- The words that are passed over behind `env`: those that it takes for itself, but not the variables
whose names hold digits (`forEnv_iff`). -/
inductive ForEnv : List Char → Prop where
  /-- A dash, and letters or digits. -/
  | option {letters : List Char} : letters ≠ [] →
      (∀ c ∈ letters, isAsciiLetter c = true ∨ isAsciiDigit c = true) → ForEnv ('-' :: letters)
  /-- Two dashes and a text. -/
  | longOption {text : List Char} : text ≠ [] → ForEnv ('-' :: '-' :: text)
  /-- A name, an equals sign and a value, which may be empty. -/
  | assignment {name : List Char} (value : List Char) : IsName name → ForEnv (name ++ '=' :: value)
  /-- A dollar sign and a name without digits. -/
  | variable {name : List Char} : name ≠ [] →
      (∀ c ∈ name, isAsciiLetter c = true ∨ c = '_') → ForEnv ('$' :: name)

theorem isOption_option {letters : List Char} (hne : letters ≠ [])
    (h : ∀ c ∈ letters, isAsciiLetter c = true ∨ isAsciiDigit c = true) :
    isOption ('-' :: letters) = true := by
  unfold isOption
  split
  · rename_i heq
    obtain rfl := (List.cons.inj heq).2
    exact absurd (h '-' List.mem_cons_self) (by decide)
  · rename_i heq
    obtain rfl := (List.cons.inj heq).2
    simpa [hne] using h
  · rename_i hno
    exact absurd rfl (hno letters)

theorem isAssignment_iff : isAssignment w = true ↔ ∃ name value, IsName name ∧
    w = name ++ '=' :: value := by
  rw [isAssignment, List.span_eq_takeWhile_dropWhile]
  constructor
  · intro h
    split at h
    · rename_i c rest value heq
      obtain ⟨hname, hvalue⟩ := Prod.mk.inj heq
      refine ⟨c :: rest, value, ⟨c, rest, rfl, by simpa using h, fun d hd => ?_⟩, ?_⟩
      · exact List.mem_takeWhile_imp (hname ▸ hd)
      · rw [← hname, ← hvalue, List.takeWhile_append_dropWhile]
    · cases h
  · rintro ⟨_, value, ⟨c, rest, rfl, hdigit, hword⟩, rfl⟩
    have hend : ('=' :: value).takeWhile isAsciiWord = [] :=
      List.takeWhile_cons_of_neg (by decide)
    have hbehind : ('=' :: value).dropWhile isAsciiWord = '=' :: value :=
      List.dropWhile_cons_of_neg (by decide)
    rw [List.takeWhile_append_of_pos hword, hend, List.dropWhile_append_of_pos hword, hbehind]
    simp [hdigit]

theorem isVariable_iff : isVariable w = true ↔ ∃ name, name ≠ [] ∧
    (∀ c ∈ name, isAsciiLetter c = true ∨ c = '_') ∧ w = '$' :: name := by
  unfold isVariable
  split
  · simp
  · rename_i hno
    exact iff_of_false Bool.false_ne_true fun ⟨name, _, _, hw⟩ => hno name hw

/-- **Words for `env`.** -/
theorem isForEnv_iff : isForEnv w = true ↔ ForEnv w := by
  rw [isForEnv, Bool.or_eq_true, Bool.or_eq_true, isAssignment_iff, isVariable_iff]
  constructor
  · rintro ((h | ⟨name, value, hname, rfl⟩) | ⟨name, hne, hname, rfl⟩)
    · unfold isOption at h
      split at h
      · exact .longOption (by simpa using h)
      · obtain ⟨hne, hall⟩ := Bool.and_eq_true_iff.1 h
        exact .option (by simpa using hne) (by simpa using hall)
      · cases h
    · exact .assignment value hname
    · exact .variable hne hname
  · rintro (⟨hne, hall⟩ | hne | ⟨value, hname⟩ | ⟨hne, hname⟩)
    · exact .inl (.inl (isOption_option hne hall))
    · exact .inl (.inl (by simpa [isOption] using hne))
    · exact .inl (.inr ⟨_, value, hname, rfl⟩)
    · exact .inr ⟨_, hne, hname, rfl⟩

instance : DecidablePred ForEnv := fun _ => decidable_of_iff _ isForEnv_iff

theorem isAsciiDigit_eq_false {c : Char} (h : isAsciiLetter c = true ∨ c = '_') :
    isAsciiDigit c = false := by
  rcases h with hletter | rfl
  · simp only [isAsciiLetter, isAsciiDigit, Bool.or_eq_true, Bool.and_eq_true, decide_eq_true_eq,
      Bool.and_eq_false_iff, decide_eq_false_iff_not] at hletter ⊢
    omega
  · decide

theorem letter_or_underscore_iff {c : Char} :
    isAsciiLetter c = true ∨ c = '_' ↔ isAsciiWord c = true ∧ isAsciiDigit c = false := by
  constructor
  · intro h
    refine ⟨?_, isAsciiDigit_eq_false h⟩
    rcases h with hletter | rfl
    · simp [isAsciiWord, hletter]
    · decide
  · intro ⟨hword, hdigit⟩
    unfold isAsciiWord at hword
    rw [hdigit, Bool.or_false, Bool.or_eq_true, beq_iff_eq] at hword
    exact hword.imp_right fun h => Char.toNat_inj.1 h

/-- A name without digits is any text of letters and underscores. -/
theorem isName_and_undigited_iff {name : List Char} :
    (IsName name ∧ ∀ c ∈ name, isAsciiDigit c = false) ↔
      name ≠ [] ∧ ∀ c ∈ name, isAsciiLetter c = true ∨ c = '_' := by
  simp only [letter_or_underscore_iff]
  constructor
  · intro ⟨⟨c, rest, hname, _, hword⟩, hdigit⟩
    exact ⟨hname ▸ List.cons_ne_nil c rest, fun d hd => ⟨hword d hd, hdigit d hd⟩⟩
  · intro ⟨hne, hall⟩
    obtain ⟨c, rest, rfl⟩ := List.exists_cons_of_ne_nil hne
    exact ⟨⟨c, rest, rfl, (hall c List.mem_cons_self).2, fun d hd => (hall d hd).1⟩,
      fun d hd => (hall d hd).2⟩

theorem forEnv_dollar_iff {name : List Char} : ForEnv ('$' :: name) ↔
    IsName name ∧ ∀ c ∈ name, isAsciiDigit c = false := by
  have hoption : isOption ('$' :: name) = false := rfl
  have hassignment : isAssignment ('$' :: name) = false := by
    rw [isAssignment, List.span_eq_takeWhile_dropWhile, List.takeWhile_cons_of_neg (by decide)]
  rw [isName_and_undigited_iff, ← isForEnv_iff, isForEnv, hoption, hassignment, Bool.false_or,
    Bool.false_or]
  simp [isVariable]

/-- **What is passed over.** Of the words that `env` takes for itself all are passed over but the
variables whose names hold digits. -/
theorem forEnv_iff : ForEnv w ↔ EnvWord w ∧ ¬NumberedVariable w := by
  constructor
  · intro hw
    refine ⟨?_, fun ⟨name, heq, _, d, hd, hdigit⟩ => ?_⟩
    · rcases hw with ⟨hne, hall⟩ | hne | ⟨value, hname⟩ | ⟨hne, hall⟩
      · exact .option hne hall
      · exact .longOption hne
      · exact .assignment value hname
      · exact .variable (isName_and_undigited_iff.2 ⟨hne, hall⟩).1
    · rw [heq, forEnv_dollar_iff] at hw
      rw [hw.2 d hd] at hdigit
      cases hdigit
  · intro ⟨hw, hnot⟩
    rcases hw with ⟨hne, hall⟩ | hne | ⟨value, hname⟩ | hname
    · exact .option hne hall
    · exact .longOption hne
    · exact .assignment value hname
    · exact forEnv_dollar_iff.2 ⟨hname, fun d hd => Bool.eq_false_iff.2 fun hdigit =>
        hnot ⟨_, rfl, hname, d, hd, hdigit⟩⟩

/-! ### Words of a given line -/

instance : DecidablePred IsName
  | [] => isFalse fun ⟨_, _, hname, _⟩ => nomatch hname
  | c :: rest =>
    decidable_of_iff (isAsciiDigit c = false ∧ ∀ d ∈ c :: rest, isAsciiWord d = true) <| by
      constructor
      · exact fun h => ⟨c, rest, rfl, h⟩
      · intro ⟨_, _, hname, hdigit, hword⟩
        obtain ⟨rfl, rfl⟩ := List.cons.inj hname
        exact ⟨hdigit, hword⟩

instance : DecidablePred NumberedVariable := fun w =>
  decidable_of_iff (w.head? = some '$' ∧ IsName w.tail ∧ w.tail.any isAsciiDigit = true) <| by
    rw [List.any_eq_true]
    constructor
    · intro ⟨hdollar, hname⟩
      obtain ⟨name, rfl⟩ := List.head?_eq_some_iff.1 hdollar
      exact ⟨name, rfl, hname⟩
    · intro ⟨name, hw, hname⟩
      subst hw
      exact ⟨rfl, hname⟩

instance : DecidablePred EnvWord := fun w =>
  decidable_of_iff (ForEnv w ∨ NumberedVariable w) <| by
    rw [forEnv_iff]
    constructor
    · intro hw
      rcases hw with hw | ⟨name, rfl, hname, -⟩
      · exact hw.1
      · exact .variable hname
    · intro hw
      by_cases hnumbered : NumberedVariable w
      · exact .inr hnumbered
      · exact .inl ⟨hw, hnumbered⟩

/-! ## Scripts -/

/-- A content whose first line is `#!` and some words with spaces between them, with a body behind a
line feed, if there is one. -/
def script (ws : List (List Char)) (body : Option (List Char)) : List Char :=
  "#!".toList ++ (joinWith [' '] ws ++ (body.map ('\n' :: ·)).getD [])

theorem withoutReturns_of_notMem {line : List Char} (h : '\r' ∉ line) :
    withoutReturns line = line := by
  have hkeep : line.reverse.dropWhile (· == '\r') = line.reverse := by
    cases hreverse : line.reverse with
    | nil => rfl
    | cons c rest =>
      have hc : c ∈ line := by
        rw [← List.mem_reverse, hreverse]
        exact List.mem_cons_self
      have hne : (c == '\r') = false := beq_false_of_ne fun heq => h (heq ▸ hc)
      exact List.dropWhile_cons_of_neg (by simp [hne])
  rw [withoutReturns, hkeep, List.reverse_reverse]

/-- The lines of a script. -/
theorem splitOn_script (h : ∀ w ∈ ws, Solid w) (body : Option (List Char)) :
    splitOn '\n' (script ws body) =
      ("#!".toList ++ joinWith [' '] ws) :: (body.map (splitOn '\n')).getD [] := by
  have hfeed : '\n' ∉ "#!".toList ++ joinWith [' '] ws := by
    rw [List.mem_append, not_or]
    exact ⟨by decide, notMem_joinWith (fun w hw => (h w hw).unbroken) (by decide) (by decide)⟩
  rw [script, ← List.append_assoc]
  cases body with
  | none => exact (congrArg (splitOn '\n') (List.append_nil _)).trans (splitOn_of_notMem hfeed)
  | some body =>
    rw [Option.map_some, Option.getD_some, splitOn_append_cons, splitOn_of_notMem hfeed]
    rfl

/-- A first line asks for its command. -/
theorem asked?_script (h : ∀ w ∈ ws, Solid w) (body : Option (List Char)) :
    asked? (upTo '\n' (script ws body)) = command? ws := by
  obtain ⟨more, hsplit⟩ := exists_splitOn_eq '\n' (script ws body)
  rw [splitOn_script h] at hsplit
  have hline : "#!".toList ++ joinWith [' '] ws = upTo '\n' (script ws body) :=
    (List.cons.inj hsplit).1
  have hreturn : '\r' ∉ joinWith [' '] ws :=
    notMem_joinWith (fun w hw => (h w hw).unbroken) (by decide) (by decide)
  rw [← hline, asked?, after?_eq_some.2 rfl, Option.bind_some, withoutReturns_of_notMem hreturn,
    words_joinWith h]

/-- Of a first line that hands nothing over only the command and its arguments count. -/
theorem interpreter?_script (h : ∀ w ∈ ws, Solid w) (hname : ¬"$0".toList <:+: joinWith [' '] ws)
    (body : Option (List Char)) :
    interpreter? (script ws body) = (command? ws).bind fun p =>
      found? ((((body.map (splitOn '\n')).getD []).take 4).findSome? handOver?) p.1 p.2 := by
  have hfirst : handOver? ("#!".toList ++ joinWith [' '] ws) = none := by
    refine handOver?_eq_none fun hfound => hname ?_
    -- the mark in front has no dollar sign
    rcases List.infix_cons_iff.1 hfound with hprefix | hfound
    · exact absurd (List.cons_prefix_cons.1 hprefix).1 (by decide)
    · rcases List.infix_cons_iff.1 hfound with hprefix | hfound
      · exact absurd (List.cons_prefix_cons.1 hprefix).1 (by decide)
      · exact hfound
  rw [interpreter?_eq_asked, asked?_script h, handedOver?, splitOn_script h, searchedLines,
    List.take_succ_cons, List.findSome?_cons, hfirst]

/-! ## `env` -/

theorem command?_env (he : commandName e = "env".toList) (ws : List (List Char)) :
    command? (e :: ws) = match ws.dropWhile isForEnv with
      | [] => none
      | word :: args => some (commandName word, args) := by
  cases hrest : ws.dropWhile isForEnv <;>
    simp only [command?, he, beq_self_eq_true, if_true, hrest]

theorem command?_of_ne (hc : commandName c ≠ "env".toList) (args : List (List Char)) :
    command? (c :: args) = some (commandName c, args) := by
  rw [command?]
  simp only [beq_false_of_ne hc, Bool.false_eq_true, if_false]

/-- Behind the words that are passed over stands the command. -/
theorem command?_env_append (he : commandName e = "env".toList) (hskipped : ∀ w ∈ skipped, ForEnv w)
    (hc : ¬ForEnv c) (args : List (List Char)) :
    command? (e :: (skipped ++ c :: args)) = some (commandName c, args) := by
  have hforEnv : ∀ w ∈ skipped, isForEnv w = true := fun w hw => isForEnv_iff.2 (hskipped w hw)
  have hstop : (c :: args).dropWhile isForEnv = c :: args :=
    List.dropWhile_cons_of_neg fun h => hc (isForEnv_iff.1 h)
  rw [command?_env he, List.dropWhile_append_of_pos hforEnv, hstop]

/-- Without a command no interpreter is found. -/
theorem interpreter?_env_of_passed (he : commandName e = "env".toList)
    (hsolid : ∀ w ∈ e :: skipped, Solid w) (hskipped : ∀ w ∈ skipped, ForEnv w)
    (body : Option (List Char)) : interpreter? (script (e :: skipped) body) = none := by
  have hall : skipped.dropWhile isForEnv = [] :=
    List.dropWhile_eq_nil_iff.2 fun w hw => isForEnv_iff.2 (hskipped w hw)
  rw [interpreter?_eq_asked, asked?_script hsolid, command?_env he, hall]
  rfl

/-- With a command the interpreter is found that is found without `env`. -/
theorem interpreter?_env_append (he : commandName e = "env".toList)
    (hsolid : ∀ w ∈ e :: (skipped ++ c :: args), Solid w) (hskipped : ∀ w ∈ skipped, ForEnv w)
    (hc : ¬ForEnv c) (hname : commandName c ≠ "env".toList)
    (hscript : ¬"$0".toList <:+: joinWith [' '] (e :: (skipped ++ c :: args)))
    (body : Option (List Char)) :
    interpreter? (script (e :: (skipped ++ c :: args)) body) =
      interpreter? (script (c :: args) body) := by
  have hcommand : command? (e :: (skipped ++ c :: args)) = command? (c :: args) := by
    rw [command?_env_append he hskipped hc, command?_of_ne hname]
  have hrest : ∀ w ∈ c :: args, Solid w := fun w hw =>
    hsolid w (List.mem_cons_of_mem e (List.mem_append_right skipped hw))
  have hjoined : joinWith [' '] (c :: args) <:+ joinWith [' '] (e :: (skipped ++ c :: args)) := by
    rw [← List.cons_append, joinWith_append (List.cons_ne_nil e skipped) (List.cons_ne_nil c args)]
    exact (List.suffix_cons ' ' _).trans (List.suffix_append _ _)
  rw [interpreter?_script hsolid hscript, interpreter?_script hrest
    fun hfound => hscript (hfound.trans hjoined.isInfix), hcommand]

/-! ### A variable that is taken for the command -/

theorem not_forEnv_of_numbered (hw : NumberedVariable w) : ¬ForEnv w :=
  fun h => (forEnv_iff.1 h).2 hw

/-- A variable is its own last component. -/
theorem commandName_of_numbered (hw : NumberedVariable w) : commandName w = w := by
  obtain ⟨name, rfl, ⟨_, _, _, _, hword⟩, -⟩ := hw
  have hslash : '/' ∉ '$' :: name := by
    intro hmem
    rcases List.mem_cons.1 hmem with heq | hmem
    · exact absurd heq (by decide)
    · exact absurd (hword '/' hmem) (by decide)
  have hcomponents : Path.components ('$' :: name) = [String.ofList ('$' :: name)] := by
    rw [Path.components, splitOn_of_notMem hslash]
    rfl
  unfold commandName Path.nameOf Path.name Path.ofString
  rw [String.toList_ofList, hcomponents]
  exact String.toList_ofList

/-- Whatever is handed over to, a variable that is taken for the command is found. -/
theorem found?_of_numbered (hw : NumberedVariable w) (handed : Option (List Char))
    (args : List (List Char)) : found? handed w args = some (String.ofList w) := by
  obtain ⟨name, rfl, -⟩ := hw
  rfl

theorem interpreter?_env_of_numbered (he : commandName e = "env".toList)
    (hsolid : ∀ v ∈ e :: (skipped ++ w :: args), Solid v) (hskipped : ∀ v ∈ skipped, ForEnv v)
    (hw : NumberedVariable w) (body : Option (List Char)) :
    interpreter? (script (e :: (skipped ++ w :: args)) body) = some (String.ofList w) := by
  rw [interpreter?_eq_asked, asked?_script hsolid,
    command?_env_append he hskipped (not_forEnv_of_numbered hw), Option.bind_some,
    commandName_of_numbered hw, found?_of_numbered hw]

/-! ### All words -/

/-- **Transparency of `env`.** Let `env` stand in front of words that it takes for itself.

* If none of them is a variable with a digit in its name, the same interpreter is found as without `env`
  and these words, whatever command, arguments and body follow; without a command none is found.
* Otherwise the first such variable is found, whatever follows. -/
theorem env_transparent (he : commandName e = "env".toList) (hsolid : Solid e)
    (hskipped : ∀ w ∈ skipped, Solid w ∧ EnvWord w) (body : Option (List Char)) :
    ((∀ w ∈ skipped, ¬NumberedVariable w) →
      interpreter? (script (e :: skipped) body) = none ∧
      ∀ c args, Solid c → ¬ForEnv c → commandName c ≠ "env".toList → (∀ w ∈ args, Solid w) →
        ¬"$0".toList <:+: joinWith [' '] (e :: (skipped ++ c :: args)) →
        interpreter? (script (e :: (skipped ++ c :: args)) body) =
          interpreter? (script (c :: args) body)) ∧
    ∀ before w behind, skipped = before ++ w :: behind → (∀ v ∈ before, ¬NumberedVariable v) →
      NumberedVariable w → ∀ rest, (∀ v ∈ rest, Solid v) →
        interpreter? (script (e :: (skipped ++ rest)) body) = some (String.ofList w) := by
  have hsolids : ∀ w ∈ e :: skipped, Solid w :=
    List.forall_mem_cons.2 ⟨hsolid, fun w hw => (hskipped w hw).1⟩
  constructor
  · intro hnone
    have hpassed : ∀ w ∈ skipped, ForEnv w :=
      fun w hw => forEnv_iff.2 ⟨(hskipped w hw).2, hnone w hw⟩
    refine ⟨interpreter?_env_of_passed he hsolids hpassed body, ?_⟩
    intro c args hc hnot hname hargs hscript
    have hwhole : ∀ w ∈ e :: (skipped ++ c :: args), Solid w :=
      List.forall_mem_append.2 ⟨hsolids, List.forall_mem_cons.2 ⟨hc, hargs⟩⟩
    exact interpreter?_env_append he hwhole hpassed hnot hname hscript body
  · intro before w behind hcut hbefore hw rest hrest
    have hpassed : ∀ v ∈ before, ForEnv v := by
      intro v hv
      have hmem : v ∈ skipped := hcut ▸ List.mem_append_left _ hv
      exact forEnv_iff.2 ⟨(hskipped v hmem).2, hbefore v hv⟩
    have hwhole : ∀ v ∈ e :: (skipped ++ rest), Solid v :=
      List.forall_mem_append.2 ⟨hsolids, hrest⟩
    rw [hcut, List.append_assoc, List.cons_append] at hwhole ⊢
    exact interpreter?_env_of_numbered he hwhole hpassed hw body

/-- A shell behind every kind of word for `env`: the interpreter that it hands over to is found as
without `env`. Behind an option, a variable with a digit in its name is found in place of the shell. -/
theorem env_before_shell :
    let env := "/usr/bin/env".toList
    let skipped := ["-i".toList, "PATH=/bin".toList, "$X".toList, "--x".toList]
    let numbered := ["-i".toList, "$PY3".toList, "$R2".toList]
    let shell := ["/bin/sh".toList, "-e".toList]
    let body := some "exec ruby \"$0\" \"$@\"".toList
    (commandName env = "env".toList ∧ Solid env ∧
      (∀ w ∈ skipped, Solid w ∧ EnvWord w) ∧ (∀ w ∈ skipped, ¬NumberedVariable w) ∧
      (∀ w ∈ numbered, Solid w ∧ EnvWord w) ∧ numbered = ["-i".toList] ++ "$PY3".toList :: ["$R2".toList] ∧
      (∀ w ∈ ["-i".toList], ¬NumberedVariable w) ∧ NumberedVariable "$PY3".toList) ∧
    (Solid "/bin/sh".toList ∧ ¬ForEnv "/bin/sh".toList ∧
      commandName "/bin/sh".toList ≠ "env".toList ∧ (∀ w ∈ ["-e".toList], Solid w) ∧
      ¬"$0".toList <:+: joinWith [' '] (env :: (skipped ++ shell)) ∧ ∀ w ∈ shell, Solid w) ∧
    interpreter? (script (env :: skipped) body) = none ∧
    interpreter? (script (env :: (skipped ++ shell)) body) = interpreter? (script shell body) ∧
    interpreter? (script shell body) = some "ruby" ∧
    interpreter? (script (env :: (numbered ++ shell)) body) = some "$PY3" := by
  intro env skipped numbered shell body
  have hwords : commandName env = "env".toList ∧ Solid env ∧
      (∀ w ∈ skipped, Solid w ∧ EnvWord w) ∧ (∀ w ∈ skipped, ¬NumberedVariable w) ∧
      (∀ w ∈ numbered, Solid w ∧ EnvWord w) ∧ numbered = ["-i".toList] ++ "$PY3".toList :: ["$R2".toList] ∧
      (∀ w ∈ ["-i".toList], ¬NumberedVariable w) ∧ NumberedVariable "$PY3".toList := by decide +kernel
  have hshell : Solid "/bin/sh".toList ∧ ¬ForEnv "/bin/sh".toList ∧
      commandName "/bin/sh".toList ≠ "env".toList ∧ (∀ w ∈ ["-e".toList], Solid w) ∧
      ¬"$0".toList <:+: joinWith [' '] (env :: (skipped ++ shell)) ∧ ∀ w ∈ shell, Solid w := by
    decide +kernel
  obtain ⟨he, hsolid, hskipped, hnone, hnumbered, hcut, hbefore, hw⟩ := hwords
  obtain ⟨hc, hnot, hname, hargs, hscript, hrest⟩ := hshell
  have htransparent := (env_transparent he hsolid hskipped body).1 hnone
  have hvariable := (env_transparent he hsolid hnumbered body).2 _ _ _ hcut hbefore hw _ hrest
  exact ⟨⟨he, hsolid, hskipped, hnone, hnumbered, hcut, hbefore, hw⟩,
    ⟨hc, hnot, hname, hargs, hscript, hrest⟩, htransparent.1,
    htransparent.2 _ _ hc hnot hname hargs hscript, by decide +kernel, hvariable⟩

/-- A variable with a digit in its name is found in place of the command behind it. -/
theorem numberedVariable_found :
    (commandName "/usr/bin/env".toList = "env".toList ∧ Solid "/usr/bin/env".toList ∧
      Solid "$PY3".toList ∧ EnvWord "$PY3".toList ∧
      Solid "ruby".toList ∧ ¬EnvWord "ruby".toList ∧ commandName "ruby".toList ≠ "env".toList ∧
      ¬"$0".toList <:+: "/usr/bin/env $PY3 ruby".toList) ∧
    script ["/usr/bin/env".toList, "$PY3".toList, "ruby".toList] none =
      "#!/usr/bin/env $PY3 ruby".toList ∧
    interpreter? "#!/usr/bin/env $PY3 ruby".toList = some "$PY3" ∧
    interpreter? (script ["ruby".toList] none) = some "ruby" ∧
    interpreter? (script ["/usr/bin/env".toList, "$PY3".toList] none) ≠ none := by
  decide +kernel

end LangId.Shebang
