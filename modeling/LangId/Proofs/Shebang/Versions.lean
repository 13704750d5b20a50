import LangId.Cascade
import LangId.Proofs.Regex.Keeping
import LangId.Proofs.Shebang.Locality
import LangId.Regex.Pattern

/-!
# Names without their versions

An interpreter that no language declares is looked up without its version: the digits and dots that its
name ends in. A dot may belong to the name as well, so the name is cut in front of the longest version
that leaves no digit behind. What is left ends in no version: a name in front of one would stand in front
of the longer version already, and would be shorter. So the version is dropped only once, even if it could
be dropped again and again.

**Results.**
* `withoutVersion?_cases`: what is left of a name is as short as can be.
* `not_bareName_of_shortest`: nothing is left of what is left.
* `search_versionedName`: what is left of a name is what the pattern for versions keeps.
* `version_dropped_once`: the shortest name, none if there is no version, and one step of looking up.
-/
namespace LangId

namespace Shebang

open Text Regex

variable {name bare other s u v : List Char} {c : Char}

/-! ## Versions -/

/-- What a version consists of. -/
def isVersionCharacter (c : Char) : Bool := isDecimal c || c == '.'

/-- A version is read with at most a line feed behind it. -/
theorem isVersion_iff : isVersion s = true ↔ ∃ version, IsRun isVersionCharacter version ∧
    (s = version ∨ s = version ++ ['\n']) := by
  have hspan : s.span (fun c => isDecimal c || c == '.') =
      (s.takeWhile isVersionCharacter, s.dropWhile isVersionCharacter) :=
    List.span_eq_takeWhile_dropWhile _ s
  have hfeed : isVersionCharacter '\n' = false := by decide
  rw [isVersion, hspan]
  constructor
  · intro h
    have hrun : IsRun isVersionCharacter (s.takeWhile isVersionCharacter) := by
      refine ⟨fun hnil => ?_, fun x => List.mem_takeWhile_imp⟩
      rw [hnil] at h
      cases h
    refine ⟨_, hrun, ?_⟩
    have hs := (List.takeWhile_append_dropWhile (p := isVersionCharacter) (l := s)).symm
    split at h
    · rename_i heq
      rw [(Prod.mk.inj heq).2, List.append_nil] at hs
      exact .inl hs
    · rename_i heq
      rw [(Prod.mk.inj heq).2] at hs
      exact .inr hs
    · cases h
  · rintro ⟨version, ⟨hne, hall⟩, rfl | rfl⟩
    · obtain ⟨c, more, rfl⟩ := List.exists_cons_of_ne_nil hne
      rw [List.takeWhile_eq_self_iff.2 hall, List.dropWhile_eq_nil_iff.2 hall]
    · obtain ⟨c, more, rfl⟩ := List.exists_cons_of_ne_nil hne
      rw [List.takeWhile_append_of_pos hall, List.dropWhile_append_of_pos hall,
        List.takeWhile_cons_of_neg (by simp [hfeed]), List.dropWhile_cons_of_neg (by simp [hfeed]),
        List.append_nil]
      rfl

/-- Where no line feed stands, a version is all of a text. -/
theorem isVersion_of_notMem (h : '\n' ∉ s) :
    isVersion s = true ↔ IsRun isVersionCharacter s := by
  rw [isVersion_iff]
  constructor
  · rintro ⟨version, hrun, rfl | rfl⟩
    · exact hrun
    · exact absurd (by simp) h
  · exact fun hrun => ⟨s, hrun, .inl rfl⟩

/-! ## What is left of a name -/

/-- What a name may be without its version: a text without digits that a version stands behind. -/
structure BareName (bare name : List Char) : Prop where
  nonempty : bare ≠ []
  undigited : ∀ c ∈ bare, isDecimal c = false
  versioned : ∃ version, name = bare ++ version ∧ IsRun isVersionCharacter version

/-- The shortest of these texts. -/
structure Shortest (bare name : List Char) : Prop where
  bareName : BareName bare name
  minimal : ∀ other, BareName other name → bare.length ≤ other.length

theorem not_bareName_nil : ¬BareName bare [] := by
  rintro ⟨hne, -, version, hname, -⟩
  exact hne (List.append_eq_nil_iff.1 hname.symm).1

/-- **One step.** Behind its first character a name goes on with a version, or with a name. -/
theorem bareName_cons : BareName bare (c :: s) ↔ isDecimal c = false ∧
    ∃ more, bare = c :: more ∧ (more = [] ∧ IsRun isVersionCharacter s ∨ BareName more s) := by
  constructor
  · rintro ⟨hne, hdigits, version, hname, hversion⟩
    obtain ⟨d, more, rfl⟩ := List.exists_cons_of_ne_nil hne
    obtain ⟨rfl, rfl⟩ := List.cons.inj hname
    obtain ⟨hc, hmore⟩ := List.forall_mem_cons.1 hdigits
    refine ⟨hc, more, rfl, ?_⟩
    by_cases hnil : more = []
    · exact .inl ⟨hnil, by rwa [hnil]⟩
    · exact .inr ⟨hnil, hmore, version, rfl, hversion⟩
  · rintro ⟨hc, more, rfl, ⟨rfl, hversion⟩ | ⟨-, hmore, version, rfl, hversion⟩⟩
    · exact ⟨List.cons_ne_nil c [], by simpa using hc, s, rfl, hversion⟩
    · exact ⟨List.cons_ne_nil c more, List.forall_mem_cons.2 ⟨hc, hmore⟩, version, rfl, hversion⟩

/-- **All steps.** What is left of a name is as short as can be, and nothing is left only where there is
no version. -/
theorem withoutVersion?_cases (h : '\n' ∉ s) (before : List Char) :
    withoutVersion? before s = none ∧ (∀ bare, ¬BareName bare s) ∨
      ∃ bare, withoutVersion? before s = some (before.reverse ++ bare) ∧ Shortest bare s := by
  induction s generalizing before with
  | nil => exact .inl ⟨rfl, fun bare => not_bareName_nil⟩
  | cons c s ih =>
    have hs : '\n' ∉ s := fun hmem => h (List.mem_cons_of_mem c hmem)
    rw [withoutVersion?]
    by_cases hc : isDecimal c = true
    · refine .inl ⟨if_pos hc, fun bare hbare => ?_⟩
      rw [(bareName_cons.1 hbare).1] at hc
      cases hc
    rw [if_neg hc]
    have hcut : isDecimal c = false := Bool.eq_false_iff.2 hc
    by_cases hversion : isVersion s = true
    · refine .inr ⟨[c], by rw [if_pos hversion, List.reverse_cons], ?_, fun other hother => ?_⟩
      · exact bareName_cons.2 ⟨hcut, [], rfl, .inl ⟨rfl, (isVersion_of_notMem hs).1 hversion⟩⟩
      · exact List.length_pos_iff.2 hother.nonempty
    rw [if_neg hversion]
    -- no version comes next, so that a name goes on with a name
    have hnext {bare : List Char} (hbare : BareName bare (c :: s)) :
        ∃ more, bare = c :: more ∧ BareName more s := by
      obtain ⟨-, more, rfl, ⟨-, hrun⟩ | hmore⟩ := bareName_cons.1 hbare
      · exact absurd ((isVersion_of_notMem hs).2 hrun) hversion
      · exact ⟨more, rfl, hmore⟩
    rcases ih hs (c :: before) with ⟨hnone, hno⟩ | ⟨bare, hsome, hbare⟩
    · refine .inl ⟨hnone, fun bare hbare => ?_⟩
      obtain ⟨more, -, hmore⟩ := hnext hbare
      exact hno more hmore
    · refine .inr ⟨c :: bare, by rw [hsome, List.reverse_cons, List.append_assoc]; rfl, ?_,
        fun other hother => ?_⟩
      · exact bareName_cons.2 ⟨hcut, bare, rfl, .inr hbare.bareName⟩
      · obtain ⟨more, rfl, hmore⟩ := hnext hother
        exact Nat.succ_le_succ (hbare.minimal more hmore)

/-- There is one shortest text. -/
theorem Shortest.unique (h : Shortest bare name) (h' : Shortest other name) : bare = other := by
  obtain ⟨-, -, version, hname, -⟩ := h.bareName
  obtain ⟨-, -, version', hname', -⟩ := h'.bareName
  have hlength := Nat.le_antisymm (h.minimal other h'.bareName) (h'.minimal bare h.bareName)
  exact (List.append_inj (hname.symm.trans hname') hlength).1

theorem withoutVersion?_eq_some_iff (h : '\n' ∉ s) :
    withoutVersion? [] s = some bare ↔ Shortest bare s := by
  rcases withoutVersion?_cases h [] with ⟨hnone, hno⟩ | ⟨found, hsome, hfound⟩
  · rw [hnone]
    exact ⟨nofun, fun hbare => absurd hbare.bareName (hno bare)⟩
  · rw [hsome]
    constructor
    · intro heq
      obtain rfl := Option.some.inj heq
      exact hfound
    · intro hbare
      rw [hbare.unique hfound]
      rfl

theorem withoutVersion?_eq_none_iff (h : '\n' ∉ s) :
    withoutVersion? [] s = none ↔ ∀ bare, ¬BareName bare s := by
  rcases withoutVersion?_cases h [] with ⟨hnone, hno⟩ | ⟨found, hsome, hfound⟩
  · exact iff_of_true hnone hno
  · rw [hsome]
    exact iff_of_false nofun fun hno => hno found hfound.bareName

/-- What is left as short as can be has no version: a name in front of one would stand in front of the
longer version, too. -/
theorem not_bareName_of_shortest (h : Shortest bare name) : ¬BareName other bare := by
  obtain ⟨-, -, version, rfl, hversion⟩ := h.bareName
  rintro ⟨hne, hdigits, earlier, rfl, hearlier⟩
  have hother : BareName other ((other ++ earlier) ++ version) :=
    ⟨hne, hdigits, earlier ++ version, List.append_assoc _ _ _, hearlier.append hversion⟩
  have hle := h.minimal other hother
  have hpos := List.length_pos_iff.2 hearlier.1
  rw [List.length_append] at hle
  omega

/-! ## Names as texts -/

theorem stripVersion?_eq_some_iff {name bare : String} (h : '\n' ∉ name.toList) :
    stripVersion? name = some bare ↔ Shortest bare.toList name.toList := by
  rw [stripVersion?, ← withoutVersion?_eq_some_iff h, Option.map_eq_some_iff]
  constructor
  · rintro ⟨left, hleft, rfl⟩
    rw [hleft, String.toList_ofList]
  · exact fun hleft => ⟨bare.toList, hleft, String.ofList_toList⟩

theorem stripVersion?_eq_none_iff {name : String} (h : '\n' ∉ name.toList) :
    stripVersion? name = none ↔ ∀ bare, ¬BareName bare name.toList := by
  rw [stripVersion?, Option.map_eq_none_iff, withoutVersion?_eq_none_iff h]

/-- A version is dropped only once. -/
theorem stripVersion?_of_stripVersion? {name bare : String} (h : '\n' ∉ name.toList)
    (hbare : stripVersion? name = some bare) : stripVersion? bare = none := by
  have hshortest := (stripVersion?_eq_some_iff h).1 hbare
  obtain ⟨-, -, version, hname, -⟩ := hshortest.bareName
  have hfeed : '\n' ∉ bare.toList := fun hmem => h (hname ▸ List.mem_append_left version hmem)
  exact (stripVersion?_eq_none_iff hfeed).2 fun other => not_bareName_of_shortest hshortest

/-! ## The pattern -/

/-- The characters that are no digits. -/
def undigited : CharClass := { items := [.category .digit true] }

/-- A name with its version: a text without digits, as short as can be, and digits and dots up to the end.
The text is the first group. -/
def versionedName : Node := .seqAll [
  .anchor .textStart,
  .group 1 (.loop (.one undigited) 1 none .lazy),
  .some (.oneOf .none [.category .digit false, .char 46]),
  .anchor .finalLineEnd]

/-- What stands behind the text. -/
def versionEnd : List Node := [
  .some (.oneOf .none [.category .digit false, .char 46]),
  .anchor .finalLineEnd]

theorem contains_version (x : Char) : CharClass.contains (.ofItems .none false false
    [.category .digit false, .char 46]) x = isVersionCharacter x := by
  rw [contains_ofItems_of_uncased (by decide), Bool.eq_iff_iff]
  simp [ClassItem.holds, Category.holds, isVersionCharacter, ← Char.toNat_inj]

theorem contains_undigited (x : Char) : undigited.contains x = !isDecimal x := by
  simp [undigited, CharClass.contains, ClassItem.holds, Category.holds]

theorem passes_versionEnd : (Node.seqAll versionEnd).Passes fun c w =>
    IsRun isVersionCharacter w ∧ Anchor.finalLineEnd.holds (c.past w) = true := by
  refine (passes_seqAll_cons (passes_run _ 1) (passes_seqAll_singleton
    (passes_anchor .finalLineEnd))).congr fun c w => ?_
  simp only [contains_version, Nat.one_le_iff_ne_zero, ne_eq, List.length_eq_zero_iff]
  constructor
  · rintro ⟨w, _, rfl, hrun, rfl, hend⟩
    rw [List.append_nil]
    exact ⟨hrun, hend⟩
  · rintro ⟨hrun, hend⟩
    exact ⟨w, [], (List.append_nil w).symm, hrun, rfl, hend⟩

theorem isVersion_iff_prefix : isVersion v = true ↔ ∃ w, w <+: v ∧ IsRun isVersionCharacter w ∧
    Anchor.finalLineEnd.holds ((Cursor.between u v).past w) = true := by
  have hend (w rest : List Char) : Anchor.finalLineEnd.holds ((Cursor.between u (w ++ rest)).past w) =
      true ↔ rest = [] ∨ rest = ['\n'] := by simp [Anchor.holds]
  rw [isVersion_iff]
  constructor
  · rintro ⟨w, hrun, rfl | rfl⟩
    · exact ⟨v, List.prefix_refl v, hrun, by simpa using (hend v []).2 (.inl rfl)⟩
    · exact ⟨w, List.prefix_append w _, hrun, (hend w _).2 (.inr rfl)⟩
  · rintro ⟨w, ⟨rest, rfl⟩, hrun, hholds⟩
    rcases (hend w rest).1 hholds with rfl | rfl
    · exact ⟨w, hrun, .inl (List.append_nil w)⟩
    · exact ⟨w, hrun, .inr rfl⟩

/-- The text of the first group. -/
def kept (t : Thread) : Option (List Char) := (t.captured? 1).map Capture.text

/-- Behind a text that is kept stands a version, or nothing is found. -/
theorem kept_versionEnd (u v : List Char) :
    ((Node.seqAll versionEnd).step (Thread.capture ⟨.between u v, []⟩ 1 (.between [] (u ++ v))) some).map
      kept = if isVersion v then some (some u) else none := by
  set t := Thread.capture ⟨.between u v, []⟩ 1 (.between [] (u ++ v)) with ht
  have hkept (w : List Char) : kept (t.past w) = some u := by
    simp [kept, ht, Thread.capture, Thread.captured?, Thread.past, Capture.text, Cursor.between]
  have hsome : ((Node.seqAll versionEnd).step t some).isSome = true ↔ isVersion v = true := by
    rw [passes_versionEnd t some, isVersion_iff_prefix (u := u)]
    simp [ht]
  by_cases hv : isVersion v = true
  · obtain ⟨r, hr⟩ := Option.isSome_iff_exists.1 (hsome.2 hv)
    obtain ⟨w, -, -, hw⟩ := eq_some_of_passes passes_versionEnd hr
    obtain rfl := Option.some.inj hw
    rw [hr, if_pos hv, Option.map_some, hkept]
  · rw [if_neg hv, Option.map_eq_none_iff]
    exact Option.not_isSome_iff_eq_none.1 fun h => hv (hsome.1 h)

/-- A character that is no digit is passed over. -/
theorem oneStep_undigited (u v : List Char) (f : Continuation) :
    oneStep undigited ⟨.between u (c :: v), []⟩ f =
      if isDecimal c then none else f ⟨.between (u ++ [c]) v, []⟩ := by
  simp only [oneStep, Cursor.next?, Cursor.between, contains_undigited]
  cases isDecimal c <;> simp

/-- **All turns.** The texts are tried from the shortest one on. -/
theorem kept_lazyLoop {k : Continuation} {bound count : Nat} {last : Option Nat}
    (hk : ∀ u v, u ++ v = s → (k ⟨.between u v, []⟩).map kept =
      if isVersion v then some (some u) else none)
    (hs : u ++ v = s) (hbound : v.length < bound) (hcount : 1 ≤ count)
    (hlast : ∀ p ∈ last, p < u.length) :
    (lazyLoop (oneStep undigited) 1 none k bound count last ⟨.between u v, []⟩).map kept =
      if isVersion v then some (some u) else (withoutVersion? u.reverse v).map some := by
  induction v generalizing u bound count last with
  | nil =>
    obtain ⟨bound, rfl⟩ := Nat.exists_eq_add_one.2 hbound
    have hend (f : Continuation) : oneStep undigited ⟨.between u [], []⟩ f = none := rfl
    rw [lazyLoop_turn hcount hlast, hend, Option.or_none]
    exact hk u [] hs
  | cons c v ih =>
    obtain ⟨bound, rfl⟩ := Nat.exists_eq_add_one.2 (Nat.zero_lt_of_lt hbound)
    have hrest : (lazyLoop (oneStep undigited) 1 none k bound (count + 1) (some u.length)
        ⟨.between (u ++ [c]) v, []⟩).map kept =
          if isVersion v then some (some (u ++ [c]))
          else (withoutVersion? (u ++ [c]).reverse v).map some :=
      ih (by rw [← hs]; simp) (Nat.lt_of_succ_lt_succ hbound) (Nat.le_add_left 1 count) (by simp)
    rw [lazyLoop_turn hcount hlast, oneStep_undigited, Option.map_or, hk u (c :: v) hs,
      apply_ite (Option.map kept), Option.map_none, Cursor.position_between, hrest]
    by_cases hversion : isVersion (c :: v) = true
    · rw [if_pos hversion, if_pos hversion]
      rfl
    · rw [if_neg hversion, if_neg hversion, Option.none_or, withoutVersion?, List.reverse_append,
        List.reverse_singleton, List.singleton_append]
      split
      · rfl
      · split <;> simp

theorem versionedName_eq : versionedName = .seqAll ([.anchor .textStart] ++
    .group 1 (.loop (.one undigited) 1 none .lazy) :: versionEnd) := rfl

/-- At the beginning of a text. -/
theorem kept_versionedName (s : List Char) :
    (versionedName.step ⟨.between [] s, []⟩ some).map kept = (withoutVersion? [] s).map some := by
  have hstep : versionedName.step ⟨.between [] s, []⟩ some =
      lazyLoop (oneStep undigited) 1 none
        (fun t => (Node.seqAll versionEnd).step (t.capture 1 (.between [] s)) some)
        (1 + s.length + 2) 0 none ⟨.between [] s, []⟩ := by
    rw [versionedName_eq, step_group]
    rfl
  rw [hstep, lazyLoop, if_pos Nat.zero_lt_one]
  cases s with
  | nil => rfl
  | cons c s =>
    rw [oneStep_undigited, withoutVersion?]
    by_cases hc : isDecimal c = true
    · rw [if_pos hc, if_pos hc]
      rfl
    · rw [if_neg hc, if_neg hc]
      refine (kept_lazyLoop (s := c :: s) (u := [c]) (fun u v huv => ?_) rfl ?_ (Nat.le_refl 1)
        (by simp)).trans ?_
      · rw [← huv]
        exact kept_versionEnd u v
      · simp
        omega
      · split <;> rfl

/-- It stands at the beginning of a text only. -/
theorem matchAt_versionedName {more rest : List Char} (h : more ≠ []) :
    versionedName.matchAt (.between more rest) = none := by
  have hstart : Anchor.textStart.holds (.between more rest) = false := by
    simpa [Anchor.holds, Cursor.between] using h
  rw [Node.matchAt, Option.map_eq_none_iff, versionedName_eq, step_group]
  simp [Node.seqAll, Node.step, hstart]

/-- **The pattern.** What is left of a name is the text that the pattern keeps. -/
theorem search_versionedName (s : List Char) :
    (versionedName.search s).bind (·.group? 1) = withoutVersion? [] s := by
  have hkept := kept_versionedName s
  rw [search_eq_matchAt (fun more rest => matchAt_versionedName), Node.matchAt]
  cases hstep : versionedName.step ⟨.between [] s, []⟩ some with
  | none =>
    rw [hstep] at hkept
    exact (Option.map_eq_none_iff.1 hkept.symm).symm
  | some t =>
    rw [hstep] at hkept
    obtain ⟨bare, hbare, hgroup⟩ := Option.map_eq_some_iff.1 hkept.symm
    rw [hbare, hgroup]
    rfl

/-- The pattern as a text. -/
example : (parse {} "^(\\D+?)[\\d.]+$".toList).toOption = some versionedName := by decide +kernel

end Shebang

/-! ## Looking up -/

namespace KnowledgeBase

open Shebang

variable {kb : KnowledgeBase} {name : String}

/-- The languages of an interpreter, whose version is dropped up to a number of times, as long as no
language declares what is left. -/
def ofInterpreterWithin (kb : KnowledgeBase) : Nat → String → Candidates
  | 0, interpreter => kb.byInterpreter interpreter
  | steps + 1, interpreter =>
    let found := kb.byInterpreter interpreter
    if found.isEmpty then
      match stripVersion? interpreter with
      | some bare => kb.ofInterpreterWithin steps bare
      | none => found
    else found

theorem ofInterpreterWithin_of_unversioned (h : stripVersion? name = none) (steps : Nat) :
    kb.ofInterpreterWithin steps name = kb.byInterpreter name := by
  cases steps with
  | zero => rfl
  | succ steps =>
    rw [ofInterpreterWithin, h]
    exact ite_self _

/-- **One step.** More than one version is never dropped. -/
theorem ofInterpreterWithin_succ (h : '\n' ∉ name.toList) (steps : Nat) :
    kb.ofInterpreterWithin (steps + 1) name = kb.ofInterpreter name := by
  rw [ofInterpreterWithin, ofInterpreter]
  cases hbare : stripVersion? name with
  | none => rfl
  | some bare =>
    simp only [ofInterpreterWithin_of_unversioned (stripVersion?_of_stripVersion? h hbare)]

end KnowledgeBase

/-- **Versions.** A name is stripped to the shortest text without digits in front of digits and dots up to
its end, if there is such a text; this text is stripped no further. So the languages of an interpreter are
the same if its version is dropped any number of times, as long as no language declares what is left. -/
theorem Shebang.version_dropped_once :
    (∀ name : String, '\n' ∉ name.toList →
      (∀ bare, stripVersion? name = some bare ↔ Shortest bare.toList name.toList) ∧
      (stripVersion? name = none ↔ ∀ bare, ¬BareName bare name.toList) ∧
      ∀ bare, stripVersion? name = some bare → stripVersion? bare = none) ∧
    ∀ (kb : KnowledgeBase) (file : Sample) (c : Candidates) (steps : Nat),
      kb.proposal? file c .shebang =
        (interpreter? file.content).map (kb.ofInterpreterWithin (steps + 1)) := by
  refine ⟨fun name h => ⟨fun bare => stripVersion?_eq_some_iff h, stripVersion?_eq_none_iff h,
    fun bare => stripVersion?_of_stripVersion? h⟩, fun kb file c steps => ?_⟩
  rw [KnowledgeBase.proposal?]
  cases hname : interpreter? file.content with
  | none => rfl
  | some name =>
    have hunbroken := (isInterpreter_of_interpreter? hname).unbroken
    have hfeed : '\n' ∉ name.toList := fun hmem =>
      absurd (hunbroken '\n' hmem) (by decide)
    rw [Option.map_some, Option.map_some, KnowledgeBase.ofInterpreterWithin_succ hfeed]

/-- A version with dots in front of it, and digits in front of the last version. -/
theorem Shebang.version_dropped_once_lua :
    ('\n' ∉ "lua..5.1".toList ∧ stripVersion? "lua..5.1" = some "lua" ∧
      Shortest "lua".toList "lua..5.1".toList ∧ stripVersion? "lua" = none) ∧
    '\n' ∉ "x86-64.1".toList ∧ stripVersion? "x86-64.1" = none ∧
      ∀ bare, ¬BareName bare "x86-64.1".toList := by
  have hlua : '\n' ∉ "lua..5.1".toList := by decide
  have hdigits : '\n' ∉ "x86-64.1".toList := by decide
  have hbare : stripVersion? "lua..5.1" = some "lua" := by decide +kernel
  have hnone : stripVersion? "x86-64.1" = none := by decide +kernel
  obtain ⟨hshortest, -, honce⟩ := version_dropped_once.1 _ hlua
  exact ⟨⟨hlua, hbare, (hshortest _).1 hbare, honce _ hbare⟩, hdigits, hnone,
    (version_dropped_once.1 _ hdigits).2.1.1 hnone⟩

/-- With line feeds in a name, a version could be dropped twice. -/
example : Shebang.stripVersion? "a.\n1" = some "a.\n" ∧ Shebang.stripVersion? "a.\n" = some "a" := by
  decide +kernel

end LangId
