import LangId.Proofs.Gitignore.Lines
import LangId.Proofs.Gitignore.Names
import Mathlib.Algebra.GroupWithZero.Nat

/-!
# How much a line says

The weight of a pattern is the number of its classes and tests. A line with one more character in front
is read to a heavier pattern (`Heavier.cons`), and so is a line with one more space at its end that a
backslash keeps there (`Heavier.concat`). So no pattern is read from both.
-/
namespace LangId.Regex

/-- The number of classes and tests in a pattern. -/
def Node.weight : Node → Nat
  | .empty => 0
  | .one _ | .back _ _ | .anchor _ => 1
  | .group _ body | .loop body _ _ _ | .ahead _ body | .behind _ _ body | .atomic body => body.weight
  | .seq first second | .alt first second | .cond _ first second => first.weight + second.weight

theorem Node.weight_seqAll (ns : List Node) : (Node.seqAll ns).weight = (ns.map Node.weight).sum := by
  induction ns with
  | nil => rfl
  | cons n ns ih =>
    cases ns with
    | nil => simp [seqAll]
    | cons m ns => exact congrArg (n.weight + ·) ih

end LangId.Regex

namespace LangId.Gitignore

open Regex Text

variable {s z body : List Char} {c : Char} {more segments : List (List Char)} {first slash : Bool}

/-! ## Segments -/

/-- What the pattern of a unit weighs. -/
def Glob.weight (u : Glob) : Nat :=
  match u.node with
  | .ok node => node.weight
  | .error _ => 0

/-- What the patterns of the units of a segment weigh. -/
def segmentWeight (s : List Char) : Nat := (((globs s.length s).getD []).map Glob.weight).sum

/-- What the patterns of some segments weigh. -/
def segmentsWeight : Bool → Bool → List (List Char) → Nat
  | _, _, [] => 0
  | first, slash, s :: rest =>
    if s = ['*', '*'] then
      if first then 3 + segmentsWeight false false rest
      else if rest = [] then 1 else 2 + segmentsWeight false true rest
    else first.toNat + slash.toNat + segmentWeight s + (if rest = [] then 2 else 0)
      + segmentsWeight false true rest

theorem weight_units {units : List Glob} {ns : List Node} (h : units.mapM Glob.node = .ok ns) :
    (ns.map Node.weight).sum = (units.map Glob.weight).sum := by
  refine congrArg List.sum (map_of_mapM (fun u n hu => ?_) h)
  rw [Glob.weight, hu]

theorem mapM_read?_cons {rest : List (List Char)} {found : List Segment} :
    (s :: rest).mapM Segment.read? = some found ↔ ∃ segment behind, Segment.read? s = some segment ∧
      rest.mapM Segment.read? = some behind ∧ found = segment :: behind := by
  rw [List.mapM_cons]
  simp only [bind, pure, Option.bind_eq_some_iff, Option.some.injEq, eq_comm (a := found)]
  grind

theorem isEmpty_of_mapM_read? {found : List Segment} (h : segments.mapM Segment.read? = some found) :
    found.isEmpty = segments.isEmpty := by
  cases segments with
  | nil =>
    obtain rfl := Option.some.inj h
    rfl
  | cons s rest =>
    obtain ⟨segment, behind, -, -, rfl⟩ := mapM_read?_cons.1 h
    rfl

/-- What stands before a name weighs one for each of the two that is there. -/
theorem weight_lead (first slash : Bool) :
    ((segmentNodes.lead first slash).map Node.weight).sum = first.toNat + slash.toNat := by
  cases first <;> cases slash <;> rfl

/-- The segments that are read weigh what their texts do, wherever they stand. -/
def Weighs (found : List Segment) (segments : List (List Char)) : Prop :=
  ∀ first slash ns, segmentNodes first slash found = .ok ns →
    (ns.map Node.weight).sum = segmentsWeight first slash segments

/-- A `**` weighs by where it stands. -/
theorem weighs_anyDepth {behind : List Segment} (hempty : behind.isEmpty = more.isEmpty)
    (ih : Weighs behind more) : Weighs (.anyDepth :: behind) (['*', '*'] :: more) := by
  intro first slash ns h
  rw [segmentNodes] at h
  rw [segmentsWeight, if_pos rfl]
  cases first with
  | true =>
    obtain ⟨rest, hrest, h⟩ := bind_eq_ok.1 h
    obtain rfl := pure_eq_ok.1 h
    rw [if_pos rfl, ← ih _ _ _ hrest, List.map_cons, List.map_cons, List.sum_cons, List.sum_cons,
      ← Nat.add_assoc]
    rfl
  | false =>
    rw [if_neg Bool.false_ne_true]
    rw [if_neg Bool.false_ne_true, hempty] at h
    cases more with
    | nil =>
      obtain rfl := pure_eq_ok.1 h
      rfl
    | cons next more =>
      rw [List.isEmpty_cons, if_neg Bool.false_ne_true] at h
      obtain ⟨rest, hrest, h⟩ := bind_eq_ok.1 h
      obtain rfl := pure_eq_ok.1 h
      rw [if_neg (List.cons_ne_nil _ _), ← ih _ _ _ hrest, List.map_cons, List.sum_cons]
      rfl

/-- What stands behind the last name weighs two. -/
theorem weight_end {behind : List Segment} {nodes : List Node}
    (hempty : behind.isEmpty = more.isEmpty) (hnodes : (nodes.map Node.weight).sum = 2) :
    ((if behind.isEmpty = true then nodes else []).map Node.weight).sum =
      if more = [] then 2 else 0 := by
  rw [hempty]
  cases more <;> simp [hnodes]

theorem weighs_anyName {behind : List Segment} (hempty : behind.isEmpty = more.isEmpty)
    (ih : Weighs behind more) : Weighs (.anyName :: behind) (['*'] :: more) := by
  intro first slash ns h
  rw [segmentNodes] at h
  obtain ⟨rest, hrest, h⟩ := bind_eq_ok.1 h
  obtain rfl := pure_eq_ok.1 h
  have hone : ([Node.some notSlash].map Node.weight).sum = segmentWeight ['*'] := by rfl
  have hend : ([Node.optional (Node.char .none '/'), .anchor .finalLineEnd].map Node.weight).sum =
      2 := rfl
  have hwild : ['*'] ≠ ['*', '*'] := by decide
  rw [segmentsWeight, if_neg hwild]
  simp only [List.map_append, List.sum_append, weight_lead, hone, ih _ _ _ hrest,
    weight_end hempty hend]

theorem weighs_glob {behind : List Segment} {units : List Glob}
    (hunits : globs s.length s = some units) (hwild : s ≠ ['*', '*'])
    (hempty : behind.isEmpty = more.isEmpty) (ih : Weighs behind more) :
    Weighs (.glob units :: behind) (s :: more) := by
  intro first slash ns h
  rw [segmentNodes] at h
  obtain ⟨name, hname, h⟩ := bind_eq_ok.1 h
  obtain ⟨rest, hrest, h⟩ := bind_eq_ok.1 h
  obtain rfl := pure_eq_ok.1 h
  have hsegment : segmentWeight s = (units.map Glob.weight).sum := by
    rw [segmentWeight, hunits, Option.getD_some]
  have hend : ([Node.alt (Node.char .none '/') (.anchor .finalLineEnd)].map Node.weight).sum =
      2 := rfl
  rw [segmentsWeight, if_neg hwild]
  simp only [List.map_append, List.sum_append, weight_lead, weight_units hname, hsegment,
    ih _ _ _ hrest, weight_end hempty hend]

theorem weighs_of_mapM_read? {found : List Segment}
    (hfound : segments.mapM Segment.read? = some found) : Weighs found segments := by
  induction segments generalizing found with
  | nil =>
    obtain rfl : [] = found := Option.some.inj hfound
    intro first slash ns h
    obtain rfl : [] = ns := Except.ok.inj h
    rfl
  | cons s more ih =>
    obtain ⟨segment, behind, hs, hbehind, rfl⟩ := mapM_read?_cons.1 hfound
    have hempty := isEmpty_of_mapM_read? hbehind
    unfold Segment.read? at hs
    split at hs
    · rename_i hwild
      obtain rfl := eq_of_beq hwild
      obtain rfl := Option.some.inj hs
      exact weighs_anyDepth hempty (ih hbehind)
    rename_i hwild
    split at hs
    · rename_i hname
      obtain rfl := eq_of_beq hname
      obtain rfl := Option.some.inj hs
      exact weighs_anyName hempty (ih hbehind)
    · obtain ⟨units, hunits, rfl⟩ := Option.map_eq_some_iff.1 hs
      exact weighs_glob hunits (fun h => hwild (beq_iff_eq.2 h)) hempty (ih hbehind)

/-- The lists of segments that have a short form. -/
def IsShort (segments : List (List Char)) : Prop :=
  segments = [['*', '*']] ∨ segments = [['*', '*'], ['*']] ∨
    segments = [['*', '*'], ['*'], ['*', '*']]

instance (segments : List (List Char)) : Decidable (IsShort segments) :=
  inferInstanceAs (Decidable (_ ∨ _))

/-- What the pattern of normalised segments weighs. -/
def normalWeight (segments : List (List Char)) : Nat :=
  if IsShort segments then 1 else segmentsWeight true false segments

theorem weight_nodeOf {line : String} {directory : Bool} {node : Node}
    (h : nodeOf line directory segments = .ok node) : node.weight = normalWeight segments := by
  unfold nodeOf at h
  split at h
  · cases h
  · obtain rfl := Except.ok.inj h
    cases directory <;> rfl
  · obtain rfl := Except.ok.inj h
    rfl
  · obtain rfl := Except.ok.inj h
    rfl
  · rename_i hone htwo hthree
    have hshort : ¬IsShort segments := by
      rintro (rfl | rfl | rfl)
      · exact hone rfl
      · exact htwo rfl
      · exact hthree rfl
    rw [normalWeight, if_neg hshort]
    split at h
    · cases h
    · rename_i found hfound
      split at h
      · rename_i ns hns
        obtain rfl := Except.ok.inj h
        rw [Node.weight_seqAll, weighs_of_mapM_read? hfound _ _ _ hns]
      · cases h

/-! ## Normalised segments -/

/-- A segment that is not empty, and no wildcard as a whole. -/
structure Named (s : List Char) : Prop where
  ne_nil : s ≠ []
  ne_wild : s ≠ ['*', '*']
  ne_name : s ≠ ['*']

theorem closed_cons (hmore : more ≠ []) : closed (s :: more) = s :: closed more := by
  unfold closed
  rw [List.getLast?_cons_of_ne_nil hmore]
  split
  · rw [List.dropLast_cons_of_ne_nil hmore, List.cons_append]
  · rfl

theorem collapse_cons (hwild : s ≠ ['*', '*']) : collapse (s :: more) = s :: collapse more := by
  rw [collapse]
  cases collapse more <;> simp [hwild]

/-- A `**` is joined with one that comes next. -/
theorem collapse_wild (more : List (List Char)) : collapse (['*', '*'] :: more) = collapse more ∨
    collapse (['*', '*'] :: more) = ['*', '*'] :: collapse more := by
  rw [collapse]
  cases collapse more with
  | nil => exact .inr rfl
  | cons t rest =>
    by_cases ht : t = ['*', '*']
    · exact .inl (by simp [ht])
    · exact .inr (by simp [ht])

theorem normalize_nil_cons : normalize ([] :: more) = collapse (closed more) := by
  rw [normalize_eq, anchored, if_pos List.isEmpty_nil]

theorem normalize_wild_cons :
    normalize (['*', '*'] :: more) = collapse (['*', '*'] :: closed more) := by
  have hanchored : anchored (['*', '*'] :: more) = ['*', '*'] :: more := by simp [anchored]
  rw [normalize_eq, hanchored]
  cases more with
  | nil => rfl
  | cons s more => rw [closed_cons (List.cons_ne_nil s more)]

/-- A single segment matches at any depth. -/
theorem normalize_single (hne : s ≠ []) (hwild : s ≠ ['*', '*']) :
    normalize [s] = [['*', '*'], s] := by
  simp [normalize_eq, anchored, closed, collapse, hne, hwild]

theorem normalize_directory (hne : s ≠ []) (hwild : s ≠ ['*', '*']) :
    normalize [s, []] = [['*', '*'], s, ['*', '*']] := by
  simp [normalize_eq, anchored, closed, collapse, hne, hwild]

/-- More segments are anchored. -/
theorem normalize_cons (hne : s ≠ []) (hwild : s ≠ ['*', '*']) (hmore : more ≠ [])
    (hdirectory : more ≠ [[]]) : normalize (s :: more) = s :: collapse (closed more) := by
  have hanchored : anchored (s :: more) = s :: more := by simp [anchored, hne, hmore, hdirectory]
  rw [normalize_eq, hanchored, closed_cons hmore, collapse_cons hwild]

/-! ## One character more in front -/

theorem segmentsWeight_le (more : List (List Char)) :
    segmentsWeight false false more ≤ segmentsWeight false true more := by
  cases more with
  | nil => exact Nat.le_refl 0
  | cons s rest =>
    rw [segmentsWeight, segmentsWeight]
    split
    · exact Nat.le_refl _
    · simp only [Bool.toNat_false, Bool.toNat_true]
      omega

/-- Segments weigh hardly more at the beginning than behind others. -/
theorem normalWeight_le (more : List (List Char)) :
    normalWeight more ≤ 1 + segmentsWeight false true more := by
  rw [normalWeight]
  split
  · exact Nat.le_add_right 1 _
  rename_i hshort
  cases more with
  | nil => exact Nat.zero_le _
  | cons s rest =>
    rw [segmentsWeight, segmentsWeight]
    by_cases hwild : s = ['*', '*']
    · have hrest : rest ≠ [] := by
        rintro rfl
        exact hshort (.inl (by rw [hwild]))
      have hle := segmentsWeight_le rest
      simp only [hwild, hrest, if_true, if_false, Bool.false_eq_true]
      omega
    · simp only [hwild, if_false, Bool.toNat_false, Bool.toNat_true]
      omega

/-- What the other segments add to the weight of a first one. -/
def frameWeight (more : List (List Char)) : Nat :=
  if more = [] then 5 else if more = [[]] then 4
  else 1 + segmentsWeight false true (collapse (closed more))

theorem normalWeight_of_ne_wild (hwild : s ≠ ['*', '*']) : normalWeight (s :: more) =
    1 + segmentWeight s + (if more = [] then 2 else 0) + segmentsWeight false true more := by
  have hshort : ¬IsShort (s :: more) := by simp [IsShort, hwild]
  rw [normalWeight, if_neg hshort, segmentsWeight, if_neg hwild]
  rfl

/-- The weight of an anchored segment, and of what stands behind it. -/
theorem normalWeight_of_anchored (hne : s ≠ []) (hwild : s ≠ ['*', '*']) (hmore : more ≠ [])
    (hdirectory : more ≠ [[]]) :
    normalWeight (normalize (s :: more)) = segmentWeight s + frameWeight more := by
  have hrest : collapse (closed more) ≠ [] := fun hnil =>
    hmore (closed_eq_nil.1 (collapse_eq_nil.1 hnil))
  rw [normalize_cons hne hwild hmore hdirectory, normalWeight_of_ne_wild hwild, if_neg hrest,
    frameWeight, if_neg hmore, if_neg hdirectory]
  omega

/-- The weight of a name, and of what stands behind it. -/
theorem normalWeight_of_named (h : Named s) :
    normalWeight (normalize (s :: more)) = segmentWeight s + frameWeight more := by
  obtain ⟨hne, hwild, hname⟩ := h
  by_cases hmore : more = []
  · subst hmore
    rw [normalize_single hne hwild]
    simp [normalWeight, IsShort, segmentsWeight, frameWeight, hwild, hname]
    omega
  by_cases hdirectory : more = [[]]
  · subst hdirectory
    rw [normalize_directory hne hwild]
    simp [normalWeight, IsShort, segmentsWeight, frameWeight, hwild, hname]
    omega
  · exact normalWeight_of_anchored hne hwild hmore hdirectory

/-- What is no name weighs no more than a name with as many units would. -/
theorem normalWeight_normalize_le (h : s :: more ≠ [[]]) :
    normalWeight (normalize (s :: more)) ≤ segmentWeight s + frameWeight more := by
  by_cases hmore : more = [] ∨ more = [[]]
  · by_cases hs : s = [] ∨ s = ['*', '*'] ∨ s = ['*']
    · revert h
      rcases hmore with rfl | rfl <;> rcases hs with rfl | rfl | rfl <;> decide
    · obtain ⟨hne, hwild, hname⟩ : s ≠ [] ∧ s ≠ ['*', '*'] ∧ s ≠ ['*'] := by simpa using hs
      exact Nat.le_of_eq (normalWeight_of_named ⟨hne, hwild, hname⟩)
  obtain ⟨hmore, hdirectory⟩ := not_or.1 hmore
  by_cases hanchored : s ≠ [] ∧ s ≠ ['*', '*']
  · exact Nat.le_of_eq (normalWeight_of_anchored hanchored.1 hanchored.2 hmore hdirectory)
  have hframe : frameWeight more = 1 + segmentsWeight false true (collapse (closed more)) := by
    rw [frameWeight, if_neg hmore, if_neg hdirectory]
  have hle := normalWeight_le (collapse (closed more))
  rw [hframe]
  by_cases hnil : s = []
  · subst hnil
    rw [normalize_nil_cons]
    omega
  · obtain rfl : s = ['*', '*'] := Decidable.not_not.1 fun hwild => hanchored ⟨hnil, hwild⟩
    have htwo : segmentWeight ['*', '*'] = 2 := rfl
    rw [normalize_wild_cons, htwo]
    rcases collapse_wild (closed more) with heq | heq
    · rw [heq]
      omega
    · have hrest := segmentsWeight_le (collapse (closed more))
      rw [heq, normalWeight]
      split
      · omega
      · rw [segmentsWeight, if_pos rfl, if_pos rfl]
        omega

theorem normalWeight_lt_of_cons (hnamed : Named (c :: s))
    (hweight : segmentWeight (c :: s) = segmentWeight s + 1) (h : s :: more ≠ [[]]) :
    normalWeight (normalize (s :: more)) < normalWeight (normalize ((c :: s) :: more)) := by
  have hle := normalWeight_normalize_le h
  rw [normalWeight_of_named hnamed, hweight]
  omega

/-! ## One character more at the end -/

theorem closed_concat (hne : z ≠ []) : closed (segments ++ [z]) = segments ++ [z] := by
  unfold closed
  rw [List.getLast?_concat]
  split
  · rename_i h
    exact absurd (Option.some.inj h) hne
  · rfl

/-- Joining neighbours does not depend on a last segment that is no `**`. -/
theorem exists_collapse_concat (segments : List (List Char)) :
    ∃ front, ∀ z, z ≠ ['*', '*'] → collapse (segments ++ [z]) = front ++ [z] := by
  induction segments with
  | nil => exact ⟨[], fun z hz => rfl⟩
  | cons s segments ih =>
    obtain ⟨front, hfront⟩ := ih
    by_cases hs : s = ['*', '*']
    · cases front with
      | nil =>
        refine ⟨[s], fun z hz => ?_⟩
        rw [List.cons_append, collapse, hfront z hz]
        simp [hz]
      | cons t front =>
        refine ⟨if t = ['*', '*'] then t :: front else s :: t :: front, fun z hz => ?_⟩
        rw [List.cons_append, collapse, hfront z hz]
        by_cases ht : t = ['*', '*'] <;> simp [hs, ht]
    · refine ⟨s :: front, fun z hz => ?_⟩
      rw [List.cons_append, collapse_cons hs, hfront z hz, List.cons_append]

theorem exists_normalize_concat (segments : List (List Char)) : ∃ front, ∀ z, z ≠ [] →
    z ≠ ['*', '*'] → normalize (segments ++ [z]) = front ++ [z] := by
  cases segments with
  | nil => exact ⟨[['*', '*']], fun z hne hwild => normalize_single hne hwild⟩
  | cons s more =>
    obtain ⟨front, hfront⟩ := exists_collapse_concat (if s = [] then more else s :: more)
    refine ⟨front, fun z hne hwild => ?_⟩
    have hanchored : anchored (s :: (more ++ [z])) =
        (if s = [] then more else s :: more) ++ [z] := by
      have hmore : more ++ [z] ≠ [[]] := by cases more <;> simp [hne]
      by_cases hs : s = [] <;> simp [anchored, hs, hmore]
    rw [List.cons_append, normalize_eq, hanchored, closed_concat hne, hfront z hwild]

theorem segmentsWeight_concat {z' : List Char} (hz : z ≠ ['*', '*']) (hz' : z' ≠ ['*', '*'])
    (hweight : segmentWeight z' = segmentWeight z + 1) : segmentsWeight first slash (more ++ [z']) =
      segmentsWeight first slash (more ++ [z]) + 1 := by
  induction more generalizing first slash with
  | nil =>
    simp [segmentsWeight, hz, hz', hweight]
    omega
  | cons s more ih =>
    simp only [List.cons_append, segmentsWeight, ih, List.append_ne_nil_of_right_ne_nil more
      (List.cons_ne_nil _ _), if_false]
    grind

theorem normalWeight_concat (hz : Named z) :
    normalWeight (more ++ [z]) = segmentsWeight true false (more ++ [z]) := by
  refine if_neg fun hshort => ?_
  have hlast {found : List (List Char)} (h : more ++ [z] = found) : found.getLast? = some z := by
    rw [← h, List.getLast?_concat]
  rcases hshort with h | h | h
  · exact hz.ne_wild (Option.some.inj (hlast h)).symm
  · exact hz.ne_name (Option.some.inj (hlast h)).symm
  · exact hz.ne_wild (Option.some.inj (hlast h)).symm

theorem normalWeight_lt_of_concat {z' : List Char} (hz : Named z) (hz' : Named z')
    (hweight : segmentWeight z' = segmentWeight z + 1) :
    normalWeight (normalize (more ++ [z])) < normalWeight (normalize (more ++ [z'])) := by
  obtain ⟨front, hfront⟩ := exists_normalize_concat more
  rw [hfront z hz.ne_nil hz.ne_wild, hfront z' hz'.ne_nil hz'.ne_wild, normalWeight_concat hz,
    normalWeight_concat hz', segmentsWeight_concat hz.ne_wild hz'.ne_wild hweight]
  exact Nat.lt_succ_self _

/-! ## Units -/

theorem segmentWeight_of_globs {units : List Glob} (h : globs s.length s = some units) :
    segmentWeight s = (units.map Glob.weight).sum := by
  rw [segmentWeight, h, Option.getD_some]

theorem exists_globs (h : Readable s) : ∃ units, globs s.length s = some units := by
  obtain ⟨units, hunits, -⟩ := (reads_iff (Nat.le_refl s.length)).2 h
  exact ⟨units, hunits⟩

theorem segmentWeight_cons (hc : c ∉ signs) (h : Readable s) :
    segmentWeight (c :: s) = segmentWeight s + 1 := by
  obtain ⟨units, hunits⟩ := exists_globs h
  have hmore : globs (c :: s).length (c :: s) = some (.char c :: units) := by
    rw [List.length_cons, globs_plain hc, hunits]
    rfl
  rw [segmentWeight_of_globs hmore, segmentWeight_of_globs hunits, List.map_cons, List.sum_cons,
    Nat.add_comm]
  rfl

/-! ### A space at the end -/

/-- The sign of a bracket expression that negates it, and what stands behind. -/
def bracketSign (s : List Char) : List Char × List Char :=
  match s with
  | c :: rest => if c == '!' || c == '^' then ([c], rest) else ([], s)
  | [] => ([], s)

/-- A bracket that is a member since it closes at once, and what stands behind. -/
def bracketMember (s : List Char) : List Char × List Char :=
  match s with
  | ']' :: rest => ([']'], rest)
  | _ => ([], s)

/-- The text up to a closing bracket, behind some text, and what stands behind it. -/
def bracketRest? (front s : List Char) : Option (List Char × List Char) :=
  match s.span (· != ']') with
  | (body, _ :: rest) => some (front ++ body, rest)
  | (_, []) => none

theorem bracketBody?_eq (s : List Char) : bracketBody? s =
    bracketRest? ((bracketSign s).1 ++ (bracketMember (bracketSign s).2).1)
      (bracketMember (bracketSign s).2).2 := by
  rfl

/-- What is found of a bracket expression, and a space behind it. -/
def withSpace (found : List Char × List Char) : List Char × List Char := (found.1, found.2 ++ [' '])

theorem bracketSign_concat (s : List Char) : bracketSign (s ++ [' ']) = withSpace (bracketSign s) := by
  cases s with
  | nil => rfl
  | cons c s =>
    rw [List.cons_append, bracketSign, bracketSign]
    split <;> rfl

theorem bracketMember_concat (s : List Char) :
    bracketMember (s ++ [' ']) = withSpace (bracketMember s) := by
  cases s with
  | nil => rfl
  | cons c s =>
    by_cases hc : c = ']'
    · rw [hc]
      rfl
    · simp [bracketMember, hc, withSpace]

theorem bracketRest?_concat (front s : List Char) :
    bracketRest? front (s ++ [' ']) = (bracketRest? front s).map withSpace := by
  rw [bracketRest?, bracketRest?, List.span_eq_takeWhile_dropWhile,
    List.span_eq_takeWhile_dropWhile, List.dropWhile_append, List.takeWhile_append]
  cases h : s.dropWhile (· != ']') with
  | nil => rfl
  | cons d rest =>
    have hlength : (s.takeWhile (· != ']')).length ≠ s.length := fun heq => by
      have happend := congrArg List.length (List.takeWhile_append_dropWhile (p := (· != ']')) (l := s))
      rw [List.length_append, h, List.length_cons] at happend
      omega
    rw [if_neg hlength]
    rfl

/-- A space at the end stands behind a bracket expression, or in none. -/
theorem bracketBody?_concat (s : List Char) :
    bracketBody? (s ++ [' ']) = (bracketBody? s).map withSpace := by
  rw [bracketBody?_eq, bracketBody?_eq, bracketSign_concat, withSpace, bracketMember_concat,
    withSpace, bracketRest?_concat]

/-- A space at the end is a unit of its own. -/
theorem globs_concat (h : Readable s) {bound : Nat} (hbound : s.length ≤ bound) :
    globs (bound + 1) (s ++ [' ']) = (globs bound s).map (· ++ [.char ' ']) := by
  -- one unit more in front, on both sides
  have hunit {u : Glob} {t rest : List Char} {bound : Nat}
      (hfront : globs (bound + 2) (t ++ [' ']) = (globs (bound + 1) (rest ++ [' '])).map (u :: ·))
      (hback : globs (bound + 1) t = (globs bound rest).map (u :: ·))
      (ih : globs (bound + 1) (rest ++ [' ']) = (globs bound rest).map (· ++ [.char ' '])) :
      globs (bound + 2) (t ++ [' ']) = (globs (bound + 1) t).map (· ++ [.char ' ']) := by
    rw [hfront, hback, ih]
    cases globs bound rest <;> rfl
  induction h generalizing bound with
  | nil => cases bound <;> rfl
  | @escaped c rest h ih =>
    obtain ⟨bound, rfl⟩ := Nat.exists_eq_add_of_le' (Nat.le_trans (Nat.le_add_left 1 _) hbound)
    have hrest : rest.length ≤ bound := Nat.le_of_succ_le (Nat.le_of_succ_le_succ hbound)
    exact hunit rfl rfl (ih hrest)
  | @bracket rest body behind node hbody hnode h ih =>
    obtain ⟨bound, rfl⟩ := Nat.exists_eq_add_of_le' (Nat.le_trans (Nat.le_add_left 1 _) hbound)
    have hbehind : behind.length ≤ bound := Nat.le_trans (Nat.le_of_lt (length_of_bracketBody? hbody))
      (Nat.le_of_succ_le_succ hbound)
    refine hunit (u := .bracket body) ?_ ?_ (ih hbehind)
    · rw [List.cons_append, globs_bracket, bracketBody?_concat, hbody]
      rfl
    · rw [globs_bracket, hbody]
  | @loneBracket rest hbody h ih =>
    obtain ⟨bound, rfl⟩ := Nat.exists_eq_add_of_le' (Nat.le_trans (Nat.le_add_left 1 _) hbound)
    refine hunit (u := .char '[') ?_ ?_ (ih (Nat.le_of_succ_le_succ hbound))
    · rw [List.cons_append, globs_bracket, bracketBody?_concat, hbody]
      rfl
    · rw [globs_bracket, hbody]
  | @other c rest hslash hbracket h ih =>
    obtain ⟨bound, rfl⟩ := Nat.exists_eq_add_of_le' (Nat.le_trans (Nat.le_add_left 1 _) hbound)
    obtain ⟨u, -, hu⟩ := globs_other hslash hbracket
    exact hunit (hu _ _) (hu _ _) (ih (Nat.le_of_succ_le_succ hbound))

theorem globs_space {units : List Glob} (h : Readable s) (hunits : globs s.length s = some units) :
    globs (s ++ [' ']).length (s ++ [' ']) = some (units ++ [.char ' ']) := by
  rw [List.length_append, List.length_singleton, globs_concat h (Nat.le_refl s.length), hunits]
  rfl

theorem segmentWeight_concat (h : Readable s) :
    segmentWeight (s ++ [' ']) = segmentWeight s + 1 := by
  obtain ⟨units, hunits⟩ := exists_globs h
  rw [segmentWeight_of_globs (globs_space h hunits), segmentWeight_of_globs hunits,
    List.map_append, List.sum_append]
  rfl

theorem readable_concat (h : Readable s) : Readable (s ++ [' ']) := by
  obtain ⟨units, hunits, hok⟩ := (reads_iff (Nat.le_refl s.length)).2 h
  exact (reads_iff (Nat.le_refl _)).1 ⟨_, globs_space h hunits,
    List.forall_mem_append.2 ⟨hok, List.forall_mem_singleton.2 ⟨_, rfl⟩⟩⟩

/-! ## Texts -/

/-- What the pattern weighs that a text is read to. -/
def bodyWeight (body : List Char) : Nat := normalWeight (normalize (splitOn '/' body))

/-- A text that can be read, to a heavier pattern than another one. -/
structure Heavier (body body' : List Char) : Prop where
  readable : ReadableBody body'
  lt : bodyWeight body < bodyWeight body'

theorem Heavier.trans {first second third : List Char} (h : Heavier first second)
    (h' : Heavier second third) : Heavier first third := ⟨h'.readable, h.lt.trans h'.lt⟩

theorem ne_of_notMem_signs {d : Char} (hc : c ∉ signs) (hd : d ∈ signs) : c ≠ d :=
  fun h => hc (h ▸ hd)

theorem named_cons (hc : c ∉ signs) : Named (c :: s) := by
  have hstar : c ≠ '*' := ne_of_notMem_signs hc (by decide)
  exact ⟨List.cons_ne_nil c s, fun h => hstar (List.cons.inj h).1, fun h => hstar (List.cons.inj h).1⟩

theorem named_concat (hc : c ≠ '*') : Named (s ++ [c]) := by
  have hlast {found : List Char} (h : s ++ [c] = found) : found.getLast? = some c := by
    rw [← h, List.getLast?_concat]
  exact ⟨by simp, fun h => hc (Option.some.inj (hlast h)).symm,
    fun h => hc (Option.some.inj (hlast h)).symm⟩

/-- **Front.** One character more in front makes a text heavier. -/
theorem Heavier.cons (hc : c ∉ signs) (h : ReadableBody body) : Heavier body (c :: body) := by
  obtain ⟨hne, hreadable⟩ := h
  have hslash : (c == '/') = false := beq_false_of_ne (ne_of_notMem_signs hc (by decide))
  obtain ⟨s, more, hsplit⟩ := List.exists_cons_of_ne_nil (splitOn_ne_nil '/' body)
  have hcons : splitOn '/' (c :: body) = (c :: s) :: more := by
    change (if c == '/' then [] :: splitOn '/' body else consFirst c (splitOn '/' body)) = _
    rw [hslash, hsplit]
    rfl
  rw [hsplit, List.forall_mem_cons] at hreadable
  have hsplit' : s :: more ≠ [[]] := hsplit ▸ fun h => hne (splitOn_eq_singleton.1 h)
  constructor
  · refine ⟨List.cons_ne_nil c body, hcons ▸ List.forall_mem_cons.2 ⟨?_, hreadable.2⟩⟩
    exact (readable_other_iff (ne_of_notMem_signs hc (by decide))
      (ne_of_notMem_signs hc (by decide))).2 hreadable.1
  · rw [bodyWeight, bodyWeight, hsplit, hcons]
    exact normalWeight_lt_of_cons (named_cons hc) (segmentWeight_cons hc hreadable.1) hsplit'

theorem Heavier.append {lead : List Char} (hlead : ∀ c ∈ lead, c ∉ signs) (hne : lead ≠ [])
    (h : ReadableBody body) : Heavier body (lead ++ body) := by
  induction lead with
  | nil => exact absurd rfl hne
  | cons c lead ih =>
    obtain ⟨hc, hlead⟩ := List.forall_mem_cons.1 hlead
    by_cases hmore : lead = []
    · subst hmore
      exact .cons hc h
    · have hrest := ih hlead hmore
      exact hrest.trans (.cons hc hrest.readable)

/-- **Back.** So does a space behind a backslash at the end. -/
theorem Heavier.concat (body : List Char) (h : ReadableBody (body ++ ['\\'])) :
    Heavier (body ++ ['\\']) (body ++ ['\\', ' ']) := by
  obtain ⟨hne, hreadable⟩ := h
  obtain ⟨front, last, hsplit⟩ := exists_splitOn_append '/' body
  have hshort := hsplit ['\\'] (by decide)
  have hlong := hsplit ['\\', ' '] (by decide)
  have hspace : last ++ ['\\', ' '] = last ++ ['\\'] ++ [' '] := by simp
  rw [hshort, List.forall_mem_append, List.forall_mem_singleton] at hreadable
  rw [hspace] at hlong
  constructor
  · refine ⟨by simp, hlong ▸ List.forall_mem_append.2 ⟨hreadable.1, ?_⟩⟩
    exact List.forall_mem_singleton.2 (readable_concat hreadable.2)
  · rw [bodyWeight, bodyWeight, hshort, hlong]
    exact normalWeight_lt_of_concat (named_concat (by decide)) (named_concat (by decide))
      (segmentWeight_concat hreadable.2)

end LangId.Gitignore
