import LangId.Proofs.Regex.Passing
import Mathlib.Data.List.TakeWhile

/-!
# What groups keep

What a pattern keeps under a number shows in which of its ways to match is the first one behind which
the rest succeeds. All that a step does with the rest is to try it in some places, in some order
(`searches_step`), so each result comes from a word that the pattern passes over
(`eq_some_of_passes`). A group between two patterns without groups therefore keeps a word that it
passes over, in front of one that the second pattern passes over (`kept_of_search`); a run at the end
of a pattern is kept as far as it goes (`run_of_search`).
-/
namespace LangId.Regex

variable {c : Cursor} {t r : Thread} {k : Continuation} {n m : Node} {s : CharClass}
  {words words' : Words} {u v text : List Char}

/-! ## Steps as searches -/

/-- The rest is tried in some places, one after the other, until it succeeds. -/
def Searches (f : Continuation → Option Thread) : Prop :=
  ∃ places : List Thread, ∀ k, f k = places.findSome? k

variable {f g : Continuation → Option Thread} {a : Step}

theorem searches_here (t : Thread) : Searches fun k => k t :=
  ⟨[t], fun k => by cases h : k t <;> simp [h]⟩

theorem searches_nowhere : Searches fun _ => none := ⟨[], fun _ => rfl⟩

theorem Searches.congr (hf : Searches f) (h : ∀ k, g k = f k) : Searches g :=
  hf.imp fun _ hplaces k => (h k).trans (hplaces k)

theorem Searches.orElse (hf : Searches f) (hg : Searches g) :
    Searches fun k => match f k with
      | some r => some r
      | none => g k := by
  obtain ⟨places, hf⟩ := hf
  obtain ⟨more, hg⟩ := hg
  refine ⟨places ++ more, fun k => ?_⟩
  dsimp only
  rw [List.findSome?_append, ← hf, ← hg]
  cases f k <;> rfl

/-- Behind each place there are places of its own. -/
theorem Searches.bind (hf : Searches f) (ha : ∀ t, Searches (a t)) :
    Searches fun k => f fun u => a u k := by
  obtain ⟨places, hf⟩ := hf
  choose more ha using ha
  refine ⟨places.flatMap more, fun k => ?_⟩
  dsimp only
  rw [hf]
  clear hf
  induction places with
  | nil => rfl
  | cons t places ih =>
    rw [List.flatMap_cons, List.findSome?_append, ← ha, List.findSome?_cons, ih]
    cases a t k <;> rfl

/-- A place that was found without regard to the rest. -/
theorem searches_found (o : Option Thread) (h : Thread → Thread) :
    Searches fun k => match o with
      | some u => k (h u)
      | none => none := by
  cases o with
  | none => exact searches_nowhere
  | some u => exact searches_here (h u)

/-- A test that nothing is found, without regard to the rest. -/
theorem searches_unless (o : Option Thread) (t : Thread) :
    Searches fun k => match o with
      | some _ => none
      | none => k t := by
  cases o with
  | none => exact searches_here t
  | some u => exact searches_nowhere

theorem searches_greedyLoop (ha : ∀ t, Searches (a t)) (min : Nat) (max : Option Nat)
    (bound : Nat) : ∀ count last t,
    Searches fun k => greedyLoop a min max k bound count last t := by
  induction bound with
  | zero => exact fun _ _ _ => searches_nowhere
  | succ bound ih =>
    intro count last t
    have hmore (last : Option Nat) :
        Searches fun k => a t fun u => greedyLoop a min max k bound (count + 1) last u :=
      (ha t).bind fun u => ih (count + 1) last u
    simp only [greedyLoop]
    by_cases hmin : count < min
    · simp only [if_pos hmin]
      exact hmore last
    · by_cases hgo : (below count max && last != some t.cursor.position) = true
      · simp only [if_neg hmin, if_pos hgo]
        exact (hmore _).orElse (searches_here t)
      · simp only [if_neg hmin, if_neg hgo]
        exact searches_here t

theorem searches_lazyLoop (ha : ∀ t, Searches (a t)) (min : Nat) (max : Option Nat)
    (bound : Nat) : ∀ count last t,
    Searches fun k => lazyLoop a min max k bound count last t := by
  induction bound with
  | zero => exact fun _ _ _ => searches_nowhere
  | succ bound ih =>
    intro count last t
    have hmore (last : Option Nat) :
        Searches fun k => a t fun u => lazyLoop a min max k bound (count + 1) last u :=
      (ha t).bind fun u => ih (count + 1) last u
    simp only [lazyLoop]
    by_cases hmin : count < min
    · simp only [if_pos hmin]
      exact hmore last
    · by_cases hgo : (below count max && last != some t.cursor.position) = true
      · simp only [if_neg hmin, if_pos hgo]
        exact (searches_here t).orElse (hmore _)
      · simp only [if_neg hmin, if_neg hgo]
        exact (searches_here t).orElse searches_nowhere

theorem searches_one (s : CharClass) (t : Thread) : Searches (oneStep s t) := by
  cases hnext : t.cursor.next? with
  | none => exact searches_nowhere.congr fun k => by simp only [oneStep, hnext]
  | some next =>
    by_cases hx : s.contains next.1 = true
    · exact (searches_here { t with cursor := next.2 }).congr fun k => by
        simp only [oneStep, hnext, hx, if_true]
    · exact searches_nowhere.congr fun k => by simp only [oneStep, hnext, if_neg hx]

theorem searches_run (s : CharClass) (min : Nat) (max : Option Nat) (appetite : Appetite)
    (t : Thread) : Searches (runStep s min max (oneStep s) appetite t) := by
  cases appetite with
  | greedy =>
    refine ⟨(t.cursor.run s min max).map fun c => { t with cursor := c }, fun k => ?_⟩
    rw [List.findSome?_map]
    rfl
  | lazy => exact searches_lazyLoop (searches_one s) min max _ _ _ t
  | possessive =>
    refine (searches_found ((t.cursor.run s min max).head?.map fun c => { t with cursor := c })
      id).congr fun k => ?_
    simp only [runStep]
    cases t.cursor.run s min max <;> rfl

theorem searches_loop (ha : ∀ t, Searches (a t)) (min : Nat) (max : Option Nat)
    (appetite : Appetite) (t : Thread) : Searches (loopStep a min max appetite t) := by
  cases appetite with
  | greedy => exact searches_greedyLoop ha min max _ _ _ t
  | lazy => exact searches_lazyLoop ha min max _ _ _ t
  | possessive => exact searches_found (possessiveLoop a min max (loopBound min t) 0 t) id

theorem searches_ahead (negated : Bool) (body : Node) (t : Thread) :
    Searches ((Node.ahead negated body).step t) := by
  cases negated with
  | false => exact searches_found (body.step t some) fun u => { t with captures := u.captures }
  | true => exact searches_unless (body.step t some) t

theorem searches_behind (negated : Bool) (width : Nat) (body : Node) (t : Thread) :
    Searches ((Node.behind negated width body).step t) := by
  cases hback : t.cursor.back? width with
  | none =>
    cases negated with
    | false => exact searches_nowhere.congr fun k => by rw [step_behind, hback]; rfl
    | true => exact (searches_here t).congr fun k => by rw [step_behind, hback]; rfl
  | some c =>
    refine ((searches_ahead negated body { t with cursor := c }).bind fun u =>
      searches_here { u with cursor := t.cursor }).congr fun k => ?_
    rw [step_behind, hback]

/-- **Steps.** A pattern tries the rest in some places that do not depend on it. -/
theorem searches_step (n : Node) (t : Thread) : Searches (n.step t) := by
  induction n generalizing t with
  | empty => exact searches_here t
  | one s => exact searches_one s t
  | seq n m ihn ihm => exact (ihn t).bind ihm
  | alt n m ihn ihm =>
    exact (ihn t).orElse (ihm t)
  | group index body ih =>
    exact (ih t).bind fun u => searches_here (u.capture index t.cursor)
  | back index f =>
    refine (searches_found ((t.captured? index).bind fun capture =>
      (t.cursor.skip? f capture.text).map fun c => { t with cursor := c }) id).congr fun k => ?_
    rw [Node.step]
    cases t.captured? index with
    | none => rfl
    | some capture =>
      dsimp only [Option.bind_some]
      cases t.cursor.skip? f capture.text <;> rfl
  | loop body min max appetite ih =>
    by_cases hone : ∃ s, body = .one s
    · obtain ⟨s, rfl⟩ := hone
      exact (searches_run s min max appetite t).congr fun k => by rw [Node.step]
    · exact (searches_loop ih min max appetite t).congr fun k => by
        rw [Node.step]
        exact fun s hs => hone ⟨s, hs⟩
  | ahead negated body => exact searches_ahead negated body t
  | behind negated width body => exact searches_behind negated width body t
  | atomic body => exact searches_found (body.step t some) id
  | cond index n m ihn ihm =>
    cases hkept : t.captured? index with
    | none => exact (ihm t).congr fun k => by rw [Node.step, hkept]
    | some capture => exact (ihn t).congr fun k => by rw [Node.step, hkept]
  | anchor a =>
    by_cases ha : a.holds t.cursor = true
    · exact (searches_here t).congr fun k => by rw [Node.step, if_pos ha]
    · exact searches_nowhere.congr fun k => by rw [Node.step, if_neg ha]

/-- What a result of a pattern has come from: a word that the pattern passes over, behind which the
rest has this result. -/
theorem eq_some_of_passes (h : n.Passes words) (hr : n.step t k = some r) :
    ∃ word, word <+: t.cursor.after ∧ words t.cursor word ∧ k (t.past word) = some r := by
  obtain ⟨places, hplaces⟩ := searches_step n t
  obtain ⟨u, hu, hk⟩ := List.exists_of_findSome?_eq_some (hplaces k ▸ hr)
  -- a rest that succeeds in no other place
  have hreached : (n.step t fun v => if v = u then some v else none).isSome = true := by
    rw [hplaces, List.findSome?_isSome_iff]
    exact ⟨u, hu, by simp⟩
  obtain ⟨word, hword, hwords, hpast⟩ := (h t _).1 hreached
  obtain rfl : t.past word = u := by
    by_contra hne
    rw [if_neg hne] at hpast
    cases hpast
  exact ⟨word, hword, hwords, hk⟩

/-- A test of what comes next passes over nothing. -/
theorem passes_ahead (h : n.Passes words) : (Node.ahead false n).Passes fun c word =>
    word = [] ∧ ∃ next, next <+: c.after ∧ words c next := by
  intro t k
  rw [Node.step]
  constructor
  · intro hr
    cases htest : n.step t some with
    | none =>
      rw [htest] at hr
      cases hr
    | some u =>
      rw [htest] at hr
      obtain ⟨next, hnext, hwords, hu⟩ := eq_some_of_passes h htest
      obtain rfl := Option.some.inj hu
      exact ⟨[], List.nil_prefix, ⟨rfl, next, hnext, hwords⟩, hr⟩
  · rintro ⟨_, -, ⟨rfl, next, hnext, hwords⟩, hr⟩
    have htest : (n.step t some).isSome = true := (h t some).2 ⟨next, hnext, hwords, rfl⟩
    obtain ⟨u, hu⟩ := Option.isSome_iff_exists.1 htest
    obtain ⟨_, -, -, hpast⟩ := eq_some_of_passes h hu
    obtain rfl := Option.some.inj hpast
    rw [hu]
    exact hr

/-! ## Groups -/

/-- The place between two parts of a text. -/
def Cursor.between (before after : List Char) : Cursor := ⟨before.reverse, after, before.length⟩

@[simp] theorem Cursor.after_between (before after : List Char) :
    (between before after).after = after := rfl

@[simp] theorem Cursor.position_between (before after : List Char) :
    (between before after).position = before.length := rfl

@[simp] theorem Cursor.past_between (before word rest : List Char) :
    (between before (word ++ rest)).past word = between (before ++ word) rest := by
  simp [between, past]

theorem step_seqAll_append (ns ms : List Node) (t : Thread) (k : Continuation) :
    (Node.seqAll (ns ++ ms)).step t k =
      (Node.seqAll ns).step t fun u => (Node.seqAll ms).step u k := by
  have hcons (n : Node) (ns : List Node) (t : Thread) (k : Continuation) :
      (Node.seqAll (n :: ns)).step t k = n.step t fun u => (Node.seqAll ns).step u k := by
    cases ns with
    | nil => rfl
    | cons m ns => rfl
  induction ns generalizing t with
  | nil => rfl
  | cons n ns ih => simp only [List.cons_append, hcons, ih]

theorem passes_seqAll_append {ns ms : List Node} (hns : (Node.seqAll ns).Passes words)
    (hms : (Node.seqAll ms).Passes words') :
    (Node.seqAll (ns ++ ms)).Passes (words.followedBy words') := by
  intro t k
  rw [step_seqAll_append]
  exact passes_steps hns hms t k

/-- What is found in a text is matched at some place in it. -/
theorem exists_of_search {m : Match} (h : n.search text = some m) :
    ∃ more rest, more ++ rest = text ∧ n.matchAt (.between more rest) = some m := by
  rw [search_eq_findSome?] at h
  obtain ⟨c, hc, hmatch⟩ := List.exists_of_findSome?_eq_some h
  obtain ⟨more, rest, hsplit, rfl⟩ := mem_places.1 hc
  refine ⟨more, rest, hsplit, ?_⟩
  rwa [List.append_nil, Nat.zero_add] at hmatch

/-- A pattern that matches only at the beginning of a text is tried nowhere else. -/
theorem search_eq_matchAt (h : ∀ more rest, more ≠ [] → n.matchAt (.between more rest) = none)
    (text : List Char) : n.search text = n.matchAt (.between [] text) := by
  cases hm : n.search text with
  | some m =>
    obtain ⟨more, rest, rfl, hmatch⟩ := exists_of_search hm
    by_cases hmore : more = []
    · subst hmore
      exact hmatch.symm
    · rw [h more rest hmore] at hmatch
      cases hmatch
  | none =>
    refine (Option.not_isSome_iff_eq_none.1 fun hbegin => ?_).symm
    rw [Node.matchAt, Option.isSome_map] at hbegin
    have hfound : (n.search text).isSome = true := isSome_search.2 ⟨[], text, rfl, hbegin⟩
    rw [hm] at hfound
    cases hfound

@[simp] theorem Thread.cursor_past (t : Thread) (u : List Char) :
    (t.past u).cursor = t.cursor.past u := rfl

@[simp] theorem Thread.cursor_capture (t : Thread) (index : Nat) (start : Cursor) :
    (t.capture index start).cursor = t.cursor := rfl

/-- The text of a group is the word that has been passed over since it began. -/
theorem text_capture (index : Nat) (u : List Char) (h : v <+: t.cursor.after) :
    ((((t.past v).capture index t.cursor).past u).captures.lookup index).map Capture.text =
      some v := by
  obtain ⟨rest, hrest⟩ := h
  simp [Thread.past, Thread.capture, Cursor.past, Capture.text, ← hrest]

variable {front back : List Node} {index : Nat} {first kept last : Words}

theorem step_group (front back : List Node) (t : Thread) (k : Continuation) :
    (Node.seqAll (front ++ .group index n :: back)).step t k =
      (Node.seqAll front).step t fun u => n.step u fun v =>
        (Node.seqAll back).step (v.capture index u.cursor) k := by
  have hback (u : Thread) : (Node.seqAll (.group index n :: back)).step u k =
      n.step u fun v => (Node.seqAll back).step (v.capture index u.cursor) k :=
    step_seqAll_append [.group index n] back u k
  simp only [step_seqAll_append, hback]

/-- In a text, a word of the second kind stands behind one of the first and in front of one of the
third kind. -/
def Framed (first kept last : Words) (text v : List Char) : Prop :=
  ∃ more u w rest, more ++ (u ++ (v ++ (w ++ rest))) = text ∧
    first (.between more (u ++ (v ++ (w ++ rest)))) u ∧
    kept (.between (more ++ u) (v ++ (w ++ rest))) v ∧
    last (.between (more ++ u ++ v) (w ++ rest)) w

/-- **Groups.** What a group keeps is framed by what the patterns around it pass over. -/
theorem framed_of_search (hfirst : (Node.seqAll front).Passes first) (hkept : n.Passes kept)
    (hlast : (Node.seqAll back).Passes last) {m : Match}
    (h : (Node.seqAll (front ++ .group index n :: back)).search text = some m) :
    ∃ v, Framed first kept last text v ∧ m.group? index = some v := by
  obtain ⟨more, after, rfl, hmatch⟩ := exists_of_search h
  obtain ⟨t, ht, rfl⟩ := Option.map_eq_some_iff.1 hmatch
  rw [step_group] at ht
  obtain ⟨u, ⟨_, rfl⟩, hu, ht⟩ := eq_some_of_passes hfirst ht
  obtain ⟨v, hv, hvkept, ht⟩ := eq_some_of_passes hkept ht
  obtain ⟨w, hw, hwlast, ht⟩ := eq_some_of_passes hlast ht
  obtain rfl := Option.some.inj ht
  have hgroup := text_capture index w hv
  rw [Thread.cursor_past, Cursor.past_between] at hv hvkept
  obtain ⟨_, rfl⟩ := hv
  simp only [Thread.cursor_capture, Thread.cursor_past, Cursor.past_between] at hw hwlast
  obtain ⟨rest, rfl⟩ := hw
  exact ⟨v, ⟨more, u, w, rest, rfl, hu, hvkept, hwlast⟩, hgroup⟩

theorem isSome_search_of_framed (hfirst : (Node.seqAll front).Passes first) (hkept : n.Passes kept)
    (hlast : (Node.seqAll back).Passes last) (h : Framed first kept last text v) :
    ((Node.seqAll (front ++ .group index n :: back)).search text).isSome = true := by
  obtain ⟨more, u, w, rest, rfl, hu, hv, hw⟩ := h
  have hmatch : Node.Matches (Node.seqAll (front ++ .group index n :: back))
      (.between more (u ++ (v ++ (w ++ rest)))) := by
    rw [Node.Matches, step_group]
    refine (hfirst _ _).2 ⟨u, List.prefix_append _ _, hu, (hkept _ _).2 ⟨v, ?_, ?_,
      (hlast _ _).2 ⟨w, ?_, ?_, rfl⟩⟩⟩
    · simp
    · simpa using hv
    · simp
    · simpa using hw
  exact isSome_search.2 ⟨more, _, rfl, hmatch⟩

/-- Where only one word is framed, it is kept. -/
theorem search_eq_of_framed (hfirst : (Node.seqAll front).Passes first) (hkept : n.Passes kept)
    (hlast : (Node.seqAll back).Passes last) (h : Framed first kept last text v)
    (honly : ∀ w, Framed first kept last text w → w = v) :
    ((Node.seqAll (front ++ .group index n :: back)).search text).bind (·.group? index) =
      some v := by
  obtain ⟨m, hm⟩ := Option.isSome_iff_exists.1 (isSome_search_of_framed hfirst hkept hlast h)
  obtain ⟨w, hw, hgroup⟩ := framed_of_search hfirst hkept hlast hm
  rw [hm, Option.bind_some, hgroup, honly w hw]

theorem search_eq_none_of_framed (hfirst : (Node.seqAll front).Passes first)
    (hkept : n.Passes kept) (hlast : (Node.seqAll back).Passes last)
    (h : ∀ w, ¬Framed first kept last text w) :
    (Node.seqAll (front ++ .group index n :: back)).search text = none := by
  cases hm : (Node.seqAll (front ++ .group index n :: back)).search text with
  | none => rfl
  | some m =>
    obtain ⟨w, hw, -⟩ := framed_of_search hfirst hkept hlast hm
    exact absurd hw (h w)

/-! ## Runs at the end -/

/-- The first place that a run reaches is its end. -/
theorem head?_run (s : CharClass) (c : Cursor) : (c.run s 1 none).head? =
    if c.after.takeWhile s.contains = [] then none
    else some (c.past (c.after.takeWhile s.contains)) := by
  have hprefix := List.prefix_iff_eq_take.1 (List.takeWhile_prefix s.contains (l := c.after))
  rw [Cursor.run, spread_eq, List.append_nil, List.length_map, List.length_reverse,
    List.length_range, Nat.add_sub_cancel, ← List.map_take, List.head?_map, List.range_succ,
    List.reverse_append, List.reverse_singleton, List.singleton_append]
  cases hrun : c.after.takeWhile s.contains with
  | nil => rfl
  | cons x run =>
    rw [hrun] at hprefix
    rw [if_neg (List.cons_ne_nil x run), List.length_cons, List.take_succ_cons, List.head?_cons,
      Option.map_some, ← List.length_cons (a := x), ← hprefix]

/-- In a text, a run of a class that is not empty stands behind a word. -/
def Running (first : Words) (s : CharClass) (text v : List Char) : Prop :=
  ∃ more u rest, more ++ (u ++ rest) = text ∧ first (.between more (u ++ rest)) u ∧
    rest.takeWhile s.contains = v ∧ v ≠ []

/-- **Runs.** A run at the end of a pattern is kept as far as it goes. -/
theorem running_of_search (hfirst : (Node.seqAll front).Passes first) {m : Match}
    (h : (Node.seqAll (front ++ [.group index (Node.some (.one s))])).search text = some m) :
    ∃ v, Running first s text v ∧ m.group? index = some v := by
  obtain ⟨more, after, rfl, hmatch⟩ := exists_of_search h
  obtain ⟨t, ht, rfl⟩ := Option.map_eq_some_iff.1 hmatch
  rw [step_group] at ht
  obtain ⟨u, ⟨rest, rfl⟩, hu, ht⟩ := eq_some_of_passes hfirst ht
  -- nothing comes behind the run, so that the first place is taken
  have hrun (t : Thread) (f : Thread → Thread) :
      ((Node.some (.one s)).step t fun v => some (f v)) =
        (t.cursor.run s 1 none).head?.map fun c => f { t with cursor := c } := by
    rw [Node.some, Node.step]
    simp only [runStep]
    cases t.cursor.run s 1 none <;> rfl
  have hstep := (hrun _ _).symm.trans ht
  rw [head?_run, Thread.cursor_past, Cursor.past_between, Cursor.after_between] at hstep
  split at hstep
  · cases hstep
  · rename_i hne
    obtain rfl := Option.some.inj hstep
    refine ⟨_, ⟨more, u, rest, rfl, hu, rfl, hne⟩, ?_⟩
    have htake := List.prefix_iff_eq_take.1 (List.takeWhile_prefix s.contains (l := rest))
    simp [Match.group?, Thread.capture, Capture.text, Cursor.between, Cursor.past, ← htake]

theorem search_eq_of_running (hfirst : (Node.seqAll front).Passes first)
    (h : Running first s text v) (honly : ∀ w, Running first s text w → w = v) :
    ((Node.seqAll (front ++ [.group index (Node.some (.one s))])).search text).bind
      (·.group? index) = some v := by
  obtain ⟨more, u, rest, htext, hu, hv, hne⟩ := h
  have hall : ∀ x ∈ v, s.contains x = true := fun x hx => List.mem_takeWhile_imp (hv ▸ hx)
  have hrest : v ++ rest.dropWhile s.contains = rest := hv ▸ List.takeWhile_append_dropWhile
  have hframed : Framed first (fun _ word => 1 ≤ word.length ∧ ∀ x ∈ word, s.contains x = true)
      (fun _ word => word = []) text v :=
    ⟨more, u, [], rest.dropWhile s.contains, by simpa [hrest] using htext,
      by simpa [hrest] using hu, ⟨List.length_pos_iff.2 hne, hall⟩, rfl⟩
  have hnothing : (Node.seqAll []).Passes fun _ word => word = [] := passes_empty
  obtain ⟨m, hm⟩ := Option.isSome_iff_exists.1
    (isSome_search_of_framed hfirst (passes_run s 1) hnothing hframed)
  obtain ⟨w, hw, hgroup⟩ := running_of_search hfirst hm
  rw [Node.some, hm, Option.bind_some, hgroup, honly w hw]

end LangId.Regex
