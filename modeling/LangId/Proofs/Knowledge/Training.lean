import LangId.Proofs.Classifier.Tallies
import LangId.Proofs.Knowledge.Building

/-!
# What models are made of

Tables of counts and training texts come in as increments (`Payload.increments`): the name of a
language with what is added to its tally. What the tallies hold in the end (`Build.holdings`) is a
run of steps over the increments, and these steps commute (`Holdings.take_comm`).

**Results.**
* `holdings_of_models`: the tallies that models are made of hold the increments, taken in one after
  the other.
* `models_alike`: the same increments in another order make models that are alike.
-/
namespace LangId

/-- What is held of each language; nothing of a language that has no tally. -/
abbrev Holdings := String → Option Contents

/-- What is held after some counts have been taken in for a language. -/
def Holdings.take (h : Holdings) (entry : String × List (String × Int)) : Holdings := fun name =>
  if name = entry.1 then some (entry.2.foldl Contents.plus ((h name).getD fun _ => none))
  else h name

theorem Holdings.take_comm (h : Holdings) (a b : String × List (String × Int)) :
    (h.take a).take b = (h.take b).take a := by
  funext name
  unfold take
  by_cases ha : name = a.1
  · by_cases hb : name = b.1
    · rw [if_pos hb, if_pos ha, if_pos ha, if_pos hb, Option.getD_some, Option.getD_some,
        ← List.foldl_append, ← List.foldl_append]
      exact congrArg some
        (List.perm_append_comm.foldl_eq' (fun x _ y _ c => Contents.plus_comm c x y) _)
    · rw [if_neg hb, if_pos ha, if_pos ha, if_neg hb]
  · by_cases hb : name = b.1
    · rw [if_pos hb, if_neg ha, if_neg ha, if_pos hb]
    · rw [if_neg hb, if_neg ha, if_neg ha, if_neg hb]

/-- The counts of training texts. -/
def countsOf (bound : Nat) (texts : List String) : List (String × Int) :=
  (texts.map (·.toList)).flatMap fun s => (Token.tokenize s bound).map fun token => (token, 1)

/-- All that training data adds, in the order in which it is taken in. -/
def Payload.increments (p : Payload) (bound : Nat) : List (String × List (String × Int)) :=
  p.counts ++ p.samples.map fun s => (s.1, countsOf bound s.2)

/-- The same training data in another order adds the same. -/
theorem Payload.increments_perm {p p' : Payload} (hc : p.counts.Perm p'.counts)
    (hs : p.samples.Perm p'.samples) (bound : Nat) :
    (p.increments bound).Perm (p'.increments bound) := hc.append (hs.map _)

namespace Build

/-- What tallies hold. -/
def holdings (tallies : Tallies) : Holdings := fun name =>
  (tallies.lookup name).map Tally.contents

variable {declared declared' : Declared} {tallies tallies' : Tallies} {bound : Nat}
  {p p' : Payload}

theorem modify_eq_upsert (tallies : Tallies) (name : String) (f : Tally String → Tally String) :
    tallies.modify name f = Table.upsert name (fun t => f (t.getD [])) tallies := by
  induction tallies with
  | nil => rfl
  | cons entry rest ih => simp [Tallies.modify, Table.upsert, ih]

/-- Taking in counts is one step on what is held. -/
theorem holdings_modify (tallies : Tallies) (entry : String × List (String × Int)) :
    holdings (tallies.modify entry.1 (·.addAll entry.2)) = (holdings tallies).take entry := by
  funext name
  rw [holdings, modify_eq_upsert, Table.lookup_upsert, Holdings.take]
  split
  · rename_i h
    subst h
    rw [Option.map_some, Tally.contents_addAll, holdings]
    cases tallies.lookup entry.1 <;> rfl
  · rfl

/-- The counts of an entry, under the declared name of its language. -/
def resolve (declared : Declared) (entry : String × List (String × Int)) :
    String × List (String × Int) := ((declared.find? entry.1).getD entry.1, entry.2)

theorem holdings_of_counts {tables : List (String × List (String × Int))}
    (h : tables.foldlM (addCounts declared) tallies = .ok tallies') :
    holdings tallies' = (tables.map (resolve declared)).foldl .take (holdings tallies) := by
  rw [List.foldl_map]
  refine foldlM_reads (fun ts t ts' ht => ?_) h
  obtain ⟨found, hfound, -, rfl⟩ := addCounts_eq_ok ht
  rw [resolve, hfound]
  exact holdings_modify ts (found, t.2)

/-- Training texts are taken in as their counts. -/
theorem addSamples_eq_modify {s : String × List String}
    (h : addSamples declared bound tallies s = .ok tallies') :
    ∃ found, declared.find? s.1 = some found ∧
      tallies' = tallies.modify found (·.addAll (countsOf bound s.2)) := by
  obtain ⟨found, hfound, rfl⟩ := addSamples_eq_ok h
  have htrain : (fun t : Tally String => Model.train bound t (s.2.map (·.toList))) =
      (·.addAll (countsOf bound s.2)) := funext fun t => Model.train_eq_addAll bound t _
  exact ⟨found, hfound, by rw [htrain]⟩

theorem holdings_of_samples {samples : List (String × List String)}
    (h : samples.foldlM (addSamples declared bound) tallies = .ok tallies') :
    holdings tallies' = ((samples.map fun s => (s.1, countsOf bound s.2)).map
      (resolve declared)).foldl .take (holdings tallies) := by
  rw [List.foldl_map, List.foldl_map]
  refine foldlM_reads (fun ts s ts' hs => ?_) h
  obtain ⟨found, hfound, rfl⟩ := addSamples_eq_modify hs
  rw [resolve, hfound]
  exact holdings_modify ts (found, countsOf bound s.2)

/-! ## Names and keys -/

/-- Tallies of different languages, each of which counts no token twice. -/
structure Orderly (tallies : Tallies) : Prop where
  names : (tallies.map (·.1)).Nodup
  tokens : ∀ t ∈ tallies, (t.2.map (·.1)).Nodup

theorem orderly_modify (h : Orderly tallies) (name : String) (entries : List (String × Int)) :
    Orderly (tallies.modify name (·.addAll entries)) := by
  refine ⟨?_, forall_modify (P := fun t => (t.2.map (·.1)).Nodup) ?_ ?_ h.tokens⟩
  · rw [modify_eq_upsert]
    exact Table.nodup_upsert h.names
  · exact Tally.nodup_addAll (t := []) List.nodup_nil entries
  · exact fun t ht => Tally.nodup_addAll ht entries

theorem orderly_of_counts {tables : List (String × List (String × Int))}
    (h : tables.foldlM (addCounts declared) tallies = .ok tallies') (ht : Orderly tallies) :
    Orderly tallies' := by
  refine foldlM_preserves (fun ts t ts' hts hstep => ?_) h ht
  obtain ⟨found, -, -, rfl⟩ := addCounts_eq_ok hstep
  exact orderly_modify hts found t.2

theorem orderly_of_samples {samples : List (String × List String)}
    (h : samples.foldlM (addSamples declared bound) tallies = .ok tallies') (ht : Orderly tallies) :
    Orderly tallies' := by
  refine foldlM_preserves (fun ts s ts' hts hstep => ?_) h ht
  obtain ⟨found, -, rfl⟩ := addSamples_eq_modify hstep
  exact orderly_modify hts found _

/-! ## Models -/

/-- Models of the tallies that count anything. -/
structure ModelsOf (tallies : Tallies) (ms : List (String × Model)) : Prop where
  orderly : Orderly tallies
  names : ms.map (·.1) = (tallies.filter fun t => !t.2.isEmpty).map (·.1)
  total : ∀ n t, tallies.lookup n = some t → t.isEmpty = false → ∃ m, (n, m) ∈ ms
  mem : ∀ n m, (n, m) ∈ ms →
    ∃ t, tallies.lookup n = some t ∧ t.isEmpty = false ∧ Model.ofCounts n t = .ok m

/-- **What models are made of.** -/
theorem holdings_of_models {ms : List (String × Model)} (h : models declared bound p = .ok ms) :
    ∃ tallies, ModelsOf tallies ms ∧ holdings tallies =
      ((p.increments bound).map (resolve declared)).foldl Holdings.take (fun _ => none) := by
  obtain ⟨counted, hcounted, h⟩ := bind_eq_ok.1 h
  obtain ⟨tallies, htallies, h⟩ := bind_eq_ok.1 h
  have horderly : Orderly tallies :=
    orderly_of_samples htallies (orderly_of_counts hcounted ⟨List.nodup_nil, nofun⟩)
  -- a model is put under the name that it is made for
  have hmodels : (tallies.filter fun t => !t.2.isEmpty).mapM
      (fun t => (Model.ofCounts t.1 t.2).map (Prod.mk t.1)) = .ok ms := by
    refine mapM_of_imp (fun t y hy => ?_) h
    dsimp only at hy
    split at hy
    · rename_i m hm
      exact map_eq_ok.2 ⟨m, hm, Except.ok.inj hy⟩
    · cases hy
  refine ⟨tallies, ⟨horderly, map_of_mapM (fun t y hy => ?_) hmodels, ?_, ?_⟩, ?_⟩
  · obtain ⟨m, -, rfl⟩ := map_eq_ok.1 hy
    rfl
  · intro n t hlookup hne
    have hmem := (Table.mem_iff_lookup horderly.names (e := (n, t))).2 hlookup
    have hkept : (n, t) ∈ tallies.filter fun t => !t.2.isEmpty :=
      List.mem_filter.2 ⟨hmem, by simp [hne]⟩
    obtain ⟨y, hy⟩ := mapM_eq_ok.1 ⟨_, hmodels⟩ _ hkept
    obtain ⟨m, -, rfl⟩ := map_eq_ok.1 hy
    exact ⟨m, (mem_mapM hmodels).2 ⟨_, hkept, hy⟩⟩
  · intro n m hm
    obtain ⟨⟨_, t⟩, hmem, hy⟩ := mem_of_mapM hmodels hm
    obtain ⟨_, hcounts, heq⟩ := map_eq_ok.1 hy
    obtain ⟨rfl, rfl⟩ := Prod.mk.inj heq
    obtain ⟨hmem, hne⟩ := List.mem_filter.1 hmem
    exact ⟨t, (Table.mem_iff_lookup horderly.names).1 hmem, by simpa using hne, hcounts⟩
  · rw [holdings_of_samples htallies, holdings_of_counts hcounted, Payload.increments,
      List.map_append, List.foldl_append]
    rfl

/-- No language has two models. -/
theorem nodup_of_models {ms : List (String × Model)} (h : models declared bound p = .ok ms) :
    (ms.map (·.1)).Nodup := by
  obtain ⟨tallies, hms, -⟩ := holdings_of_models h
  rw [hms.names]
  exact hms.orderly.names.sublist (List.filter_sublist.map _)

/-- **Training data in another order** makes models that are alike. -/
theorem models_alike (hd : ∀ n, declared.find? n = declared'.find? n)
    (hc : p.counts.Perm p'.counts) (hs : p.samples.Perm p'.samples) {ms ms' : List (String × Model)}
    (h : models declared bound p = .ok ms) (h' : models declared' bound p' = .ok ms')
    {n : String} {m : Model} (hm : (n, m) ∈ ms) : ∃ m', (n, m') ∈ ms' ∧ m.Alike m' := by
  obtain ⟨tallies, hms, hholds⟩ := holdings_of_models h
  obtain ⟨tallies', hms', hholds'⟩ := holdings_of_models h'
  have hresolve : resolve declared = resolve declared' := funext fun e => by
    rw [resolve, resolve, hd]
  have hsame : holdings tallies = holdings tallies' := by
    rw [hholds, hholds', hresolve]
    exact ((Payload.increments_perm hc hs bound).map _).foldl_eq'
      (fun a _ b _ c => Holdings.take_comm c a b) _
  obtain ⟨t, hlookup, hne, hok⟩ := hms.mem n m hm
  obtain ⟨t', hlookup', ht⟩ : ∃ t', tallies'.lookup n = some t' ∧ t'.contents = t.contents := by
    have hname := congrFun hsame n
    rw [holdings, holdings, hlookup, Option.map_some] at hname
    exact Option.map_eq_some_iff.1 hname.symm
  obtain ⟨m', hm'⟩ := hms'.total n t' hlookup' (by rw [Tally.isEmpty_of_contents ht, hne])
  obtain ⟨u, hu, -, hok'⟩ := hms'.mem n m' hm'
  obtain rfl := Option.some.inj (hlookup'.symm.trans hu)
  exact ⟨m', hm', Model.alike_of_contents
    (hms.orderly.tokens _ ((Table.mem_iff_lookup hms.orderly.names (e := (n, t))).2 hlookup))
    (hms'.orderly.tokens _ ((Table.mem_iff_lookup hms'.orderly.names (e := (n, t'))).2 hlookup'))
    ht.symm hok hok'⟩

end Build

end LangId
