import LangId.Proofs.Knowledge.Answers
import LangId.Proofs.Knowledge.Assembly
import Mathlib.Data.List.Basic
import Mathlib.Data.List.Flatten

/-!
# What a base counts in all

Training adds one for each token that is read, so the totals of the models of a base tell how many
were. What is added to a tally adds to its total (`Tally.total_addAll`), and what is added to the
tally of one language adds to the total of all (`Build.totals_modify`).

**Results.**
* `weight_of_build`: the models of a base together count what the tables of counts hold and the
  tokens that are read of the training texts.
* `agrees_iff_tokenize`: two bounds make bases with the same answers exactly if they make no
  difference to what is read of any training text.
-/
namespace LangId

open Text

/-! ## Totals -/

namespace Tally

theorem total_cons (e : String × Int) (t : Tally String) : total (e :: t) = e.2 + t.total := by
  rw [total, total, ← List.sum_eq_foldl, ← List.sum_eq_foldl, List.map_cons, List.sum_cons]

theorem total_add (t : Tally String) (key : String) (n : Int) :
    (t.add key n).total = t.total + n := by
  induction t with
  | nil => rfl
  | cons e rest ih =>
    rw [add]
    split
    · rw [total_cons, total_cons]
      omega
    · rw [total_cons, total_cons, ih, Int.add_assoc]

/-- **All that is added** adds to the total. -/
theorem total_addAll (t : Tally String) (entries : Tally String) :
    (t.addAll entries).total = t.total + entries.total := by
  induction entries generalizing t with
  | nil => exact (Int.add_zero _).symm
  | cons e rest ih =>
    have hstep : t.addAll (e :: rest) = (t.add e.1 e.2).addAll rest := rfl
    rw [hstep, ih, total_add, total_cons, Int.add_assoc]

theorem total_append (t u : Tally String) : total (t ++ u) = t.total + u.total := by
  induction t with
  | nil => exact (Int.zero_add _).symm
  | cons e rest ih => rw [List.cons_append, total_cons, total_cons, ih, Int.add_assoc]

/-- What counts nothing may be left out. -/
theorem total_map_filter {α : Type} (entry : α → String × Int) {p : α → Bool}
    (h : ∀ a, p a = false → (entry a).2 = 0) (as : List α) :
    total ((as.filter p).map entry) = total (as.map entry) := by
  induction as with
  | nil => rfl
  | cons a rest ih =>
    rw [List.filter_cons, List.map_cons, total_cons, ← ih]
    cases hp : p a with
    | true => exact total_cons _ _
    | false => rw [h a hp, Int.zero_add]; rfl

/-- Tokens that count once each count as many as they are. -/
theorem total_ones (tokens : List String) :
    total (tokens.map fun token => (token, 1)) = tokens.length := by
  induction tokens with
  | nil => rfl
  | cons token rest ih =>
    rw [List.map_cons, total_cons, ih, List.length_cons]
    omega

end Tally

theorem Model.total_of_counts {name : String} {t : Tally String} {m : Model}
    (h : ofCounts name t = .ok m) : m.total = t.total := by
  obtain rfl := ofCounts_eq_ok h
  have hkept := Tally.total_map_filter id (p := fun e => e.2 != 0) (fun e he => by
    simpa using he) t
  simpa using hkept

namespace Build

/-- How much each tally counts. -/
def totals (tallies : Tallies) : Tally String := tallies.map fun t => (t.1, t.2.total)

variable {declared : Declared} {tallies tallies' : Tallies} {bound bound' : Nat} {p : Payload}

theorem totals_modify (tallies : Tallies) (name : String) (entries : Tally String) :
    totals (tallies.modify name (·.addAll entries)) = (totals tallies).add name entries.total := by
  induction tallies with
  | nil =>
    have htotal : Tally.total ([] : Tally String) + entries.total = entries.total := Int.zero_add _
    rw [Tallies.modify, totals, List.map_singleton, Tally.total_addAll, htotal]
    rfl
  | cons t rest ih =>
    rw [Tallies.modify]
    split
    · rename_i h
      rw [totals, List.map_cons, Tally.total_addAll, totals, List.map_cons, Tally.add, if_pos h]
    · rename_i h
      rw [totals, List.map_cons, totals, List.map_cons, Tally.add, if_neg h]
      exact congrArg _ ih

/-- Every step that takes something in adds it to the total of all. -/
theorem total_of_foldlM {α : Type} {step : Tallies → α → Except BuildError Tallies}
    (entry : α → String × Tally String)
    (hstep : ∀ ts a ts', step ts a = .ok ts' →
      ∃ name, ts' = ts.modify name (·.addAll (entry a).2)) {as : List α}
    (h : as.foldlM step tallies = .ok tallies') :
    (totals tallies').total = (totals tallies).total + (totals (as.map entry)).total := by
  induction as generalizing tallies with
  | nil =>
    obtain rfl := pure_eq_ok.1 h
    exact (Int.add_zero _).symm
  | cons a rest ih =>
    rw [List.foldlM_cons] at h
    obtain ⟨next, hnext, hrest⟩ := bind_eq_ok.1 h
    obtain ⟨name, rfl⟩ := hstep _ _ _ hnext
    have hcons : (totals ((a :: rest).map entry)).total =
        (entry a).2.total + (totals (rest.map entry)).total := Tally.total_cons _ _
    rw [ih hrest, totals_modify, Tally.total_add, hcons, Int.add_assoc]

theorem total_of_tallies {counted : Tallies}
    (hcounted : p.counts.foldlM (addCounts declared) [] = .ok counted)
    (htallies : p.samples.foldlM (addSamples declared bound) counted = .ok tallies) :
    (totals tallies).total = (totals (p.increments bound)).total := by
  have hcounts := total_of_foldlM id (fun ts t ts' ht => by
    obtain ⟨found, -, -, rfl⟩ := addCounts_eq_ok ht
    exact ⟨found, rfl⟩) hcounted
  have hsamples := total_of_foldlM (fun s => (s.1, countsOf bound s.2)) (fun ts s ts' hs => by
    obtain ⟨found, -, h⟩ := addSamples_eq_modify hs
    exact ⟨found, h⟩) htallies
  have hnone : (totals []).total = 0 := rfl
  rw [hsamples, hcounts, hnone, Int.zero_add, List.map_id, Payload.increments, totals, totals,
    totals, List.map_append, Tally.total_append]

/-- **All that is taken in** for models is what their totals add up to. -/
theorem total_of_models {ms : List (String × Model)} (h : models declared bound p = .ok ms) :
    Tally.total (ms.map fun m => (m.1, m.2.total)) = (totals (p.increments bound)).total := by
  obtain ⟨counted, hcounted, h⟩ := bind_eq_ok.1 h
  obtain ⟨tallies, htallies, h⟩ := bind_eq_ok.1 h
  have hmodels : ms.map (fun m => (m.1, m.2.total)) =
      (tallies.filter fun t => !t.2.isEmpty).map fun t => (t.1, t.2.total) := by
    refine map_of_mapM (fun t m hm => ?_) h
    dsimp only at hm
    split at hm
    · rename_i made hmade
      obtain rfl := Except.ok.inj hm
      rw [Model.total_of_counts hmade]
    · cases hm
  have hempty (t : String × Tally String) (ht : (!t.2.isEmpty) = false) : t.2.total = 0 := by
    have hnil : t.2 = [] := by simpa using ht
    rw [hnil]
    rfl
  rw [hmodels, Tally.total_map_filter _ hempty]
  exact total_of_tallies hcounted htallies

theorem models_congr (h : ∀ s ∈ p.samples, countsOf bound s.2 = countsOf bound' s.2) :
    models declared bound p = models declared bound' p := by
  have hsamples (tallies : Tallies) : p.samples.foldlM (addSamples declared bound) tallies =
      p.samples.foldlM (addSamples declared bound') tallies := by
    refine foldlM_congr (fun ts s hs => ?_) tallies
    have htrain (t : Tally String) : Model.train bound t (s.2.map (·.toList)) =
        Model.train bound' t (s.2.map (·.toList)) := by
      rw [Model.train_eq_addAll, Model.train_eq_addAll]
      exact congrArg t.addAll (h s hs)
    simp only [addSamples, htrain]
  simp only [models, hsamples]

end Build

/-! ## What is read of training texts -/

/-- Where each part is within another and all of them are no longer together, they are the same. -/
theorem eq_of_length_flatMap {α β : Type} {f g : α → List β} {as : List α}
    (hsub : ∀ a ∈ as, (f a).Sublist (g a)) (h : (as.flatMap f).length = (as.flatMap g).length) :
    ∀ a ∈ as, f a = g a := by
  induction as with
  | nil => exact fun _ => nofun
  | cons a rest ih =>
    obtain ⟨ha, hrest⟩ := List.forall_mem_cons.1 hsub
    have hle := ha.length_le
    have hle' := (List.Sublist.flatMap_right rest hrest).length_le
    rw [List.flatMap_cons, List.flatMap_cons, List.length_append, List.length_append] at h
    exact List.forall_mem_cons.2 ⟨ha.eq_of_length (by omega), ih hrest (by omega)⟩

namespace Payload

variable {p : Payload} {bound bound' : Nat} {kb kb' : KnowledgeBase}

/-- The tokens that are read of the training texts. -/
def trainingTokens (p : Payload) (bound : Nat) : List String :=
  (p.samples.flatMap (·.2)).flatMap fun text => Token.tokenize text.toList bound

theorem total_countsOf (bound : Nat) (texts : List String) : Tally.total (countsOf bound texts) =
    (texts.flatMap fun text => Token.tokenize text.toList bound).length := by
  rw [countsOf, ← List.map_flatMap, Tally.total_ones, List.flatMap_map]

theorem total_increments (p : Payload) (bound : Nat) : (Build.totals (p.increments bound)).total =
    (Build.totals p.counts).total + (p.trainingTokens bound).length := by
  rw [increments, Build.totals, List.map_append, Tally.total_append, trainingTokens]
  refine congrArg (Tally.total _ + ·) ?_
  induction p.samples with
  | nil => rfl
  | cons s rest ih =>
    rw [List.map_cons, List.map_cons, Tally.total_cons, ih, total_countsOf, List.flatMap_cons,
      List.flatMap_append, List.length_append, Int.natCast_add]

/-- Bounds that make no difference to what is read of any text make none to the base. -/
theorem build_congr (h : ∀ s ∈ p.samples, ∀ text ∈ s.2,
    Token.tokenize text.toList bound = Token.tokenize text.toList bound') :
    p.build bound = p.build bound' := by
  have hcounts : ∀ s ∈ p.samples, countsOf bound s.2 = countsOf bound' s.2 := by
    intro s hs
    rw [countsOf, countsOf, List.flatMap_map, List.flatMap_map]
    exact List.flatMap_congr fun text htext => by rw [h s hs text htext]
  simp only [build, Build.models_congr hcounts]

/-- With the larger bound, more is read, unless every text is read alike. -/
theorem tokenize_eq_of_length (hle : bound ≤ bound')
    (h : (p.trainingTokens bound).length = (p.trainingTokens bound').length)
    {s : String × List String} (hs : s ∈ p.samples) {text : String} (htext : text ∈ s.2) :
    Token.tokenize text.toList bound = Token.tokenize text.toList bound' :=
  eq_of_length_flatMap (fun _ _ => (List.take_prefix_take_left hle).sublist) h text
    (List.mem_flatMap.2 ⟨s, hs, htext⟩)

end Payload

/-! ## Bases -/

namespace KnowledgeBase

/-- The total of each model. -/
def totals (kb : KnowledgeBase) : Tally String := kb.models.map fun m => (m.1, m.2.total)

/-- What all models count together. -/
def weight (kb : KnowledgeBase) : Int := kb.totals.total

theorem lookup_totals (kb : KnowledgeBase) (k : String) :
    kb.totals.lookup k = (kb.models.lookup k).map (·.total) :=
  Table.lookup_map fun _ (m : Model) => m.total

theorem perm_putAll {α : Type} {entries : List (String × α)} (h : (entries.map (·.1)).Nodup) :
    (putAll entries).Perm entries := by
  refine Table.perm_of_lookup (nodup_putAll entries) h fun k => Option.ext fun v => ?_
  rw [lookup_putAll_eq_some h]
  exact Table.mem_iff_lookup h (e := (k, v))

end KnowledgeBase

namespace Payload

variable {p : Payload} {bound bound' : Nat} {kb kb' : KnowledgeBase}

theorem Parts.nodup_totals (parts : p.Parts bound) : (parts.base.totals.map (·.1)).Nodup := by
  rw [KnowledgeBase.totals, List.map_map]
  exact KnowledgeBase.nodup_putAll _

theorem Parts.lookup_models_eq_none {parts : p.Parts bound} {k : String}
    (h : ¬∃ n, lower n = k) : parts.base.models.lookup k = none :=
  Option.eq_none_iff_forall_ne_some.2 fun m hm => by
    obtain ⟨n, -, hn⟩ := parts.lookup_models_eq_some.1 hm
    exact h ⟨n, hn⟩

theorem Parts.lookup_totals_of_agrees {parts : p.Parts bound} {parts' : p.Parts bound'}
    (h : parts.base.Agrees parts'.base) (k : String) :
    parts.base.totals.lookup k = parts'.base.totals.lookup k := by
  rw [KnowledgeBase.lookup_totals, KnowledgeBase.lookup_totals]
  by_cases hk : ∃ n, lower n = k
  · obtain ⟨n, rfl⟩ := hk
    have hn : Option.Rel Model.Alike (parts.base.models.lookup (lower n))
        (parts'.base.models.lookup (lower n)) := h.model n
    generalize parts.base.models.lookup (lower n) = o at hn
    generalize parts'.base.models.lookup (lower n) = o' at hn
    cases hn with
    | none => rfl
    | some hm => exact congrArg some hm.total
  · -- a key of a model is a name in lower case
    rw [lookup_models_eq_none hk, lookup_models_eq_none hk]

/-- **What is counted.** The models of a base together count what the tables of counts hold and the
tokens that are read of the training texts. -/
theorem weight_of_build (h : p.build bound = .ok kb) :
    kb.weight = (Build.totals p.counts).total + (p.trainingTokens bound).length := by
  obtain ⟨parts, -, rfl⟩ := build_eq_assemble h
  have hperm : parts.base.totals.Perm (parts.models.map fun m => (lower m.1, m.2.total)) := by
    have := (KnowledgeBase.perm_putAll parts.model_keys).map fun m => (m.1, m.2.total)
    rwa [List.map_map] at this
  -- under whatever names, the models count as much
  have hmodels : Tally.total (parts.models.map fun m => (lower m.1, m.2.total)) =
      Tally.total (parts.models.map fun m => (m.1, m.2.total)) := by
    rw [Tally.total, Tally.total, List.map_map, List.map_map]
    rfl
  rw [KnowledgeBase.weight, Tally.total_of_perm hperm, hmodels,
    Build.total_of_models parts.models_eq, total_increments]

theorem weight_of_agrees (h : p.build bound = .ok kb) (h' : p.build bound' = .ok kb')
    (hagrees : kb.Agrees kb') : kb.weight = kb'.weight := by
  obtain ⟨parts, -, rfl⟩ := build_eq_assemble h
  obtain ⟨parts', -, rfl⟩ := build_eq_assemble h'
  exact Tally.total_of_perm (Table.perm_of_lookup parts.nodup_totals parts'.nodup_totals
    (Parts.lookup_totals_of_agrees hagrees))

/-- **Bounds on training.** Two bounds make bases with the same answers exactly if they make no
difference to what is read of any training text. -/
theorem agrees_iff_tokenize (h : p.build bound = .ok kb) (h' : p.build bound' = .ok kb') :
    kb.Agrees kb' ↔ ∀ s ∈ p.samples, ∀ text ∈ s.2,
      Token.tokenize text.toList bound = Token.tokenize text.toList bound' := by
  constructor
  · intro hagrees s hs text htext
    have hweight := weight_of_agrees h h' hagrees
    rw [weight_of_build h, weight_of_build h'] at hweight
    have hread : (p.trainingTokens bound).length = (p.trainingTokens bound').length := by omega
    rcases Nat.le_total bound bound' with hle | hle
    · exact tokenize_eq_of_length hle hread hs htext
    · exact (tokenize_eq_of_length hle hread.symm hs htext).symm
  · intro heq
    rw [build_congr heq] at h
    obtain rfl := Except.ok.inj (h.symm.trans h')
    exact .refl kb

end Payload

end LangId
