import LangId.Proofs.Regex.Renumbering
import LangId.Proofs.Steps
import LangId.Regex.Parser

/-!
# Reading a part of a longer pattern

A pattern that can be read on its own is read in the same way as a part of a longer one: a `Frame`
tells what has been read before the part and what follows it, and `Frame.embed` puts the state of
the reader into the frame. `Follows` relates a reading on its own to a reading in the frame: what is
returned is the same but for the numbers of groups. There are two conditions. References by number
have to mean the same groups in the frame, which is so if no groups have been read before; otherwise
none may have been noted once the part is read (`Frame.Allows`). And the names of groups have to
differ from those read before; the reading in the frame fails exactly if they do not
(`Frame.Apart`).

The end of the part is the one place where the frame shows, so that a reading may look there only if
what it looks for is neither the end of the pattern nor the bar or the parenthesis behind the part.
Each lemma says in `o` whether the reading may end at the end of the part.
-/
namespace LangId.Regex

/-- What has been read before a part of a pattern, and what follows it. -/
structure Frame where
  /-- The number of groups before the part. -/
  shift : Nat
  widths : List (Nat × Nat × Nat)
  names : List (List Char × Nat)
  expected : List Nat
  tail : List Token
  widths_le : ∀ w ∈ widths, w.1 ≤ shift
  /-- A part ends where the pattern ends, at a bar, or at the end of a group. -/
  tail_ends : ∀ t ∈ tail.head?, t = .plain '|' ∨ t = .plain ')'

/-- The state of the reader of a part, within the frame. -/
def Frame.embed (e : Frame) (r : Reader) : Reader where
  rest := r.rest ++ e.tail
  groups := r.groups + e.shift
  widths := (r.widths.map fun w => (w.1 + e.shift, w.2)) ++ e.widths
  names := (r.names.map fun n => (n.1, n.2 + e.shift)) ++ e.names
  behindGroups := r.behindGroups.map (· + e.shift)
  expected := r.expected.map (· + e.shift) ++ e.expected
  deferred := r.deferred

/-- Raises all numbers of groups in a part. -/
def Part.renumber (k : Nat) (p : Part) : Part := { p with node := p.node.renumber k }

namespace Frame

variable (e : Frame)

/-- References by number mean the same groups in the frame: no groups have been read before the part,
or no group has been referred to by its number. -/
def Allows (r : Reader) : Prop := e.shift = 0 ∨ r.expected = []

/-- No group has a name from before the part. -/
def Apart (r : Reader) : Prop := ∀ n ∈ r.names, n.1 ∉ e.names.map (·.1)

end Frame

/-- Groups are numbered from one on, and the next number is larger than those of all groups. -/
structure Reader.Sound (r : Reader) : Prop where
  groups : 1 ≤ r.groups
  names : ∀ n ∈ r.names, 1 ≤ n.2
  widths : ∀ w ∈ r.widths, w.1 < r.groups

/-- What every reading keeps. -/
structure Later (r r' : Reader) : Prop where
  rest : r'.rest <:+ r.rest
  /-- A lone backslash is never taken. -/
  dangling : .dangling ∈ r.rest → .dangling ∈ r'.rest
  names : r.names <:+ r'.names
  behind : r'.behindGroups = r.behindGroups
  groups : r.groups ≤ r'.groups
  /-- No reference by number is forgotten. -/
  expected : r.expected <:+ r'.expected
  sound : r.Sound → r'.Sound

namespace Later

variable {r r' r'' : Reader}

theorem refl (r : Reader) : Later r r :=
  ⟨List.suffix_refl _, id, List.suffix_refl _, rfl, Nat.le_refl _, List.suffix_refl _, id⟩

theorem trans (h : Later r r') (h' : Later r' r'') : Later r r'' :=
  ⟨h'.rest.trans h.rest, h'.dangling ∘ h.dangling, h.names.trans h'.names,
    h'.behind.trans h.behind, Nat.le_trans h.groups h'.groups, h.expected.trans h'.expected,
    h'.sound ∘ h.sound⟩

/-- Tokens are taken. -/
theorem ofRest (taken : List Token) {rest : List Token} (h : r.rest = taken ++ rest)
    (ht : .dangling ∉ taken) : Later r { r with rest } where
  rest := h ▸ List.suffix_append taken rest
  dangling hmem := (List.mem_append.1 (h ▸ hmem)).resolve_left ht
  names := List.suffix_refl _
  behind := rfl
  groups := Nat.le_refl _
  expected := List.suffix_refl _
  sound hs := ⟨hs.groups, hs.names, hs.widths⟩

theorem rest_ne_nil (h : Later r r') (hne : r'.rest ≠ []) : r.rest ≠ [] := by
  intro hnil
  have hrest := h.rest
  rw [hnil] at hrest
  exact hne (List.suffix_nil.1 hrest)

end Later

namespace Frame

variable {e : Frame} {r r' : Reader}

theorem isSome_lookup_iff {label : List Char} :
    (e.names.lookup label).isSome = true ↔ label ∈ e.names.map (·.1) := by
  rw [← Option.ne_none_iff_isSome, ne_eq, List.lookup_eq_none_iff, List.mem_map]
  constructor
  · intro h
    obtain ⟨n, hn⟩ := Classical.not_forall.1 h
    obtain ⟨hmem, heq⟩ := Classical.not_imp.1 hn
    exact ⟨n, hmem, Decidable.byContradiction fun hne => heq (bne_iff_ne.2 (Ne.symm hne))⟩
  · rintro ⟨n, hmem, rfl⟩ h
    simpa using h n hmem

theorem Apart.before (h : e.Apart r') (hl : Later r r') : e.Apart r :=
  fun n hn => h n (hl.names.subset hn)

theorem Allows.before (h : e.Allows r') (hl : Later r r') : e.Allows r := by
  refine h.imp_right fun hnil => ?_
  have hexpected := hl.expected
  rwa [hnil, List.suffix_nil] at hexpected

theorem lookup_widths {index : Nat} (h : 1 ≤ index) :
    (e.embed r).widths.lookup (index + e.shift) = r.widths.lookup index := by
  have hnone : e.widths.lookup (index + e.shift) = none := by
    refine List.lookup_eq_none_iff.2 fun w hw => ?_
    have := e.widths_le w hw
    exact bne_iff_ne.2 (by omega)
  have hmap := lookup_map_add (k := e.shift) (f := id) r.widths index
  rw [Option.map_id] at hmap
  rw [embed, List.lookup_append, hnone, Option.or_none]
  exact hmap

/-- A name without a group in the part has the group from before, if there is one. -/
theorem lookup_names_of_none {label : List Char} (h : r.names.lookup label = none) :
    (e.embed r).names.lookup label = e.names.lookup label := by
  have hmap : (r.names.map fun n => (n.1, n.2 + e.shift)).lookup label = none := by
    rw [List.lookup_eq_none_iff] at h ⊢
    rw [List.forall_mem_map]
    exact h
  rw [embed, List.lookup_append, hmap, Option.none_or]

theorem lookup_names {label : List Char} {index : Nat} (h : r.names.lookup label = some index) :
    (e.embed r).names.lookup label = some (index + e.shift) := by
  have hmap : (r.names.map fun n => (n.1, n.2 + e.shift)).lookup label = some (index + e.shift) := by
    generalize r.names = names at h
    induction names with
    | nil => cases h
    | cons n rest ih =>
      rw [List.lookup_cons] at h
      rw [List.map_cons, List.lookup_cons]
      cases hl : label == n.1 with
      | true =>
        simp only [hl] at h
        rw [Option.some.inj h]
      | false =>
        simp only [hl] at h
        exact ih h
  rw [embed, List.lookup_append, hmap]
  rfl

end Frame

/-! ## One reading after the other -/

namespace Reader

variable {α β : Type} {x : Reading α} {f : α → Reading β} {a : α} {b : β} {r s : Reader}

theorem bind_apply (x : Reading α) (f : α → Reading β) (r : Reader) :
    (x >>= f) r = x r >>= fun s => f s.1 s.2 := rfl

theorem bind_eq_ok : (x >>= f) r = .ok (b, s) ↔ ∃ a u, x r = .ok (a, u) ∧ f a u = .ok (b, s) := by
  rw [bind_apply, LangId.bind_eq_ok]
  simp only [Prod.exists]

theorem bind_of_ok (h : x r = .ok (a, s)) : (x >>= f) r = f a s := by
  rw [bind_apply, h]
  rfl

theorem bind_of_error {fault : Error} (h : x r = .error fault) : (x >>= f) r = .error fault := by
  rw [bind_apply, h]
  rfl

/-- All that a reading returns has a property. -/
def Yields (P : α → Prop) (x : Reading α) : Prop := ∀ r a s, x r = .ok (a, s) → P a

namespace Yields

variable {P : α → Prop} {Q : β → Prop}

theorem pure (h : P a) : Yields P (Pure.pure a) := by
  intro r b s hb
  cases hb
  exact h

theorem fail {fault : Fault} : Yields P (Reader.fail fault) := nofun

theorem fail_bind {γ : Type} {fault : Fault} {g : γ → Reading α} :
    Yields P (Reader.fail fault >>= g) := nofun

theorem bind (h : ∀ a r s, x r = .ok (a, s) → Yields Q (f a)) : Yields Q (x >>= f) := by
  intro r b t hb
  obtain ⟨a, s, ha, hb⟩ := bind_eq_ok.1 hb
  exact h a r s ha s b t hb

end Yields

end Reader

/-! ## Following -/

/-- A reading in a frame follows a reading on its own. -/
def Follows {α β : Type} (e : Frame) (o : Prop) (φ : α → β) (x : Reading α) (y : Reading β)
    (r : Reader) : Prop :=
  r.Sound → ∀ a r', x r = .ok (a, r') → Later r r' ∧
    (e.Apart r → e.Allows r' → (o ∨ r'.rest ≠ []) →
      (e.Apart r' → y (e.embed r) = .ok (φ a, e.embed r')) ∧
      (¬e.Apart r' → y (e.embed r) = .error (.malformed .duplicateName)))

namespace Follows

variable {α β γ δ : Type} {e : Frame} {o : Prop} {φ : α → β} {ψ : γ → δ} {r : Reader}

/-- One reading after the other, of which the first may have to end before the part does. -/
theorem bind_within {o' : Prop} {x : Reading α} {y : Reading β} {f : α → Reading γ}
    {g : β → Reading δ} (hx : Follows e o' φ x y r)
    (hf : ∀ a s, x r = .ok (a, s) → Follows e o ψ (f a) (g (φ a)) s)
    (ho : ∀ a s c r', x r = .ok (a, s) → f a s = .ok (c, r') → Later s r' → o ∨ r'.rest ≠ [] →
      o' ∨ s.rest ≠ []) :
    Follows e o ψ (x >>= f) (y >>= g) r := by
  intro hsound c r' hc
  obtain ⟨a, s, ha, hc⟩ := Reader.bind_eq_ok.1 hc
  obtain ⟨hl, hy⟩ := hx hsound a s ha
  obtain ⟨hl', hg⟩ := hf a s ha (hl.sound hsound) c r' hc
  refine ⟨hl.trans hl', fun hapart hallows hend => ?_⟩
  have hs : o' ∨ s.rest ≠ [] := ho a s c r' ha hc hl' hend
  have hfirst := hy hapart (hallows.before hl') hs
  by_cases hsa : e.Apart s
  · rw [Reader.bind_of_ok (hfirst.1 hsa)]
    exact hg hsa hallows hend
  · rw [Reader.bind_of_error (hfirst.2 hsa)]
    exact ⟨fun h => absurd (h.before hl') hsa, fun _ => rfl⟩

/-- One reading after the other. -/
theorem bind {x : Reading α} {y : Reading β} {f : α → Reading γ} {g : β → Reading δ}
    (hx : Follows e o φ x y r)
    (hf : ∀ a s, x r = .ok (a, s) → Follows e o ψ (f a) (g (φ a)) s) :
    Follows e o ψ (x >>= f) (y >>= g) r :=
  bind_within hx hf fun _ _ _ _ _ _ hl hend => hend.imp_right hl.rest_ne_nil

theorem ite {c : Prop} [Decidable c] {x x' : Reading α} {y y' : Reading β}
    (h : c → Follows e o φ x y r) (h' : ¬c → Follows e o φ x' y' r) :
    Follows e o φ (if c then x else x') (if c then y else y') r := by
  split
  · exact h ‹_›
  · exact h' ‹_›

/-- The state may be taken to be sound. -/
theorem of_sound {x : Reading α} {y : Reading β} (h : r.Sound → Follows e o φ x y r) :
    Follows e o φ x y r := fun hsound => h hsound hsound

/-- A reading that returns at once. -/
theorem stop {a : α} {y : Reading β} (h : y (e.embed r) = .ok (φ a, e.embed r)) :
    Follows e o φ (pure a) y r := by
  intro _ b r' hb
  cases hb
  exact ⟨Later.refl r, fun hapart _ _ => ⟨fun _ => h, fun h => absurd hapart h⟩⟩

theorem pure (a : α) : Follows e o φ (pure a) (pure (φ a)) r := stop rfl

theorem pure_of {a : α} {b : β} (h : b = φ a) : Follows e o φ (Pure.pure a) (Pure.pure b) r :=
  h ▸ pure a

theorem pure_bind {a : α} {b : β} {f : α → Reading γ} {g : β → Reading δ}
    (h : Follows e o ψ (f a) (g b) r) :
    Follows e o ψ (Pure.pure a >>= f) (Pure.pure b >>= g) r := h

theorem fail {fault : Fault} {y : Reading β} : Follows e o φ (Reader.fail fault) y r := nofun

theorem fail_bind {fault : Fault} {f : γ → Reading α} {y : Reading β} :
    Follows e o φ (Reader.fail fault >>= f) y r := nofun

theorem throw_bind {x : Error} {f : γ → Reading α} {y : Reading β} :
    Follows e o φ (MonadExcept.throw x >>= f) y r := nofun

/-- At the end of the part only readings that may not end there follow anything. -/
theorem atEnd {a : α} {y : Reading β} (ho : ¬o) (hr : r.rest = []) :
    Follows e o φ (Pure.pure a) y r := by
  intro _ b r' hb
  cases hb
  exact ⟨Later.refl r, fun _ _ hend => absurd hr (hend.resolve_left ho)⟩

theorem get_bind {f : Reader → Reading γ} {g : Reader → Reading δ}
    (h : Follows e o ψ (f r) (g (e.embed r)) r) : Follows e o ψ (get >>= f) (get >>= g) r := h

/-- A change of the state that names no groups. -/
theorem modify_bind {f g : Reader → Reader} {h : Unit → Reading γ} {k : Unit → Reading δ}
    (hl : Later r (f r)) (hn : (f r).names = r.names) (he : g (e.embed r) = e.embed (f r))
    (hh : Follows e o ψ (h ()) (k ()) (f r)) :
    Follows e o ψ (modify f >>= h) (modify g >>= k) r := by
  intro hsound c r' hc
  obtain ⟨hl', hk⟩ := hh (hl.sound hsound) c r' hc
  refine ⟨hl.trans hl', fun hapart hallows hend => ?_⟩
  have hapart' : e.Apart (f r) := by
    unfold Frame.Apart
    rw [hn]
    exact hapart
  have hmodify : (modify g >>= k : Reading δ) (e.embed r) = k () (e.embed (f r)) := by
    rw [← he]
    rfl
  rw [hmodify]
  exact hk hapart' hallows hend

/-- A reading within a test of what stands before, which is left in the end. -/
theorem around {b b' : Reader → Option Nat} {x : Reading α} {y : Reading β} {f : α → Reading γ}
    {g : β → Reading δ} (hb : b' (e.embed r) = (b r).map (· + e.shift))
    (hx : Follows e o φ x y { r with behindGroups := b r })
    (hf : ∀ a s, Follows e o ψ (f a) (g (φ a)) s) :
    Follows e o ψ
      (do
        modify fun r => { r with behindGroups := b r }
        let a ← x
        modify fun s => { s with behindGroups := r.behindGroups }
        f a)
      (do
        modify fun r => { r with behindGroups := b' r }
        let a ← y
        modify fun s => { s with behindGroups := (e.embed r).behindGroups }
        g a) r := by
  intro hsound c r' hc
  have hown : (do
      let a ← x
      modify fun s => { s with behindGroups := r.behindGroups }
      f a : Reading γ) { r with behindGroups := b r } = .ok (c, r') := hc
  obtain ⟨a, s, ha, hc⟩ := Reader.bind_eq_ok.1 hown
  have hentry : Reader.Sound { r with behindGroups := b r } :=
    ⟨hsound.groups, hsound.names, hsound.widths⟩
  obtain ⟨hl, hy⟩ := hx hentry a s ha
  have hs := hl.sound hentry
  have hl' : Later r { s with behindGroups := r.behindGroups } :=
    ⟨hl.rest, hl.dangling, hl.names, rfl, hl.groups, hl.expected,
      fun _ => ⟨hs.groups, hs.names, hs.widths⟩⟩
  obtain ⟨hl'', hg⟩ := hf a { s with behindGroups := r.behindGroups } (hl'.sound hsound) c r' hc
  refine ⟨hl'.trans hl'', fun hapart hallows hend => ?_⟩
  have hbefore : e.Allows { s with behindGroups := r.behindGroups } := hallows.before hl''
  have hwithin := hy hapart hbefore (hend.imp_right hl''.rest_ne_nil)
  have hrun : (do
      modify fun r => { r with behindGroups := b' r }
      let a ← y
      modify fun s => { s with behindGroups := (e.embed r).behindGroups }
      g a : Reading δ) (e.embed r) =
    y { e.embed r with behindGroups := b' (e.embed r) } >>= fun t =>
      g t.1 { t.2 with behindGroups := (e.embed r).behindGroups } := rfl
  have hentered : { e.embed r with behindGroups := b' (e.embed r) } =
      e.embed { r with behindGroups := b r } := by
    rw [hb]
    rfl
  rw [hrun, hentered]
  by_cases hsa : e.Apart s
  · rw [hwithin.1 hsa]
    exact hg hsa hallows hend
  · rw [hwithin.2 hsa]
    exact ⟨fun h => absurd (h.before hl'') hsa, fun _ => rfl⟩

theorem weaken {o' : Prop} {x : Reading α} {y : Reading β} (h : Follows e o φ x y r)
    (ho : o' → o) : Follows e o' φ x y r := by
  intro hsound a r' ha
  obtain ⟨hl, hy⟩ := h hsound a r' ha
  exact ⟨hl, fun hapart hallows hend => hy hapart hallows (hend.imp_left ho)⟩

end Follows

end LangId.Regex
