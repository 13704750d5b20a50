import Mathlib.Data.List.Forall2
import Mathlib.Data.List.Perm.Basic

/-!
# Steps that may fail

When a chain of steps ends well, every step has; when it fails, some step is the first to fail.
The lemmas take such chains apart, so that no later proof opens a bind.
-/
namespace LangId

variable {ε ε' α β : Type}

theorem bind_eq_ok {x : Except ε α} {f : α → Except ε β} {b : β} :
    x >>= f = .ok b ↔ ∃ a, x = .ok a ∧ f a = .ok b := by
  cases x <;> simp [bind, Except.bind]

theorem bind_eq_error {x : Except ε α} {f : α → Except ε β} {e : ε} :
    x >>= f = .error e ↔ x = .error e ∨ ∃ a, x = .ok a ∧ f a = .error e := by
  cases x <;> simp [bind, Except.bind]

theorem map_eq_ok {x : Except ε α} {f : α → β} {b : β} :
    x.map f = .ok b ↔ ∃ a, x = .ok a ∧ f a = b := by
  cases x <;> simp [Except.map]

theorem map_eq_error {x : Except ε α} {f : α → β} {e : ε} :
    x.map f = .error e ↔ x = .error e := by
  cases x <;> simp [Except.map]

theorem mapError_eq_ok {x : Except ε α} {f : ε → ε'} {a : α} :
    x.mapError f = .ok a ↔ x = .ok a := by
  cases x with
  | ok b =>
    constructor
    · exact fun h => congrArg Except.ok (Except.ok.inj h)
    · exact fun h => congrArg Except.ok (Except.ok.inj h)
  | error e => exact ⟨nofun, nofun⟩

theorem mapError_eq_error {x : Except ε α} {f : ε → ε'} {e' : ε'} :
    x.mapError f = .error e' ↔ ∃ e, x = .error e ∧ f e = e' := by
  cases x with
  | ok a => exact ⟨nofun, fun ⟨_, h, _⟩ => nomatch h⟩
  | error e =>
    constructor
    · exact fun h => ⟨e, rfl, Except.error.inj h⟩
    · rintro ⟨_, h, rfl⟩
      cases h
      rfl

theorem pure_eq_ok {a b : α} : (pure a : Except ε α) = .ok b ↔ a = b := by
  simp [pure, Except.pure]

/-- Steps whose last one cannot fail end well if the first ones do. -/
theorem exists_bind_pure {x : Except ε α} {f : α → β} :
    (∃ b, (x >>= fun a => pure (f a)) = .ok b) ↔ ∃ a, x = .ok a := by
  cases x <;> simp [bind, Except.bind, pure, Except.pure]

theorem exists_map_iff {x : Except ε α} {f : α → β} : (∃ b, x.map f = .ok b) ↔ ∃ a, x = .ok a := by
  cases x <;> simp [Except.map]

theorem toOption_eq_some {x : Except ε α} {a : α} : x.toOption = some a ↔ x = .ok a := by
  cases x <;> simp [Except.toOption]

/-! ## Steps along a list -/

theorem mapM_cons_eq_ok {f : α → Except ε β} {a : α} {as : List α} {bs : List β} :
    (a :: as).mapM f = .ok bs ↔
      ∃ b bs', f a = .ok b ∧ as.mapM f = .ok bs' ∧ bs = b :: bs' := by
  rw [List.mapM_cons, bind_eq_ok]
  refine exists_congr fun b => ?_
  simp only [bind_eq_ok, pure_eq_ok, eq_comm (a := b :: _)]
  constructor
  · rintro ⟨hb, bs', hbs', h⟩
    exact ⟨bs', hb, hbs', h⟩
  · rintro ⟨bs', hb, hbs', h⟩
    exact ⟨hb, bs', hbs', h⟩

/-- **Step by step.** A `mapM` ends well with what its steps come to, one by one. -/
theorem mapM_eq_ok_iff {f : α → Except ε β} {as : List α} {bs : List β} :
    as.mapM f = .ok bs ↔ List.Forall₂ (fun a b => f a = .ok b) as bs := by
  induction as generalizing bs with
  | nil => rw [List.mapM_nil, pure_eq_ok, List.forall₂_nil_left_iff, eq_comm]
  | cons a as ih => simp only [mapM_cons_eq_ok, List.forall₂_cons_left_iff, ih]

/-- A `mapM` ends well exactly if every step of it does. -/
theorem mapM_eq_ok {f : α → Except ε β} {as : List α} :
    (∃ bs, as.mapM f = .ok bs) ↔ ∀ a ∈ as, ∃ b, f a = .ok b := by
  induction as with
  | nil => simp [pure, Except.pure]
  | cons a as ih =>
    simp only [mapM_cons_eq_ok, List.forall_mem_cons, ← ih]
    constructor
    · rintro ⟨_, b, bs', hb, hbs', rfl⟩
      exact ⟨⟨b, hb⟩, bs', hbs'⟩
    · rintro ⟨⟨b, hb⟩, bs', hbs'⟩
      exact ⟨_, b, bs', hb, hbs', rfl⟩

/-- Steps that are known make a list that is known. -/
theorem mapM_eq_ok_map {f : α → Except ε β} {g : α → β} {as : List α} :
    as.mapM f = .ok (as.map g) ↔ ∀ a ∈ as, f a = .ok (g a) := by
  rw [mapM_eq_ok_iff, List.forall₂_map_right_iff, List.forall₂_same]

/-- What every step of a `mapM` keeps, the whole of it keeps. -/
theorem map_of_mapM {γ : Type} {f : α → Except ε β} {g : α → γ} {k : β → γ} {as : List α}
    {bs : List β} (hf : ∀ a b, f a = .ok b → k b = g a) (h : as.mapM f = .ok bs) :
    bs.map k = as.map g := by
  have hsame : List.Forall₂ (· = ·) (bs.map k) (as.map g) :=
    List.forall₂_map_left_iff.2 <| List.forall₂_map_right_iff.2 <|
      .flip ((mapM_eq_ok_iff.1 h).imp hf)
  rwa [List.forall₂_eq_eq_eq] at hsame

/-- What a `mapM` that ends well holds: the results of its steps. -/
theorem mem_mapM {f : α → Except ε β} {as : List α} {bs : List β} (h : as.mapM f = .ok bs)
    {b : β} : b ∈ bs ↔ ∃ a ∈ as, f a = .ok b := by
  rw [mapM_eq_ok_iff] at h
  induction h with
  | nil => simp
  | cons hb _ ih => simp [hb, ih, eq_comm]

/-- Every result of a `mapM` comes from a step of it. -/
theorem mem_of_mapM {f : α → Except ε β} {as : List α} {bs : List β}
    (h : as.mapM f = .ok bs) {b : β} (hb : b ∈ bs) : ∃ a ∈ as, f a = .ok b := (mem_mapM h).1 hb

/-- The steps of a `mapM` may be taken in another order. -/
theorem mapM_of_perm {f : α → Except ε β} {as as' : List α} (hperm : as.Perm as') {bs : List β}
    (h : as.mapM f = .ok bs) : ∃ bs', as'.mapM f = .ok bs' ∧ bs.Perm bs' := by
  obtain ⟨bs', hbs', hperm'⟩ := List.perm_comp_forall₂ hperm.symm (mapM_eq_ok_iff.1 h)
  exact ⟨bs', mapM_eq_ok_iff.2 hbs', hperm'.symm⟩

/-- Where every step that goes well can be replaced, the whole of a `mapM` can. -/
theorem mapM_of_imp {f : α → Except ε β} {g : α → Except ε' β} {as : List α}
    {bs : List β} (hfg : ∀ a b, f a = .ok b → g a = .ok b) (h : as.mapM f = .ok bs) :
    as.mapM g = .ok bs :=
  mapM_eq_ok_iff.2 ((mapM_eq_ok_iff.1 h).imp hfg)

/-- A list is split at an entry behind entries of a kind either at its first entry, or behind it. -/
theorem exists_split_cons {Q R : α → Prop} {a : α} {as : List α} :
    (∃ pre x post, a :: as = pre ++ x :: post ∧ (∀ y ∈ pre, Q y) ∧ R x) ↔
      R a ∨ Q a ∧ ∃ pre x post, as = pre ++ x :: post ∧ (∀ y ∈ pre, Q y) ∧ R x := by
  constructor
  · rintro ⟨pre, x, post, h, hpre, hx⟩
    cases pre with
    | nil =>
      obtain ⟨rfl, rfl⟩ := List.cons.inj h
      exact .inl hx
    | cons y pre =>
      obtain ⟨rfl, rfl⟩ := List.cons.inj h
      obtain ⟨hy, hpre⟩ := List.forall_mem_cons.1 hpre
      exact .inr ⟨hy, pre, x, post, rfl, hpre, hx⟩
  · rintro (ha | ⟨ha, pre, x, post, rfl, hpre, hx⟩)
    · exact ⟨[], a, as, rfl, nofun, ha⟩
    · exact ⟨a :: pre, x, post, rfl, List.forall_mem_cons.2 ⟨ha, hpre⟩, hx⟩

theorem not_split_nil {Q R : α → Prop} :
    ¬∃ pre x post, ([] : List α) = pre ++ x :: post ∧ (∀ y ∈ pre, Q y) ∧ R x := by
  rintro ⟨pre, x, post, h, -⟩
  simp at h

/-- The first result of a `mapM` that passes a test comes from the first entry that does. -/
theorem find?_of_mapM {f : α → Except ε β} {p : β → Bool} {P : α → Prop} {as : List α}
    {bs : List β} (h : as.mapM f = .ok bs) (hp : ∀ a b, f a = .ok b → (p b = true ↔ P a)) {b : β} :
    bs.find? p = some b ↔ ∃ before a behind, as = before ++ a :: behind ∧ (∀ x ∈ before, ¬ P x) ∧
      P a ∧ f a = .ok b := by
  induction as generalizing bs with
  | nil =>
    obtain rfl := pure_eq_ok.1 h
    exact iff_of_false nofun not_split_nil
  | cons a as ih =>
    obtain ⟨first, rest, hfirst, hrest, rfl⟩ := mapM_cons_eq_ok.1 h
    rw [exists_split_cons, ← ih hrest, List.find?_cons, hfirst, ← hp a first hfirst]
    cases p first <;> simp

/-- A `mapM` fails with the error of its first step that fails. -/
theorem mapM_eq_error_iff {f : α → Except ε β} {as : List α} {e : ε} :
    as.mapM f = .error e ↔
      ∃ pre a post, as = pre ++ a :: post ∧ (∀ x ∈ pre, ∃ b, f x = .ok b) ∧ f a = .error e := by
  induction as with
  | nil => exact iff_of_false nofun not_split_nil
  | cons a as ih =>
    rw [exists_split_cons, ← ih, List.mapM_cons, bind_eq_error]
    refine or_congr_right ?_
    constructor
    · rintro ⟨b, hb, h⟩
      rcases bind_eq_error.1 h with h | ⟨_, -, h⟩
      · exact ⟨⟨b, hb⟩, h⟩
      · cases h
    · rintro ⟨⟨b, hb⟩, h⟩
      exact ⟨b, hb, bind_eq_error.2 (.inl h)⟩

/-- A `mapM` that fails does so at one of its steps. -/
theorem mapM_eq_error {f : α → Except ε β} {as : List α} {e : ε} (h : as.mapM f = .error e) :
    ∃ a ∈ as, f a = .error e := by
  obtain ⟨pre, a, post, rfl, -, hf⟩ := mapM_eq_error_iff.1 h
  exact ⟨a, List.mem_append_right _ List.mem_cons_self, hf⟩

/-- What holds at first and is kept by every step holds in the end. -/
theorem foldlM_preserves {P : β → Prop} {f : β → α → Except ε β} {as : List α} {b b' : β}
    (hf : ∀ b a b', P b → f b a = .ok b' → P b') (h : as.foldlM f b = .ok b') (hb : P b) :
    P b' := by
  induction as generalizing b with
  | nil =>
    obtain rfl := pure_eq_ok.1 h
    exact hb
  | cons a as ih =>
    rw [List.foldlM_cons] at h
    obtain ⟨next, hnext, hrest⟩ := bind_eq_ok.1 h
    exact ih hrest (hf b a next hb hnext)

/-- What is read off a state changes along a `foldlM` as it does at each step. -/
theorem foldlM_reads {γ : Type} {read : β → γ} {next : γ → α → γ} {f : β → α → Except ε β}
    {as : List α} {b b' : β} (hf : ∀ b a b', f b a = .ok b' → read b' = next (read b) a)
    (h : as.foldlM f b = .ok b') : read b' = as.foldl next (read b) := by
  induction as generalizing b with
  | nil => rw [← pure_eq_ok.1 h, List.foldl_nil]
  | cons a as ih =>
    rw [List.foldlM_cons] at h
    obtain ⟨mid, hmid, hrest⟩ := bind_eq_ok.1 h
    rw [ih hrest, hf b a mid hmid, List.foldl_cons]

/-- Where every step that goes well can be replaced, the whole of a `foldlM` can. -/
theorem foldlM_of_imp {f g : β → α → Except ε β} {as : List α} {b b' : β}
    (hfg : ∀ b a b', f b a = .ok b' → g b a = .ok b') (h : as.foldlM f b = .ok b') :
    as.foldlM g b = .ok b' := by
  induction as generalizing b with
  | nil => exact h
  | cons a as ih =>
    rw [List.foldlM_cons] at h ⊢
    obtain ⟨next, hnext, hrest⟩ := bind_eq_ok.1 h
    exact bind_eq_ok.2 ⟨next, hfg b a next hnext, ih hrest⟩

/-- Where all steps are the same, the whole of a `foldlM` is. -/
theorem foldlM_congr {f g : β → α → Except ε β} {as : List α}
    (hfg : ∀ b, ∀ a ∈ as, f b a = g b a) (b : β) : as.foldlM f b = as.foldlM g b := by
  induction as generalizing b with
  | nil => rfl
  | cons a as ih =>
    obtain ⟨ha, has⟩ : (∀ b, f b a = g b a) ∧ ∀ b, ∀ a' ∈ as, f b a' = g b a' :=
      ⟨fun b => hfg b a List.mem_cons_self, fun b a' h => hfg b a' (List.mem_cons_of_mem a h)⟩
    rw [List.foldlM_cons, List.foldlM_cons, ha]
    exact congrArg (g b a >>= ·) (funext (ih has))

/-- A `filterM` ends well exactly if every step of it does, and keeps what these say. -/
theorem filterM_eq_ok {f : α → Except ε Bool} {as bs : List α} : as.filterM f = .ok bs ↔
    (∀ a ∈ as, ∃ b, f a = .ok b) ∧ bs = as.filter fun a => (f a).toOption == some true := by
  have aux (as kept bs : List α) : as.filterAuxM f kept = .ok bs ↔
      (∀ a ∈ as, ∃ b, f a = .ok b) ∧
        bs = (as.filter fun a => (f a).toOption == some true).reverse ++ kept := by
    induction as generalizing kept with
    | nil =>
      rw [List.filterAuxM, pure_eq_ok]
      simp [eq_comm]
    | cons a as ih =>
      rw [List.filterAuxM, bind_eq_ok, List.forall_mem_cons]
      simp only [ih]
      cases hstep : f a with
      | error e => simp
      | ok keep => cases keep <;> simp [Except.toOption, hstep]
  rw [List.filterM, bind_eq_ok]
  simp only [aux, pure_eq_ok]
  constructor
  · rintro ⟨kept, ⟨hsteps, rfl⟩, rfl⟩
    exact ⟨hsteps, by simp⟩
  · rintro ⟨hsteps, rfl⟩
    exact ⟨_, ⟨hsteps, rfl⟩, by simp⟩

/-- Steps that all end well do so one after the other. -/
theorem foldlM_total {f : β → α → Except ε β} {as : List α}
    (h : ∀ b, ∀ a ∈ as, ∃ b', f b a = .ok b') (b : β) : ∃ b', as.foldlM f b = .ok b' := by
  induction as generalizing b with
  | nil => exact ⟨b, rfl⟩
  | cons a as ih =>
    obtain ⟨next, hnext⟩ := h b a List.mem_cons_self
    obtain ⟨b', hb'⟩ := ih (fun b a' ha' => h b a' (List.mem_cons_of_mem _ ha')) next
    rw [List.foldlM_cons]
    exact ⟨b', bind_eq_ok.2 ⟨next, hnext, hb'⟩⟩

/-- A `foldlM` that fails goes well up to one of its steps. -/
theorem foldlM_eq_error {f : β → α → Except ε β} {as : List α} {b : β} {e : ε}
    (h : as.foldlM f b = .error e) :
    ∃ pre a post b', as = pre ++ a :: post ∧ pre.foldlM f b = .ok b' ∧ f b' a = .error e := by
  induction as generalizing b with
  | nil => cases h
  | cons a as ih =>
    rw [List.foldlM_cons, bind_eq_error] at h
    rcases h with h | ⟨next, hnext, h⟩
    · exact ⟨[], a, as, b, rfl, rfl, h⟩
    · obtain ⟨pre, a', post, b', rfl, hpre, hf⟩ := ih h
      exact ⟨a :: pre, a', post, b', rfl, bind_eq_ok.2 ⟨next, hnext, hpre⟩, hf⟩

/-- A `foldlM` whose steps fail, or not, whatever has come before them fails with the first that
does. -/
theorem foldlM_eq_error_iff {f : β → α → Except ε β} {F : α → ε → Prop} {as : List α} {b : β} {e : ε}
    (hf : ∀ b, ∀ a ∈ as, ∀ e, f b a = .error e ↔ F a e) :
    as.foldlM f b = .error e ↔
      ∃ pre a post, as = pre ++ a :: post ∧ (∀ x ∈ pre, ∀ e, ¬ F x e) ∧ F a e := by
  induction as generalizing b with
  | nil => exact iff_of_false nofun not_split_nil
  | cons a as ih =>
    have hfirst := fun b => hf b a List.mem_cons_self
    have hrest := fun b x hx => hf b x (List.mem_cons_of_mem a hx)
    rw [exists_split_cons, List.foldlM_cons, bind_eq_error, hfirst]
    refine or_congr_right ?_
    constructor
    · rintro ⟨next, hnext, h⟩
      refine ⟨fun e' he' => ?_, (ih hrest).1 h⟩
      cases hnext.symm.trans ((hfirst b e').2 he')
    · rintro ⟨hpass, h⟩
      cases hnext : f b a with
      | error e' => exact absurd ((hfirst b e').1 hnext) (hpass e')
      | ok next => exact ⟨next, rfl, (ih hrest).2 h⟩

/-- What every step of a `foldlM` that ends well says of its item. -/
theorem forall_of_foldlM {P : α → Prop} {f : β → α → Except ε β} {as : List α} {b b' : β}
    (hf : ∀ b a b', f b a = .ok b' → P a) (h : as.foldlM f b = .ok b') : ∀ a ∈ as, P a := by
  induction as generalizing b with
  | nil => simp
  | cons a as ih =>
    rw [List.foldlM_cons] at h
    obtain ⟨next, hnext, hrest⟩ := bind_eq_ok.1 h
    exact List.forall_mem_cons.2 ⟨hf b a next hnext, ih hrest⟩

/-- Two `foldlM` over one list whose steps keep a relation end related. -/
theorem foldlM_related {γ : Type} {R : β → γ → Prop} {f : β → α → Except ε β} {g : γ → α → Except ε' γ}
    {as : List α} {b b' : β} {c c' : γ}
    (hfg : ∀ a ∈ as, ∀ b c b' c', R b c → f b a = .ok b' → g c a = .ok c' → R b' c')
    (hf : as.foldlM f b = .ok b') (hg : as.foldlM g c = .ok c') (h : R b c) : R b' c' := by
  induction as generalizing b c with
  | nil =>
    obtain rfl := pure_eq_ok.1 hf
    obtain rfl := pure_eq_ok.1 hg
    exact h
  | cons a as ih =>
    rw [List.foldlM_cons] at hf hg
    obtain ⟨nextf, hnextf, hf⟩ := bind_eq_ok.1 hf
    obtain ⟨nextg, hnextg, hg⟩ := bind_eq_ok.1 hg
    exact ih (fun a' ha' => hfg a' (List.mem_cons_of_mem a ha')) hf hg
      (hfg a List.mem_cons_self b c nextf nextg h hnextf hnextg)

/-- What a `filterMapM` that ends well has gone through, and what it has kept. -/
theorem mem_of_filterMapM {f : α → Except ε (Option β)} {as : List α} {bs : List β}
    (h : as.filterMapM f = .ok bs) :
    (∀ a ∈ as, ∃ o, f a = .ok o) ∧ ∀ b, b ∈ bs ↔ ∃ a ∈ as, f a = .ok (some b) := by
  induction as generalizing bs with
  | nil =>
    obtain rfl := pure_eq_ok.1 h
    simp
  | cons a as ih =>
    rw [List.filterMapM_cons, bind_eq_ok] at h
    obtain ⟨o, ho, h⟩ := h
    cases o with
    | none =>
      obtain ⟨hok, hmem⟩ := ih h
      refine ⟨List.forall_mem_cons.2 ⟨⟨_, ho⟩, hok⟩, fun b => ?_⟩
      simp [hmem, ho]
    | some b' =>
      obtain ⟨rest, hrest, h⟩ := bind_eq_ok.1 h
      obtain rfl := pure_eq_ok.1 h
      obtain ⟨hok, hmem⟩ := ih hrest
      refine ⟨List.forall_mem_cons.2 ⟨⟨_, ho⟩, hok⟩, fun b => ?_⟩
      simp [hmem, ho, eq_comm]

/-- The fault of a `filterMapM` is that of some step. -/
theorem mem_of_filterMapM_error {f : α → Except ε (Option β)} {as : List α} {e : ε}
    (h : as.filterMapM f = .error e) : ∃ a ∈ as, f a = .error e := by
  induction as with
  | nil => cases h
  | cons a as ih =>
    rw [List.filterMapM_cons] at h
    rcases bind_eq_error.1 h with h | ⟨o, -, h⟩
    · exact ⟨a, List.mem_cons_self, h⟩
    · have hrest : as.filterMapM f = .error e := by
        cases o with
        | none => exact h
        | some b =>
          rcases bind_eq_error.1 h with h | ⟨_, -, h⟩
          · exact h
          · cases h
      obtain ⟨a', ha', hf⟩ := ih hrest
      exact ⟨a', List.mem_cons_of_mem a ha', hf⟩

/-- A `filterMapM` fails exactly if some step of it does. -/
theorem filterMapM_eq_error {f : α → Except ε (Option β)} {as : List α} :
    (∃ e, as.filterMapM f = .error e) ↔ ∃ a ∈ as, ∃ e, f a = .error e := by
  constructor
  · rintro ⟨e, h⟩
    obtain ⟨a, ha, hf⟩ := mem_of_filterMapM_error h
    exact ⟨a, ha, e, hf⟩
  · rintro ⟨a, ha, e, hf⟩
    cases h : as.filterMapM f with
    | error e' => exact ⟨e', rfl⟩
    | ok bs =>
      obtain ⟨o, ho⟩ := (mem_of_filterMapM h).1 a ha
      cases hf.symm.trans ho

/-- A `filterMapM` whose steps end well is a `filterMap`. -/
theorem filterMapM_eq_ok {f : α → Except ε (Option β)} {g : α → Option β} {as : List α}
    (h : ∀ a ∈ as, f a = .ok (g a)) : as.filterMapM f = .ok (as.filterMap g) := by
  induction as with
  | nil => rfl
  | cons a as ih =>
    obtain ⟨ha, has⟩ := List.forall_mem_cons.1 h
    rw [List.filterMapM_cons, List.filterMap_cons, bind_eq_ok]
    refine ⟨g a, ha, ?_⟩
    cases g a with
    | none => exact ih has
    | some b => exact bind_eq_ok.2 ⟨_, ih has, rfl⟩

theorem filterMapM_eq_nil {f : α → Except ε (Option β)} {as : List α}
    (h : ∀ a ∈ as, f a = .ok none) : as.filterMapM f = .ok [] := by
  rw [filterMapM_eq_ok (g := fun _ => none) h, List.filterMap_eq_nil_iff.2 fun _ _ => rfl]

end LangId
