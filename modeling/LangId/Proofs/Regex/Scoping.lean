import LangId.Proofs.Regex.Joining
import LangId.Proofs.Regex.Openings

/-!
# Flags for a whole pattern and for a group

Flags that stand at the beginning of a pattern hold for all of it, and those at the beginning of a
group for its content. What is read under flags of the first kind comes to the same under flags of
the second kind, in a group around which there is another one, with two exceptions: what sets further
flags, and what ends in a comment (`scoped_whole`).
-/
namespace LangId.Regex.Reader

variable {r s : Reader} {n m : Nat} {flags inner on : Flags} {opening setting : List Token}
  {rest : List Token} {top : Bool}

/-! ## Openings -/

/-- Tokens behind a parenthesis that open a group, with the flags of its content. -/
def Opens (flags inner : Flags) (opening : List Token) : Prop :=
  ∀ n (r : Reader) rest, r.rest = opening ++ rest →
    parenthesis (n + 1) flags r = (enclosed n inner >>= fun p => pure (.part p)) { r with rest }

/-- Tokens behind a parenthesis that set flags for the whole pattern. -/
def Sets (flags on : Flags) (setting : List Token) : Prop :=
  ∀ n (r : Reader) rest, r.rest = setting ++ rest →
    parenthesis (n + 1) flags r = .ok (.flags on, { r with rest })

theorem opens_plain : Opens flags flags [.plain '?', .plain ':'] := by
  rintro n ⟨ts, groups, widths, names, behindGroups, expected, deferred⟩ rest rfl
  rfl

/-! ## A group that is all of a choice -/

/-- No backslash is left alone in a pattern that can be read. -/
theorem not_dangling_of_whole {ts : List Token} {node : Node}
    (h : whole flags { rest := ts } = .ok (node, s)) : .dangling ∉ ts := by
  rw [whole_eq] at h
  obtain ⟨⟨⟨p, all⟩, u⟩, halternatives, hfinish⟩ := LangId.bind_eq_ok.1 h
  obtain ⟨-, hrest, -, -, -, rfl⟩ := finish_eq_ok.1 hfinish
  obtain ⟨first, others, v, hfirst, hothers, -⟩ := alternatives_eq_ok.1 halternatives
  have hfirst := later_sequence (sound_start ts) hfirst
  have hothers := later_moreAlternatives (hfirst.sound (sound_start ts)) hothers
  intro hmem
  have hend := (hfirst.trans hothers).dangling hmem
  rw [hrest] at hend
  exact List.not_mem_nil hend

/-- A group that is all of a choice leaves its content. -/
theorem alternatives_group {p : Part} (h : Opens flags inner opening)
    (hrest : r.rest = .plain '(' :: (opening ++ rest))
    (hp : enclosed n inner { r with rest } = .ok (p, s))
    (hend : s.rest.head? = none ∨ s.rest.head? = some (.plain ')')) :
    alternatives (n + 3) flags top r = .ok ((.seqAll [p], flags), s) := by
  have hturn : turn (n + 1) flags top [] (.plain '(') { r with rest := opening ++ rest } =
      .ok ((flags, [p]), s) := by
    rw [turn_parenthesis, bind_apply, h n _ rest rfl, bind_of_ok hp]
    rfl
  have hatEnd : s.AtEnd := hend.imp_right .inr
  have hbar : s.rest.head? ≠ some (.plain '|') := by rcases hend with h | h <;> simp [h]
  refine alternatives_eq_ok.2 ⟨.seqAll [p], [], s, ?_, ?_, rfl⟩
  · rw [sequence_turn hrest (by decide) (by decide), bind_of_ok hturn]
    exact (sequence_of_atEnd hatEnd).2 ⟨Nat.succ_pos n, rfl, rfl⟩
  · exact (moreAlternatives_of_noBar hbar).2 ⟨Nat.succ_pos _, rfl, rfl⟩

theorem alternatives_group_error {x : Error} (h : Opens flags inner opening)
    (hrest : r.rest = .plain '(' :: (opening ++ rest))
    (hx : enclosed n inner { r with rest } = .error x) :
    alternatives (n + 3) flags top r = .error x := by
  have hturn : turn (n + 1) flags top [] (.plain '(') { r with rest := opening ++ rest } =
      .error x := by
    rw [turn_parenthesis, bind_apply, h n _ rest rfl, bind_of_error hx]
    rfl
  have hsequence : sequence (n + 2) flags top [] r = .error x := by
    rw [sequence_turn hrest (by decide) (by decide), bind_of_error hturn]
  rw [alternatives, bind_of_error hsequence]

theorem enclosed_of_open {p : Part} {all : Flags}
    (h : alternatives n flags false r = .ok ((p, all), s)) (hs : s.rest = []) :
    enclosed (n + 1) flags r = .error (.malformed .openParenthesis) := by
  have hclose : closeParenthesis s = .error (.malformed .openParenthesis) := by
    rw [closeParenthesis, bind_apply, accept_apply, hs]
    rfl
  rw [enclosed, bind_of_ok h]
  dsimp only
  rw [bind_of_error hclose]

theorem enclosed_of_error {x : Error} (h : alternatives n flags false r = .error x) :
    enclosed (n + 1) flags r = .error x := by
  rw [enclosed, bind_of_error h]

/-! ## A group in a group -/

/-- The tokens of a group that is all of another group, with what opens it and its content. -/
def inGroups (opening body : List Token) : List Token :=
  .plain '(' :: .plain '?' :: .plain ':' :: .plain '(' :: (opening ++ (body ++ closers 1))

section inGroups

variable {body : List Token}

/-- The parentheses behind the content close both groups. -/
theorem whole_inGroups (h : Opens flags inner opening) {p : Part} {all : Flags}
    (hp : alternatives (4 * (inGroups opening body).length) inner false
      (within { rest := body } 1) = .ok ((p, all), s.within 1)) (hs : s.rest = []) :
    whole flags { rest := inGroups opening body } = finish flags p.node s := by
  obtain ⟨ts, groups, widths, names, behindGroups, expected, deferred⟩ := s
  obtain rfl := hs
  have hscoped : enclosed (4 * (inGroups opening body).length + 1) inner _ =
      .ok ({ p with kind := .other }, _) := enclosed_of_alternatives hp rfl
  have hplain : enclosed (4 * (inGroups opening body).length + 5) flags
      { rest := .plain '(' :: (opening ++ (body ++ closers 1)) } = .ok (_, _) :=
    enclosed_of_alternatives (alternatives_group h rfl hscoped (.inr rfl)) rfl
  rw [whole_eq, alternatives_group opens_plain rfl hplain (.inl rfl)]
  rfl

theorem whole_inGroups_error (h : Opens flags inner opening) {x : Error}
    (hx : enclosed (4 * (inGroups opening body).length + 1) inner (within { rest := body } 1) =
      .error x) : whole flags { rest := inGroups opening body } = .error x := by
  have hplain : enclosed (4 * (inGroups opening body).length + 5) flags
      { rest := .plain '(' :: (opening ++ (body ++ closers 1)) } = .error x :=
    enclosed_of_error (alternatives_group_error h rfl hx)
  rw [whole_eq, alternatives_group_error opens_plain rfl hplain]
  rfl

/-! ## Flags for the whole pattern -/

theorem alternatives_sets (h : Sets flags on setting) {p : Part} {all : Flags} :
    alternatives (n + 3) flags true { rest := .plain '(' :: (setting ++ body) } =
        .ok ((p, all), s) ↔
      ∃ first others u,
        sequence (n + 1) (flags.union on) true [] { rest := body } = .ok ((first, all), u) ∧
          moreAlternatives (n + 2) all u = .ok (others, s) ∧
          p = if others.isEmpty then first else .altAll (first :: others) := by
  have hturn : turn (n + 1) flags true [] (.plain '(') { rest := setting ++ body } =
      .ok ((flags.union on, []), { rest := body }) := by
    rw [turn_parenthesis, bind_of_ok (h n _ body rfl)]
    rfl
  have hsequence : sequence (n + 2) flags true []
      { rest := .plain '(' :: (setting ++ body) } =
        sequence (n + 1) (flags.union on) true [] { rest := body } := by
    rw [sequence_turn rfl (by decide) (by decide), bind_of_ok hturn]
  rw [alternatives_eq_ok, hsequence]

theorem finish_stray {t : Token} (hflags : (flags.ascii && flags.unicode) = false)
    (hrest : r.rest = t :: rest) (node : Node) :
    finish flags node r = .error (.malformed .strayParenthesis) := by
  obtain ⟨ts, groups, widths, names, behindGroups, expected, deferred⟩ := r
  obtain rfl := hrest
  simp only [finish, hflags]
  rfl

/-- Flags that come next come too late in a group. -/
theorem late_alternatives (h : Sets flags on setting) {p : Part} {all : Flags}
    (halone : alternatives (n + 3) flags true { rest := .plain '(' :: (setting ++ body) } =
      .ok ((p, all), s)) (hlate : SetsFlags (flags.union on).verbose body) (hnm : n ≤ m) (k : Nat) :
    alternatives (m + 3) (flags.union on) false (within { rest := body } k) =
      .error (.malformed .lateFlags) := by
  obtain ⟨first, others, u, hfirst, -, -⟩ := (alternatives_sets h).1 halone
  have hsequence := (opens_sequence (sound_start body) hfirst).1 hlate (m + 2) k (by omega)
  rw [alternatives, bind_of_error hsequence]

/-- Without such flags, what is read on its own comes to the same at the end of groups, and so does the
content of a group. -/
theorem ends_alternatives (h : Sets flags on setting) {p : Part} {all : Flags}
    (halone : alternatives (n + 3) flags true { rest := .plain '(' :: (setting ++ body) } =
      .ok ((p, all), s)) (hlate : ¬SetsFlags (flags.union on).verbose body) :
    Closes (flags.union on).verbose s fun last => ∀ m k, n ≤ m →
      alternatives (m + 3) flags true { rest := .plain '(' :: (setting ++ (body ++ closers k)) } =
          .ok ((p, all), last k) ∧
        alternatives (m + 3) (flags.union on) false (within { rest := body } k) =
          .ok ((p, all), last k) := by
  obtain ⟨first, others, u, hfirst, hothers, hp⟩ := (alternatives_sets h).1 halone
  have hsound := sound_start body
  have hinside := (opens_sequence hsound hfirst).2 hlate
  obtain rfl : all = flags.union on := keeps_sequence (.inl rfl) _ _ _ hinside
  have hu : u.Sound := (later_sequence hsound hinside).sound hsound
  refine (ends_choices hsound hinside hothers (ends_moreAlternatives hu hothers)).imp
    fun last hlast m k hnm => ⟨?_, ?_⟩
  · obtain ⟨v, hv, hmore⟩ := hlast (m + 1) (m + 2) true k (by omega) (by omega)
    exact (alternatives_sets h).2 ⟨first, others, v, hv, hmore, hp⟩
  · obtain ⟨v, hv, hmore⟩ := hlast (m + 2) (m + 2) false k (by omega) (by omega)
    exact alternatives_eq_ok.2 ⟨first, others, v, hv, hmore, hp⟩

/-- **Scoping.** A pattern that begins with flags, read on its own and with the same flags for a group:
flags that come next come too late in a group, and a comment that the pattern ends with takes the
parentheses that close the groups, as it takes one that stands behind the pattern on its own. Every
other pattern is read as it is on its own. -/
theorem scoped_whole (hsets : Sets flags on setting) (hopens : Opens flags (flags.union on) opening)
    (hlength : setting.length ≤ opening.length) (hflags : (flags.ascii && flags.unicode) = false)
    {node : Node} (h : whole flags { rest := .plain '(' :: (setting ++ body) } = .ok (node, s)) :
    (SetsFlags (flags.union on).verbose body →
      whole flags { rest := inGroups opening body } = .error (.malformed .lateFlags)) ∧
    (¬SetsFlags (flags.union on).verbose body →
      whole flags { rest := .plain '(' :: (setting ++ (body ++ closers 0)) } =
          .error (.malformed .strayParenthesis) ∧
        whole flags { rest := inGroups opening body } = .ok (node, s) ∨
      (flags.union on).verbose = true ∧
        whole flags { rest := .plain '(' :: (setting ++ (body ++ closers 0)) } = .ok (node, s) ∧
        whole flags { rest := inGroups opening body } = .error (.malformed .openParenthesis)) := by
  rw [whole_eq] at h
  obtain ⟨⟨⟨p, all⟩, u⟩, halone, hfinish⟩ := LangId.bind_eq_ok.1 h
  obtain ⟨hall, hrest, hexpected, hdeferred, rfl, rfl⟩ := finish_eq_ok.1 hfinish
  -- the bound on the content of the groups
  obtain ⟨m, hm⟩ : ∃ m, 4 * (inGroups opening body).length = m + 3 :=
    ⟨4 * (inGroups opening body).length - 3, by simp only [inGroups, List.length_cons]; omega⟩
  have hle : 4 * (Token.plain '(' :: (setting ++ body)).length + 5 ≤ m := by
    simp only [inGroups, closers, List.length_cons, List.length_append,
      List.length_replicate] at hm ⊢
    omega
  refine ⟨fun hlate => ?_, fun hlate => ?_⟩
  · have hcontent := late_alternatives hsets halone hlate hle 1
    exact whole_inGroups_error hopens (hm ▸ enclosed_of_error hcontent)
  have hprobe : 4 * (Token.plain '(' :: (setting ++ body)).length + 5 ≤
      4 * (Token.plain '(' :: (setting ++ body)).length + 9 := by omega
  have hbound : 4 * (Token.plain '(' :: (setting ++ (body ++ closers 0))).length + 8 =
      4 * (Token.plain '(' :: (setting ++ body)).length + 9 + 3 := by
    simp only [closers, List.length_cons, List.length_append, List.length_replicate]
    omega
  rcases ends_alternatives hsets halone hlate with hleaves | ⟨hverbose, -, htakes⟩
  · refine .inl ⟨?_, ?_⟩
    · have hstray : (s.within 0).rest = [.plain ')'] := by
        rw [within, show s.rest = [] from hrest]
        rfl
      rw [whole_eq, hbound, (hleaves _ 0 hprobe).1]
      exact finish_stray hall hstray _
    · rw [whole_inGroups hopens (hm ▸ (hleaves m 1 hle).2) hrest]
      exact finish_eq_ok.2 ⟨hflags, hrest, hexpected, hdeferred, rfl, rfl⟩
  · refine .inr ⟨hverbose, ?_, ?_⟩
    · rw [whole_eq, hbound, (htakes _ 0 hprobe).1]
      exact hfinish
    · have hcontent := (htakes m 1 hle).2
      exact whole_inGroups_error hopens (hm ▸ enclosed_of_open hcontent hrest)

end inGroups

end LangId.Regex.Reader
