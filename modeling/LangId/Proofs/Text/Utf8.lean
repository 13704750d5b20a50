import LangId.Text.Utf8

/-!
# Octets of characters

The machine that reads UTF-8 and the octets that are written for characters belong together: a text is
read from its octets and from no others (`decode?_eq_some_iff`). Both directions go through
`Spells`, which says of some octets, by the bounds that the machine puts on them, what character they
are.

Where octets break off within a character, one replacement character stands for what is left of it
(`decodeLossy_take_encode`).
-/
namespace LangId.Text.Utf8

variable {b : UInt8} {bs bytes : List UInt8} {p : Pending} {c : Char} {d : Decoder} {s w : List Char}

/-- The octets that end a character that has begun. -/
inductive Continues : Pending → List UInt8 → Char → Prop where
  | last {p : Pending} {b : UInt8} {c : Char} : p.low ≤ b.toNat → b.toNat ≤ p.high → p.due = 0 →
      Char.ofNat (p.value * 64 + (b.toNat - 0x80)) = c → Continues p [b] c
  | more {p : Pending} {b : UInt8} {due : Nat} {bs : List UInt8} {c : Char} :
      p.low ≤ b.toNat → b.toNat ≤ p.high → p.due = due + 1 →
      Continues ⟨p.value * 64 + (b.toNat - 0x80), due, 0x80, 0xBF⟩ bs c → Continues p (b :: bs) c

/-- The octets of one character. -/
inductive Spells : List UInt8 → Char → Prop where
  | whole {b : UInt8} {c : Char} : lead b = .whole c → Spells [b] c
  | start {b : UInt8} {p : Pending} {bs : List UInt8} {c : Char} : lead b = .start p →
      Continues p bs c → Spells (b :: bs) c

/-! ## First octets -/

theorem lead_one (h : b.toNat < 0x80) : lead b = .whole (Char.ofNat b.toNat) := by
  rw [lead]
  simp only [if_pos h]

theorem lead_two (h : 0xC2 ≤ b.toNat) (h' : b.toNat < 0xE0) :
    lead b = .start ⟨b.toNat - 0xC0, 0, 0x80, 0xBF⟩ := by
  rw [lead]
  simp only [if_neg (show ¬b.toNat < 0x80 by omega), if_neg (show ¬b.toNat < 0xC2 by omega),
    if_pos h']

theorem lead_three (h : 0xE0 ≤ b.toNat) (h' : b.toNat < 0xF0) :
    lead b = .start ⟨b.toNat - 0xE0, 1, if b.toNat = 0xE0 then 0xA0 else 0x80,
      if b.toNat = 0xED then 0x9F else 0xBF⟩ := by
  rw [lead]
  simp only [if_neg (show ¬b.toNat < 0x80 by omega), if_neg (show ¬b.toNat < 0xC2 by omega),
    if_neg (show ¬b.toNat < 0xE0 by omega), if_pos h', beq_iff_eq]

theorem lead_four (h : 0xF0 ≤ b.toNat) (h' : b.toNat < 0xF5) :
    lead b = .start ⟨b.toNat - 0xF0, 2, if b.toNat = 0xF0 then 0x90 else 0x80,
      if b.toNat = 0xF4 then 0x8F else 0xBF⟩ := by
  rw [lead]
  simp only [if_neg (show ¬b.toNat < 0x80 by omega), if_neg (show ¬b.toNat < 0xC2 by omega),
    if_neg (show ¬b.toNat < 0xE0 by omega), if_neg (show ¬b.toNat < 0xF0 by omega), if_pos h',
    beq_iff_eq]

/-- What a first octet says, by its number. -/
theorem lead_cases (b : UInt8) :
    b.toNat < 0x80 ∧ lead b = .whole (Char.ofNat b.toNat) ∨
    (0xC2 ≤ b.toNat ∧ b.toNat < 0xE0) ∧ lead b = .start ⟨b.toNat - 0xC0, 0, 0x80, 0xBF⟩ ∨
    (0xE0 ≤ b.toNat ∧ b.toNat < 0xF0) ∧ lead b = .start ⟨b.toNat - 0xE0, 1,
      if b.toNat = 0xE0 then 0xA0 else 0x80, if b.toNat = 0xED then 0x9F else 0xBF⟩ ∨
    (0xF0 ≤ b.toNat ∧ b.toNat < 0xF5) ∧ lead b = .start ⟨b.toNat - 0xF0, 2,
      if b.toNat = 0xF0 then 0x90 else 0x80, if b.toNat = 0xF4 then 0x8F else 0xBF⟩ ∨
    lead b = .invalid := by
  by_cases hone : b.toNat < 0x80
  · exact .inl ⟨hone, lead_one hone⟩
  by_cases htwo : 0xC2 ≤ b.toNat ∧ b.toNat < 0xE0
  · exact .inr (.inl ⟨htwo, lead_two htwo.1 htwo.2⟩)
  by_cases hthree : 0xE0 ≤ b.toNat ∧ b.toNat < 0xF0
  · exact .inr (.inr (.inl ⟨hthree, lead_three hthree.1 hthree.2⟩))
  by_cases hfour : 0xF0 ≤ b.toNat ∧ b.toNat < 0xF5
  · exact .inr (.inr (.inr (.inl ⟨hfour, lead_four hfour.1 hfour.2⟩)))
  refine .inr (.inr (.inr (.inr ?_)))
  rw [lead]
  by_cases hlow : b.toNat < 0xC2
  · simp only [if_neg hone, if_pos hlow]
  · simp only [if_neg hone, if_neg hlow, if_neg (show ¬b.toNat < 0xE0 by omega),
      if_neg (show ¬b.toNat < 0xF0 by omega), if_neg (show ¬b.toNat < 0xF5 by omega)]

/-! ## What is written for a character is read as this character -/

theorem toNat_toUInt8 {n : Nat} (h : n < 256) : n.toUInt8.toNat = n := by
  rw [Nat.toUInt8, UInt8.toNat_ofNat']
  omega

theorem spells_encodeChar (c : Char) : Spells (encodeChar c) c := by
  have hvalid : c.toNat < 0xD800 ∨ 0xDFFF < c.toNat ∧ c.toNat < 0x110000 := c.valid
  have hchar : Char.ofNat c.toNat = c := Char.ofNat_toNat c
  rw [encodeChar]
  generalize c.toNat = n at hvalid hchar
  have hlast : (0x80 + n % 64).toUInt8.toNat = 0x80 + n % 64 := toNat_toUInt8 (by omega)
  split
  · have hfirst : n.toUInt8.toNat = n := toNat_toUInt8 (by omega)
    refine .whole ((lead_one (by omega)).trans ?_)
    rw [hfirst, hchar]
  have hmiddle : (0x80 + n / 64 % 64).toUInt8.toNat = 0x80 + n / 64 % 64 :=
    toNat_toUInt8 (by omega)
  split
  · have hfirst : (0xC0 + n / 64).toUInt8.toNat = 0xC0 + n / 64 := toNat_toUInt8 (by omega)
    refine .start (lead_two (by omega) (by omega)) (.last ?_ ?_ rfl ?_)
    · dsimp only; omega
    · dsimp only; omega
    · refine (congrArg Char.ofNat ?_).trans hchar
      simp only [hfirst, hlast]
      omega
  split
  · have hfirst : (0xE0 + n / 4096).toUInt8.toNat = 0xE0 + n / 4096 := toNat_toUInt8 (by omega)
    refine .start (lead_three (by omega) (by omega)) (.more ?_ ?_ rfl (.last ?_ ?_ rfl ?_))
    · dsimp only; split <;> omega
    · dsimp only; split <;> omega
    · dsimp only; omega
    · dsimp only; omega
    · refine (congrArg Char.ofNat ?_).trans hchar
      simp only [hfirst, hmiddle, hlast]
      omega
  · have hfirst : (0xF0 + n / 262144).toUInt8.toNat = 0xF0 + n / 262144 :=
      toNat_toUInt8 (by omega)
    have hsecond : (0x80 + n / 4096 % 64).toUInt8.toNat = 0x80 + n / 4096 % 64 :=
      toNat_toUInt8 (by omega)
    refine .start (lead_four (by omega) (by omega))
      (.more ?_ ?_ rfl (.more ?_ ?_ rfl (.last ?_ ?_ rfl ?_)))
    · dsimp only; split <;> omega
    · dsimp only; split <;> omega
    · dsimp only; omega
    · dsimp only; omega
    · dsimp only; omega
    · dsimp only; omega
    · refine (congrArg Char.ofNat ?_).trans hchar
      simp only [hfirst, hsecond, hmiddle, hlast]
      omega

/-! ## Only these octets are -/

theorem toUInt8_of_toNat {n : Nat} (h : n = b.toNat) : n.toUInt8 = b := by
  rw [h]
  exact UInt8.ofNat_toNat

theorem toNat_ofNat {n : Nat} (h : n < 0xD800 ∨ 0xDFFF < n ∧ n < 0x110000) :
    (Char.ofNat n).toNat = n := by
  rw [Char.ofNat, dif_pos h]
  rfl

theorem continues_zero {v low high : Nat} (h : Continues ⟨v, 0, low, high⟩ bs c) :
    ∃ b : UInt8, bs = [b] ∧ low ≤ b.toNat ∧ b.toNat ≤ high ∧
      Char.ofNat (v * 64 + (b.toNat - 0x80)) = c := by
  cases h with
  | last hlow hhigh _ hc => exact ⟨_, rfl, hlow, hhigh, hc⟩
  | more _ _ hdue _ => cases hdue

theorem continues_succ {v due low high : Nat} (h : Continues ⟨v, due + 1, low, high⟩ bs c) :
    ∃ b rest, bs = b :: rest ∧ low ≤ b.toNat ∧ b.toNat ≤ high ∧
      Continues ⟨v * 64 + (b.toNat - 0x80), due, 0x80, 0xBF⟩ rest c := by
  cases h with
  | last _ _ hdue _ => cases hdue
  | more hlow hhigh hdue hrest =>
    obtain rfl := Nat.succ.inj hdue
    exact ⟨_, _, rfl, hlow, hhigh, hrest⟩

/-- The octets of a character can be read off it. -/
theorem encodeChar_of_spells (h : Spells bs c) : encodeChar c = bs := by
  cases h with
  | @whole b c hlead =>
    rcases lead_cases b with ⟨hone, hl⟩ | ⟨-, hl⟩ | ⟨-, hl⟩ | ⟨-, hl⟩ | hl
    · obtain rfl := Lead.whole.inj (hl.symm.trans hlead)
      rw [encodeChar, toNat_ofNat (by omega), if_pos hone, toUInt8_of_toNat rfl]
    · cases hl.symm.trans hlead
    · cases hl.symm.trans hlead
    · cases hl.symm.trans hlead
    · cases hl.symm.trans hlead
  | @start b p bs c hlead hrest =>
    rcases lead_cases b with ⟨-, hl⟩ | ⟨htwo, hl⟩ | ⟨hthree, hl⟩ | ⟨hfour, hl⟩ | hl
    · cases hl.symm.trans hlead
    · obtain rfl := Lead.start.inj (hl.symm.trans hlead)
      obtain ⟨x, rfl, hlow, hhigh, rfl⟩ := continues_zero hrest
      rw [encodeChar, toNat_ofNat (by omega), if_neg (by omega), if_pos (by omega),
        toUInt8_of_toNat (b := b) (by omega), toUInt8_of_toNat (b := x) (by omega)]
    · obtain rfl := Lead.start.inj (hl.symm.trans hlead)
      obtain ⟨x, rest, rfl, hlow, hhigh, hrest⟩ := continues_succ hrest
      obtain ⟨y, rfl, hlow', hhigh', rfl⟩ := continues_zero hrest
      -- neither over-long forms nor surrogates
      have hx : 0x80 ≤ x.toNat ∧ x.toNat ≤ 0xBF ∧ (b.toNat = 0xE0 → 0xA0 ≤ x.toNat) ∧
          (b.toNat = 0xED → x.toNat ≤ 0x9F) := by
        split at hlow <;> split at hhigh <;> omega
      clear hlow hhigh
      rw [encodeChar, toNat_ofNat (by omega), if_neg (by omega), if_neg (by omega),
        if_pos (by omega), toUInt8_of_toNat (b := b) (by omega), toUInt8_of_toNat (b := x) (by omega),
        toUInt8_of_toNat (b := y) (by omega)]
    · obtain rfl := Lead.start.inj (hl.symm.trans hlead)
      obtain ⟨x, rest, rfl, hlow, hhigh, hrest⟩ := continues_succ hrest
      obtain ⟨y, rest, rfl, hlow', hhigh', hrest⟩ := continues_succ hrest
      obtain ⟨z, rfl, hlow'', hhigh'', rfl⟩ := continues_zero hrest
      -- neither over-long forms nor values past the last character
      have hx : 0x80 ≤ x.toNat ∧ x.toNat ≤ 0xBF ∧ (b.toNat = 0xF0 → 0x90 ≤ x.toNat) ∧
          (b.toNat = 0xF4 → x.toNat ≤ 0x8F) := by
        split at hlow <;> split at hhigh <;> omega
      clear hlow hhigh
      rw [encodeChar, toNat_ofNat (by omega), if_neg (by omega), if_neg (by omega),
        if_neg (by omega), toUInt8_of_toNat (b := b) (by omega), toUInt8_of_toNat (b := x) (by omega),
        toUInt8_of_toNat (b := y) (by omega), toUInt8_of_toNat (b := z) (by omega)]
    · cases hl.symm.trans hlead

/-! ## Runs of the machine -/

theorem step_of_continues (hlow : p.low ≤ b.toNat) (hhigh : b.toNat ≤ p.high) {k : Bool} :
    Decoder.step ⟨some p, w, k⟩ b = match p.due with
      | 0 => ⟨none, Char.ofNat (p.value * 64 + (b.toNat - 0x80)) :: w, k⟩
      | due + 1 => ⟨some ⟨p.value * 64 + (b.toNat - 0x80), due, 0x80, 0xBF⟩, w, k⟩ := by
  have hrange : (decide (p.low ≤ b.toNat) && decide (b.toNat ≤ p.high)) = true := by
    simp [hlow, hhigh]
  cases hdue : p.due <;> simp only [Decoder.step, hrange, if_true, hdue]

theorem foldl_continues (h : Continues p bs c) (k : Bool) :
    bs.foldl Decoder.step ⟨some p, w, k⟩ = ⟨none, c :: w, k⟩ := by
  induction h with
  | last hlow hhigh hdue hc => rw [List.foldl_cons, step_of_continues hlow hhigh, hdue, ← hc]; rfl
  | more hlow hhigh hdue _ ih => rw [List.foldl_cons, step_of_continues hlow hhigh, hdue]; exact ih

/-- Octets that break off leave a character begun. -/
theorem foldl_take_continues (h : Continues p bs c) (k : Bool) {i : Nat} (hi : i < bs.length) :
    ∃ q, (bs.take i).foldl Decoder.step ⟨some p, w, k⟩ = ⟨some q, w, k⟩ := by
  induction h generalizing i with
  | last =>
    obtain rfl : i = 0 := by simpa using hi
    exact ⟨_, rfl⟩
  | more hlow hhigh hdue _ ih =>
    cases i with
    | zero => exact ⟨_, rfl⟩
    | succ i =>
      rw [List.take_succ_cons, List.foldl_cons, step_of_continues hlow hhigh, hdue]
      exact ih (Nat.lt_of_succ_lt_succ hi)

theorem foldl_spells (h : Spells bs c) (k : Bool) :
    bs.foldl Decoder.step ⟨none, w, k⟩ = ⟨none, c :: w, k⟩ := by
  cases h with
  | whole hlead => simp [Decoder.step, Decoder.begin, hlead]
  | start hlead hrest =>
    simp only [List.foldl_cons, Decoder.step, Decoder.begin, hlead]
    exact foldl_continues hrest k

theorem foldl_take_spells (h : Spells bs c) (k : Bool) {i : Nat} (hpos : 0 < i)
    (hi : i < bs.length) : ∃ q, (bs.take i).foldl Decoder.step ⟨none, w, k⟩ = ⟨some q, w, k⟩ := by
  obtain ⟨i, rfl⟩ := Nat.exists_eq_add_of_le' hpos
  cases h with
  | whole hlead => simp at hi
  | start hlead hrest =>
    simp only [List.take_succ_cons, List.foldl_cons, Decoder.step, Decoder.begin, hlead]
    exact foldl_take_continues hrest k (Nat.lt_of_succ_lt_succ hi)

theorem foldl_encode (s : List Char) (k : Bool) :
    (encode s).foldl Decoder.step ⟨none, w, k⟩ = ⟨none, s.reverse ++ w, k⟩ := by
  induction s generalizing w with
  | nil => rfl
  | cons c s ih =>
    rw [encode, List.flatMap_cons, List.foldl_append, foldl_spells (spells_encodeChar c)]
    exact ih.trans (by simp)

/-! ## Octets that can be read throughout -/

theorem clean_step (h : (d.step b).clean = true) : d.clean = true := by
  unfold Decoder.step Decoder.begin at h
  split at h
  · split at h <;> simp_all
  · split at h
    · split at h <;> exact h
    · split at h <;> cases h

theorem clean_foldl (h : (bytes.foldl Decoder.step d).clean = true) : d.clean = true := by
  induction bytes generalizing d with
  | nil => exact h
  | cons b bytes ih => exact clean_step (ih h)

theorem clean_finish (h : d.finish.clean = true) : d.clean = true ∧ d.pending = none := by
  unfold Decoder.finish at h
  split at h
  · exact ⟨h, ‹_›⟩
  · cases h

/-- What follows a character that has begun ends it, if all can be read. -/
theorem exists_continues (h : (bytes.foldl Decoder.step ⟨some p, w, true⟩).finish.clean = true) :
    ∃ bs rest c, bytes = bs ++ rest ∧ Continues p bs c := by
  induction bytes generalizing p with
  | nil => cases (clean_finish h).2
  | cons b bytes ih =>
    rw [List.foldl_cons] at h
    by_cases hrange : p.low ≤ b.toNat ∧ b.toNat ≤ p.high
    · rw [step_of_continues hrange.1 hrange.2] at h
      cases hdue : p.due with
      | zero => exact ⟨[b], bytes, _, rfl, .last hrange.1 hrange.2 hdue rfl⟩
      | succ due =>
        rw [hdue] at h
        obtain ⟨bs, rest, c, rfl, hrest⟩ := ih h
        exact ⟨b :: bs, rest, c, rfl, .more hrange.1 hrange.2 hdue hrest⟩
    · have hclean := clean_foldl (clean_finish h).1
      have hout : (decide (p.low ≤ b.toNat) && decide (b.toNat ≤ p.high)) = false := by
        simpa using hrange
      rw [Decoder.step] at hclean
      simp only [hout, Bool.false_eq_true, if_false] at hclean
      unfold Decoder.begin at hclean
      split at hclean <;> cases hclean

theorem exists_spells (hne : bytes ≠ [])
    (h : (bytes.foldl Decoder.step ⟨none, w, true⟩).finish.clean = true) :
    ∃ bs rest c, bytes = bs ++ rest ∧ Spells bs c := by
  obtain ⟨b, bytes, rfl⟩ := List.exists_cons_of_ne_nil hne
  rw [List.foldl_cons, Decoder.step] at h
  simp only [Decoder.begin] at h
  cases hlead : lead b with
  | whole c => exact ⟨[b], bytes, c, rfl, .whole hlead⟩
  | start p =>
    rw [hlead] at h
    obtain ⟨bs, rest, c, rfl, hrest⟩ := exists_continues h
    exact ⟨b :: bs, rest, c, rfl, .start hlead hrest⟩
  | invalid =>
    rw [hlead] at h
    cases clean_foldl (clean_finish h).1

theorem length_pos_of_spells (h : Spells bs c) : 0 < bs.length := by
  cases h <;> exact Nat.succ_pos _

theorem exists_encode (h : (bytes.foldl Decoder.step ⟨none, w, true⟩).finish.clean = true) :
    ∃ s, bytes = encode s := by
  -- on the number of octets, since a character takes several
  induction hlength : bytes.length using Nat.strongRecOn generalizing bytes w with
  | ind length ih =>
    subst hlength
    by_cases hne : bytes = []
    · exact ⟨[], hne⟩
    obtain ⟨bs, rest, c, rfl, hspells⟩ := exists_spells hne h
    rw [List.foldl_append, foldl_spells hspells] at h
    have hshorter : rest.length < (bs ++ rest).length := by
      have := length_pos_of_spells hspells
      rw [List.length_append]
      omega
    obtain ⟨s, rfl⟩ := ih _ hshorter h rfl
    refine ⟨c :: s, ?_⟩
    rw [← encodeChar_of_spells hspells]
    rfl

theorem decode?_encode (s : List Char) : decode? (encode s) = some s := by
  simp [decode?, run, foldl_encode, Decoder.finish]

/-- **Octets and texts.** A text is read from its octets and from no others. -/
theorem decode?_eq_some_iff : decode? bytes = some s ↔ bytes = encode s := by
  refine ⟨fun h => ?_, fun h => h ▸ decode?_encode s⟩
  have hclean : (bytes.foldl Decoder.step ⟨none, [], true⟩).finish.clean = true := by
    unfold decode? at h
    dsimp only at h
    split at h
    · assumption
    · cases h
  obtain ⟨t, rfl⟩ := exists_encode hclean
  rw [Option.some.inj ((decode?_encode t).symm.trans h)]

theorem decodeLossy_encode (s : List Char) : decodeLossy (encode s) = s := by
  simp [decodeLossy, run, foldl_encode, Decoder.finish]

/-! ## Octets that break off -/

theorem encode_append (s t : List Char) : encode (s ++ t) = encode s ++ encode t :=
  List.flatMap_append

theorem encode_singleton (c : Char) : encode [c] = encodeChar c := List.flatMap_singleton _ _

/-- The first octets of a text break off within a character, behind the characters in front of it. -/
structure BreaksOff (s : List Char) (n : Nat) (front : List Char) (c : Char) : Prop where
  text : front ++ [c] <+: s
  behind : (encode front).length < n
  before : n < (encode (front ++ [c])).length

/-- The first octets of a text are those of some characters, or break off behind these. -/
theorem take_encode_cases (s : List Char) (n : Nat) :
    (∃ front, front <+: s ∧ (encode s).take n = encode front) ∨ ∃ front c, BreaksOff s n front c := by
  induction s generalizing n with
  | nil => exact .inl ⟨[], List.nil_prefix, by simp [encode]⟩
  | cons c s ih =>
    have hcons (t : List Char) : encode (c :: t) = encodeChar c ++ encode t :=
      List.flatMap_cons
    by_cases hzero : n = 0
    · exact .inl ⟨[], List.nil_prefix, by simp [hzero, encode]⟩
    by_cases hfits : (encodeChar c).length ≤ n
    · rcases ih (n - (encodeChar c).length) with ⟨front, hfront, htake⟩ | ⟨front, x, hx⟩
      · refine .inl ⟨c :: front, List.cons_prefix_cons.2 ⟨rfl, hfront⟩, ?_⟩
        rw [hcons, hcons, List.take_append, List.take_of_length_le hfits, htake]
      · refine .inr ⟨c :: front, x, List.cons_prefix_cons.2 ⟨rfl, hx.text⟩, ?_, ?_⟩
        · have := hx.behind
          rw [hcons, List.length_append]
          omega
        · have := hx.before
          rw [List.cons_append, hcons, List.length_append]
          omega
    · refine .inr ⟨[], c, List.prefix_append [c] s, by simp [encode]; omega, ?_⟩
      rw [List.nil_append, encode_singleton]
      omega

/-- One character stands for what is left of the one that is broken. -/
theorem decodeLossy_take_encode {n : Nat} {front : List Char} (h : BreaksOff s n front c) :
    decodeLossy ((encode s).take n) = front ++ [replacement] := by
  obtain ⟨rest, rfl⟩ := h.text
  have hbehind := h.behind
  have hbefore := h.before
  rw [encode_append, encode_singleton, List.length_append] at hbefore
  have htake : (encode (front ++ [c] ++ rest)).take n =
      encode front ++ (encodeChar c).take (n - (encode front).length) := by
    rw [encode_append, encode_append, encode_singleton, List.append_assoc, List.take_append,
      List.take_of_length_le (by omega), List.take_append_of_le_length (by omega)]
  obtain ⟨q, hq⟩ := foldl_take_spells (w := front.reverse) (spells_encodeChar c) true
    (i := n - (encode front).length) (by omega) (by omega)
  rw [htake, decodeLossy, run, List.foldl_append, foldl_encode, List.append_nil, hq]
  simp [Decoder.finish]

end LangId.Text.Utf8
