import LangId.Text.Lower

/-!
# Lower-casing twice

No image of the lower-case mapping has another image (`image?_image`), and neither of the two
characters with rules of their own is an image. So a text that has been lower-cased consists of
characters that stay as they are wherever they stand (`isLow_of_mem_lowerChars`), and any text of
such characters, such as a part of a lower-cased text, is its own lower-case form
(`lowerChars_of_isLow`).
-/
namespace LangId.Text

/-! ## The table -/

/-- No image under one segment is in the reach of another one. Where their stretches overlap, the
other one takes every second character, and the images stand between these. -/
def CaseSegment.misses (s t : CaseSegment) : Bool :=
  s.target + (s.last - s.first) < t.first || t.last < s.target ||
    ((s.step == 2 || s.first == s.last) && t.step == 2 && (s.target + t.first) % 2 == 1)

theorem lowerSegments_miss :
    (lowerSegments.toList.all fun s => lowerSegments.toList.all s.misses) = true := by
  decide +kernel

theorem image?_of_misses {s t : CaseSegment} {n m : Nat} (h : s.misses t = true)
    (hm : s.image? n = some m) : t.image? m = none := by
  unfold CaseSegment.image? at hm ⊢
  split at hm
  · rename_i hn
    obtain rfl := Option.some.inj hm
    simp only [Bool.and_eq_true, decide_eq_true_eq, beq_iff_eq] at hn
    obtain ⟨⟨hlow, hhigh⟩, hstep⟩ := hn
    refine if_neg fun hreach => ?_
    simp only [Bool.and_eq_true, decide_eq_true_eq, beq_iff_eq] at hreach
    obtain ⟨⟨hlow', hhigh'⟩, hstep'⟩ := hreach
    simp only [CaseSegment.misses, Bool.or_eq_true, Bool.and_eq_true, decide_eq_true_eq,
      beq_iff_eq] at h
    rcases h with (h | h) | ⟨⟨hs | hs, ht⟩, hodd⟩
    · omega
    · omega
    · rw [hs] at hstep
      rw [ht] at hstep'
      omega
    · rw [ht] at hstep'
      omega
  · cases hm

theorem image?_image {s t : CaseSegment} {n m : Nat} (hs : s ∈ lowerSegments.toList)
    (ht : t ∈ lowerSegments.toList) (hm : s.image? n = some m) : t.image? m = none := by
  have hall := List.all_eq_true.1 lowerSegments_miss s hs
  exact image?_of_misses (List.all_eq_true.1 hall t ht) hm

/-- What a search finds is an image, or what it was asked for. -/
theorem search_cases (table : Array CaseSegment) (n low high rounds : Nat) :
    CaseSegment.search table n low high rounds = n ∨
      ∃ s ∈ table.toList, s.image? n = some (CaseSegment.search table n low high rounds) := by
  induction rounds generalizing low high with
  | zero => exact .inl rfl
  | succ rounds ih =>
    unfold CaseSegment.search
    dsimp only
    split
    · split
      · exact .inl rfl
      · rename_i s hs
        split
        · exact ih _ _
        · split
          · exact ih _ _
          · cases him : s.image? n with
            | none => exact .inl rfl
            | some m =>
              refine .inr ⟨s, ?_, by rw [him, Option.getD_some]⟩
              exact Array.mem_toList_iff.2 (Array.mem_of_getElem? hs)
    · exact .inl rfl

/-- No image is an ASCII capital. -/
theorem lowerSegments_targets :
    (lowerSegments.toList.all fun s => decide (90 < s.target)) = true := by
  decide +kernel

theorem target_le_of_image? {s : CaseSegment} {n m : Nat} (h : s.image? n = some m) :
    s.target ≤ m := by
  unfold CaseSegment.image? at h
  split at h
  · have := Option.some.inj h
    omega
  · cases h

/-- Lower-casing a code point twice is lower-casing it once. -/
theorem lowerCode_lowerCode (n : Nat) : lowerCode (lowerCode n) = lowerCode n := by
  by_cases hascii : n < 128
  · by_cases hcapital : (65 ≤ n && n ≤ 90) = true
    · have hn : lowerCode n = n + 32 := by rw [lowerCode, if_pos hascii, if_pos hcapital]
      simp only [Bool.and_eq_true, decide_eq_true_eq] at hcapital
      rw [hn, lowerCode, if_pos (by omega), if_neg (by simp; omega)]
    · have hn : lowerCode n = n := by rw [lowerCode, if_pos hascii, if_neg hcapital]
      rw [hn, hn]
  · have hn : lowerCode n = CaseSegment.search lowerSegments n 0 lowerSegments.size
        (lowerSegments.size.log2 + 1) := if_neg hascii
    rcases search_cases lowerSegments n 0 lowerSegments.size (lowerSegments.size.log2 + 1) with
      hsame | ⟨s, hs, him⟩
    · have hn := hn.trans hsame
      rw [hn, hn]
    · rw [← hn] at him
      generalize lowerCode n = m at him ⊢
      have htarget : 90 < s.target :=
        of_decide_eq_true (List.all_eq_true.1 lowerSegments_targets s hs)
      have hle := target_le_of_image? him
      unfold lowerCode
      split
      · rw [if_neg (by simp; omega)]
      · rcases search_cases lowerSegments m 0 lowerSegments.size (lowerSegments.size.log2 + 1) with
          hsame | ⟨t, ht, him'⟩
        · exact hsame
        · rw [image?_image hs ht him] at him'
          cases him'

/-! ## Texts -/

/-- A character that lower-casing leaves as it is, wherever it stands. -/
def IsLow (c : Char) : Prop := lowerCode c.toNat = c.toNat

instance (c : Char) : Decidable (IsLow c) := inferInstanceAs (Decidable (_ = _))

theorem isLow_ofNat_lowerCode (n : Nat) : IsLow (Char.ofNat (lowerCode n)) := by
  unfold IsLow
  have h := lowerCode_lowerCode n
  generalize lowerCode n = m at h ⊢
  by_cases hvalid : m.isValidChar
  · rw [Char.ofNat, dif_pos hvalid]
    exact h
  · rw [Char.ofNat, dif_neg hvalid]
    rfl

theorem isLow_of_mem_lowerAfter {before s : List Char} {c : Char} (h : c ∈ lowerAfter before s) :
    IsLow c := by
  induction s generalizing before with
  | nil => cases h
  | cons d rest ih =>
    rw [lowerAfter] at h
    split at h
    · rcases List.mem_cons.1 h with rfl | h
      · exact isLow_ofNat_lowerCode _
      · exact ih h
    split at h
    · rcases List.mem_cons.1 h with rfl | h
      · split
        · decide +kernel
        · decide +kernel
      · exact ih h
    split at h
    · rcases List.mem_cons.1 h with rfl | h
      · decide
      rcases List.mem_cons.1 h with rfl | h
      · decide +kernel
      · exact ih h
    · rcases List.mem_cons.1 h with rfl | h
      · exact isLow_ofNat_lowerCode _
      · exact ih h

/-- A text that has been lower-cased holds nothing else. -/
theorem isLow_of_mem_lowerChars {s : List Char} {c : Char} (h : c ∈ lowerChars s) : IsLow c :=
  isLow_of_mem_lowerAfter h

theorem lowerAfter_of_isLow {before s : List Char} (h : ∀ c ∈ s, IsLow c) :
    lowerAfter before s = s := by
  induction s generalizing before with
  | nil => rfl
  | cons c rest ih =>
    obtain ⟨hc, hrest⟩ := List.forall_mem_cons.1 h
    have hsame : Char.ofNat (lowerCode c.toNat) = c := by rw [hc, Char.ofNat_toNat]
    -- the two characters with rules of their own have images
    have hsigma : (c.toNat == 0x3A3) = false := by
      refine beq_false_of_ne fun heq => ?_
      rw [IsLow, heq] at hc
      revert hc
      decide +kernel
    have hdotted : (c.toNat == 0x130) = false := by
      refine beq_false_of_ne fun heq => ?_
      rw [IsLow, heq] at hc
      revert hc
      decide +kernel
    rw [lowerAfter, hsigma, hdotted, hsame, ih hrest]
    simp

/-- A text of such characters is its own lower-case form. -/
theorem lowerChars_of_isLow {s : List Char} (h : ∀ c ∈ s, IsLow c) : lowerChars s = s :=
  lowerAfter_of_isLow h

theorem lower_ofList_of_isLow {s : List Char} (h : ∀ c ∈ s, IsLow c) :
    lower (String.ofList s) = String.ofList s := by
  rw [lower, String.toList_ofList, lowerChars_of_isLow h]

/-- **Lower-casing twice** is lower-casing once. -/
theorem lower_lower (s : String) : lower (lower s) = lower s :=
  lower_ofList_of_isLow fun _ hc => isLow_of_mem_lowerChars hc

end LangId.Text
