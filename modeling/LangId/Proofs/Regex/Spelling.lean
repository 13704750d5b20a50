import LangId.Proofs.Regex.Passing
import LangId.Proofs.Text.Words

/-!
# Names without regard to case

A name in a pattern stands for its spellings: texts that are equal to it letter by letter, where letters
are compared under a folding (`passes_spelling`). A mark without letters stands for itself
(`passes_mark`). Spellings of names of small letters hold neither white space nor signs that stand
behind a name (`Spells.plain`).
-/
namespace LangId.Regex

open LangId.Text

variable {f : Folding} {x y : Char} {name w : List Char}

/-! ## Spellings -/

/-- Whether two characters are equal under a folding: the second has the lower-case form of the first,
or one of its further spellings. -/
def Folding.same (f : Folding) (x y : Char) : Bool :=
  f.lower y.toNat == f.lower x.toNat ||
    (f.equivalents (f.lower x.toNat)).contains (f.lower y.toNat)

/-- A text that is a name, its letters compared under a folding. -/
def Spells (f : Folding) (name w : List Char) : Prop :=
  List.Forall₂ (fun x y => f.same x y = true) name w

instance (f : Folding) (name w : List Char) : Decidable (Spells f name w) :=
  inferInstanceAs (Decidable (List.Forall₂ _ name w))

/-- The small letters of ASCII. -/
def smallLetters : List Char := "abcdefghijklmnopqrstuvwxyz".toList

theorem same_eq_false (hx : x ∈ smallLetters) (hy : y ∈ blankCharacters ++ [':', ';', '=']) :
    Folding.unicode.same x y = false := by
  have hall : ∀ x ∈ smallLetters, ∀ y ∈ blankCharacters ++ [':', ';', '='],
      Folding.unicode.same x y = false := by decide +kernel
  exact hall x hx y hy

/-- Spellings of a name of small letters hold no white space, colon, semicolon or equals sign. -/
theorem Spells.plain (h : Spells .unicode name w) (hname : ∀ x ∈ name, x ∈ smallLetters) :
    ∀ y ∈ w, isBlank y = false ∧ y ∉ [':', ';', '='] := by
  induction h with
  | nil => simp
  | @cons x y name w hxy _ ih =>
    obtain ⟨hx, hname⟩ := List.forall_mem_cons.1 hname
    have hplain : y ∉ blankCharacters ++ [':', ';', '='] := fun hy => by
      rw [same_eq_false hx hy] at hxy
      cases hxy
    rw [List.mem_append, not_or] at hplain
    refine List.forall_mem_cons.2 ⟨⟨?_, hplain.2⟩, ih hname⟩
    exact Bool.eq_false_iff.2 fun hblank => hplain.1 (mem_blankCharacters hblank)

/-! ## Names in patterns -/

/-- A text in a pattern, by what its characters stand for. -/
theorem passes_text_of {R : Char → Char → Prop} {s : String}
    (h : ∀ x ∈ s.toList, ∀ y, (CharClass.ofItems f false false [.char x.toNat]).contains y = true ↔
      R x y) : (Node.text f s).Passes fun _ w => List.Forall₂ R s.toList w := by
  have htext : Node.text f s = .seqAll ((s.toList.map fun x =>
      CharClass.ofItems f false false [.char x.toNat]).map .one) := by
    rw [Node.text, List.map_map]
    rfl
  rw [htext]
  refine (passes_singles _).congr fun _ w => ?_
  rw [List.forall₂_map_left_iff]
  generalize s.toList = name at h
  induction name generalizing w with
  | nil => simp
  | cons x name ih =>
    obtain ⟨hx, hname⟩ := List.forall_mem_cons.1 h
    simp only [List.forall₂_cons_left_iff, hx, fun w => ih w hname]

theorem passes_mark {s : String} (h : ∀ x ∈ s.toList, f.isCased x.toNat = false) :
    (Node.text f s).Passes fun _ w => w = s.toList := by
  refine (passes_text_of (R := fun x y => x = y) fun x hx y => ?_).congr fun _ w => ?_
  · rw [contains_ofItems_char (h x hx), Bool.bne_false, beq_iff_eq]
    exact eq_comm
  · rw [List.forall₂_eq_eq_eq]
    exact eq_comm

/-- A letter that is written in its lower-case form stands for what is equal to it. -/
theorem contains_letter (hcased : f.isCased x.toNat = true) (hlower : f.lower x.toNat = x.toNat)
    (hplane : x.toNat ≤ basicPlaneEnd) (y : Char) :
    (CharClass.ofItems f false false [.char x.toNat]).contains y = f.same x y := by
  cases f with
  | none => cases hcased
  | ascii | unicode =>
    simp [CharClass.ofItems, CharClass.contains, hcased, hlower, ClassItem.holdsFolded,
      Nat.not_lt.2 hplane, Folding.same]

theorem passes_spelling {s : String} (h : ∀ x ∈ s.toList, x ∈ smallLetters) :
    (Node.text .unicode s).Passes fun _ w => Spells .unicode s.toList w := by
  have hletters : ∀ x ∈ smallLetters, Folding.unicode.isCased x.toNat = true ∧
      Folding.unicode.lower x.toNat = x.toNat ∧ x.toNat ≤ basicPlaneEnd := by decide
  refine passes_text_of fun x hx y => ?_
  obtain ⟨hcased, hlower, hplane⟩ := hletters x (h x hx)
  rw [contains_letter hcased hlower hplane]

end LangId.Regex
