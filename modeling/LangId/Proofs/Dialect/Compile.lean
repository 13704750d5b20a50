import LangId.Knowledge.Dialect
import LangId.Proofs.Steps

/-!
# Compiling the patterns of definitions

`Dialect.compile` joins patterns and reads the text that comes out. What is not well formed is told
of the definitions; what is beyond what can be searched for is told of the pattern.
-/
namespace LangId.Dialect

variable {value : OneOrMany} {source : String}

/-- There are patterns, and they can be read when they are joined. -/
def Compiles (value : OneOrMany) : Prop :=
  value.toList ≠ [] ∧ ∃ q, Regex.Pattern.compile contentFlags (join value.toList) = .ok q

theorem compile_eq_ok {q : Regex.Pattern} : compile value source = .ok q ↔
    value.toList ≠ [] ∧ Regex.Pattern.compile contentFlags (join value.toList) = .ok q := by
  unfold compile
  split
  · rename_i hnil
    simp [hnil]
  · rename_i hne
    rw [and_iff_right hne]
    dsimp only
    split
    · rename_i hq
      simp [hq]
    · rename_i he
      simp [he]
    · rename_i he
      simp [he]

theorem compiles_iff : (∃ q, compile value source = .ok q) ↔ Compiles value := by
  simp only [compile_eq_ok, Compiles, exists_and_left]

theorem compile_of_malformed {fault : Regex.Fault} (hne : value.toList ≠ [])
    (h : Regex.Pattern.compile contentFlags (join value.toList) = .error (.malformed fault)) :
    compile value source = .error (.definition (.badPattern (join value.toList) source fault)) := by
  unfold compile
  split
  · rename_i hnil
    exact absurd hnil hne
  · dsimp only
    rw [h]

/-- How compiling fails: there are no patterns, or they cannot be read. -/
theorem compile_eq_error {e : BuildError} (h : compile value source = .error e) :
    value.toList = [] ∧ e = .definition (.noPatterns source) ∨
      (∃ fault, Regex.Pattern.compile contentFlags (join value.toList) = .error (.malformed fault) ∧
        e = .definition (.badPattern (join value.toList) source fault)) ∨
      ∃ x, Regex.Pattern.compile contentFlags (join value.toList) = .error x ∧
        (∀ fault, x ≠ .malformed fault) ∧ e = .pattern x := by
  unfold compile at h
  split at h
  · rename_i hnil
    exact .inl ⟨hnil, (Except.error.inj h).symm⟩
  · dsimp only at h
    split at h
    · cases h
    · rename_i fault hf
      exact .inr (.inl ⟨fault, hf, (Except.error.inj h).symm⟩)
    · rename_i x hno hx
      exact .inr (.inr ⟨x, hx, hno, (Except.error.inj h).symm⟩)

end LangId.Dialect
