import LangId.Proofs.Text.Utf8
import LangId.Sample

/-!
# The beginning of a content

A sample holds the text of the first octets of a file. These may break off within a character; what is
left of it is read as the replacement character, which the file need not hold there.

**Results.**
* `content_beginning`: for contents that are UTF-8, what a sample holds, and when that is a beginning
  of the text.
* `content_made_up`: a sample, with a bound that the settings allow, that is none.
-/
namespace LangId.Sample

open Text Utf8

variable {bytes : List UInt8} {s front : List Char} {c : Char} {path : String} {bound : Nat}
  {size : Option Int}

theorem content_of_breaksOff (h : BreaksOff s bound front c) :
    (ofBytes path (encode s) bound size).content = front ++ [replacement] :=
  decodeLossy_take_encode h

theorem content_of_take (h : (encode s).take bound = encode front) :
    (ofBytes path (encode s) bound size).content = front := by
  rw [ofBytes, h, decodeLossy_encode]

/-- **Beginnings.** If the first octets of a text do not break off within a character, a sample holds
the characters that they spell, a beginning of the text. Otherwise it holds the characters in front of
the broken one and a replacement character, and this is a beginning of the text only if the broken
character is the replacement character itself. -/
theorem content_beginning (h : decode? bytes = some s) (path : String) (bound : Nat)
    (size : Option Int) :
    decodeLossy bytes = s ∧
    ((∀ front c, ¬BreaksOff s bound front c) →
      (ofBytes path bytes bound size).content <+: s ∧
        encode (ofBytes path bytes bound size).content = bytes.take bound) ∧
    (∀ front c, BreaksOff s bound front c →
      (ofBytes path bytes bound size).content = front ++ [replacement]) ∧
    ((ofBytes path bytes bound size).content <+: s ↔
      ∀ front c, BreaksOff s bound front c → c = replacement) := by
  obtain rfl := decode?_eq_some_iff.1 h
  refine ⟨decodeLossy_encode s, fun hwhole => ?_, fun front c => content_of_breaksOff, ?_⟩
  · obtain ⟨front, hfront, htake⟩ | ⟨front, c, hbroken⟩ := take_encode_cases s bound
    · rw [content_of_take htake]
      exact ⟨hfront, htake.symm⟩
    · exact absurd hbroken (hwhole front c)
  constructor
  · intro hprefix front c hbroken
    rw [content_of_breaksOff hbroken] at hprefix
    -- both go on behind the same characters, by one character of the text
    have hsame : front ++ [replacement] = front ++ [c] :=
      (List.prefix_of_prefix_length_le hprefix hbroken.text (by simp)).eq_of_length (by simp)
    exact (List.singleton_inj.1 (List.append_cancel_left hsame)).symm
  · intro hbroken
    obtain ⟨front, hfront, htake⟩ | ⟨front, c, hcut⟩ := take_encode_cases s bound
    · rw [content_of_take htake]
      exact hfront
    · obtain rfl := hbroken front c hcut
      rw [content_of_breaksOff hcut]
      exact hcut.text

/-- A replacement character that the file holds itself may be broken. -/
theorem content_beginning_replacement : decode? [0x61, 0xEF, 0xBF, 0xBD] = some ['a', replacement] ∧
    (ofBytes "a" [0x61, 0xEF, 0xBF, 0xBD] 2).content = ['a', replacement] ∧
    (ofBytes "a" [0x61, 0xEF, 0xBF, 0xBD] 2).content <+: ['a', replacement] := by
  have h : decode? [0x61, 0xEF, 0xBF, 0xBD] = some ['a', replacement] := by decide +kernel
  obtain ⟨-, -, hcut, hprefix⟩ := content_beginning h "a" 2 none
  have hbroken : BreaksOff ['a', replacement] 2 ['a'] replacement :=
    ⟨List.prefix_refl _, by decide +kernel, by decide +kernel⟩
  refine ⟨h, hcut _ _ hbroken, hprefix.2 fun front c hother => ?_⟩
  have hlength := hother.text.length_le
  match front, hother with
  | [], hother =>
    obtain rfl : c = 'a' := by simpa using hother.text
    exact absurd hother.before (by decide +kernel)
  | [x], hother => exact (by simpa using hother.text : x = 'a' ∧ c = replacement).2
  | _ :: _ :: _, _ => simp at hlength

/-- Of a character of two octets behind 1023 letters, a sample of 1024 octets sees one, and holds a
character that is not in the file. -/
theorem content_made_up :
    decode? (List.replicate 1023 0x61 ++ [0xC3, 0xA9]) = some (List.replicate 1023 'a' ++ ['é']) ∧
    (ofBytes "a" (List.replicate 1023 0x61 ++ [0xC3, 0xA9]) 1024).content =
      List.replicate 1023 'a' ++ [replacement] ∧
    ¬(ofBytes "a" (List.replicate 1023 0x61 ++ [0xC3, 0xA9]) 1024).content <+:
      List.replicate 1023 'a' ++ ['é'] := by
  decide +kernel

end LangId.Sample
