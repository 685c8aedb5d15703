import TypeDeps.Json.Quoted
import TypeDeps.Proofs.Json.Grammar
import TypeDeps.Proofs.Text.Utf8

/-!
# Written strings are texts of their strings

Each character is written as an escape or as its own bytes, and either way the text denotes
it. This holds of every string, control characters and characters beyond U+FFFF included.
-/
namespace TypeDeps.Json

theorem Content.append_plain {body bs ws : List UInt8} (h : Content body bs)
    (hw : ∀ b ∈ ws, IsPlain b) : Content (body ++ ws) (bs ++ ws) := by
  induction ws using List.reverseRecOn with
  | nil => simpa using h
  | append_singleton ws b ih =>
    have := (ih fun c hc => hw c (by simp [hc])).snoc (.plain (hw b (by simp)))
    simpa using this

theorem isPlain_of_high {b : UInt8} (h : 0x80 ≤ b) : IsPlain b := by
  refine ⟨UInt8.le_trans (show 0x20 ≤ 0x80 by decide) h, ?_, ?_⟩ <;>
    (rintro rfl; exact absurd h (by decide))

/-- Every control character has a four-digit code. -/
theorem hexFour_digitChar {n : Nat} (h : n < 0x20) :
    HexFour (Utf8.encode ['0', '0', Nat.digitChar (n / 16), Nat.digitChar (n % 16)]) n := by
  have hall : ∀ n < 0x20,
      (Utf8.encode ['0', '0', Nat.digitChar (n / 16), Nat.digitChar (n % 16)]).length = 4 ∧
      hexNumber? (Utf8.encode ['0', '0', Nat.digitChar (n / 16), Nat.digitChar (n % 16)]) =
        some n := by
    decide
  exact hall n h

theorem isPlain_of_char {c : Char} (hq : c ≠ '\x22') (hb : c ≠ '\\') (hc : 0x20 ≤ c.toNat) :
    ∀ b ∈ String.utf8EncodeChar c, IsPlain b := by
  by_cases hascii : c.toNat < 0x80
  · have hone := Utf8.utf8EncodeChar_one hascii
    rw [Char.ofNat_toNat] at hone
    have hval := Utf8.toNat_ofNat_of_lt (show c.toNat < 256 by omega)
    intro b hb'
    obtain rfl : b = UInt8.ofNat c.toNat := by simpa [hone] using hb'
    refine ⟨by rw [UInt8.le_iff_toNat_le, hval]; exact hc, fun he => hq ?_, fun he => hb ?_⟩
    all_goals
      have := congrArg UInt8.toNat he
      rw [hval] at this
      exact Char.ext (UInt32.toNat_inj.mp this)
  · exact fun b hb' => isPlain_of_high (Utf8.high_of_utf8EncodeChar (by omega) b hb')

theorem Content.escapeChar {body bs : List UInt8} (h : Content body bs) (c : Char) :
    Content (body ++ Utf8.encode (escapeChar c)) (bs ++ String.utf8EncodeChar c) := by
  unfold Json.escapeChar
  split_ifs with hq hb h8 ht hn hf hr hc
  · subst hq
    exact h.snoc (.letter (by decide))
  · subst hb
    exact h.snoc (.letter (by decide))
  · subst h8
    exact h.snoc (.letter (by decide))
  · subst ht
    exact h.snoc (.letter (by decide))
  · subst hn
    exact h.snoc (.letter (by decide))
  · subst hf
    exact h.snoc (.letter (by decide))
  · subst hr
    exact h.snoc (.letter (by decide))
  · have hpiece := Piece.code (hexFour_digitChar hc) (by simp [isLowSurrogate]; omega)
      (by simp [isHighSurrogate]; omega)
    rw [Char.ofNat_toNat] at hpiece
    exact h.snoc hpiece
  · have hplain := h.append_plain (isPlain_of_char hq hb (by omega))
    simpa [Utf8.encode] using hplain

/-- What is written for a string is a text of this string. -/
theorem spells_quote (s : String) : Spells s (Utf8.encode (quote s)) := by
  have hcontent : ∀ cs : List Char,
      Content (Utf8.encode (cs.flatMap Json.escapeChar)) (Utf8.encode cs) := by
    intro cs
    induction cs using List.reverseRecOn with
    | nil => exact .nil
    | append_singleton cs c ih =>
      have := ih.escapeChar c
      simpa [Utf8.encode] using this
  refine ⟨_, hcontent s.toList, ?_⟩
  simp only [quote, Utf8.encode, List.flatMap_cons, List.flatMap_append, List.flatMap_nil]
  rfl

end TypeDeps.Json
