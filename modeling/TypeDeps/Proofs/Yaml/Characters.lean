import Mathlib
import TypeDeps.Yaml.Writer

/-!
# Characters that are written as they are

Among these there are three line breaks, which all stand for themselves when they are read, and
one blank. What the shape of a text rules out about neighbours is put here as facts about its
parts.
-/
namespace TypeDeps.Yaml

variable {c d : Char} {cs : List Char}

theorem isAllowed_of_isPrintable (h : isPrintable c) : isAllowed c := by
  simp only [isPrintable, isAllowed, Bool.or_eq_true, Bool.and_eq_true, decide_eq_true_eq] at h ⊢
  omega

theorem ne_return_of_isPrintable (h : isPrintable c) : c ≠ '\r' := by
  rintro rfl
  cases h

theorem ne_byteOrderMark_of_isPrintable (h : isPrintable c) : c ≠ byteOrderMark := by
  rintro rfl
  revert h
  decide

theorem isBlank_iff_of_isPrintable (h : isPrintable c) : isBlank c ↔ c = ' ' := by
  have htab : c ≠ '\t' := by
    rintro rfl
    cases h
  simp [isBlank, htab]

theorem isBreak_iff : isBreak c ↔ c = '\r' ∨ c = '\n' ∨ c = nextLine ∨ c = lineSeparator ∨
    c = paragraphSeparator := by
  simp [isBreak, or_assoc]

/-- Line breaks that are not escaped stand for themselves. -/
theorem breakText_of_isPrintable (hb : isBreak c) (hp : isPrintable c) : breakText c = c := by
  rcases isBreak_iff.mp hb with rfl | rfl | rfl | rfl | rfl
  · cases hp
  · decide
  · revert hp
    decide
  · decide
  · decide

theorem endsWord_append (h : endsWord cs = false) (r : List Char) : endsWord (cs ++ r) = false := by
  cases cs with
  | nil => cases h
  | cons c cs => exact h

/-- The text ends here, or a name or a dash begins. -/
def BeginsLine (cs : List Char) : Prop := ∀ c ∈ cs.head?, isNameChar c

theorem isBreak_of_isNameChar (h : isNameChar c) : isBreak c = false := by
  by_contra hb
  rcases isBreak_iff.mp (by simpa using hb) with rfl | rfl | rfl | rfl | rfl <;>
    exact absurd h (by decide)

theorem isBlank_of_isNameChar (h : isNameChar c) : isBlank c = false := by
  have hspace : c ≠ ' ' := by
    rintro rfl
    cases h
  have htab : c ≠ '\t' := by
    rintro rfl
    cases h
  simp [isBlank, hspace, htab]

namespace Shape

theorem hasPair_cons {first second : Char → Bool} (h : hasPair first second (c :: cs) = false) :
    (∀ d ∈ cs.head?, first c = true → second d = false) ∧ hasPair first second cs = false := by
  cases cs with
  | nil => simp [hasPair]
  | cons d cs =>
    simp only [hasPair, Bool.or_eq_false_iff, Bool.and_eq_false_iff] at h
    refine ⟨?_, h.2⟩
    simp only [List.head?_cons, Option.mem_def, Option.some.injEq, forall_eq']
    intro hc
    exact h.1.resolve_left (by simp [hc])

theorem hasInnerIndicator_cons (h : hasInnerIndicator (c :: cs) = false) :
    (c = ':' → endsWord cs = false) ∧ (isBlank c → cs.head? ≠ some '#') ∧
      hasInnerIndicator cs = false := by
  have hcolon : isBlank ':' = false := by decide
  unfold hasInnerIndicator at h
  split at h
  · next r heq =>
    obtain ⟨rfl, rfl⟩ := List.cons.inj heq
    rw [Bool.or_eq_false_iff] at h
    exact ⟨fun _ => h.1, by simp [hcolon], h.2⟩
  · next d r hne heq =>
    obtain ⟨rfl, rfl⟩ := List.cons.inj heq
    simp only [Bool.or_eq_false_iff] at h
    exact ⟨fun hc => (hne hc).elim, by simp [h.1.1], h.2⟩
  · next d r hne hhash heq =>
    obtain ⟨rfl, rfl⟩ := List.cons.inj heq
    refine ⟨fun hc => (hne hc).elim, fun _ hhead => ?_, h⟩
    obtain ⟨r, rfl⟩ := List.head?_eq_some_iff.mp hhead
    exact hhash _ rfl
  · next heq => cases heq

end Shape

end TypeDeps.Yaml
