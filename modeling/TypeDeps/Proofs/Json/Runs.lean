import Mathlib
import TypeDeps.Json.Fault

/-!
# Runs

A run of a machine that takes one byte at a time, from one state to another over some bytes.
-/
namespace TypeDeps.Json

variable {σ τ : Type} {step : σ → UInt8 → Option σ} {s s' t : σ} {xs ys : List UInt8} {b : UInt8}

/-- The machine goes from one state to the other on these bytes. -/
def Reads (step : σ → UInt8 → Option σ) (s : σ) (bs : List UInt8) (s' : σ) : Prop :=
  bs.foldlM step s = some s'

theorem Reads.nil : Reads step s [] s := rfl

theorem reads_cons : Reads step s (b :: xs) s' ↔ ∃ t, step s b = some t ∧ Reads step t xs s' := by
  simp [Reads, List.foldlM_cons, Option.bind_eq_some_iff]

theorem Reads.cons (h : step s b = some t) (hr : Reads step t xs s') : Reads step s (b :: xs) s' :=
  reads_cons.mpr ⟨t, h, hr⟩

theorem reads_append :
    Reads step s (xs ++ ys) s' ↔ ∃ t, Reads step s xs t ∧ Reads step t ys s' := by
  simp [Reads, List.foldlM_append, Option.bind_eq_some_iff]

theorem Reads.append (h : Reads step s xs t) (hr : Reads step t ys s') :
    Reads step s (xs ++ ys) s' :=
  reads_append.mpr ⟨t, h, hr⟩

theorem Reads.one (h : step s b = some s') : Reads step s [b] s' := h.trans rfl |> Reads.cons <| rfl

theorem Reads.snoc (h : Reads step s xs t) (hs : step t b = some s') :
    Reads step s (xs ++ [b]) s' :=
  h.append (Reads.cons hs Reads.nil)

theorem Reads.stay (h : ∀ b ∈ xs, step s b = some s) : Reads step s xs s := by
  induction xs with
  | nil => exact Reads.nil
  | cons b xs ih => exact Reads.cons (h b (by simp)) (ih fun c hc => h c (by simp [hc]))

/-- A machine that stands inside another one. -/
theorem Reads.lift {step' : τ → UInt8 → Option τ} {f : σ → τ} (h : Reads step s xs s')
    (hf : ∀ s b t, step s b = some t → step' (f s) b = some (f t)) :
    Reads step' (f s) xs (f s') := by
  induction xs generalizing s with
  | nil =>
    obtain rfl : s = s' := by simpa [Reads] using h
    exact Reads.nil
  | cons b xs ih =>
    obtain ⟨t, ht, hr⟩ := reads_cons.mp h
    exact Reads.cons (hf s b t ht) (ih hr)

theorem Reads.preserves {P : σ → List UInt8 → Prop} (h : Reads step s xs s')
    (hs : ∀ s b t pre, P s pre → step s b = some t → P t (pre ++ [b])) {pre : List UInt8}
    (hp : P s pre) : P s' (pre ++ xs) := by
  induction xs generalizing s pre with
  | nil =>
    obtain rfl : s = s' := by simpa [Reads] using h
    simpa using hp
  | cons b xs ih =>
    obtain ⟨t, ht, hr⟩ := reads_cons.mp h
    have := ih hr (hs s b t pre hp ht)
    simpa using this

def Step.next? {σ α : Type} : Step σ α → Option σ
  | .more s => some s
  | _ => none

@[simp] theorem Step.next?_eq_some {σ α : Type} {r : Step σ α} {s : σ} :
    r.next? = some s ↔ r = .more s := by
  cases r <;> simp [Step.next?]

end TypeDeps.Json
