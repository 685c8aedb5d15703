import TypeDeps.Document.Reader
import TypeDeps.Proofs.Json.Runs

/-!
# Runs of the reader

A text is read when a run over its bytes ends behind a document.
-/
namespace TypeDeps.Document

open Json

/-- No token is open, so that blanks may come. -/
def State.betweenTokens : State → Bool
  | key .. | pathString .. | nameString .. | skipping .. | wrongString .. | wrongNumber ..
  | wrongLiteral .. => false
  | _ => true

theorem State.step_of_betweenTokens {s : State} (h : s.betweenTokens) (b : UInt8) :
    s.step b = if isBlank b then .ok s else s.stepToken b := by
  cases s <;> first | rfl | cases h

abbrev Runs : State → List UInt8 → State → Prop :=
  Reads fun s b => (s.step b).toOption

theorem run_eq_ok_iff {s s' : State} {n : Nat} {bs : List UInt8} :
    run s n bs = .ok s' ↔ Runs s bs s' := by
  induction bs generalizing s n with
  | nil => simp [run, Reads]
  | cons b bs ih =>
    rw [Runs, reads_cons]
    simp only [run]
    cases s.step b with
    | ok t =>
      have : (Except.ok t : Except Fault State).toOption = some t := rfl
      simp [ih, this]
    | error f =>
      have : (Except.error f : Except Fault State).toOption = none := rfl
      simp [this]

theorem atEnd_eq_ok_iff {s : State} {files : List SourceFile} :
    s.atEnd = .ok files ↔ s = .finished files := by
  cases s with
  | wrongNumber x r =>
    simp only [State.atEnd]
    split <;> simp
  | _ => simp [State.atEnd]

theorem read_eq_ok_iff_runs {src : Source} {bs : List UInt8} {files : List SourceFile} :
    read src bs = .ok files ↔ Runs .start bs (.finished files) := by
  rw [← run_eq_ok_iff (n := 0)]
  unfold read
  cases hrun : run .start 0 bs with
  | error x => simp
  | ok s =>
    cases hend : s.atEnd with
    | ok fs => simp [← atEnd_eq_ok_iff, hend]
    | error c => simp [← atEnd_eq_ok_iff, hend]

end TypeDeps.Document
