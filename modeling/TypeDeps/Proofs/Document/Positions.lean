import Mathlib
import TypeDeps.Document.Reader

/-!
# Positions of faults

A text and a stream of the same bytes go through the same states and come to the same fault at
the same byte. Only where they report it can differ, by one byte at most: the byte that has been
taken from the stream in order to look at it. For a fault that is reported behind a byte this
needs that the byte has only been looked at, which is so wherever a fault arises.
-/
namespace TypeDeps.Json

/-- The places for a text and for a stream are the same, or that for the stream is one byte
further. -/
def Fault.Close (f : Fault) : Prop :=
  ∀ before, Source.text.place f before ≤ Source.stream.place f before ∧
    Source.stream.place f before ≤ Source.text.place f before + 1

@[simp] theorem Fault.close_taken (c : Cause) : (Fault.taken c).Close :=
  fun _ => ⟨le_rfl, Nat.le_succ _⟩

@[simp] theorem Fault.close_ahead (c : Cause) : (Fault.ahead c).Close :=
  fun _ => ⟨le_rfl, Nat.le_succ _⟩

@[simp] theorem Fault.close_unmoved (c : Cause) : (Fault.unmoved c).Close :=
  fun _ => ⟨Nat.le_succ _, le_rfl⟩

@[simp] theorem Fault.close_back (c : Cause) (bytes : Nat) :
    Fault.Close ⟨c, .taken, .back bytes⟩ :=
  fun _ => ⟨le_rfl, Nat.le_succ _⟩

/-- A stream reports no fault behind the byte at which it arises. -/
theorem Source.place_stream_le (f : Fault) (before : Nat) :
    Source.stream.place f before ≤ before + 1 := by
  obtain ⟨c, use, aim⟩ := f
  have hstanding : Source.stream.standing use before = before + 1 := by cases use <;> rfl
  cases aim with
  | here => exact hstanding.le
  | ahead => exact hstanding.le
  | back bytes => exact (Nat.sub_le _ _).trans hstanding.le

namespace Step

variable {σ α : Type}

def Close : Step σ α → Prop
  | .fault f => f.Close
  | _ => True

@[simp] theorem close_more (s : σ) : (more s : Step σ α).Close := trivial

@[simp] theorem close_done (a : α) : (done a : Step σ α).Close := trivial

@[simp] theorem close_passed (a : α) : (passed a : Step σ α).Close := trivial

@[simp] theorem close_fault {f : Fault} : (fault f : Step σ α).Close ↔ f.Close := Iff.rfl

theorem Close.of_eq {r : Step σ α} {f : Fault} (h : r.Close) (he : r = .fault f) : f.Close := by
  rw [he] at h
  exact h

end Step

section Machines

variable {b : UInt8}

theorem HexReader.close_step (h : HexReader) : (h.step b).Close := by
  unfold step
  simp only
  split_ifs
  · simp
  · split <;> simp

theorem StringReader.close_finish (r : StringReader) : r.finish.Close := by
  unfold finish
  simp only
  split <;> simp

theorem StringReader.close_step (r : StringReader) : (r.step b).Close := by
  unfold step
  split
  · split_ifs <;> simp [close_finish]
  · split_ifs
    · simp
    · split <;> simp
  · next digits _ =>
    have hd := digits.close_step (b := b)
    split
    · simp
    · split_ifs <;> simp
    · split_ifs <;> simp
    · next f hf => exact hd.of_eq hf
  · split_ifs <;> simp
  · split_ifs <;> simp
  · next digits _ =>
    have hd := digits.close_step (b := b)
    split
    · simp
    · split_ifs <;> simp
    · split_ifs <;> simp
    · next f hf => exact hd.of_eq hf

theorem StringSkipper.close_step (s : StringSkipper) : (s.step b).Close := by
  cases s with
  | plain =>
    simp only [step]
    split_ifs <;> simp
  | escape =>
    simp only [step]
    split_ifs <;> simp
  | hex digits =>
    have hd := digits.close_step (b := b)
    simp only [step]
    split
    · simp
    · simp
    · simp
    · next f hf => exact hd.of_eq hf

theorem NumberReader.close_passed (r : NumberReader) : r.passed.Close := by
  unfold passed
  split <;> simp

theorem NumberReader.close_afterInteger (r : NumberReader) : (r.afterInteger b).Close := by
  unfold afterInteger
  split_ifs <;> simp [close_passed]

theorem NumberReader.close_afterFraction (r : NumberReader) : (r.afterFraction b).Close := by
  unfold afterFraction
  split_ifs <;> simp [close_passed]

theorem NumberReader.close_step (r : NumberReader) : (r.step b).Close := by
  unfold step
  simp only
  split <;> split_ifs <;> simp [close_afterInteger, close_afterFraction, close_passed]

theorem NumberSkipper.close_step (s : NumberSkipper) : (s.step b).Close := by
  cases s <;> simp only [step, afterInteger] <;> split_ifs <;> simp

theorem Letters.close_step (ls : Letters) : (ls.step b).Close := by
  unfold step
  split
  · simp
  · split_ifs <;> simp

namespace Skipper

theorem close_ended (stack : List Bracket) : (ended stack).Close := by
  unfold ended
  split_ifs <;> simp

theorem close_startValue (stack : List Bracket) : (startValue stack b).Close := by
  unfold startValue
  split_ifs <;> simp

theorem close_startKey (stack : List Bracket) : (startKey stack b).Close := by
  unfold startKey
  split_ifs <;> simp

theorem close_stepOpened (stack : List Bracket) : (stepOpened stack b).Close := by
  unfold stepOpened
  split
  · split_ifs <;> simp [close_ended, close_startValue]
  · split_ifs <;> simp [close_ended, close_startKey]
  · simp

theorem close_stepAfter (stack : List Bracket) : (stepAfter stack b).Close := by
  unfold stepAfter
  split
  · split_ifs <;> simp [close_ended]
  · split_ifs <;> simp [close_ended]
  · simp

theorem close_blankOr (s : Skipper) {next : Step Skipper Unit} (h : next.Close) :
    (s.blankOr b next).Close := by
  unfold blankOr
  split_ifs
  · simp
  · exact h

theorem close_step (s : Skipper) : (s.step b).Close := by
  obtain ⟨stack, phase⟩ := s
  cases phase with
  | value => exact close_blankOr _ (close_startValue _)
  | opened => exact close_blankOr _ (close_stepOpened _)
  | afterValue => exact close_blankOr _ (close_stepAfter _)
  | key => exact close_blankOr _ (close_startKey _)
  | colon =>
    refine close_blankOr _ ?_
    split_ifs <;> simp
  | keyString t =>
    have ht := t.close_step (b := b)
    simp only [step]
    split
    · simp
    · simp
    · simp
    · next f hf => exact ht.of_eq hf
  | string t =>
    have ht := t.close_step (b := b)
    simp only [step]
    split
    · simp
    · exact close_ended _
    · exact close_ended _
    · next f hf => exact ht.of_eq hf
  | literal ls =>
    have hl := ls.close_step (b := b)
    simp only [step]
    split
    · simp
    · exact close_ended _
    · exact close_ended _
    · next f hf => exact hl.of_eq hf
  | number n =>
    have hn := n.close_step (b := b)
    simp only [step]
    split
    · simp
    · exact close_ended _
    · split_ifs <;> simp [close_stepAfter]
    · next f hf => exact hn.of_eq hf

end Skipper

end Machines

end TypeDeps.Json

namespace TypeDeps.Document

open Json

def Close (r : Except Fault State) : Prop := ∀ f, r = .error f → f.Close

variable {o : OpenObject} {p : Place} {x : Expected} {b : UInt8}

@[simp] theorem close_ok (s : State) : Close (.ok s) := by
  rintro f ⟨⟩

@[simp] theorem close_error {f : Fault} : Close (.error f) ↔ f.Close := by
  simp [Close]

namespace State

theorem close_wrongValue : Close (wrongValue x b) := by
  unfold wrongValue
  split_ifs <;> simp

theorem close_startValue : Close (startValue p b) := by
  unfold startValue
  split
  · simp
  · exact close_wrongValue

theorem close_ofObject : Close (ofObject o) := by
  unfold ofObject
  split
  · simp
  · simp
  · split <;> simp

theorem close_stepObjectValue : Close (stepObjectValue o b) := by
  unfold stepObjectValue
  split_ifs <;> simp [close_ofObject]

theorem close_stepArrayValue : Close (stepArrayValue o b) := by
  unfold stepArrayValue
  split
  · split_ifs <;> simp
  · split_ifs <;> simp [close_ofObject]

theorem close_startArrayValue : Close (startArrayValue o b) := by
  unfold startArrayValue
  split
  · exact close_startValue
  · simp

theorem close_stepToken (s : State) : Close (s.stepToken b) := by
  cases s with
  | colon o p =>
    simp only [stepToken]
    split_ifs
    · cases p <;> simp
    · simp
  | objectValue o => exact close_stepObjectValue
  | arrayValue o => exact close_stepArrayValue
  | _ =>
    simp only [stepToken]
    try split_ifs
    all_goals simp [close_startValue, close_ofObject, close_startArrayValue]

theorem close_stepString {r : StringReader} {more : StringReader → State}
    {done : String → Except Fault State} (hdone : ∀ s, Close (done s)) :
    Close (stepString r b more done) := by
  have hr := r.close_step (b := b)
  unfold stepString
  split
  · simp
  · exact hdone _
  · exact hdone _
  · next f hf => exact close_error.mpr (hr.of_eq hf)

/-- Wherever the reader stands, a fault has close positions. -/
theorem close_step (s : State) : Close (s.step b) := by
  cases s with
  | key o r => exact close_stepString fun _ => close_ok _
  | pathString e r => exact close_stepString fun _ => close_ok _
  | nameString e l before r => exact close_stepString fun _ => close_ok _
  | wrongString x r => exact close_stepString fun _ => by simp
  | wrongNumber x r =>
    have hr := r.close_step (b := b)
    simp only [step]
    split
    · simp
    · simp
    · simp
    · next f hf => exact close_error.mpr (hr.of_eq hf)
  | wrongLiteral x found ls =>
    have hl := ls.close_step (b := b)
    simp only [step]
    split
    · simp
    · simp
    · simp
    · next f hf => exact close_error.mpr (hl.of_eq hf)
  | skipping o k =>
    have hk := k.close_step (b := b)
    simp only [step]
    split
    · simp
    · simp
    · split_ifs <;> simp [close_stepObjectValue]
    · next f hf => exact close_error.mpr (hk.of_eq hf)
  | _ =>
    simp only [step]
    split_ifs
    · simp
    · exact close_stepToken _

end State

/-- The places that are reported for a text and for a stream. That for the stream is one byte
further at most, and not beyond the end. -/
def Stop.Aligned (x : Stop) (length : Nat) : Prop :=
  (x.refusal .text).place ≤ (x.refusal .stream).place ∧
    (x.refusal .stream).place ≤ (x.refusal .text).place + 1 ∧
    (x.refusal .stream).place ≤ length

theorem aligned_of_run {s : State} {taken : Nat} {bs : List UInt8} {x : Stop}
    (h : run s taken bs = .error x) : x.Aligned (taken + bs.length) := by
  induction bs generalizing s taken with
  | nil => cases h
  | cons b bs ih =>
    have hclose := s.close_step (b := b)
    rw [List.length_cons]
    simp only [run] at h
    split at h
    · rw [Nat.add_comm bs.length, ← Nat.add_assoc]
      exact ih h
    · next f hf =>
      obtain rfl := Except.error.inj h
      obtain ⟨hle, hsucc⟩ := hclose f hf taken
      exact ⟨hle, hsucc, (Source.place_stream_le f taken).trans (by omega)⟩

/-- A text is read as a stream of its bytes is: to the same files, or with the same cause at
places that are close. -/
theorem read_text_stream (bs : List UInt8) :
    (∃ files, ∀ src, read src bs = .ok files) ∨
    ∃ cause m n, m ≤ n ∧ n ≤ m + 1 ∧ n ≤ bs.length ∧
      read .text bs = .error ⟨cause, m⟩ ∧ read .stream bs = .error ⟨cause, n⟩ := by
  unfold read
  cases hrun : run .start 0 bs with
  | error x =>
    obtain ⟨hle, hsucc, hlength⟩ := aligned_of_run hrun
    exact .inr ⟨x.fault.cause, _, _, hle, hsucc, by simpa using hlength, rfl, rfl⟩
  | ok s =>
    cases hend : s.atEnd with
    | ok files => exact .inl ⟨files, fun _ => by simp [hend]⟩
    | error c =>
      exact .inr ⟨c, _, _, le_rfl, Nat.le_succ _, le_rfl, by simp [hend], by simp [hend]⟩

/-! ## Lines and columns -/

/-- The line and the column of the place behind these bytes: lines are counted from one, and
the column is the number of bytes behind the last line break. -/
def StandsAt (before : List UInt8) (line column : Nat) : Prop :=
  line = 1 + before.count 0x0A ∧ ∃ lines rest, before = lines ++ rest ∧ 0x0A ∉ rest ∧
    (lines = [] ∨ lines.getLast? = some 0x0A) ∧ column = rest.length

theorem standsAt_position (bs : List UInt8) : StandsAt bs (position bs).1 (position bs).2 := by
  refine ⟨rfl, (bs.reverse.dropWhile (· ≠ 0x0A)).reverse, (bs.reverse.takeWhile (· ≠ 0x0A)).reverse,
    ?_, ?_, ?_, by simp [position]⟩
  · rw [← List.reverse_append, List.takeWhile_append_dropWhile, List.reverse_reverse]
  · intro hmem
    have := List.mem_takeWhile_imp (List.mem_reverse.mp hmem)
    simp at this
  · rw [List.getLast?_reverse]
    cases hd : bs.reverse.dropWhile (· ≠ 0x0A) with
    | nil => exact .inl rfl
    | cons c cs =>
      have hhead := List.head?_dropWhile_not (fun c => decide (c ≠ 0x0A)) bs.reverse
      rw [hd] at hhead
      simp only [List.head?_cons] at hhead
      refine .inr ?_
      simpa using hhead

end TypeDeps.Document

namespace TypeDeps.Graph

open Document

/-- Read as a text or as a stream, the same bytes give the same graph or are malformed for the
same reason, at a place that is the same or one byte further for the stream. -/
theorem read_readStream (t : String) :
    (∃ g, Graph.read t = .ok g ∧ Graph.readStream (bytesOf t) = .ok g) ∨
    ∃ reason m n line column line' column',
      m ≤ n ∧ n ≤ m + 1 ∧ n ≤ (bytesOf t).length ∧
      StandsAt ((bytesOf t).take m) line column ∧ StandsAt ((bytesOf t).take n) line' column' ∧
      Graph.read t = .error (.malformed
        (reason ++ " at line " ++ toString line ++ " column " ++ toString column)) ∧
      Graph.readStream (bytesOf t) = .error (.malformed
        (reason ++ " at line " ++ toString line' ++ " column " ++ toString column')) := by
  rcases read_text_stream (bytesOf t) with
    ⟨files, hread⟩ | ⟨cause, m, n, hle, hsucc, hlength, htext, hstream⟩
  · exact .inl ⟨⟨files⟩, by simp [Graph.read, readFrom, hread],
      by simp [Graph.readStream, readFrom, hread]⟩
  · refine .inr ⟨cause.message, m, n, _, _, _, _, hle, hsucc, hlength, standsAt_position _,
      standsAt_position _, ?_, ?_⟩
    · simp [Graph.read, readFrom, htext, Refusal.text]
    · simp [Graph.readStream, readFrom, hstream, Refusal.text]

end TypeDeps.Graph
