import TypeDeps.Json.String
import TypeDeps.Proofs.Json.Grammar
import TypeDeps.Proofs.Json.Runs
import TypeDeps.Proofs.Text.Utf8

/-!
# Strings and their texts

The machine that keeps the content accepts exactly the texts of strings, and the one that
skips accepts exactly the loose ones. Each direction follows the machine's phases: a phase
says which part of a piece has been read.
-/
namespace TypeDeps.Json

/-! ## Hexadecimal digits -/

theorem hexNumber?_snoc (ds : List UInt8) (b : UInt8) :
    hexNumber? (ds ++ [b]) =
      (hexNumber? ds).bind fun v => (hexValue? b).bind fun d => some (v * 16 + d) := by
  simp only [hexNumber?, List.foldl_append]
  rfl

namespace HexReader

/-- The digits that have been read. -/
def Holds (h : HexReader) (ds : List UInt8) : Prop :=
  h.seen = ds.length ∧ ds.length ≤ 3 ∧ h.value? = hexNumber? ds

theorem holds_start : start.Holds [] := ⟨rfl, by simp, rfl⟩

theorem step_of_lt {h : HexReader} {ds : List UInt8} (hh : h.Holds ds) (hl : ds.length < 3)
    (b : UInt8) : h.step b = .more ⟨h.seen + 1, hexNumber? (ds ++ [b])⟩ := by
  obtain ⟨hs, -, hv⟩ := hh
  rw [hexNumber?_snoc, ← hv]
  exact if_pos (hs ▸ hl)

theorem step_of_three {h : HexReader} {ds : List UInt8} (hh : h.Holds ds) (hl : ds.length = 3)
    (b : UInt8) :
    h.step b = match hexNumber? (ds ++ [b]) with
      | some v => .done v
      | none => .fault (.taken .badEscape) := by
  obtain ⟨hs, -, hv⟩ := hh
  rw [hexNumber?_snoc, ← hv]
  exact if_neg (by omega)

theorem Holds.more {h h' : HexReader} {ds : List UInt8} {b : UInt8} (hh : h.Holds ds)
    (hs : h.step b = .more h') : h'.Holds (ds ++ [b]) := by
  by_cases hl : ds.length < 3
  · rw [step_of_lt hh hl] at hs
    obtain rfl := Step.more.inj hs
    exact ⟨by simp [hh.1], by simp; omega, rfl⟩
  · rw [step_of_three hh (by have := hh.2.1; omega)] at hs
    split at hs <;> simp at hs

theorem Holds.done {h : HexReader} {ds : List UInt8} {b : UInt8} {n : Nat} (hh : h.Holds ds)
    (hs : h.step b = .done n) : HexFour (ds ++ [b]) n := by
  by_cases hl : ds.length < 3
  · rw [step_of_lt hh hl] at hs
    simp at hs
  · have hl : ds.length = 3 := by have := hh.2.1; omega
    rw [step_of_three hh hl] at hs
    split at hs
    · next v hv =>
      obtain rfl := Step.done.inj hs
      exact ⟨by simp [hl], hv⟩
    · simp at hs

theorem step_ne_passed (h : HexReader) (b : UInt8) (n : Nat) : h.step b ≠ .passed n := by
  unfold step
  simp only
  split
  · simp
  · split <;> simp

end HexReader

theorem HexReader.reads {ds : List UInt8} (hl : ds.length ≤ 3) :
    Reads (fun (h : HexReader) b => (h.step b).next?) .start ds ⟨ds.length, hexNumber? ds⟩ := by
  induction ds using List.reverseRecOn with
  | nil => exact .nil
  | append_singleton ds b ih =>
    simp only [List.length_append, List.length_singleton] at hl ⊢
    have hh : Holds ⟨ds.length, hexNumber? ds⟩ ds := ⟨rfl, by omega, rfl⟩
    exact (ih (by omega)).snoc (by simpa using step_of_lt hh (by omega) b)

/-- Four digits keep the reader busy up to the last one. -/
theorem HexFour.reads {ds : List UInt8} {n : Nat} (h : HexFour ds n) :
    ∃ front b d, ds = front ++ [b] ∧
      Reads (fun (h : HexReader) b => (h.step b).next?) .start front d ∧ d.step b = .done n := by
  obtain ⟨hl, hn⟩ := h
  have hne : ds ≠ [] := by
    rintro rfl
    simp at hl
  have hsplit := List.dropLast_append_getLast hne
  have hfront : ds.dropLast.length = 3 := by simp [hl]
  refine ⟨ds.dropLast, ds.getLast hne, _, hsplit.symm, HexReader.reads hfront.le, ?_⟩
  rw [HexReader.step_of_three ⟨rfl, hfront.le, rfl⟩ hfront, hsplit, hn]

/-! ## Strings whose content counts -/

namespace StringReader

/-- The part of a string, behind its opening quote, that has been read. -/
def Holds (r : StringReader) (part : List UInt8) : Prop :=
  ∃ body, Content body r.content.reverse ∧
    match r.phase with
    | .plain => part = body
    | .escape => part = body ++ [0x5C]
    | .hex digits => ∃ ds, digits.Holds ds ∧ part = body ++ 0x5C :: 0x75 :: ds
    | .partnerSlash high => ∃ ds, HexFour ds high ∧ isHighSurrogate high ∧
        part = body ++ 0x5C :: 0x75 :: ds
    | .partnerLetter high => ∃ ds, HexFour ds high ∧ isHighSurrogate high ∧
        part = body ++ 0x5C :: 0x75 :: ds ++ [0x5C]
    | .partnerHex high digits => ∃ ds es, HexFour ds high ∧ isHighSurrogate high ∧
        digits.Holds es ∧ part = body ++ 0x5C :: 0x75 :: ds ++ 0x5C :: 0x75 :: es

theorem holds_start : start.Holds [] := ⟨[], .nil, rfl⟩

theorem holds_push {r : StringReader} {body written cs : List UInt8}
    (h : Content body r.content.reverse) (hp : Piece written cs) :
    (r.push cs).Holds (body ++ written) := by
  refine ⟨body ++ written, ?_, rfl⟩
  simpa [push] using h.snoc hp

theorem Holds.more {r r' : StringReader} {part : List UInt8} {b : UInt8} (hr : r.Holds part)
    (hs : r.step b = .more r') : r'.Holds (part ++ [b]) := by
  obtain ⟨content, phase⟩ := r
  obtain ⟨body, hc, hp⟩ := hr
  cases phase with
  | plain =>
    obtain rfl : part = body := hp
    simp only [step] at hs
    split_ifs at hs with hq he hb
    · unfold finish at hs
      simp only at hs
      split at hs <;> simp at hs
    · obtain rfl := Step.more.inj hs
      exact ⟨part, hc, by simp [he]⟩
    · obtain rfl := Step.more.inj hs
      have hplain : IsPlain b := ⟨by simpa using hb, hq, he⟩
      exact holds_push (r := ⟨content, .plain⟩) hc (.plain hplain)
  | escape =>
    obtain rfl : part = body ++ [0x5C] := hp
    simp only [step] at hs
    split_ifs at hs with hu
    · obtain rfl := Step.more.inj hs
      exact ⟨body, hc, [], HexReader.holds_start, by simp [hu]⟩
    · split at hs
      · next c hl =>
        obtain rfl := Step.more.inj hs
        rw [List.append_assoc]
        exact holds_push (r := ⟨content, .escape⟩) hc (.letter hl)
      · simp at hs
  | hex digits =>
    obtain ⟨ds, hd, rfl⟩ := hp
    simp only [step] at hs
    split at hs
    · next d hm =>
      obtain rfl := Step.more.inj hs
      exact ⟨body, hc, ds ++ [b], hd.more hm, by simp⟩
    · next n hn =>
      have hfour := hd.done hn
      split_ifs at hs with hl hh
      · obtain rfl := Step.more.inj hs
        exact ⟨body, hc, ds ++ [b], hfour, hh, by simp⟩
      · obtain rfl := Step.more.inj hs
        have := holds_push (r := ⟨content, .hex digits⟩) hc (.code hfour hl hh)
        simpa [pushCode] using this
    · next n hn => exact absurd hn (HexReader.step_ne_passed _ _ _)
    · simp at hs
  | partnerSlash high =>
    obtain ⟨ds, hd, hh, rfl⟩ := hp
    simp only [step] at hs
    split_ifs at hs with he
    obtain rfl := Step.more.inj hs
    exact ⟨body, hc, ds, hd, hh, by simp [he]⟩
  | partnerLetter high =>
    obtain ⟨ds, hd, hh, rfl⟩ := hp
    simp only [step] at hs
    split_ifs at hs with he
    obtain rfl := Step.more.inj hs
    exact ⟨body, hc, ds, [], hd, hh, HexReader.holds_start, by simp [he]⟩
  | partnerHex high digits =>
    obtain ⟨ds, es, hd, hh, hes, rfl⟩ := hp
    simp only [step] at hs
    split at hs
    · next d hm =>
      obtain rfl := Step.more.inj hs
      exact ⟨body, hc, ds, es ++ [b], hd, hh, hes.more hm, by simp⟩
    · next n hn =>
      split_ifs at hs with hl
      obtain rfl := Step.more.inj hs
      have := holds_push (r := ⟨content, .partnerHex high digits⟩) hc (.pair hd hh (hes.done hn) hl)
      simpa [pushCode] using this
    · next n hn => exact absurd hn (HexReader.step_ne_passed _ _ _)
    · simp at hs

/-- A string ends with a plain quote. -/
theorem eq_of_step_done {r : StringReader} {b : UInt8} {s : String} (h : r.step b = .done s) :
    r.phase = .plain ∧ b = 0x22 ∧ r.content.reverse = bytesOf s := by
  obtain ⟨content, phase⟩ := r
  cases phase with
  | plain =>
    simp only [step] at h
    split_ifs at h with hq
    unfold finish at h
    simp only at h
    split at h
    · next t ht =>
      obtain rfl := Step.done.inj h
      exact ⟨rfl, hq, stringOf?_eq_some_iff.mp ht⟩
    · simp at h
  | escape =>
    simp only [step] at h
    split_ifs at h
    split at h <;> simp at h
  | hex digits =>
    simp only [step] at h
    split at h <;> first | split_ifs at h | simp at h
  | partnerSlash high =>
    simp only [step] at h
    split_ifs at h
  | partnerLetter high =>
    simp only [step] at h
    split_ifs at h
  | partnerHex high digits =>
    simp only [step] at h
    split at h <;> first | split_ifs at h | simp at h

theorem Holds.done {r : StringReader} {part : List UInt8} {b : UInt8} {s : String}
    (hr : r.Holds part) (hs : r.step b = .done s) : Spells s (0x22 :: part ++ [b]) := by
  obtain ⟨hphase, rfl, hc⟩ := eq_of_step_done hs
  obtain ⟨body, hbody, hp⟩ := hr
  rw [hphase] at hp
  obtain rfl : part = body := hp
  exact ⟨part, hc ▸ hbody, rfl⟩

theorem step_ne_passed (r : StringReader) (b : UInt8) (s : String) : r.step b ≠ .passed s := by
  intro h
  obtain ⟨content, phase⟩ := r
  cases phase with
  | plain =>
    simp only [step, finish] at h
    split_ifs at h
    split at h <;> simp at h
  | escape =>
    simp only [step] at h
    split_ifs at h
    split at h <;> simp at h
  | hex digits =>
    simp only [step] at h
    split at h <;> first | split_ifs at h | simp at h
  | partnerSlash high =>
    simp only [step] at h
    split_ifs at h
  | partnerLetter high =>
    simp only [step] at h
    split_ifs at h
  | partnerHex high digits =>
    simp only [step] at h
    split at h <;> first | split_ifs at h | simp at h

/-! ### Reading a text -/

theorem reads_code {ds : List UInt8} {n : Nat} (h : HexFour ds n) (content : List UInt8)
    {f : HexReader → StringPhase} {r : StringReader}
    (hmore : ∀ d b d', d.step b = .more d' → step ⟨content, f d⟩ b = .more ⟨content, f d'⟩)
    (hdone : ∀ d b, d.step b = .done n → step ⟨content, f d⟩ b = .more r) :
    Reads (fun (r : StringReader) b => (r.step b).next?) ⟨content, f .start⟩ ds r := by
  obtain ⟨front, b, d, rfl, hr, hd⟩ := h.reads
  have hlast : (step ⟨content, f d⟩ b).next? = some r := by simp [hdone d b hd]
  refine Reads.snoc (hr.lift (f := fun d => StringReader.mk content (f d)) ?_) hlast
  intro d b d' h
  simp only [Step.next?_eq_some] at h ⊢
  exact hmore d b d' h

theorem reads_piece {written cs : List UInt8} (h : Piece written cs) (content : List UInt8) :
    Reads (fun (r : StringReader) b => (r.step b).next?) ⟨content, .plain⟩ written
      ⟨cs.reverse ++ content, .plain⟩ := by
  cases h with
  | @plain b hb =>
    obtain ⟨hc, hq, he⟩ := hb
    have hlt : ¬b < 0x20 := by simpa using hc
    exact .one (by simp [step, hq, he, hlt])
  | @letter b c hl =>
    have hu : b ≠ 0x75 := by
      rintro rfl
      simp [simpleEscape?] at hl
    refine .cons (t := ⟨content, .escape⟩) (by simp [step]) (.one ?_)
    simp [step, hu, hl, push]
  | code h hl hh =>
    refine .cons (t := ⟨content, .escape⟩) (by simp [step]) ?_
    refine .cons (t := ⟨content, .hex .start⟩) (by simp [step]) ?_
    apply reads_code h content (f := .hex)
    · intro d b d' h
      simp [step, h]
    · intro d b h
      simp [step, h, hl, hh, pushCode, push]
  | @pair ds es high low hd hh he hl =>
    have hlow : ¬isLowSurrogate high := by
      simp only [isLowSurrogate, isHighSurrogate, Bool.and_eq_true, decide_eq_true_eq] at hh ⊢
      omega
    refine .cons (t := ⟨content, .escape⟩) (by simp [step]) ?_
    refine .cons (t := ⟨content, .hex .start⟩) (by simp [step]) ?_
    refine .append (t := ⟨content, .partnerSlash high⟩) ?_ ?_
    · apply reads_code hd content (f := .hex)
      · intro d b d' h
        simp [step, h]
      · intro d b h
        simp [step, h, hlow, hh]
    refine .cons (t := ⟨content, .partnerLetter high⟩) (by simp [step]) ?_
    refine .cons (t := ⟨content, .partnerHex high .start⟩) (by simp [step]) ?_
    apply reads_code he content (f := .partnerHex high)
    · intro d b d' h
      simp [step, h]
    · intro d b h
      simp [step, h, hl, pushCode, push]

theorem reads_content {body bs : List UInt8} (h : Content body bs) :
    Reads (fun (r : StringReader) b => (r.step b).next?) .start body ⟨bs.reverse, .plain⟩ := by
  induction h with
  | nil => exact .nil
  | snoc _ hp ih =>
    rw [List.reverse_append]
    exact ih.append (reads_piece hp _)

theorem step_quote (s : String) :
    StringReader.step ⟨(bytesOf s).reverse, .plain⟩ 0x22 = .done s := by
  simp [step, finish]

end StringReader

/-! ## Strings that are skipped -/

namespace StringSkipper

/-- The part of a string, behind its opening quote, that has been skipped. -/
def Holds (s : StringSkipper) (part : List UInt8) : Prop :=
  ∃ body, LooseContent body ∧
    match s with
    | .plain => part = body
    | .escape => part = body ++ [0x5C]
    | .hex digits => ∃ ds, digits.Holds ds ∧ part = body ++ 0x5C :: 0x75 :: ds

theorem holds_plain {body written : List UInt8} (h : LooseContent body) (hp : LoosePiece written) :
    StringSkipper.plain.Holds (body ++ written) := ⟨_, h.snoc hp, rfl⟩

theorem holds_start : StringSkipper.plain.Holds [] := ⟨[], .nil, rfl⟩

theorem Holds.more {s s' : StringSkipper} {part : List UInt8} {b : UInt8} (hs : s.Holds part)
    (h : s.step b = .more s') : s'.Holds (part ++ [b]) := by
  obtain ⟨body, hc, hp⟩ := hs
  cases s with
  | plain =>
    obtain rfl : part = body := hp
    simp only [step] at h
    split_ifs at h with hq he hb
    · obtain rfl := Step.more.inj h
      exact ⟨part, hc, by simp [he]⟩
    · obtain rfl := Step.more.inj h
      exact holds_plain hc (.plain ⟨by simpa using hb, hq, he⟩)
  | escape =>
    obtain rfl : part = body ++ [0x5C] := hp
    simp only [step] at h
    split_ifs at h with hu hl
    · obtain rfl := Step.more.inj h
      exact ⟨body, hc, [], HexReader.holds_start, by simp [hu]⟩
    · obtain rfl := Step.more.inj h
      obtain ⟨c, hl⟩ := Option.isSome_iff_exists.mp hl
      rw [List.append_assoc]
      exact holds_plain hc (.letter hl)
  | hex digits =>
    obtain ⟨ds, hd, rfl⟩ := hp
    simp only [step] at h
    split at h
    · next d hm =>
      obtain rfl := Step.more.inj h
      exact ⟨body, hc, ds ++ [b], hd.more hm, by simp⟩
    · next n hn =>
      obtain rfl := Step.more.inj h
      have := holds_plain hc (.code (hd.done hn))
      simpa using this
    · next n hn => exact absurd hn (HexReader.step_ne_passed _ _ _)
    · simp at h

theorem eq_of_step_done {s : StringSkipper} {b : UInt8} (h : s.step b = .done ()) :
    s = .plain ∧ b = 0x22 := by
  cases s with
  | plain =>
    simp only [step] at h
    split_ifs at h with hq
    exact ⟨rfl, hq⟩
  | escape =>
    simp only [step] at h
    split_ifs at h
  | hex digits =>
    simp only [step] at h
    split at h <;> simp at h

theorem Holds.done {s : StringSkipper} {part : List UInt8} {b : UInt8} (hs : s.Holds part)
    (h : s.step b = .done ()) : LooseString (0x22 :: part ++ [b]) := by
  obtain ⟨rfl, rfl⟩ := eq_of_step_done h
  obtain ⟨body, hc, rfl⟩ := hs
  exact ⟨part, hc, rfl⟩

theorem step_ne_passed (s : StringSkipper) (b : UInt8) : s.step b ≠ .passed () := by
  intro h
  cases s with
  | plain =>
    simp only [step] at h
    split_ifs at h
  | escape =>
    simp only [step] at h
    split_ifs at h
  | hex digits =>
    simp only [step] at h
    split at h <;> simp at h

theorem reads_piece {written : List UInt8} (h : LoosePiece written) :
    Reads (fun (s : StringSkipper) b => (s.step b).next?) .plain written .plain := by
  cases h with
  | @plain b hb =>
    obtain ⟨hc, hq, he⟩ := hb
    have hlt : ¬b < 0x20 := by simpa using hc
    exact .one (by simp [step, hq, he, hlt])
  | @letter b c hl =>
    have hu : b ≠ 0x75 := by
      rintro rfl
      simp [simpleEscape?] at hl
    exact .cons (t := .escape) (by simp [step]) (.one (by simp [step, hu, hl]))
  | code h =>
    obtain ⟨front, b, d, rfl, hr, hd⟩ := h.reads
    refine .cons (t := .escape) (by simp [step]) ?_
    refine .cons (t := .hex .start) (by simp [step]) ?_
    refine Reads.snoc (hr.lift (f := StringSkipper.hex) ?_) (t := .hex d) (by simp [step, hd])
    intro d b d' h
    simp only [Step.next?_eq_some] at h
    simp [step, h]

theorem reads_content {body : List UInt8} (h : LooseContent body) :
    Reads (fun (s : StringSkipper) b => (s.step b).next?) .plain body .plain := by
  induction h with
  | nil => exact .nil
  | snoc _ hp ih => exact ih.append (reads_piece hp)

end StringSkipper

end TypeDeps.Json
