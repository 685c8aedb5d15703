import TypeDeps.Json.Number
import TypeDeps.Proofs.Json.Grammar
import TypeDeps.Proofs.Json.Runs

/-!
# Numbers that are skipped

A number has no last byte of its own: the machine may end in some of its states, and a byte
that cannot extend the number shows that it has ended.
-/
namespace TypeDeps.Json

theorem Digits.one {b : UInt8} (h : isDigit b) : Digits [b] := ⟨by simp, by simpa using h⟩

theorem Digits.snoc {ds : List UInt8} {b : UInt8} (hd : Digits ds) (h : isDigit b) :
    Digits (ds ++ [b]) := by
  refine ⟨by simp, ?_⟩
  intro d hm
  rcases List.mem_append.mp hm with hm | hm
  · exact hd.2 d hm
  · rwa [List.mem_singleton.mp hm]

theorem ExponentPart.snoc {e : List UInt8} {b : UInt8} (he : ExponentPart e) (hne : e ≠ [])
    (h : isDigit b) : ExponentPart (e ++ [b]) := by
  rcases he with rfl | ⟨mark, s, ds, hm, hs, hd, rfl⟩
  · exact absurd rfl hne
  · exact .inr ⟨mark, s, ds ++ [b], hm, hs, Digits.snoc hd h, by simp⟩

namespace NumberSkipper

def start? (b : UInt8) : Option NumberSkipper :=
  if b = 0x2D then some sign
  else if b = 0x30 then some zero
  else if isDigit b then some integer
  else none

/-- The part of a number that has been skipped. -/
def Holds (n : NumberSkipper) (part : List UInt8) : Prop :=
  ∃ minus, (minus = [] ∨ minus = [0x2D]) ∧
    match n with
    | sign => part = [0x2D]
    | zero => part = minus ++ [0x30]
    | integer => ∃ ds, Digits ds ∧ ds.head? ≠ some 0x30 ∧ part = minus ++ ds
    | fraction false => ∃ i, IntegerPart i ∧ part = minus ++ i ++ [0x2E]
    | fraction true => ∃ i ds, IntegerPart i ∧ Digits ds ∧ part = minus ++ i ++ 0x2E :: ds
    | exponentMark => ∃ i f mark, IntegerPart i ∧ FractionPart f ∧ isExponentMark mark ∧
        part = minus ++ i ++ f ++ [mark]
    | exponentSign => ∃ i f mark s, IntegerPart i ∧ FractionPart f ∧ isExponentMark mark ∧
        (s = 0x2B ∨ s = 0x2D) ∧ part = minus ++ i ++ f ++ [mark, s]
    | exponent => ∃ i f e, IntegerPart i ∧ FractionPart f ∧ ExponentPart e ∧ e ≠ [] ∧
        part = minus ++ i ++ f ++ e

theorem holds_start {b : UInt8} {n : NumberSkipper} (h : start? b = some n) : n.Holds [b] := by
  unfold start? at h
  split_ifs at h with hm hz hd
  · obtain rfl := Option.some.inj h
    exact ⟨[], .inl rfl, by rw [hm]⟩
  · obtain rfl := Option.some.inj h
    exact ⟨[], .inl rfl, by simp [hz]⟩
  · obtain rfl := Option.some.inj h
    exact ⟨[], .inl rfl, [b], Digits.one hd, by simpa using hz, rfl⟩

theorem holds_afterInteger {minus i : List UInt8} {b : UInt8} {n : NumberSkipper}
    (hm : minus = [] ∨ minus = [0x2D]) (hi : IntegerPart i) (h : afterInteger b = .more n) :
    n.Holds (minus ++ i ++ [b]) := by
  unfold afterInteger at h
  split_ifs at h with hp he
  · obtain rfl := Step.more.inj h
    exact ⟨minus, hm, i, hi, by rw [hp]⟩
  · obtain rfl := Step.more.inj h
    exact ⟨minus, hm, i, [], b, hi, .inl rfl, he, by simp⟩

theorem Holds.more {n n' : NumberSkipper} {part : List UInt8} {b : UInt8} (hn : n.Holds part)
    (h : n.step b = .more n') : n'.Holds (part ++ [b]) := by
  obtain ⟨minus, hm, hp⟩ := hn
  cases n with
  | sign =>
    obtain rfl : part = [0x2D] := hp
    simp only [step] at h
    split_ifs at h with hz hd
    · obtain rfl := Step.more.inj h
      exact ⟨[0x2D], .inr rfl, by simp [hz]⟩
    · obtain rfl := Step.more.inj h
      exact ⟨[0x2D], .inr rfl, [b], Digits.one hd, by simpa using hz, rfl⟩
  | zero =>
    obtain rfl : part = minus ++ [0x30] := hp
    simp only [step] at h
    split_ifs at h with hd
    exact holds_afterInteger hm (.inl rfl) h
  | integer =>
    obtain ⟨ds, hds, hh, rfl⟩ := hp
    simp only [step] at h
    split_ifs at h with hd
    · obtain rfl := Step.more.inj h
      refine ⟨minus, hm, ds ++ [b], Digits.snoc hds hd, ?_, by simp⟩
      rwa [List.head?_append_of_ne_nil _ hds.1]
    · exact holds_afterInteger hm (.inr ⟨hds, hh⟩) h
  | fraction digits =>
    cases digits with
    | false =>
      obtain ⟨i, hi, rfl⟩ := hp
      simp only [step, Bool.not_false, if_true] at h
      split_ifs at h with hd
      obtain rfl := Step.more.inj h
      exact ⟨minus, hm, i, [b], hi, Digits.one hd, by simp⟩
    | true =>
      obtain ⟨i, ds, hi, hds, rfl⟩ := hp
      simp only [step, Bool.not_true, Bool.false_eq_true, if_false] at h
      split_ifs at h with hd he
      · obtain rfl := Step.more.inj h
        exact ⟨minus, hm, i, ds ++ [b], hi, Digits.snoc hds hd, by simp⟩
      · obtain rfl := Step.more.inj h
        exact ⟨minus, hm, i, 0x2E :: ds, b, hi, .inr ⟨ds, hds, rfl⟩, he, by simp⟩
  | exponentMark =>
    obtain ⟨i, f, mark, hi, hf, he, rfl⟩ := hp
    simp only [step] at h
    split_ifs at h with hs hd
    · obtain rfl := Step.more.inj h
      exact ⟨minus, hm, i, f, mark, b, hi, hf, he, hs, by simp⟩
    · obtain rfl := Step.more.inj h
      refine ⟨minus, hm, i, f, [mark, b], hi, hf, ?_, by simp, by simp⟩
      exact .inr ⟨mark, [], [b], he, .inl rfl, Digits.one hd, rfl⟩
  | exponentSign =>
    obtain ⟨i, f, mark, s, hi, hf, he, hs, rfl⟩ := hp
    simp only [step] at h
    split_ifs at h with hd
    obtain rfl := Step.more.inj h
    refine ⟨minus, hm, i, f, [mark, s, b], hi, hf, ?_, by simp, by simp⟩
    refine .inr ⟨mark, [s], [b], he, ?_, Digits.one hd, rfl⟩
    rcases hs with rfl | rfl
    · exact .inr (.inl rfl)
    · exact .inr (.inr rfl)
  | exponent =>
    obtain ⟨i, f, e, hi, hf, he, hne, rfl⟩ := hp
    simp only [step] at h
    split_ifs at h with hd
    obtain rfl := Step.more.inj h
    exact ⟨minus, hm, i, f, e ++ [b], hi, hf, ExponentPart.snoc he hne hd, by simp, by simp⟩

theorem Holds.text {n : NumberSkipper} {part : List UInt8} (hn : n.Holds part) (h : n.canEnd) :
    NumberText part := by
  obtain ⟨minus, hm, hp⟩ := hn
  cases n with
  | sign => simp [canEnd] at h
  | zero =>
    obtain rfl : part = minus ++ [0x30] := hp
    exact ⟨minus, [0x30], [], [], hm, .inl rfl, .inl rfl, .inl rfl, by simp⟩
  | integer =>
    obtain ⟨ds, hds, hh, rfl⟩ := hp
    exact ⟨minus, ds, [], [], hm, .inr ⟨hds, hh⟩, .inl rfl, .inl rfl, by simp⟩
  | fraction digits =>
    cases digits with
    | false => simp [canEnd] at h
    | true =>
      obtain ⟨i, ds, hi, hds, rfl⟩ := hp
      exact ⟨minus, i, 0x2E :: ds, [], hm, hi, .inr ⟨ds, hds, rfl⟩, .inl rfl, by simp⟩
  | exponentMark => simp [canEnd] at h
  | exponentSign => simp [canEnd] at h
  | exponent =>
    obtain ⟨i, f, e, hi, hf, he, -, rfl⟩ := hp
    exact ⟨minus, i, f, e, hm, hi, hf, he, rfl⟩

theorem afterInteger_ne_done (b : UInt8) : afterInteger b ≠ .done () := by
  unfold afterInteger
  split_ifs <;> simp

theorem step_ne_done (n : NumberSkipper) (b : UInt8) : n.step b ≠ .done () := by
  have ha := afterInteger_ne_done b
  cases n <;> simp only [step] <;> split_ifs <;> first | exact ha | simp

/-- A number that ends before a byte may end. -/
theorem canEnd_of_passed {n : NumberSkipper} {b : UInt8} (h : n.step b = .passed ()) :
    n.canEnd := by
  cases n with
  | fraction digits =>
    simp only [step] at h
    split_ifs at h with hd hf he
    simpa [canEnd] using hf
  | zero => rfl
  | integer => rfl
  | exponent => rfl
  | sign =>
    simp only [step] at h
    split_ifs at h
  | exponentMark =>
    simp only [step] at h
    split_ifs at h
  | exponentSign =>
    simp only [step] at h
    split_ifs at h

/-! ## Reading a text -/

theorem reads_digits {n : NumberSkipper} {ds : List UInt8} (h : ∀ d ∈ ds, isDigit d)
    (hn : ∀ d, isDigit d → n.step d = .more n) :
    Reads (fun (n : NumberSkipper) b => (n.step b).next?) n ds n :=
  .stay fun d hd => by simp [hn d (h d hd)]

theorem reads_integerPart {i : List UInt8} (h : IntegerPart i) :
    ∃ b rest n m, i = b :: rest ∧ start? b = some n ∧ sign.step b = .more n ∧
      Reads (fun (n : NumberSkipper) b => (n.step b).next?) n rest m ∧
      (m = zero ∨ m = integer) := by
  rcases h with rfl | ⟨⟨hne, hd⟩, hh⟩
  · exact ⟨0x30, [], zero, zero, rfl, rfl, rfl, .nil, .inl rfl⟩
  · obtain ⟨b, rest, rfl⟩ := List.exists_cons_of_ne_nil hne
    have hz : b ≠ 0x30 := by simpa using hh
    have hb : isDigit b := hd b (by simp)
    have hminus : b ≠ 0x2D := by
      rintro rfl
      simp [isDigit] at hb
    refine ⟨b, rest, integer, integer, rfl, by simp [start?, hminus, hz, hb],
      by simp [step, hz, hb], ?_, .inr rfl⟩
    exact reads_digits (fun d hm => hd d (by simp [hm])) fun d hm => by simp [step, hm]

theorem reads_fractionPart {f : List UInt8} (h : FractionPart f) {n : NumberSkipper}
    (hn : n = zero ∨ n = integer) :
    ∃ m, Reads (fun (n : NumberSkipper) b => (n.step b).next?) n f m ∧
      (m = zero ∨ m = integer ∨ m = fraction true) := by
  rcases h with rfl | ⟨ds, ⟨hne, hd⟩, rfl⟩
  · exact ⟨n, .nil, hn.elim .inl fun h => .inr (.inl h)⟩
  · obtain ⟨d, rest, rfl⟩ := List.exists_cons_of_ne_nil hne
    have hp : n.step 0x2E = .more (fraction false) := by
      rcases hn with rfl | rfl <;> rfl
    have hfirst : step (fraction false) d = .more (fraction true) := by
      simp [step, hd d (by simp)]
    refine ⟨fraction true, .cons (t := fraction false) (by simp [hp]) ?_, .inr (.inr rfl)⟩
    refine .cons (t := fraction true) (by simp [hfirst]) ?_
    exact reads_digits (fun d hm => hd d (by simp [hm])) fun d hm => by simp [step, hm]

theorem reads_exponentPart {e : List UInt8} (h : ExponentPart e) {n : NumberSkipper}
    (hn : n = zero ∨ n = integer ∨ n = fraction true) :
    ∃ m, Reads (fun (n : NumberSkipper) b => (n.step b).next?) n e m ∧ m.canEnd := by
  rcases h with rfl | ⟨mark, s, ds, hm, hs, ⟨hne, hd⟩, rfl⟩
  · refine ⟨n, .nil, ?_⟩
    rcases hn with rfl | rfl | rfl <;> rfl
  · obtain ⟨d, rest, rfl⟩ := List.exists_cons_of_ne_nil hne
    have hdigit : isDigit d := hd d (by simp)
    have hmark : n.step mark = .more exponentMark := by
      have : mark = 0x65 ∨ mark = 0x45 := by simpa [isExponentMark] using hm
      rcases this with rfl | rfl <;> rcases hn with rfl | rfl | rfl <;> rfl
    have hrest : Reads (fun (n : NumberSkipper) b => (n.step b).next?) exponent rest exponent :=
      reads_digits (fun d hm => hd d (by simp [hm])) fun d hm => by simp [step, hm]
    refine ⟨exponent, .cons (t := exponentMark) (by simp [hmark]) ?_, rfl⟩
    have hsign : d ≠ 0x2B ∧ d ≠ 0x2D := by
      constructor <;> rintro rfl <;> simp [isDigit] at hdigit
    rcases hs with rfl | rfl | rfl
    · exact .cons (t := exponent) (by simp [step, hsign, hdigit]) hrest
    · exact .cons (t := exponentSign) rfl (.cons (t := exponent) (by simp [step, hdigit]) hrest)
    · exact .cons (t := exponentSign) rfl (.cons (t := exponent) (by simp [step, hdigit]) hrest)

theorem reads_number {raw : List UInt8} (h : NumberText raw) :
    ∃ b rest n m, raw = b :: rest ∧ start? b = some n ∧
      Reads (fun (n : NumberSkipper) b => (n.step b).next?) n rest m ∧ m.canEnd := by
  obtain ⟨minus, i, f, e, hm, hi, hf, he, rfl⟩ := h
  obtain ⟨b, rest, n, m, rfl, hstart, hsign, hr, hkind⟩ := reads_integerPart hi
  obtain ⟨m', hr', hkind'⟩ := reads_fractionPart hf hkind
  obtain ⟨m'', hr'', hend⟩ := reads_exponentPart he hkind'
  have hall := (hr.append hr').append hr''
  rcases hm with rfl | rfl
  · exact ⟨b, rest ++ f ++ e, n, m'', by simp, hstart, hall, hend⟩
  · refine ⟨0x2D, b :: rest ++ f ++ e, sign, m'', by simp, rfl, ?_, hend⟩
    exact .cons (t := n) (by simp [hsign]) hall

/-- The bytes that may come behind a number in a document. -/
theorem step_of_canEnd {n : NumberSkipper} {b : UInt8} (h : n.canEnd)
    (hb : isBlank b ∨ b = 0x2C ∨ b = 0x5D ∨ b = 0x7D) : n.step b = .passed () := by
  have hd : isDigit b = false ∧ b ≠ 0x2E ∧ isExponentMark b = false := by
    rcases hb with hb | rfl | rfl | rfl
    · simp only [isBlank, Bool.or_eq_true, decide_eq_true_eq] at hb
      rcases hb with ((rfl | rfl) | rfl) | rfl <;> decide
    all_goals decide
  obtain ⟨hd, hp, he⟩ := hd
  cases n with
  | zero => simp [step, afterInteger, hd, hp, he]
  | integer => simp [step, afterInteger, hd, hp, he]
  | fraction digits =>
    have : digits = true := h
    simp [step, hd, he, this]
  | exponent => simp [step, hd]
  | sign => simp [canEnd] at h
  | exponentMark => simp [canEnd] at h
  | exponentSign => simp [canEnd] at h

end NumberSkipper

end TypeDeps.Json
