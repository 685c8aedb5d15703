import TypeDeps.Proofs.Yaml.Characters
import TypeDeps.Yaml.Scalar

/-!
# Scalars on a line

Reading undoes writing for a text that is written plain or between quotes: what is read behind
the first character of such a scalar is the text, and reading stops at its end. Each proof goes
along the text. What has been read so far, with the gap behind it, is the part of the text
that lies behind.
-/
namespace TypeDeps.Yaml

variable {c d : Char} {cs r R acc : List Char} {gap : Gap} {m : Mark}

@[simp] theorem Mark.nextBy_zero (m : Mark) : m.nextBy 0 = m := rfl

theorem Mark.nextBy_next (m : Mark) (n : Nat) : m.next.nextBy n = m.nextBy (n + 1) := by
  simp only [nextBy, next]
  congr 1 <;> omega

@[simp] theorem Mark.column_next (m : Mark) : m.next.column = m.column + 1 := rfl

namespace Gap

@[simp] theorem close_none (acc : List Char) : Gap.none.close acc = acc := rfl

theorem reverse_close (g : Gap) (acc : List Char) :
    (g.close acc).reverse = acc.reverse ++ g.text := by
  simp [close]

theorem text_addBlank (h : gap.hasBreak = false) (b : Char) :
    (gap.addBlank b).text = gap.text ++ [b] := by
  cases gap with
  | none => rfl
  | blanks bs => simp [addBlank, text]
  | lines first more => cases h

theorem close_addBlank (h : gap.hasBreak = false) (b : Char) :
    (gap.addBlank b).close acc = b :: gap.close acc := by
  simp [close, text_addBlank h]

@[simp] theorem hasBreak_addBlank (g : Gap) (b : Char) : (g.addBlank b).hasBreak = g.hasBreak := by
  cases g <;> rfl

end Gap

/-! ## Without quotes -/

namespace PlainScalar

variable {indent : Nat}

theorem scan_cons (hc : c ≠ '\r') (hbreak : isBreak c = false) :
    scan false indent acc gap m (c :: r) =
      if isBlank c then
        if gap.hasBreak && m.column < indent && c = '\t' then none
        else scan false indent acc (gap.addBlank c) m.next r
      else if endsBehindGap false indent gap m (c :: r) then
        some ⟨acc.reverse, gap.hasBreak, ⟨c :: r, m⟩⟩
      else if isMisplacedColon false c r then none
      else if endsHere false c r then some ⟨acc.reverse, gap.hasBreak, ⟨c :: r, m⟩⟩
      else scan false indent (c :: gap.close acc) .none m.next r := by
  rw [scan]
  · simp [hbreak]
  · rintro r rfl
    exact (hc rfl).elim

/-- What is left of a text that is written plain. -/
structure Remainder (cs : List Char) : Prop where
  printable : ∀ c ∈ cs, isPrintable c
  unbroken : ∀ c ∈ cs, isBreak c = false
  inner : Shape.hasInnerIndicator cs = false
  last : cs.getLast? ≠ some ' '

theorem Remainder.tail (h : Remainder (c :: cs)) : Remainder cs where
  printable d hd := h.printable d (List.mem_cons_of_mem c hd)
  unbroken d hd := h.unbroken d (List.mem_cons_of_mem c hd)
  inner := (Shape.hasInnerIndicator_cons h.inner).2.2
  last := by
    cases cs with
    | nil => simp
    | cons d cs => simpa using h.last

/-- Behind a gap, a text must go on with something else than a comment. -/
theorem scan_append (h : Remainder cs) (hindent : indent ≤ 1) (hgap : gap.hasBreak = false)
    (hbehind : gap = .none ∨ 0 < m.column ∧ cs ≠ [] ∧ cs.head? ≠ some '#') :
    scan false indent acc gap m (cs ++ R) =
      scan false indent (cs.reverse ++ gap.close acc) .none (m.nextBy cs.length) R := by
  induction cs generalizing acc gap m with
  | nil =>
    obtain rfl : gap = .none := hbehind.resolve_right (by simp)
    simp
  | cons c cs ih =>
    have hprint := h.printable c List.mem_cons_self
    obtain ⟨hcolon, hhash, -⟩ := Shape.hasInnerIndicator_cons h.inner
    rw [List.cons_append, scan_cons (ne_return_of_isPrintable hprint)
      (h.unbroken c List.mem_cons_self), List.length_cons, ← Mark.nextBy_next,
      List.reverse_cons, List.append_assoc, List.singleton_append]
    by_cases hblank : isBlank c
    · -- the text goes on behind a blank, since none stands at its end
      obtain rfl := (isBlank_iff_of_isPrintable hprint).mp hblank
      have hne : cs ≠ [] := by
        rintro rfl
        exact h.last rfl
      simp only [hblank, ↓reduceIte, hgap, Bool.false_and, Bool.false_eq_true]
      rw [ih h.tail (by simpa using hgap) (.inr ⟨by simp, hne, hhash hblank⟩),
        Gap.close_addBlank hgap]
    · have hends : endsBehindGap false indent gap m (c :: (cs ++ R)) = false := by
        rcases hbehind with rfl | ⟨hcolumn, -, hhead⟩
        · rfl
        · have hc : c ≠ '#' := by simpa using hhead
          cases gap <;> simp [endsBehindGap, hc] <;> omega
      have hhere : endsHere false c (cs ++ R) = false := by
        simp only [endsHere, Bool.false_and, Bool.or_false, Bool.and_eq_false_imp,
          decide_eq_true_eq]
        exact fun hc => endsWord_append (hcolon hc) R
      simp only [hblank, hends, hhere, isMisplacedColon, Bool.false_and, Bool.false_eq_true,
        ↓reduceIte]
      rw [ih h.tail rfl (.inl rfl), Gap.close_none]

theorem scan_lineEnd (hR : BeginsLine R) :
    scan false 1 acc .none m ('\n' :: R) = some ⟨acc.reverse, true, ⟨R, m.nextLine 1⟩⟩ := by
  rw [scan]
  · rw [if_pos (by decide)]
    cases R with
    | nil => rfl
    | cons c r =>
      have hc : isNameChar c := hR c rfl
      have hreturn : c ≠ '\r' := by
        rintro rfl
        cases hc
      rw [scan_cons hreturn (isBreak_of_isNameChar hc), if_neg (by simp [isBlank_of_isNameChar hc]),
        if_pos (by simp [endsBehindGap, Gap.addBreak, Mark.nextLine])]
      rfl
  · simp

theorem scan_colon (h : endsWord R) :
    scan false indent acc .none m (':' :: R) = some ⟨acc.reverse, false, ⟨':' :: R, m⟩⟩ := by
  rw [scan_cons (by decide) (by decide), if_neg (by decide), if_neg (by simp [endsBehindGap]),
    if_neg (by simp [isMisplacedColon]), if_pos (by simp [endsHere, h])]
  rfl

theorem remainder_of_allowsPlain (h : (Shape.of cs).allowsPlain) : Remainder cs := by
  simp only [Shape.allowsPlain, Shape.of, Shape.needsEscapes, Bool.not_eq_true',
    Bool.or_eq_false_iff, List.any_eq_false, Bool.not_eq_true] at h
  obtain ⟨⟨⟨⟨⟨-, hinner⟩, hbreak⟩, -, hlast⟩, -⟩, -, hprint⟩ := h
  refine ⟨fun c hc => by simpa using hprint c hc, hbreak, hinner, fun heq => ?_⟩
  simp [Shape.isLoose, heq] at hlast

end PlainScalar

/-- A text that is written plain, behind a dash or colon. -/
theorem plainScalar?_line (h : (Shape.of cs).allowsPlain) (hR : BeginsLine R) (m : Mark) :
    plainScalar? false 1 ⟨cs ++ '\n' :: R, m⟩ =
      some ⟨cs, true, ⟨R, (m.nextBy cs.length).nextLine 1⟩⟩ := by
  have hcs := PlainScalar.remainder_of_allowsPlain h
  rw [plainScalar?, PlainScalar.scan_append hcs le_rfl rfl (.inl rfl),
    PlainScalar.scan_lineEnd hR]
  simp

/-- A text that is written plain in front of a colon. -/
theorem plainScalar?_key (h : (Shape.of cs).allowsPlain) (hR : endsWord R) {indent : Nat}
    (hindent : indent ≤ 1) (m : Mark) :
    plainScalar? false indent ⟨cs ++ ':' :: R, m⟩ =
      some ⟨cs, false, ⟨':' :: R, m.nextBy cs.length⟩⟩ := by
  have hcs := PlainScalar.remainder_of_allowsPlain h
  rw [plainScalar?, PlainScalar.scan_append hcs hindent rfl (.inl rfl),
    PlainScalar.scan_colon hR]
  simp

/-! ## Between single quotes -/

/-- A gap that stays as it is in front of this text: blanks are not followed by a line break,
line breaks are not followed by a blank, and the first of them is no line feed. -/
def Gap.Fits : Gap → List Char → Prop
  | .none, _ => True
  | .blanks _, cs => ∀ c ∈ cs.head?, isBreak c = false
  | .lines first _, cs => first ≠ ['\n'] ∧ cs.head? ≠ some ' '

theorem Gap.Fits.hasBreak (h : gap.Fits (' ' :: cs)) : gap.hasBreak = false := by
  cases gap with
  | lines first more => exact (h.2 rfl).elim
  | _ => rfl

theorem Gap.Fits.text_addBreak (h : gap.Fits (c :: cs)) (hbreak : isBreak c)
    (hprint : isPrintable c) (hc : c ≠ '\n') : (gap.addBreak c).text = gap.text ++ [c] := by
  cases gap with
  | none => simp [addBreak, text, breakText_of_isPrintable hbreak hprint, hc]
  | blanks bs => simp [h c rfl] at hbreak
  | lines first more => simp [addBreak, text, breakText_of_isPrintable hbreak hprint, h.1]

theorem Gap.Fits.addBreak (h : gap.Fits (c :: cs)) (hbreak : isBreak c) (hprint : isPrintable c)
    (hc : c ≠ '\n') (hhead : cs.head? ≠ some ' ') : (gap.addBreak c).Fits cs := by
  have hfirst : [breakText c] ≠ ['\n'] := by
    simpa [breakText_of_isPrintable hbreak hprint] using hc
  cases gap with
  | lines first more => exact ⟨h.1, hhead⟩
  | _ => exact ⟨hfirst, hhead⟩

theorem Gap.Fits.addBlank (h : gap.hasBreak = false) (hhead : ∀ d ∈ cs.head?, isBreak d = false)
    (b : Char) : (gap.addBlank b).Fits cs := by
  cases gap with
  | lines first more => cases h
  | _ => exact hhead

/-- The line that is open already goes on, and a new one is indented. -/
theorem singleBody_true (cs : List Char) :
    singleBody true cs =
      (if cs.head?.any isBreak then [] else indentation) ++ singleBody false cs := by
  cases cs with
  | nil => rfl
  | cons c cs => by_cases hc : isBreak c <;> simp [singleBody, hc]

namespace SingleScalar

theorem scan_cons (hreturn : c ≠ '\r') (hquote : c ≠ '\x27') :
    scan acc gap m (c :: r) =
      if isBreak c then scan acc (gap.addBreak c) (m.nextLine 1) r
      else if isBlank c then scan acc (gap.addBlank c) m.next r
      else if m.column = 0 ∧ isDocumentMark (c :: r) then none
      else scan (c :: gap.close acc) .none m.next r := by
  rw [scan]
  · simp [hquote]
  · rintro r rfl
    exact (hreturn rfl).elim
  · rintro r rfl
    exact (hquote rfl).elim

theorem scan_quote (hm : 0 < m.column) (hR : R.head? ≠ some '\x27') :
    scan acc gap m ('\x27' :: R) = some ⟨acc.reverse ++ gap.text, false, ⟨R, m.next⟩⟩ := by
  rw [scan]
  · simp [show isBreak '\x27' = false by decide, show isBlank '\x27' = false by decide, hm.ne',
      Gap.reverse_close]
  · simp
  · rintro r - rfl
    exact hR rfl

theorem scan_indentation (h : gap.hasBreak) :
    scan acc gap m (indentation ++ r) = scan acc gap m.next.next r := by
  cases gap with
  | lines first more =>
    simp only [indentation, List.cons_append, List.nil_append]
    rw [scan_cons (by decide) (by decide), if_neg (by decide), if_pos (by decide),
      scan_cons (by decide) (by decide), if_neg (by decide), if_pos (by decide)]
    rfl
  | _ => cases h

/-- What is left of a text that is written between single quotes. -/
structure Remainder (cs : List Char) : Prop where
  printable : ∀ c ∈ cs, isPrintable c
  lineFeed : '\n' ∉ cs
  breakThenSpace : Shape.hasPair isBreak (· = ' ') cs = false
  spaceThenBreak : Shape.hasPair (· = ' ') isBreak cs = false

theorem Remainder.tail (h : Remainder (c :: cs)) : Remainder cs where
  printable d hd := h.printable d (List.mem_cons_of_mem c hd)
  lineFeed hd := h.lineFeed (List.mem_cons_of_mem c hd)
  breakThenSpace := (Shape.hasPair_cons h.breakThenSpace).2
  spaceThenBreak := (Shape.hasPair_cons h.spaceThenBreak).2

theorem scan_doubledQuote :
    scan acc gap m ('\x27' :: '\x27' :: r) =
      scan ('\x27' :: gap.close acc) .none (m.nextBy 2) r := by
  rw [scan]

/-- Reading stands between these two parts of the text. At the start of a line there is another
line break, since anything else is indented. -/
structure Between (read cs acc : List Char) (gap : Gap) (m : Mark) : Prop where
  text : acc.reverse ++ gap.text = read
  fits : gap.Fits cs
  column : 0 < m.column ∨ cs.head?.any isBreak

namespace Between

variable {read : List Char}

/-- Behind a character that is no blank, in a line that is open. -/
theorem other (h : Between read (c :: cs) acc gap m) (m' : Mark) (hm : 0 < m'.column) :
    Between (read ++ [c]) cs (c :: gap.close acc) .none m' where
  text := by simp [Gap.reverse_close, Gap.text, ← h.text]
  fits := trivial
  column := .inl hm

theorem space (h : Between read (' ' :: cs) acc gap m) (hcs : Remainder (' ' :: cs)) :
    Between (read ++ [' ']) cs acc (gap.addBlank ' ') m.next where
  text := by rw [Gap.text_addBlank h.fits.hasBreak, ← List.append_assoc, h.text]
  fits := Gap.Fits.addBlank h.fits.hasBreak
    (fun d hd => (Shape.hasPair_cons hcs.spaceThenBreak).1 d hd (by simp)) ' '
  column := .inl (by simp)

theorem lineBreak (h : Between read (c :: cs) acc gap m) (hcs : Remainder (c :: cs))
    (hbreak : isBreak c) (m' : Mark) (hm : 0 < m'.column ∨ cs.head?.any isBreak) :
    Between (read ++ [c]) cs acc (gap.addBreak c) m' := by
  have hprint := hcs.printable c List.mem_cons_self
  have hc : c ≠ '\n' := fun hc => hcs.lineFeed (hc ▸ List.mem_cons_self)
  have hhead : cs.head? ≠ some ' ' := fun hd => by
    simpa using (Shape.hasPair_cons hcs.breakThenSpace).1 _ hd hbreak
  exact ⟨by rw [h.fits.text_addBreak hbreak hprint hc, ← List.append_assoc, h.text],
    h.fits.addBreak hbreak hprint hc hhead, hm⟩

/-- One character of the text, with the quote or the indentation that is written for it. -/
theorem step (h : Between read (c :: cs) acc gap m) (hcs : Remainder (c :: cs)) :
    ∃ acc' gap' m', Between (read ++ [c]) cs acc' gap' m' ∧ ∀ r,
      scan acc gap m (singleBody false (c :: cs) ++ r) =
        scan acc' gap' m' (singleBody false cs ++ r) := by
  have hprint := hcs.printable c List.mem_cons_self
  have hreturn := ne_return_of_isPrintable hprint
  by_cases hquote : c = '\x27'
  · subst hquote
    exact ⟨_, _, _, h.other (m.nextBy 2) (by simp [Mark.nextBy]),
      fun r => scan_doubledQuote⟩
  by_cases hbreak : isBreak c
  · have hstep (r : List Char) : scan acc gap m (singleBody false (c :: cs) ++ r) =
        scan acc (gap.addBreak c) (m.nextLine 1) (singleBody true cs ++ r) := by
      rw [singleBody, if_pos hbreak, List.cons_append, scan_cons hreturn hquote, if_pos hbreak]
    -- behind the break, the next line is empty or indented
    by_cases hnext : cs.head?.any isBreak
    · refine ⟨_, _, _, h.lineBreak hcs hbreak (m.nextLine 1) (.inr hnext), fun r => ?_⟩
      rw [hstep, singleBody_true, if_pos hnext, List.nil_append]
    · refine ⟨_, _, _, h.lineBreak hcs hbreak (m.nextLine 1).next.next (.inl (by simp)),
        fun r => ?_⟩
      rw [hstep, singleBody_true, if_neg hnext, List.append_assoc,
        scan_indentation (by cases gap <;> rfl)]
  have hm : 0 < m.column := h.column.resolve_right (by simpa using hbreak)
  have hstep (r : List Char) :
      singleBody false (c :: cs) ++ r = c :: (singleBody false cs ++ r) := by
    simp [singleBody, hbreak, hquote]
  by_cases hblank : isBlank c
  · obtain rfl := (isBlank_iff_of_isPrintable hprint).mp hblank
    refine ⟨_, _, _, h.space hcs, fun r => ?_⟩
    rw [hstep, scan_cons hreturn hquote, if_neg hbreak, if_pos hblank]
  · refine ⟨_, _, _, h.other m.next (by simp), fun r => ?_⟩
    rw [hstep, scan_cons hreturn hquote, if_neg hbreak, if_neg hblank, if_neg (by simp [hm.ne'])]

end Between

theorem scan_singleBody {read : List Char} (h : Between read cs acc gap m) (hcs : Remainder cs)
    (hR : R.head? ≠ some '\x27') :
    ∃ m', scan acc gap m (singleBody false cs ++ '\x27' :: R) =
      some ⟨read ++ cs, false, ⟨R, m'⟩⟩ := by
  induction cs generalizing read acc gap m with
  | nil =>
    have hm : 0 < m.column := h.column.resolve_right (by simp)
    refine ⟨m.next, ?_⟩
    rw [singleBody, if_neg (by simp), List.nil_append, scan_quote hm hR, h.text, List.append_nil]
  | cons c cs ih =>
    obtain ⟨acc', gap', m₁, hbetween, hstep⟩ := h.step hcs
    obtain ⟨m', hread⟩ := ih hbetween hcs.tail
    exact ⟨m', by rw [hstep, hread, List.append_assoc, List.singleton_append]⟩

theorem remainder_of_allowsSingle (h : (Shape.of cs).allowsSingle) (hfeed : '\n' ∉ cs) :
    Remainder cs := by
  simp only [Shape.allowsSingle, Shape.of, Shape.needsEscapes, Bool.not_eq_true',
    Bool.or_eq_false_iff, List.any_eq_false] at h
  obtain ⟨hbreak, hspace, hprint⟩ := h
  exact ⟨fun c hc => by simpa using hprint c hc, hfeed, hbreak, hspace⟩

end SingleScalar

theorem singleScalar?_line (h : (Shape.of cs).allowsSingle) (hfeed : '\n' ∉ cs)
    (hR : R.head? ≠ some '\x27') (m : Mark) :
    ∃ m', singleScalar? ⟨single cs ++ R, m⟩ = some ⟨cs, false, ⟨R, m'⟩⟩ := by
  have hcs := SingleScalar.remainder_of_allowsSingle h hfeed
  have hstart : SingleScalar.Between [] cs [] .none m.next := ⟨rfl, trivial, .inl (by simp)⟩
  simpa [singleScalar?, single] using SingleScalar.scan_singleBody hstart hcs hR

/-! ## Between double quotes -/

theorem hexValue?_upperHex {n : Nat} (h : n < 16) :
    hexValue? (upperHex n) = some n := by
  interval_cases n <;> decide

namespace DoubleScalar

theorem scan_digit {d due value : Nat} (hc : hexValue? c = some d) (hdue : 1 < due) :
    scan (.code due value) acc gap m (c :: r) =
      scan (.code (due - 1) (value * 16 + d)) acc gap m.next r := by
  rw [scan]
  · simp [hc, hdue]
  · rintro r rfl
    cases hc

theorem scan_lastDigit {d value : Nat} (hc : hexValue? c = some d)
    (h : (value * 16 + d).isValidChar) :
    scan (.code 1 value) acc gap m (c :: r) =
      scan .text (Char.ofNat (value * 16 + d) :: acc) .none m.next r := by
  rw [scan]
  · simp [hc, h, Char.ofNat]
  · rintro r rfl
    cases hc

theorem scan_text (hc : c ≠ '\r') (hbreak : isBreak c = false) :
    scan .text acc gap m (c :: r) =
      if isBlank c then scan .text acc (gap.addBlank c) m.next r
      else if m.column = 0 ∧ isDocumentMark (c :: r) then none
      else if c = '\x22' then some ⟨(gap.close acc).reverse, false, ⟨r, m.next⟩⟩
      else if c = '\\' then scan .escape (gap.close acc) .none m.next r
      else scan .text (c :: gap.close acc) .none m.next r := by
  rw [scan]
  · simp [hbreak]
  · rintro r rfl
    exact (hc rfl).elim

theorem scan_codeLength {n : Nat} (hc : codeLength? c = some n) (hbreak : isBreak c = false) :
    scan .escape acc gap m (c :: r) = scan (.code n 0) acc gap m.next r := by
  rw [scan]
  · simp [hc, hbreak]
  · rintro r rfl
    cases hc

theorem scan_simpleEscape (hc : simpleEscape? c = some d) (hcode : codeLength? c = none)
    (hbreak : isBreak c = false) :
    scan .escape acc gap m (c :: r) = scan .text (d :: acc) .none m.next r := by
  rw [scan]
  · simp [hc, hcode, hbreak]
  · rintro r rfl
    cases hc

/-- Digits that are not the last ones. -/
theorem scan_hexDigits {n width due value : Nat} (hn : n < 16 ^ width) (hdue : 0 < due) :
    scan (.code (width + due) value) acc gap m (hexDigits n width ++ r) =
      scan (.code due (value * 16 ^ width + n)) acc gap (m.nextBy width) r := by
  induction width generalizing n due r with
  | zero =>
    obtain rfl : n = 0 := by simpa using hn
    simp [hexDigits]
  | succ width ih =>
    have hlast := hexValue?_upperHex (Nat.mod_lt n (show 0 < 16 by decide))
    have hvalue : (value * 16 ^ width + n / 16) * 16 + n % 16 = value * 16 ^ (width + 1) + n := by
      rw [pow_succ, ← Nat.mul_assoc]
      omega
    have hmark : (m.nextBy width).next = m.nextBy (width + 1) := rfl
    rw [hexDigits, List.append_assoc, Nat.add_assoc, Nat.add_comm 1,
      ih (Nat.div_lt_of_lt_mul (by rwa [← pow_succ'])) (Nat.succ_pos due), List.singleton_append,
      scan_digit hlast (by omega), hvalue, hmark, Nat.succ_sub_one]

/-- A character that is given by its code. -/
theorem scan_code {width : Nat} (hc : c.toNat < 16 ^ (width + 1)) :
    scan (.code (width + 1) 0) acc gap m (hexDigits c.toNat (width + 1) ++ r) =
      scan .text (c :: acc) .none (m.nextBy (width + 1)) r := by
  have hlast := hexValue?_upperHex (Nat.mod_lt c.toNat (show 0 < 16 by decide))
  have hvalue : (0 * 16 ^ width + c.toNat / 16) * 16 + c.toNat % 16 = c.toNat := by omega
  have hmark : (m.nextBy width).next = m.nextBy (width + 1) := rfl
  rw [hexDigits, List.append_assoc, scan_hexDigits (Nat.div_lt_of_lt_mul (by rwa [← pow_succ']))
    Nat.one_pos, List.singleton_append, scan_lastDigit hlast (by rw [hvalue]; exact c.valid),
    hvalue, hmark, Char.ofNat_toNat]

/-- Control characters have letters of their own, all others are given by their codes. -/
theorem escapeCode_cases {P : List Char → Prop} (c : Char)
    (letter : ∀ e, simpleEscape? e = some c → codeLength? e = none → isBreak e = false →
      isAllowed e → P [e])
    (code : ∀ e width, codeLength? e = some (width + 1) → isBreak e = false → isAllowed e →
      c.toNat < 16 ^ (width + 1) → P (e :: hexDigits c.toNat (width + 1))) : P (escapeCode c) := by
  have letter {n : Nat} (e : Char) (hn : c.toNat = n) (he : simpleEscape? e = some (Char.ofNat n)) :
      codeLength? e = none → isBreak e = false → isAllowed e → P [e] :=
    letter e (by rw [he, ← hn, Char.ofNat_toNat])
  unfold escapeCode
  dsimp only
  iterate 12
    refine iteInduction
      (fun h => letter _ h (by decide) (by decide) (by decide) (by decide)) fun _ => ?_
  refine iteInduction (fun h => code 'x' 1 (by decide) (by decide) (by decide) (by omega))
    fun _ => ?_
  refine iteInduction (fun h => code 'u' 3 (by decide) (by decide) (by decide) (by omega))
    fun _ => ?_
  exact code 'U' 7 (by decide) (by decide) (by decide) c.val.toNat_lt

theorem scan_escapeCode (acc : List Char) (gap : Gap) (m : Mark) (c : Char) :
    ∃ m', 0 < m'.column ∧ ∀ r,
      scan .escape acc gap m (escapeCode c ++ r) = scan .text (c :: acc) .none m' r := by
  refine escapeCode_cases (P := fun cs => ∃ m', 0 < m'.column ∧ ∀ r,
    scan .escape acc gap m (cs ++ r) = scan .text (c :: acc) .none m' r) c
    (fun e he hcode hbreak _ => ?_) (fun e width hcode hbreak _ hlt => ?_)
  · refine ⟨m.next, by simp, fun r => ?_⟩
    rw [List.singleton_append, scan_simpleEscape he hcode hbreak]
  · refine ⟨m.next.nextBy (width + 1), by simp [Mark.nextBy], fun r => ?_⟩
    rw [List.cons_append, scan_codeLength hcode hbreak, scan_code hlt]

theorem escapeDouble_cases {P : List Char → Prop} (c : Char)
    (self : c = '\x22' ∨ c = '\\' → P ['\\', c]) (escaped : P ('\\' :: escapeCode c))
    (plain : c ≠ '\x22' → c ≠ '\\' → isPrintable c → isBreak c = false → P [c]) :
    P (escapeDouble c) := by
  unfold escapeDouble
  refine iteInduction self fun hself => iteInduction (fun _ => escaped) fun hplain => ?_
  simp only [Bool.or_eq_true, Bool.not_eq_true', not_or, Bool.not_eq_false, Bool.not_eq_true]
    at hself hplain
  exact plain hself.1 hself.2 hplain.1 hplain.2

theorem scan_escapeDouble (acc : List Char) (gap : Gap) (hc : c ≠ ' ') (hm : 0 < m.column) :
    ∃ m', 0 < m'.column ∧ ∀ r,
      scan .text acc gap m (escapeDouble c ++ r) = scan .text (c :: gap.close acc) .none m' r := by
  have escape (r : List Char) : scan .text acc gap m ('\\' :: r) =
      scan .escape (gap.close acc) .none m.next r := by
    rw [scan_text (by decide) (by decide), if_neg (by decide), if_neg (by simp [hm.ne']),
      if_neg (by decide), if_pos rfl]
  refine escapeDouble_cases (P := fun cs => ∃ m', 0 < m'.column ∧ ∀ r,
    scan .text acc gap m (cs ++ r) = scan .text (c :: gap.close acc) .none m' r) c
    (fun hself => ?_) ?_ (fun hquote hslash hprint hbreak => ?_)
  · have he : simpleEscape? c = some c := by rcases hself with rfl | rfl <;> decide
    have hcode : codeLength? c = none := by rcases hself with rfl | rfl <;> decide
    have hbreak : isBreak c = false := by rcases hself with rfl | rfl <;> decide
    refine ⟨m.next.next, by simp, fun r => ?_⟩
    rw [List.cons_append, escape, List.singleton_append, scan_simpleEscape he hcode hbreak]
  · obtain ⟨m', hm', hread⟩ := scan_escapeCode (gap.close acc) .none m.next c
    exact ⟨m', hm', fun r => by rw [List.cons_append, escape, hread]⟩
  · have hblank : ¬isBlank c := by rwa [isBlank_iff_of_isPrintable hprint]
    refine ⟨m.next, by simp, fun r => ?_⟩
    rw [List.singleton_append, scan_text (ne_return_of_isPrintable hprint) hbreak,
      if_neg hblank, if_neg (by simp [hm.ne']), if_neg hquote, if_neg hslash]

/-- All of the text lies in the line that starts with the quote. -/
theorem scan_double (acc : List Char) (gap : Gap) (m : Mark) (hgap : gap.hasBreak = false)
    (hm : 0 < m.column) (cs R : List Char) :
    ∃ m', scan .text acc gap m (cs.flatMap escapeDouble ++ '\x22' :: R) =
      some ⟨acc.reverse ++ gap.text ++ cs, false, ⟨R, m'⟩⟩ := by
  induction cs generalizing acc gap m with
  | nil =>
    refine ⟨m.next, ?_⟩
    rw [List.flatMap_nil, List.nil_append, scan_text (by decide) (by decide), if_neg (by decide),
      if_neg (by simp [hm.ne']), if_pos rfl, Gap.reverse_close]
    simp
  | cons c cs ih =>
    rw [List.flatMap_cons, List.append_assoc]
    by_cases hc : c = ' '
    · subst hc
      have hstep : escapeDouble ' ' = [' '] := by decide
      obtain ⟨m', hread⟩ := ih acc (gap.addBlank ' ') m.next (by simpa) (by simp)
      refine ⟨m', ?_⟩
      rw [hstep, List.singleton_append, scan_text (by decide) (by decide), if_pos (by decide),
        hread, Gap.text_addBlank hgap]
      simp
    · obtain ⟨m₁, hm₁, hstep⟩ := scan_escapeDouble acc gap hc hm
      obtain ⟨m', hread⟩ := ih (c :: gap.close acc) .none m₁ rfl hm₁
      refine ⟨m', ?_⟩
      rw [hstep, hread]
      simp [Gap.reverse_close, Gap.text]

end DoubleScalar

/-- Every text can be written between double quotes. -/
theorem doubleScalar?_line (cs R : List Char) (m : Mark) :
    ∃ m', doubleScalar? ⟨double cs ++ R, m⟩ = some ⟨cs, false, ⟨R, m'⟩⟩ := by
  simpa [doubleScalar?, double, Gap.text] using
    DoubleScalar.scan_double [] .none m.next rfl (by simp) cs R

/-! ## What is written may be read -/

theorem isAllowed_of_plain (h : (Shape.of cs).allowsPlain) : ∀ d ∈ cs, isAllowed d := fun d hd =>
  isAllowed_of_isPrintable ((PlainScalar.remainder_of_allowsPlain h).printable d hd)

theorem isAllowed_singleBody (fresh : Bool) (h : ∀ d ∈ cs, isAllowed d) :
    ∀ d ∈ singleBody fresh cs, isAllowed d := by
  induction cs generalizing fresh with
  | nil => cases fresh <;> simp [singleBody, indentation, isAllowed]
  | cons c cs ih =>
    obtain ⟨hc, hcs⟩ := List.forall_mem_cons.mp h
    unfold singleBody
    split
    · exact List.forall_mem_cons.mpr ⟨hc, ih true hcs⟩
    · refine List.forall_mem_append.mpr ⟨List.forall_mem_append.mpr ⟨?_, ?_⟩, ih false hcs⟩
      · cases fresh <;> simp [indentation, isAllowed]
      · split
        · simp [isAllowed]
        · simpa using hc

theorem isAllowed_single (h : (Shape.of cs).allowsSingle) (hfeed : '\n' ∉ cs) :
    ∀ d ∈ single cs, isAllowed d := by
  have hcs : ∀ d ∈ cs, isAllowed d := fun d hd =>
    isAllowed_of_isPrintable ((SingleScalar.remainder_of_allowsSingle h hfeed).printable d hd)
  exact List.forall_mem_cons.mpr ⟨by decide, List.forall_mem_append.mpr
    ⟨isAllowed_singleBody false hcs, by simp [isAllowed]⟩⟩

theorem isAllowed_hexDigits (n width : Nat) : ∀ d ∈ hexDigits n width, isAllowed d := by
  induction width generalizing n with
  | zero => simp [hexDigits]
  | succ width ih =>
    have hlast (k : Nat) (hk : k < 16) : isAllowed (upperHex k) := by interval_cases k <;> decide
    exact List.forall_mem_append.mpr
      ⟨ih (n / 16), by simpa using hlast _ (Nat.mod_lt n (by decide))⟩

theorem isAllowed_escapeDouble (c : Char) : ∀ d ∈ escapeDouble c, isAllowed d := by
  have hcode : ∀ d ∈ escapeCode c, isAllowed d := by
    refine DoubleScalar.escapeCode_cases (P := fun cs => ∀ d ∈ cs, isAllowed d) c
      (fun e _ _ _ he => by simpa using he) (fun e width _ _ he _ => ?_)
    exact List.forall_mem_cons.mpr ⟨he, isAllowed_hexDigits _ _⟩
  refine DoubleScalar.escapeDouble_cases (P := fun cs => ∀ d ∈ cs, isAllowed d) c
    (fun hself => ?_) ?_ (fun _ _ hprint _ => ?_)
  · rcases hself with rfl | rfl <;> simp [isAllowed]
  · exact List.forall_mem_cons.mpr ⟨by decide, hcode⟩
  · simpa using isAllowed_of_isPrintable hprint

theorem isAllowed_double (cs : List Char) : ∀ d ∈ double cs, isAllowed d := by
  refine List.forall_mem_cons.mpr ⟨by decide, List.forall_mem_append.mpr
    ⟨fun d hd => ?_, by simp [isAllowed]⟩⟩
  obtain ⟨c, -, hc⟩ := List.mem_flatMap.mp hd
  exact isAllowed_escapeDouble c d hc

end TypeDeps.Yaml
