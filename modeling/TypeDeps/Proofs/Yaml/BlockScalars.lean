import TypeDeps.Proofs.Yaml.LineScalars

/-!
# Literal blocks

A text of several lines that is written as a literal block is read back, up to the place where
the next line of the file begins. The indentation is two columns, which the header says unless
the first line shows it. The line breaks at the end are those of the text because the header
says what happens to them.
-/
namespace TypeDeps.Yaml

variable {b c : Char} {cs ds r R acc : List Char} {m : Mark}

@[simp] theorem Mark.column_nextLine (m : Mark) (n : Nat) : (m.nextLine n).column = 0 := rfl

theorem literalBody_cons (fresh : Bool) (c : Char) (cs : List Char) :
    literalBody fresh (c :: cs) =
      (if fresh && !isBreak c then indentation else []) ++ c :: literalBody (isBreak c) cs := by
  cases fresh <;> cases hc : isBreak c <;> simp [literalBody, hc]

namespace BlockScalar

variable {header : Header} {outer : Nat} {l : Lines} {mode : Mode}

/-! ## What becomes of the characters of the text -/

theorem scan_line (hc : c ≠ '\r') {indent : Nat} {blankLine : Bool} :
    scan header outer (.line indent blankLine) acc m (c :: r) =
      if isBreak c then
        scan header outer (.between ⟨some indent, 0, [breakText c], [], blankLine⟩) acc
          (m.nextLine 1) r
      else scan header outer (.line indent blankLine) (c :: acc) m.next r := by
  rw [scan]
  · rfl
  · rintro r rfl
    exact (hc rfl).elim

theorem scan_between (hc : c ≠ '\r') :
    scan header outer (.between l) acc m (c :: r) =
      if l.isIndenting m.column && c = ' ' then scan header outer (.between l) acc m.next r
      else if l.isIndenting m.column && c = '\t' then none
      else if isBreak c then
        scan header outer ((Mode.between l).addBreak m.column c) acc (m.nextLine 1) r
      else if m.column = l.indent outer m.column then
        scan header outer (.line (l.indent outer m.column) (isBlank c))
          (c :: ((l.join header.folded c).reverse ++ acc)) m.next r
      else some ⟨acc.reverse ++ l.tail header.chomping, true, ⟨c :: r, m⟩⟩ := by
  rw [scan]
  · rintro r rfl
    exact (hc rfl).elim

theorem chompHint_concat (ds : List Char) (c : Char) :
    chompHint (ds ++ [c]) =
      if !isBreak c then ['-']
      else if ds.isEmpty || ds.getLast?.any isBreak then ['+']
      else [] := by
  simp [chompHint, List.head?_reverse]

/-- The scan has gone through this much of the text. Inside a line all of that is read. Between
two lines, breaks at the end are kept apart, and if they are more than one, that shows in the
text. -/
inductive Behind : List Char → Mode → List Char → Mark → Prop where
  | line (ds : List Char) {c : Char} {blankLine : Bool} {m : Mark} (hc : isBreak c = false) :
      Behind (ds ++ [c]) (.line 2 blankLine) (c :: ds.reverse) m
  | between {ds acc : List Char} {l : Lines} {m : Mark} (hindent : l.indent? = some 2)
      (hm : m.column = 0) (hread : acc.reverse ++ (l.first ++ l.more.reverse) = ds)
      (hlast : ∀ c ∈ ds.getLast?, isBreak c) (hmore : l.more = [] ∨ chompHint ds = ['+']) :
      Behind ds (.between l) acc m

/-- The next character is at the start of a line. -/
def Mode.isFresh : Mode → Bool
  | .between _ => true
  | .line _ _ => false

theorem Behind.addBreak (h : Behind ds mode acc m) (hprint : isPrintable c) (hc : isBreak c)
    (header : Header) (outer : Nat) :
    ∃ mode' m', mode'.isFresh ∧ Behind (ds ++ [c]) mode' acc m' ∧
      ∀ r, scan header outer mode acc m (c :: r) = scan header outer mode' acc m' r := by
  have hreturn := ne_return_of_isPrintable hprint
  have htext := breakText_of_isPrintable hc hprint
  cases h with
  | line hd =>
    refine ⟨_, m.nextLine 1, rfl, ?_, fun r => by rw [scan_line hreturn, if_pos hc]⟩
    exact .between rfl rfl (by simp [htext]) (by simpa using hc) (.inl rfl)
  | @between _ _ l _ hindent hm hread hlast hmore =>
    have hblank : c ≠ ' ' ∧ c ≠ '\t' := by
      constructor <;> (rintro rfl; revert hc; decide)
    refine ⟨_, m.nextLine 1, rfl, ?_, fun r => by
      rw [scan_between hreturn, if_neg (by simp [hblank]), if_neg (by simp [hblank]), if_pos hc]⟩
    refine .between hindent rfl ?_ (by simpa using hc) (.inr ?_)
    · simp [htext, ← hread]
    · rw [chompHint_concat, if_neg (by simp [hc]), if_pos]
      cases h : ds.getLast? with
      | none => simp [List.getLast?_eq_none_iff.mp h]
      | some d => simp [hlast d h]

theorem scan_indentation (hindent : l.indent?.all (1 < ·)) (hm : m.column = 0) :
    scan header outer (.between l) acc m (indentation ++ r) =
      scan header outer (.between l) acc m.next.next r := by
  have hpos : l.indent?.all (0 < ·) := by
    cases h : l.indent? with
    | none => rfl
    | some n =>
      simp only [h, Option.all_some, decide_eq_true_eq] at hindent ⊢
      omega
  simp only [indentation, List.cons_append, List.nil_append]
  rw [scan_between (by decide), if_pos (by simp [Lines.isIndenting, hm, hpos]),
    scan_between (by decide), if_pos (by simpa [Lines.isIndenting, hm] using hindent)]

theorem Behind.addChar (h : Behind ds mode acc m) (hprint : isPrintable c) (hc : isBreak c = false)
    (hfolded : header.folded = false) (outer : Nat) :
    ∃ mode' acc' m', mode'.isFresh = false ∧ Behind (ds ++ [c]) mode' acc' m' ∧
      ∀ r, scan header outer mode acc m ((if mode.isFresh then indentation else []) ++ c :: r) =
        scan header outer mode' acc' m' r := by
  have hreturn := ne_return_of_isPrintable hprint
  cases h with
  | @line ds d blankLine _ hd =>
    refine ⟨.line 2 blankLine, c :: d :: ds.reverse, m.next, rfl, ?_, fun r => ?_⟩
    · simpa using Behind.line (ds ++ [d]) hc
    · rw [if_neg (by simp [Mode.isFresh]), List.nil_append, scan_line hreturn,
        if_neg (by simp [hc])]
  | @between _ _ l _ hindent hm hread hlast hmore =>
    have hdepth : l.indent outer m.next.next.column = 2 := by simp [Lines.indent, hindent]
    have hjoin : (l.join header.folded c).reverse ++ acc = ds.reverse := by
      simp [Lines.join, hfolded, ← hread]
    refine ⟨.line 2 (isBlank c), c :: ds.reverse, m.next.next.next, rfl, .line ds hc, fun r => ?_⟩
    rw [if_pos (show (Mode.between l).isFresh from rfl),
      scan_indentation (by simp [hindent]) hm, scan_between hreturn,
      if_neg (by simp [Lines.isIndenting, hindent, hm]),
      if_neg (by simp [Lines.isIndenting, hindent, hm]), if_neg (by simp [hc]), hdepth,
      if_pos (by simp [hm]), hjoin]

theorem Behind.append (h : Behind ds mode acc m) (hprint : ∀ c ∈ cs, isPrintable c)
    (hfolded : header.folded = false) (outer : Nat) :
    ∃ mode' acc' m', Behind (ds ++ cs) mode' acc' m' ∧
      ∀ r, scan header outer mode acc m (literalBody mode.isFresh cs ++ r) =
        scan header outer mode' acc' m' r := by
  induction cs generalizing ds mode acc m with
  | nil => exact ⟨mode, acc, m, by simpa using h, fun r => rfl⟩
  | cons c cs ih =>
    have hc := hprint c List.mem_cons_self
    have htail := fun d hd => hprint d (List.mem_cons_of_mem c hd)
    by_cases hbreak : isBreak c
    · obtain ⟨mode₁, m₁, hfresh, hnext, hstep⟩ := h.addBreak hc hbreak header outer
      obtain ⟨mode', acc', m', hbehind, hread⟩ := ih hnext htail
      refine ⟨mode', acc', m', by simpa using hbehind, fun r => ?_⟩
      rw [hfresh] at hread
      rw [literalBody_cons, hbreak, if_neg (by simp), List.nil_append, List.cons_append, hstep,
        hread]
    · have hbreak : isBreak c = false := by simpa using hbreak
      obtain ⟨mode₁, acc₁, m₁, hfresh, hnext, hstep⟩ := h.addChar hc hbreak hfolded outer
      obtain ⟨mode', acc', m', hbehind, hread⟩ := ih hnext htail
      refine ⟨mode', acc', m', by simpa using hbehind, fun r => ?_⟩
      rw [hfresh] at hread
      rw [literalBody_cons, hbreak, Bool.not_false, Bool.and_true, List.append_assoc,
        List.cons_append, hstep, hread]

/-- A first line that does not start with a blank shows how deep the block is. -/
theorem scan_firstLine (hprint : isPrintable c) (hloose : Shape.isLoose (some c) = false)
    (hm : m.column = 0) (hfolded : header.folded = false) :
    ∃ m', Behind [c] (.line 2 false) [c] m' ∧
      ∀ r, scan header 1 (.between ⟨none, 0, [], [], false⟩) [] m (indentation ++ c :: r) =
        scan header 1 (.line 2 false) [c] m' r := by
  obtain ⟨hspace, hbreak⟩ : c ≠ ' ' ∧ isBreak c = false := by simpa [Shape.isLoose] using hloose
  have hblank : isBlank c = false := by
    rwa [← Bool.not_eq_true, isBlank_iff_of_isPrintable hprint]
  have htab : c ≠ '\t' := by
    rintro rfl
    cases hprint
  have hdepth : Lines.indent ⟨none, 0, [], [], false⟩ 1 m.next.next.column = 2 := by
    simp [Lines.indent, hm]
  refine ⟨m.next.next.next, .line [] hbreak, fun r => ?_⟩
  rw [scan_indentation rfl hm, scan_between (ne_return_of_isPrintable hprint),
    if_neg (by simp [hspace]), if_neg (by simp [htab]), if_neg (by simp [hbreak]), hdepth,
    if_pos (by simp [hm]), hblank]
  simp [Lines.join, hfolded]

/-! ## The end of a block -/

theorem scan_end (hindent : l.indent? = some 2) (hm : m.column = 0) (hR : BeginsLine R) :
    scan header outer (.between l) acc m R =
      some ⟨acc.reverse ++ l.tail header.chomping, true, ⟨R, m⟩⟩ := by
  cases R with
  | nil => rfl
  | cons c r =>
    have hc : isNameChar c := hR c rfl
    have hplain : c ≠ '\r' ∧ c ≠ ' ' ∧ c ≠ '\t' := by
      refine ⟨?_, ?_, ?_⟩ <;> (rintro rfl; cases hc)
    rw [scan_between hplain.1, if_neg (by simp [hplain]), if_neg (by simp [hplain]),
      if_neg (by simp [isBreak_of_isNameChar hc]), if_neg (by simp [Lines.indent, hindent, hm])]

/-- What the header of a text's block says about the line breaks at the end. -/
def chompingOf (cs : List Char) : Chomping :=
  ((chompHint cs).head?.bind chomping?).getD .clip

theorem Behind.close (h : Behind ds mode acc m) (hne : ds ≠ []) (hR : BeginsLine R)
    (hchomp : header.chomping = chompingOf ds) (outer : Nat) :
    ∃ m', m'.column = 0 ∧
      scan header outer mode acc m ((if ds.getLast?.any isBreak then [] else ['\n']) ++ R) =
        some ⟨ds, true, ⟨R, m'⟩⟩ := by
  cases h with
  | @line ds c _ _ hc =>
    have hstrip : header.chomping = .strip := by
      rw [hchomp, chompingOf, chompHint_concat, if_pos (by simp [hc])]
      rfl
    refine ⟨m.nextLine 1, rfl, ?_⟩
    rw [if_neg (by simp [hc]), List.singleton_append, scan_line (by decide), if_pos (by decide),
      scan_end rfl rfl hR, hstrip]
    simp [Lines.tail]
  | @between _ _ l _ hindent hm hread hlast hmore =>
    obtain ⟨ds, c, rfl⟩ := (List.eq_nil_or_concat' ds).resolve_left hne
    have hc : isBreak c := hlast c (by simp)
    have htail : acc.reverse ++ l.tail header.chomping = ds ++ [c] := by
      rw [hchomp, chompingOf]
      rw [chompHint_concat, if_neg (by simp [hc])] at hmore ⊢
      split at hmore
      · rw [if_pos ‹_›]
        exact hread
      · have hnil : l.more = [] := hmore.resolve_right (by simp)
        rw [if_neg ‹_›]
        simpa [hnil, Lines.tail] using hread
    refine ⟨m, hm, ?_⟩
    rw [if_pos (by simp [hc]), List.nil_append, scan_end hindent hm hR, htail]

/-! ## The header of a block -/

theorem chompHint_cases (cs : List Char) :
    chompHint cs = ['-'] ∨ chompHint cs = ['+'] ∨ chompHint cs = [] := by
  unfold chompHint
  split
  · exact .inl rfl
  · split
    · exact .inl rfl
    · split
      · exact .inr (.inl rfl)
      · exact .inr (.inr rfl)

theorem header?_literal (cs r : List Char) (m : Mark) :
    ∃ m', m'.column = 0 ∧
      header? ⟨'|' :: indentHint cs ++ chompHint cs ++ '\n' :: r, m⟩ =
        some (⟨false, chompingOf cs, if Shape.isLoose cs.head? then some 2 else none⟩,
          ⟨r, m'⟩) := by
  have hbreak : isBreak '\n' := by decide
  have hblank : isBlank '\n' = false := by decide
  unfold indentHint chompingOf
  rcases chompHint_cases cs with h | h | h <;> rw [h] <;> split <;>
    simp [header?, Cursor.skip, chomping?, isDigit, Cursor.skipLineEnd?, Cursor.skipWhile,
      Cursor.takeWhile, Cursor.atLineEnd, Cursor.skipBreak, hbreak, hblank, Option.filter]

/-- Behind the header, the whole text is read. -/
theorem scan_literal (header : Header) (hprint : ∀ c ∈ cs, isPrintable c) (hne : cs ≠ [])
    (hR : BeginsLine R) (hm : m.column = 0) (hfolded : header.folded = false)
    (hchomp : header.chomping = chompingOf cs) :
    ∃ m', m'.column = 0 ∧
      scan header 1 (.between ⟨if Shape.isLoose cs.head? then some 2 else none, 0, [], [], false⟩)
        [] m (literalBody true cs ++ ((if cs.getLast?.any isBreak then [] else ['\n']) ++ R)) =
        some ⟨cs, true, ⟨R, m'⟩⟩ := by
  by_cases hloose : Shape.isLoose cs.head?
  · have hstart : Behind [] (.between ⟨some 2, 0, [], [], false⟩) [] m :=
      .between rfl hm rfl (by simp) (.inl rfl)
    obtain ⟨mode, acc, m₁, hbehind, hread⟩ := hstart.append hprint hfolded 1
    obtain ⟨m', hm', hclose⟩ := hbehind.close hne hR hchomp 1
    exact ⟨m', hm', by rw [if_pos hloose]; exact (hread _).trans hclose⟩
  · cases cs with
    | nil => exact (hne rfl).elim
    | cons c cs =>
      have hloose : Shape.isLoose (some c) = false := by simpa using hloose
      have hc : isBreak c = false := (by simpa [Shape.isLoose] using hloose : _ ∧ _).2
      obtain ⟨m₁, hbehind, hfirst⟩ :=
        scan_firstLine (hprint c List.mem_cons_self) hloose hm hfolded
      obtain ⟨mode, acc, m₂, hbehind, hread⟩ :=
        hbehind.append (fun d hd => hprint d (List.mem_cons_of_mem c hd)) hfolded 1
      obtain ⟨m', hm', hclose⟩ := hbehind.close (by simp) hR hchomp 1
      refine ⟨m', hm', ?_⟩
      rw [List.head?_cons, hloose, if_neg (by simp), literalBody_cons, hc, Bool.not_false,
        Bool.and_true, if_pos rfl, List.append_assoc, List.cons_append, hfirst]
      exact (hread _).trans hclose

end BlockScalar

theorem isPrintable_of_allowsLiteral (h : (Shape.of cs).allowsLiteral) :
    ∀ c ∈ cs, isPrintable c := by
  simp only [Shape.allowsLiteral, Shape.of, Shape.needsEscapes, Bool.not_eq_true',
    Bool.or_eq_false_iff, List.any_eq_false] at h
  exact fun c hc => by simpa using h.2.2 c hc

/-- A text of several lines behind a dash or colon of a collection that is not indented. -/
theorem blockScalar?_line (h : (Shape.of cs).allowsLiteral) (hne : cs ≠ []) (hR : BeginsLine R)
    (m : Mark) :
    ∃ m', m'.column = 0 ∧ blockScalar? 1 ⟨literal cs ++ R, m⟩ = some ⟨cs, true, ⟨R, m'⟩⟩ := by
  have hprint := isPrintable_of_allowsLiteral h
  obtain ⟨m₁, hm₁, hheader⟩ := BlockScalar.header?_literal cs
    (literalBody true cs ++ ((if cs.getLast?.any isBreak then [] else ['\n']) ++ R)) m
  obtain ⟨m', hm', hread⟩ := BlockScalar.scan_literal ⟨false, BlockScalar.chompingOf cs,
    if Shape.isLoose cs.head? then some 2 else none⟩ hprint hne hR hm₁ rfl rfl
  have htext : literal cs ++ R = '|' :: indentHint cs ++ chompHint cs ++ '\n' ::
      (literalBody true cs ++ ((if cs.getLast?.any isBreak then [] else ['\n']) ++ R)) := by
    simp [literal]
  have hindent : (if Shape.isLoose cs.head? then some 2 else none).map (1 - 1 + ·) =
      if Shape.isLoose cs.head? then some 2 else none := by
    split <;> rfl
  refine ⟨m', hm', ?_⟩
  rw [htext, blockScalar?, hheader]
  simpa only [Option.bind_eq_bind, Option.bind_some, hindent] using hread

theorem isAllowed_literalBody (fresh : Bool) (h : ∀ d ∈ cs, isAllowed d) :
    ∀ d ∈ literalBody fresh cs, isAllowed d := by
  induction cs generalizing fresh with
  | nil => simp [literalBody]
  | cons c cs ih =>
    obtain ⟨hc, hcs⟩ := List.forall_mem_cons.mp h
    rw [literalBody_cons]
    refine List.forall_mem_append.mpr ⟨?_, List.forall_mem_cons.mpr ⟨hc, ih _ hcs⟩⟩
    split <;> simp [indentation, isAllowed]

theorem isAllowed_literal (h : (Shape.of cs).allowsLiteral) : ∀ d ∈ literal cs, isAllowed d := by
  have hcs : ∀ d ∈ cs, isAllowed d := fun d hd =>
    isAllowed_of_isPrintable (isPrintable_of_allowsLiteral h d hd)
  have hindent : ∀ d ∈ indentHint cs, isAllowed d := by
    unfold indentHint
    split <;> simp [isAllowed]
  have hchomp : ∀ d ∈ chompHint cs, isAllowed d := by
    rcases BlockScalar.chompHint_cases cs with h | h | h <;> simp [h, isAllowed]
  have hclose : ∀ d ∈ (if cs.getLast?.any isBreak then [] else ['\n']), isAllowed d := by
    split <;> simp [isAllowed]
  simp only [literal, List.forall_mem_append, List.forall_mem_cons]
  exact ⟨⟨⟨⟨by decide, hindent⟩, hchomp⟩, by decide, isAllowed_literalBody true hcs⟩, hclose⟩

end TypeDeps.Yaml
