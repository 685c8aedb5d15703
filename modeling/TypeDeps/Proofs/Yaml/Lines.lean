import TypeDeps.Proofs.Yaml.BlockScalars
import TypeDeps.Yaml.Tokens

/-!
# The lines of a block mapping

What the scanner makes of the lines that a mapping is written in: a key with a scalar, and a
list behind a key. Between two lines and behind a sign there is little to know about the
scanner: what is ahead, and the tokens found. Each kind of line leads from one such state to
another, token by token, and the text gets shorter with every token, so that the run comes to
the end of the stream.
-/
namespace TypeDeps.Yaml

variable {c : Char} {cs r R V : List Char} {m : Mark} {kinds : List TokenKind}

/-- The style of a text is one that can hold it. -/
theorem styleOf_spec (cs : List Char) :
    match styleOf cs with
    | .plain => (Shape.of cs).allowsPlain ∧ cs ≠ []
    | .single => (Shape.of cs).allowsSingle ∧ '\n' ∉ cs
    | .double => True
    | .literal => (Shape.of cs).allowsLiteral ∧ cs ≠ [] := by
  have hne : isPlainText cs → cs ≠ [] := by
    rintro h rfl
    cases h
  unfold styleOf
  dsimp only
  by_cases hfeed : cs.contains '\n'
  · have hcs : cs ≠ [] := by
      rintro rfl
      cases hfeed
    rw [if_pos hfeed]
    by_cases hliteral : (Shape.of cs).allowsLiteral
    · simp only [hliteral, ↓reduceIte]
      exact ⟨trivial, hcs⟩
    · simp [hliteral]
  · rw [if_neg hfeed]
    by_cases hplain : (Shape.of cs).allowsPlain && isPlainText cs
    · simp only [hplain, ↓reduceIte]
      simp only [Bool.and_eq_true] at hplain
      exact ⟨hplain.1, hne hplain.2⟩
    · by_cases hsingle : (Shape.of cs).allowsSingle
      · simp only [hplain, hsingle, ↓reduceIte]
        exact ⟨trivial, by simpa using hfeed⟩
      · simp [hplain, hsingle]

theorem isAllowed_scalarLine (cs : List Char) : ∀ d ∈ scalarLine cs, isAllowed d := by
  have hspec := styleOf_spec cs
  have hspace : isAllowed ' ' := by decide
  have hfeed : isAllowed '\n' ∧ ∀ d ∈ ([] : List Char), isAllowed d := ⟨by decide, by simp⟩
  unfold scalarLine
  cases hstyle : styleOf cs <;> rw [hstyle] at hspec <;>
    simp only [List.cons_append, List.forall_mem_cons, List.forall_mem_append]
  case plain => exact ⟨hspace, isAllowed_of_plain hspec.1, hfeed⟩
  case single => exact ⟨hspace, isAllowed_single hspec.1 hspec.2, hfeed⟩
  case double => exact ⟨hspace, isAllowed_double cs, hfeed⟩
  case literal => exact ⟨hspace, isAllowed_literal hspec.1⟩

theorem endsWord_scalarLine (cs r : List Char) : endsWord (scalarLine cs ++ r) := by
  unfold scalarLine
  split <;> rfl

namespace Scanner

variable {s t u : Scanner} {first allowed : Bool} {indents : List Nat}

/-! ## The run -/

/-- From one token to the next, which is not the last one. -/
def Goes (s u : Scanner) : Prop :=
  s.next? = some u ∧ u.isAtEnd = false ∧ u.cursor.rest.length < s.cursor.rest.length

def Reaches : Scanner → Scanner → Prop := Relation.ReflTransGen Goes

/-- The run goes as far if it is given more steps than there are characters. -/
theorem run_of_reaches (h : Reaches s t) (ht : t.next? = some u) (hu : u.isAtEnd) {n : Nat}
    (hn : s.cursor.rest.length < n) : s.run n = u := by
  induction h using Relation.ReflTransGen.head_induction_on generalizing n with
  | refl =>
    cases n with
    | zero => omega
    | succ n => simp [run, ht, hu]
  | head hgo _ ih =>
    obtain ⟨hnext, hend, hlt⟩ := hgo
    cases n with
    | zero => omega
    | succ n =>
      simp only [run, hnext, hend]
      exact ih (by omega)

/-! ## Between two tokens -/

/-- What is ahead of the next token behind blanks and line breaks, outside of brackets. No key
has to come. -/
def Ahead (s : Scanner) (rest : List Char) (first allowed : Bool) (indents : List Nat)
    (kinds : List TokenKind) : Prop :=
  ∃ m key ts settled,
    s.toNextToken.refreshKeys? =
      some ⟨⟨rest, m⟩, indents, key, [], allowed, ts, ts.length, settled⟩ ∧
    decide (m.column = 0) = first ∧ (∀ k ∈ key, KeyPlace.required k = false) ∧
    ts.map Token.kind = kinds.reverse ∧ rest.length ≤ s.cursor.rest.length

/-- The scanner stands behind a dash, or behind the colon of a key, at the outermost level. -/
def Stands (s : Scanner) (rest : List Char) (allowed : Bool) (kinds : List TokenKind) : Prop :=
  ∃ m ts settled,
    s = ⟨⟨rest, m⟩, [0], none, [], allowed, ts, ts.length, settled⟩ ∧ 0 < m.column ∧
    ts.map Token.kind = kinds.reverse

theorem settle_eq (s : Scanner) : ∃ n, s.settle = { s with settled := n } := by
  unfold settle
  split
  · exact ⟨s.settled, rfl⟩
  · exact ⟨_, rfl⟩

@[simp] theorem refresh?_none (m : Mark) : KeyPlace.refresh? m none = some none := rfl

theorem refresh?_eq_some {key : Option KeyPlace} (h : ∀ k ∈ key, k.required = false) (m : Mark) :
    ∃ key', KeyPlace.refresh? m key = some key' ∧ ∀ k ∈ key', k.required = false := by
  cases key with
  | none => exact ⟨none, rfl, by simp⟩
  | some k =>
    by_cases hstale : k.isStale m
    · exact ⟨none, by simp [KeyPlace.refresh?, hstale, h k rfl], by simp⟩
    · exact ⟨some k, by simp [KeyPlace.refresh?, hstale], h⟩

theorem ahead_of_skipBlanks {m m' : Mark} {key : Option KeyPlace} (ts : List Token) {settled : Nat}
    {before : Bool} (hskip : skipBlanks false false before m r = (⟨R, m'⟩, allowed))
    (hfirst : decide (m'.column = 0) = first) (hlength : R.length ≤ r.length)
    (hkey : ∀ k ∈ key, KeyPlace.required k = false) (hkinds : ts.map Token.kind = kinds.reverse) :
    Ahead ⟨⟨r, m⟩, indents, key, [], before, ts, ts.length, settled⟩ R first allowed indents
      kinds := by
  obtain ⟨key', hrefresh, hkey'⟩ := refresh?_eq_some hkey m'
  refine ⟨m', key', ts, settled, ?_, hfirst, hkey', hkinds, hlength⟩
  simp [toNextToken, refreshKeys?, inFlow, mark, hskip, hrefresh]

/-- Collections that start at the first column end nowhere in between. -/
theorem outdent_of_zero (h : ∀ i ∈ s.indents, i = 0) (column : Nat) :
    s.outdent (column < ·) = s := by
  have hdrop : s.indents.dropWhile (fun i => decide (column < i)) = s.indents := by
    cases hi : s.indents with
    | nil => rfl
    | cons i is => simp [h i (by simp [hi])]
  have htake : s.indents.takeWhile (fun i => decide (column < i)) = [] := by
    cases hi : s.indents with
    | nil => rfl
    | cons i is => simp [h i (by simp [hi])]
  unfold outdent
  split
  · rfl
  · simp only [htake, List.foldl_nil, hdrop]

theorem next?_of_sign (sign : Sign) (h : s.toNextToken.refreshKeys? = some t)
    (hindents : ∀ i ∈ t.indents, i = 0) (hrest : t.cursor.rest = c :: r)
    (hsign : sign? t.inFlow (t.mark.column = 0) c r = some sign)
    (htake : t.takeSign? sign = some u) : ∃ n, s.next? = some { u with settled := n } := by
  obtain ⟨n, hn⟩ := u.settle_eq
  exact ⟨n, by simp [next?, h, outdent_of_zero hindents, hrest, hsign, htake, hn]⟩

/-- No blank, no line break and no comment starts here. -/
def Solid (c : Char) : Prop :=
  isBreak c = false ∧ c ≠ '#' ∧ c ≠ ' ' ∧ c ≠ '\t' ∧ c ≠ byteOrderMark

theorem skipBlanks_of_solid (hc : Solid c) (flow allowed : Bool) (m : Mark) (r : List Char) :
    skipBlanks flow false allowed m (c :: r) = (⟨c :: r, m⟩, allowed) := by
  obtain ⟨hbreak, hcomment, hspace, htab, hmark⟩ := hc
  rw [skipBlanks]
  · simp [hbreak, hcomment, hspace, htab, hmark]
  · rintro r rfl
    cases hbreak

theorem solid_of_isNameChar (hc : isNameChar c) : Solid c := by
  refine ⟨isBreak_of_isNameChar hc, ?_, ?_, ?_, ?_⟩ <;>
    (rintro rfl; revert hc; decide)

theorem skipBlanks_line (hR : BeginsLine R) (flow allowed : Bool) (m : Mark) :
    skipBlanks flow false allowed m R = (⟨R, m⟩, allowed) := by
  cases R with
  | nil => rfl
  | cons c r => exact skipBlanks_of_solid (solid_of_isNameChar (hR c rfl)) flow allowed m r

theorem skipBlanks_lineFeed (hR : BeginsLine R) (allowed : Bool) (m : Mark) :
    skipBlanks false false allowed m ('\n' :: R) = (⟨R, m.nextLine 1⟩, true) := by
  rw [skipBlanks, if_pos (by decide), skipBlanks_line hR]
  · simp
  · simp

theorem skipBlanks_space (hc : Solid c) (allowed : Bool) (m : Mark) (r : List Char) :
    skipBlanks false false allowed m (' ' :: c :: r) = (⟨c :: r, m.next⟩, allowed) := by
  rw [skipBlanks, if_neg (by decide), if_neg (by decide), if_pos (by simp), skipBlanks_of_solid hc]
  simp

theorem Stands.ahead_value (h : Stands s (' ' :: c :: r) allowed kinds) (hc : Solid c) :
    Ahead s (c :: r) false allowed [0] kinds := by
  obtain ⟨m, ts, settled, rfl, hm, hkinds⟩ := h
  exact ahead_of_skipBlanks ts (skipBlanks_space hc allowed m r) (by simp) (by simp) (by simp)
    hkinds

theorem Stands.ahead_line (h : Stands s ('\n' :: R) allowed kinds) (hR : BeginsLine R) :
    Ahead s R true true [0] kinds := by
  obtain ⟨m, ts, settled, rfl, hm, hkinds⟩ := h
  exact ahead_of_skipBlanks ts (skipBlanks_lineFeed hR allowed m) rfl (by simp) (by simp) hkinds

/-! ## Keys -/

/-- A plain text that can be recognised as a key. -/
structure IsKey (name : List Char) : Prop where
  plain : (Shape.of name).allowsPlain
  short : name.length ≤ 1024
  sign : ∃ c cs, name = c :: cs ∧ ∀ r, sign? false true c r = some .plain

theorem any_required {key : Option KeyPlace} (h : ∀ k ∈ key, k.required = false) :
    key.any KeyPlace.required = false := by
  cases key with
  | none => rfl
  | some k => exact h k rfl

variable {key : Option KeyPlace} {ts : List Token} {n settled : Nat}

theorem saveKey?_eq (hkey : ∀ k ∈ key, k.required = false) :
    saveKey? ⟨⟨r, m⟩, indents, key, [], allowed, ts, n, settled⟩ =
      some ⟨⟨r, m⟩, indents,
        if allowed then some ⟨decide (indents.head? = some m.column), n, m⟩ else key, [], allowed,
        ts, n, settled⟩ := by
  cases allowed with
  | false => rfl
  | true =>
    simp only [saveKey?, dropKey?, any_required hkey]
    rfl

theorem plain?_eq {broken : Bool} {after : Cursor}
    (hread : plainScalar? false ((indents.head?.map (· + 1)).getD 0) ⟨r, m⟩ =
      some ⟨cs, broken, after⟩) (hkey : ∀ k ∈ key, k.required = false) :
    plain? ⟨⟨r, m⟩, indents, key, [], allowed, ts, n, settled⟩ =
      some ⟨after, indents,
        if allowed then some ⟨decide (indents.head? = some m.column), n, m⟩ else key, [], broken,
        ⟨.scalar cs true, m, after.mark⟩ :: ts, n + 1, settled⟩ := by
  simp only [plain?, saveKey?_eq hkey, Option.bind_eq_bind, Option.bind_some, inFlow,
    List.isEmpty_nil, Bool.not_true, innerColumn, hread]
  rfl

/-- The colon puts the key in front of that scalar, and the start of the mapping if none is open
here. -/
theorem value?_key (t : Token) (ts : List Token) (settled : Nat) (required : Bool)
    (hm : m.column = 0) (hindents : indents = [] ∨ indents = [0]) (V : List Char) (m' : Mark) :
    ∃ ts', value? ⟨⟨':' :: V, m'⟩, indents, some ⟨required, ts.length, m⟩, [], false, t :: ts,
        ts.length + 1, settled⟩ =
      some ⟨⟨V, m'.nextBy 1⟩, [0], none, [], false, ts', ts'.length, settled⟩ ∧
      ts'.map Token.kind = .value :: t.kind :: .key ::
        ((if indents.isEmpty then [.blockMappingStart] else []) ++ ts.map Token.kind) := by
  have hlater : ts.length + 1 + 1 - ts.length = 2 := by omega
  obtain rfl | rfl := hindents
  · refine ⟨⟨.value, m', m'.nextBy 1⟩ :: t :: ⟨.key, m, m⟩ :: ⟨.blockMappingStart, m, m⟩ :: ts,
      ?_, rfl⟩
    simp [value?, insertToken, indent, inFlow, take, addToken, allowKey, hlater, hm, mark,
      Cursor.skip]
  · refine ⟨⟨.value, m', m'.nextBy 1⟩ :: t :: ⟨.key, m, m⟩ :: ts, ?_, rfl⟩
    simp [value?, insertToken, indent, inFlow, take, addToken, allowKey, hm, mark, Cursor.skip]

/-- The place in front of a colon is not given up: the key is short and in the same line. -/
theorem refreshKeys?_colon {required : Bool} {count length : Nat} (h : length ≤ 1024) :
    (toNextToken ⟨⟨':' :: V, m.nextBy length⟩, indents, some ⟨required, n, m⟩, [], false, ts, count,
      settled⟩).refreshKeys? =
      some ⟨⟨':' :: V, m.nextBy length⟩, indents, some ⟨required, n, m⟩, [], false, ts, count,
        settled⟩ := by
  have hsolid : Solid ':' := by unfold Solid; decide
  have hfresh : KeyPlace.isStale ⟨required, n, m⟩ (m.nextBy length) = false := by
    simp [KeyPlace.isStale, Mark.nextBy, h]
  simp [toNextToken, refreshKeys?, inFlow, mark, skipBlanks_of_solid hsolid, KeyPlace.refresh?,
    hfresh]

/-- A key with its colon. -/
theorem Ahead.reads_key {name : List Char} (h : Ahead s (name ++ ':' :: V) true true indents kinds)
    (hname : IsKey name) (hV : endsWord V) (hindents : indents = [] ∨ indents = [0]) :
    ∃ u, Reaches s u ∧ Stands u V false
      (kinds ++ ((if indents.isEmpty then [.blockMappingStart] else []) ++
        [.key, .scalar name true, .value])) := by
  obtain ⟨m, key, ts, settled, ht, hm, hkey, hkinds, hlength⟩ := h
  obtain ⟨c, cs, hcs, hsign⟩ := hname.sign
  have hzero : ∀ i ∈ indents, i = 0 := by rcases hindents with rfl | rfl <;> simp
  have hinner : (indents.head?.map (· + 1)).getD 0 ≤ 1 := by
    rcases hindents with rfl | rfl <;> simp
  have hrest : name ++ ':' :: V = c :: (cs ++ ':' :: V) := by rw [hcs, List.cons_append]
  have hpos : 0 < name.length := by simp [hcs]
  obtain ⟨n, hplain⟩ := next?_of_sign .plain ht hzero hrest (by rw [mark, hm]; exact hsign _)
    (plain?_eq (plainScalar?_key hname.plain hV hinner m) hkey)
  have hcolon : sign? false ((m.nextBy name.length).column = 0) ':' V = some .value := by
    simp [sign?, hV, Mark.nextBy, hpos.ne', isDocumentMark]
  obtain ⟨ts', hvalue, hkinds'⟩ := value?_key ⟨.scalar name true, m, m.nextBy name.length⟩ ts n
    (decide (indents.head? = some m.column)) (by simpa using hm) hindents V (m.nextBy name.length)
  obtain ⟨n', hnext⟩ := next?_of_sign .value (refreshKeys?_colon hname.short) hzero rfl hcolon
    hvalue
  refine ⟨_, .tail (.single ⟨hplain, rfl, ?_⟩) ⟨hnext, ?_, ?_⟩, ⟨_, ts', n', rfl, ?_, ?_⟩⟩
  · simp only [List.length_append, List.length_cons] at hlength ⊢
    omega
  · cases ts' with
    | nil => simp at hkinds'
    | cons t ts' => simp [isAtEnd, (List.cons.inj hkinds').1]
  · simp
  · simp [Mark.nextBy]
  · rw [hkinds', hkinds]
    split <;> simp

/-! ## Scalars behind a sign -/

theorem quoted?_eq {read? : Cursor → Option ScalarRead} {broken : Bool} {after : Cursor}
    (hread : read? ⟨r, m⟩ = some ⟨cs, broken, after⟩) (hkey : ∀ k ∈ key, k.required = false) :
    quoted? ⟨⟨r, m⟩, indents, key, [], allowed, ts, n, settled⟩ read? =
      some ⟨after, indents,
        if allowed then some ⟨decide (indents.head? = some m.column), n, m⟩ else key, [], false,
        ⟨.scalar cs false, m, after.mark⟩ :: ts, n + 1, settled⟩ := by
  simp only [quoted?, saveKey?_eq hkey, Option.bind_eq_bind, Option.bind_some, hread]
  rfl

theorem block?_eq {broken : Bool} {after : Cursor}
    (hread : blockScalar? 1 ⟨r, m⟩ = some ⟨cs, broken, after⟩)
    (hkey : ∀ k ∈ key, k.required = false) :
    block? ⟨⟨r, m⟩, [0], key, [], allowed, ts, n, settled⟩ =
      some ⟨after, [0], none, [], true, ⟨.scalar cs false, m, after.mark⟩ :: ts, n + 1,
        settled⟩ := by
  simp only [block?, dropKey?, any_required hkey, innerColumn, List.head?_cons, Option.map_some,
    Option.getD_some, Option.bind_eq_bind, Option.bind_some, Bool.false_eq_true, ↓reduceIte, hread]
  rfl

/-- Nothing but the end of the line is left in front of these characters. -/
def EndsLine (after : Cursor) (allowed : Bool) (R : List Char) : Prop :=
  after.rest = R ∧ after.mark.column = 0 ∧ allowed ∨ after.rest = '\n' :: R

theorem EndsLine.skipBlanks {after : Cursor} (h : EndsLine after allowed R) (hR : BeginsLine R) :
    ∃ m', m'.column = 0 ∧
      Scanner.skipBlanks false false allowed after.mark after.rest = (⟨R, m'⟩, true) := by
  obtain ⟨rest, mark⟩ := after
  obtain ⟨rfl, hm, rfl⟩ | rfl := h
  · exact ⟨mark, hm, skipBlanks_line hR false true mark⟩
  · exact ⟨mark.nextLine 1, rfl, skipBlanks_lineFeed hR allowed mark⟩

/-- A sign that leads to a scalar and to the end of the line. -/
theorem Ahead.reads_scalar {plain : Bool} (sign : Sign)
    (h : Ahead s (c :: r) false allowed [0] kinds)
    (hsign : sign? false false c r = some sign)
    (htake : ∀ m key ts n settled, 0 < m.column → (∀ k ∈ key, KeyPlace.required k = false) →
      ∃ after key' allowed',
        takeSign? ⟨⟨c :: r, m⟩, [0], key, [], allowed, ts, n, settled⟩ sign =
          some ⟨after, [0], key', [], allowed', ⟨.scalar cs plain, m, after.mark⟩ :: ts, n + 1,
            settled⟩ ∧
        (∀ k ∈ key', KeyPlace.required k = false) ∧ EndsLine after allowed' R)
    (hR : BeginsLine R) (hlength : R.length < r.length) :
    ∃ u, Goes s u ∧ Ahead u R true true [0] (kinds ++ [.scalar cs plain]) := by
  obtain ⟨m, key, ts, settled, ht, hm, hkey, hkinds, hrest⟩ := h
  have hm : m.column ≠ 0 := by simpa using hm
  obtain ⟨after, key', allowed', htake, hkey', hends⟩ :=
    htake m key ts ts.length settled (Nat.pos_of_ne_zero hm) hkey
  obtain ⟨n, hnext⟩ := next?_of_sign sign ht (by simp) rfl
    (by simp only [mark, hm, decide_false]; exact hsign) htake
  obtain ⟨m', hm', hskip⟩ := hends.skipBlanks hR
  have hshort : R.length ≤ after.rest.length ∧ after.rest.length ≤ R.length + 1 := by
    rcases hends with ⟨h, -⟩ | h <;> simp [h]
  refine ⟨_, ⟨hnext, rfl, ?_⟩,
    ahead_of_skipBlanks _ hskip (by simp [hm']) hshort.1 hkey' (by simp [hkinds])⟩
  simp only [List.length_cons] at hrest
  dsimp only
  omega

/-! ## The styles -/

/-- A key place that a scalar behind a sign is given is not at the column of the mapping. -/
theorem required_eq_false (hm : 0 < m.column) (hkey : ∀ k ∈ key, k.required = false) :
    ∀ k ∈ if allowed then some ⟨decide ([0].head? = some m.column), n, m⟩ else key,
      KeyPlace.required k = false := by
  cases allowed with
  | false => exact hkey
  | true => simp [hm.ne]

theorem startsBadly_cons (h : Shape.startsBadly (c :: cs) = false) :
    isIndicator c = false ∧ (c = '?' ∨ c = ':' ∨ c = '-' → endsWord cs = false) := by
  unfold Shape.startsBadly at h
  split at h
  · cases h
  · cases h
  · next heq =>
    obtain ⟨rfl, rfl⟩ := List.cons.inj heq
    simp only [Bool.or_eq_false_iff, Bool.and_eq_false_imp, Bool.or_eq_true,
      decide_eq_true_eq, or_assoc] at h
    exact h
  · next heq => cases heq

theorem sign?_plain (hbad : Shape.startsBadly (c :: cs) = false) (hblank : isBlank c = false)
    (hbreak : isBreak c = false) (R : List Char) :
    sign? false false c (cs ++ R) = some .plain := by
  obtain ⟨hindicator, hword⟩ := startsBadly_cons hbad
  have hword := fun hc => endsWord_append (hword hc) R
  have hstarts : startsPlain false c (cs ++ R) := by
    unfold startsPlain
    split
    · next hc => simp [hword (.inr (.inr hc))]
    · split
      · next hc =>
        have hc : c = '?' ∨ c = ':' := by simpa using hc
        simp [hword (by tauto)]
      · simp [hindicator, hblank, hbreak]
  have hdash : ¬(c = '-' ∧ endsWord (cs ++ R)) := fun h => by simp [hword (by simp [h.1])] at h
  have hkey : ¬(c = '?' ∧ endsWord (cs ++ R)) := fun h => by simp [hword (by simp [h.1])] at h
  have hvalue : ¬(c = ':' ∧ endsWord (cs ++ R)) := fun h => by simp [hword (by simp [h.1])] at h
  simp only [isIndicator, String.reduceToList, List.contains_eq_mem, List.mem_cons,
    List.not_mem_nil, or_false, Bool.decide_or, Bool.or_eq_false_iff, decide_eq_false_iff_not]
    at hindicator
  simp [sign?, hindicator, hdash, hkey, hvalue, hstarts]

theorem solid_of_allowsPlain (h : (Shape.of (c :: cs)).allowsPlain) :
    Solid c ∧ isBlank c = false ∧ Shape.startsBadly (c :: cs) = false := by
  have hremainder := PlainScalar.remainder_of_allowsPlain h
  have hprint := hremainder.printable c List.mem_cons_self
  have hbreak := hremainder.unbroken c List.mem_cons_self
  simp only [Shape.allowsPlain, Shape.of, Shape.needsEscapes, Bool.not_eq_true',
    Bool.or_eq_false_iff] at h
  obtain ⟨⟨⟨⟨⟨hbad, -⟩, -⟩, hloose, -⟩, -⟩, -⟩ := h
  have hspace : c ≠ ' ' := by
    rintro rfl
    cases hloose
  have hcomment : c ≠ '#' := by
    rintro rfl
    cases (startsBadly_cons hbad).1
  have htab : c ≠ '\t' := by
    rintro rfl
    cases hprint
  exact ⟨⟨hbreak, hcomment, hspace, htab, ne_byteOrderMark_of_isPrintable hprint⟩,
    by simp [isBlank, hspace, htab], hbad⟩

theorem Stands.reads_plain (h : Stands s (' ' :: (cs ++ '\n' :: R)) allowed kinds)
    (hplain : (Shape.of cs).allowsPlain) (hne : cs ≠ []) (hR : BeginsLine R) :
    ∃ u, Goes s u ∧ Ahead u R true true [0] (kinds ++ [.scalar cs true]) := by
  cases cs with
  | nil => exact (hne rfl).elim
  | cons c cs =>
    obtain ⟨hc, hblank, hbad⟩ := solid_of_allowsPlain hplain
    rw [List.cons_append] at h
    refine (h.ahead_value hc).reads_scalar .plain (sign?_plain hbad hblank hc.1 _) ?_ hR
      (by simp only [List.length_append, List.length_cons]; omega)
    intro m key ts n settled hm hkey
    exact ⟨_, _, _, plain?_eq (plainScalar?_line hplain hR m) hkey, required_eq_false hm hkey,
      .inl ⟨rfl, rfl, rfl⟩⟩

theorem Stands.reads_quoted {quote : Char} {body : List Char}
    {read? : Cursor → Option ScalarRead}
    (h : Stands s (' ' :: quote :: (body ++ '\n' :: R)) allowed kinds) (hquote : Solid quote)
    (hsign : ∀ r, sign? false false quote r = some (.quoted read?))
    (hread : ∀ m, ∃ m', read? ⟨quote :: (body ++ '\n' :: R), m⟩ =
      some ⟨cs, false, ⟨'\n' :: R, m'⟩⟩) (hR : BeginsLine R) :
    ∃ u, Goes s u ∧ Ahead u R true true [0] (kinds ++ [.scalar cs false]) := by
  refine (h.ahead_value hquote).reads_scalar (.quoted read?) (hsign _) ?_ hR
    (by simp only [List.length_append, List.length_cons]; omega)
  intro m key ts n settled hm hkey
  obtain ⟨m', hread⟩ := hread m
  exact ⟨_, _, _, quoted?_eq hread hkey, required_eq_false hm hkey, .inr rfl⟩

theorem Stands.reads_literal (h : Stands s (' ' :: (literal cs ++ R)) allowed kinds)
    (hliteral : (Shape.of cs).allowsLiteral) (hne : cs ≠ []) (hR : BeginsLine R) :
    ∃ u, Goes s u ∧ Ahead u R true true [0] (kinds ++ [.scalar cs false]) := by
  obtain ⟨body, hbody, hpos⟩ : ∃ body, literal cs = '|' :: body ∧ 0 < body.length :=
    ⟨_, rfl, by simp⟩
  have hread := blockScalar?_line hliteral hne hR
  rw [hbody] at h hread
  rw [List.cons_append] at h
  have hbar : Solid '|' := by unfold Solid; decide
  refine (h.ahead_value hbar).reads_scalar .block (by rfl) ?_ hR
    (by simp only [List.length_append]; omega)
  intro m key ts n settled hm hkey
  obtain ⟨m', hm', hread⟩ := hread m
  exact ⟨_, _, _, block?_eq hread hkey, by simp, .inl ⟨rfl, hm', rfl⟩⟩

theorem Stands.reads_scalarLine (h : Stands s (scalarLine cs ++ R) allowed kinds)
    (hR : BeginsLine R) :
    ∃ u, Goes s u ∧ Ahead u R true true [0] (kinds ++ [.scalar cs (styleOf cs = .plain)]) := by
  have hspec := styleOf_spec cs
  have hfeed : ('\n' :: R).head? ≠ some '\x27' := by simp
  unfold scalarLine at h
  cases hstyle : styleOf cs <;> rw [hstyle] at h hspec <;>
    simp only [List.cons_append, List.append_assoc, List.nil_append] at h
  case plain => exact h.reads_plain hspec.1 hspec.2 hR
  case single =>
    exact h.reads_quoted (by unfold Solid; decide) (fun r => rfl)
      (by simpa [single] using singleScalar?_line hspec.1 hspec.2 hfeed) hR
  case double =>
    exact h.reads_quoted (by unfold Solid; decide) (fun r => rfl)
      (by simpa [double] using doubleScalar?_line cs ('\n' :: R)) hR
  case literal => exact h.reads_literal hspec.1 hspec.2 hR

/-! ## Lists -/

theorem dash_eq (hm : m.column = 0) (hkey : ∀ k ∈ key, k.required = false) :
    blockEntry? ⟨⟨'-' :: V, m⟩, [0], key, [], true, ts, n, settled⟩ =
      some ⟨⟨V, m.nextBy 1⟩, [0], none, [], true, ⟨.blockEntry, m, m.nextBy 1⟩ :: ts, n + 1,
        settled⟩ := by
  simp [ blockEntry?, opening?, indent, inFlow, mark, hm, dropKey?, any_required hkey, take,
    addToken, allowKey, Cursor.skip]

theorem isDocumentMark_dash (h : endsWord V) : isDocumentMark ('-' :: V) = false := by
  cases V with
  | nil => rfl
  | cons c r =>
    have hc : c ≠ '-' := by
      rintro rfl
      cases h
    simp [isDocumentMark, hc]

/-- The dash of an item. -/
theorem Ahead.reads_dash (h : Ahead s ('-' :: V) true true [0] kinds) (hV : endsWord V) :
    ∃ u, Goes s u ∧ Stands u V true (kinds ++ [.blockEntry]) := by
  obtain ⟨m, key, ts, settled, ht, hm, hkey, hkinds, hlength⟩ := h
  have hsign : sign? false true '-' V = some .blockEntry := by
    simp [sign?, isDocumentMark_dash hV, hV]
  obtain ⟨n, hnext⟩ := next?_of_sign .blockEntry ht (by simp) rfl (by rw [mark, hm]; exact hsign)
    (dash_eq (by simpa using hm) hkey)
  exact ⟨_, ⟨hnext, rfl, hlength⟩, _, _, _, rfl, by simp [Mark.nextBy], by simp [hkinds]⟩

theorem openFlow?_eq :
    openFlow? ⟨⟨'[' :: r, m⟩, indents, key, [], false, ts, n, settled⟩ .flowSequenceStart =
      some ⟨⟨r, m.nextBy 1⟩, indents, none, [key], true,
        ⟨.flowSequenceStart, m, m.nextBy 1⟩ :: ts, n + 1, settled⟩ := rfl

theorem closeFlow?_eq :
    closeFlow? ⟨⟨']' :: r, m⟩, indents, none, [key], allowed, ts, n, settled⟩ .flowSequenceEnd =
      some ⟨⟨r, m.nextBy 1⟩, indents, key, [], false,
        ⟨.flowSequenceEnd, m, m.nextBy 1⟩ :: ts, n + 1, settled⟩ := rfl

/-- A list without items, at the end of the text. The key place in front of the brackets comes
back behind them. -/
theorem Stands.reads_emptyList (h : Stands s (' ' :: '[' :: ']' :: '\n' :: R) false kinds)
    (hR : BeginsLine R) :
    ∃ u, Reaches s u ∧
      Ahead u R true true [0] (kinds ++ [.flowSequenceStart, .flowSequenceEnd]) := by
  have hopen : Solid '[' := by unfold Solid; decide
  have hclose : Solid ']' := by unfold Solid; decide
  obtain ⟨m, key, ts, settled, ht, hm, hkey, hkinds, hlength⟩ := h.ahead_value hopen
  obtain ⟨n, hfirst⟩ := next?_of_sign (.openFlow .flowSequenceStart) ht (by simp) rfl
    (by rw [mark, hm]; rfl) openFlow?_eq
  obtain ⟨key', hrefresh, hkey'⟩ := refresh?_eq_some hkey (m.nextBy 1)
  have hinside : (toNextToken ⟨⟨']' :: '\n' :: R, m.nextBy 1⟩, [0], none, [key], true,
      ⟨.flowSequenceStart, m, m.nextBy 1⟩ :: ts, ts.length + 1, n⟩).refreshKeys? =
      some ⟨⟨']' :: '\n' :: R, m.nextBy 1⟩, [0], none, [key'], true,
        ⟨.flowSequenceStart, m, m.nextBy 1⟩ :: ts, ts.length + 1, n⟩ := by
    simp [toNextToken, refreshKeys?, inFlow, mark, skipBlanks_of_solid hclose, hrefresh]
  obtain ⟨n', hsecond⟩ := next?_of_sign (.closeFlow .flowSequenceEnd) hinside (by simp) rfl
    (by simp [mark, Mark.nextBy, sign?, isDocumentMark]) closeFlow?_eq
  refine ⟨_, .tail (.single ⟨hfirst, rfl, hlength⟩) ⟨hsecond, rfl, by simp⟩, ?_⟩
  exact ahead_of_skipBlanks _ (skipBlanks_lineFeed hR false _) rfl (by simp) hkey'
    (by simp [hkinds])

/-! ## Whole lines -/

/-- The line of a key and a scalar. -/
theorem Ahead.reads_member {name : List Char}
    (h : Ahead s (name ++ ':' :: (scalarLine cs ++ R)) true true indents kinds) (hname : IsKey name)
    (hindents : indents = [] ∨ indents = [0]) (hR : BeginsLine R) :
    ∃ u, Reaches s u ∧ Ahead u R true true [0]
      (kinds ++ ((if indents.isEmpty then [.blockMappingStart] else []) ++
        [.key, .scalar name true, .value, .scalar cs (styleOf cs = .plain)])) := by
  obtain ⟨t, hreach, ht⟩ := h.reads_key hname (endsWord_scalarLine cs R) hindents
  obtain ⟨u, hgo, hu⟩ := ht.reads_scalarLine hR
  exact ⟨u, hreach.tail hgo, by simpa using hu⟩

/-- The lines of a list, one for each item. -/
theorem Ahead.reads_items {items : List (List Char)}
    (h : Ahead s (items.flatMap (fun cs => '-' :: scalarLine cs) ++ R) true true [0] kinds)
    (hR : BeginsLine R) :
    ∃ u, Reaches s u ∧ Ahead u R true true [0]
      (kinds ++ items.flatMap fun cs => [.blockEntry, .scalar cs (styleOf cs = .plain)]) := by
  induction items generalizing s kinds with
  | nil => exact ⟨s, .refl, by simpa using h⟩
  | cons cs items ih =>
    rw [List.flatMap_cons, List.cons_append, List.cons_append, List.append_assoc] at h
    have hrest : BeginsLine (items.flatMap (fun cs => '-' :: scalarLine cs) ++ R) := by
      cases items with
      | nil => exact hR
      | cons _ _ => simp [BeginsLine, isNameChar]
    obtain ⟨t, hdash, ht⟩ := h.reads_dash (endsWord_scalarLine cs _)
    obtain ⟨v, hscalar, hv⟩ := ht.reads_scalarLine hrest
    obtain ⟨u, hreach, hu⟩ := ih hv
    exact ⟨u, .head hdash (.head hscalar hreach), by simpa using hu⟩

/-! ## The end of the stream -/

theorem Ahead.ends (h : Ahead s [] true true [0] kinds) :
    ∃ u, s.next? = some u ∧ u.isAtEnd ∧
      u.settledTokens.map Token.kind = kinds ++ [.blockEnd, .streamEnd] := by
  obtain ⟨m, key, ts, settled, ht, hm, hkey, hkinds, -⟩ := h
  have hm : m.column = 0 := by simpa using hm
  refine ⟨⟨⟨[], m⟩, [], none, [], false, ⟨.streamEnd, m, m⟩ :: ⟨.blockEnd, m, m⟩ :: ts,
    ts.length + 1 + 1, ts.length + 1 + 1⟩, ?_, rfl, ?_⟩
  · simp only [next?, ht, Option.bind_eq_bind, Option.bind_some]
    simp [hm, streamEnd?, outdentAll, outdent, inFlow, addToken, dropKey?, any_required hkey,
      allowKey, take, Cursor.skip, settle, refreshKeys?, mark]
  · simp [settledTokens, hkinds]

end Scanner

open Scanner in
/-- All tokens of a text whose lines have been read up to the last one. -/
theorem kinds_tokens (hallowed : ∀ c ∈ cs, isAllowed c) {s : Scanner}
    (hreach : Reaches (.start cs) s) (h : Ahead s [] true true [0] kinds) :
    (tokens cs).map Token.kind = kinds ++ [.blockEnd, .streamEnd] := by
  obtain ⟨u, hnext, hend, hkinds⟩ := h.ends
  have hrun : (Scanner.start cs).run (cs.length + 2) = u :=
    run_of_reaches hreach hnext hend (Nat.lt_add_of_pos_right (by decide))
  rw [tokens, if_pos (by simpa using hallowed), hrun, hkinds]

open Scanner in
theorem ahead_start (h : BeginsLine cs) : Ahead (.start cs) cs true true [] [] :=
  ahead_of_skipBlanks [] (skipBlanks_line h false true .start) rfl le_rfl (by simp) rfl

end TypeDeps.Yaml
