import TypeDeps.Proofs.Json.Brackets
import TypeDeps.Proofs.Json.NumberText
import TypeDeps.Proofs.Json.StringText

/-!
# Values that are skipped

The machine that skips a value accepts exactly the values, blanks in front of them included,
however deep they nest. Its open brackets are read as a text in which each bracket is
unfinished.
-/
namespace TypeDeps.Json

namespace Bracket

def open_ : Bracket → UInt8
  | array => 0x5B
  | object => 0x7B

def close : Bracket → UInt8
  | array => 0x5D
  | object => 0x7D

def Item : Bracket → List UInt8 → Prop
  | array, raw => Value raw
  | object, raw => ∃ key v, LooseString key ∧ Value v ∧ PairText key v raw

theorem value_of_enclosed {br : Bracket} {items : List (List UInt8)} {raw : List UInt8}
    (hi : ∀ x ∈ items, br.Item x) (h : Enclosed br.open_ br.close items raw) : Value raw := by
  cases br with
  | array => exact .array hi h
  | object =>
    choose! key v hk hv hp using hi
    refine @Value.object (items.map fun x => (key x, v x)) raw ?_ ?_ ⟨items, ?_, h⟩
    · intro m hm
      obtain ⟨x, hx, rfl⟩ := List.mem_map.mp hm
      exact hk x hx
    · intro m hm
      obtain ⟨x, hx, rfl⟩ := List.mem_map.mp hm
      exact hv x hx
    · rw [List.forall₂_map_left_iff, List.forall₂_same]
      exact hp

end Bracket

/-! ## What has been skipped -/

/-- A bracket at this stage behind a text in which it may stand. -/
def Inside (outer : List UInt8 → Prop) (br : Bracket) (st : Stage) (raw : List UInt8) : Prop :=
  ∃ before body items, outer before ∧ Part br.open_ st items body ∧ (∀ x ∈ items, br.Item x) ∧
    raw = before ++ body

/-- A text behind which a value may come, inside these brackets. -/
def Nested : List Bracket → List UInt8 → Prop
  | [], raw => Blanks raw
  | .array :: outer, raw => ∃ st, st ≠ .item ∧ Inside (Nested outer) .array st raw
  | .object :: outer, raw => ∃ st before key ws ws', st ≠ .item ∧
      Inside (Nested outer) .object st before ∧ LooseString key ∧ Blanks ws ∧ Blanks ws' ∧
      raw = before ++ key ++ ws ++ 0x3A :: ws'

theorem Inside.blank {outer : List UInt8 → Prop} {br : Bracket} {st : Stage} {raw : List UInt8}
    {b : UInt8} (h : Inside outer br st raw) (hb : isBlank b) :
    Inside outer br st (raw ++ [b]) := by
  obtain ⟨before, body, items, ho, hp, hi, rfl⟩ := h
  exact ⟨before, body ++ [b], items, ho, hp.blank hb, hi, by simp⟩

theorem Inside.comma {outer : List UInt8 → Prop} {br : Bracket} {raw : List UInt8}
    (h : Inside outer br .item raw) : Inside outer br .comma (raw ++ [0x2C]) := by
  obtain ⟨before, body, items, ho, hp, hi, rfl⟩ := h
  exact ⟨before, body ++ [0x2C], items, ho, .comma hp .nil, hi, by simp⟩

theorem Inside.item {outer : List UInt8 → Prop} {br : Bracket} {st : Stage} {raw x : List UInt8}
    (h : Inside outer br st raw) (hs : st ≠ .item) (hx : br.Item x) :
    Inside outer br .item (raw ++ x) := by
  obtain ⟨before, body, items, ho, hp, hi, rfl⟩ := h
  refine ⟨before, body ++ x ++ [], items ++ [x], ho, .item hp hs .nil, ?_, by simp⟩
  intro y hy
  rcases List.mem_append.mp hy with hy | hy
  · exact hi y hy
  · rwa [List.mem_singleton.mp hy]

theorem Inside.close {outer : List UInt8 → Prop} {br : Bracket} {st : Stage} {raw : List UInt8}
    (h : Inside outer br st raw) (hs : st ≠ .comma) :
    ∃ before v, outer before ∧ Value v ∧ raw ++ [br.close] = before ++ v := by
  obtain ⟨before, body, items, ho, hp, hi, rfl⟩ := h
  refine ⟨before, body ++ [br.close], ho, ?_, by simp⟩
  exact Bracket.value_of_enclosed hi (hp.close hs)

theorem Nested.blank {stack : List Bracket} {raw : List UInt8} {b : UInt8} (h : Nested stack raw)
    (hb : isBlank b) : Nested stack (raw ++ [b]) := by
  match stack, h with
  | [], h => exact Blanks.snoc h hb
  | .array :: _, ⟨st, hs, hi⟩ => exact ⟨st, hs, hi.blank hb⟩
  | .object :: _, ⟨st, before, key, ws, ws', hs, hi, hk, hw, hw', he⟩ =>
    exact ⟨st, before, key, ws, ws' ++ [b], hs, hi, hk, hw, hw'.snoc hb, by simp [he]⟩

theorem Nested.value {br : Bracket} {outer : List Bracket} {raw v : List UInt8}
    (h : Nested (br :: outer) raw) (hv : Value v) : Inside (Nested outer) br .item (raw ++ v) := by
  cases br with
  | array =>
    obtain ⟨st, hs, hi⟩ := h
    exact hi.item hs hv
  | object =>
    obtain ⟨st, before, key, ws, ws', hs, hi, hk, hw, hw', rfl⟩ := h
    have := hi.item hs (x := key ++ ws ++ 0x3A :: ws' ++ v) ⟨key, v, hk, hv, ws, ws', hw, hw', rfl⟩
    simpa using this

namespace Skipper

/-- The text that has been skipped. -/
def Holds (k : Skipper) (raw : List UInt8) : Prop :=
  match k.phase with
  | .value => Nested k.stack raw
  | .opened => ∃ br outer, k.stack = br :: outer ∧ Inside (Nested outer) br .opened raw
  | .afterValue => ∃ br outer, k.stack = br :: outer ∧ Inside (Nested outer) br .item raw
  | .key => ∃ outer, k.stack = .object :: outer ∧ Inside (Nested outer) .object .comma raw
  | .keyString t => ∃ outer st before part, k.stack = .object :: outer ∧ st ≠ .item ∧
      Inside (Nested outer) .object st before ∧ t.Holds part ∧ raw = before ++ 0x22 :: part
  | .colon => ∃ outer st before key ws, k.stack = .object :: outer ∧ st ≠ .item ∧
      Inside (Nested outer) .object st before ∧ LooseString key ∧ Blanks ws ∧
      raw = before ++ key ++ ws
  | .string t => ∃ before part, Nested k.stack before ∧ t.Holds part ∧ raw = before ++ 0x22 :: part
  | .number n => ∃ before part, Nested k.stack before ∧ n.Holds part ∧ raw = before ++ part
  | .literal ls => ∃ before part, Nested k.stack before ∧ LiteralText (part ++ ls) ∧ ls ≠ [] ∧
      raw = before ++ part

/-- A value with blanks in front of it. -/
def Skipped (raw : List UInt8) : Prop := ∃ ws v, Blanks ws ∧ Value v ∧ raw = ws ++ v

/-- What a step behind this text says. -/
def Tells (raw : List UInt8) (b : UInt8) : Step Skipper Unit → Prop
  | .more k => k.Holds (raw ++ [b])
  | .done _ => Skipped (raw ++ [b])
  | .passed _ => Skipped raw
  | .fault _ => True

theorem tells_ended {stack : List Bracket} {raw before v : List UInt8} {b : UInt8}
    (h : Nested stack before) (hv : Value v) (he : raw ++ [b] = before ++ v) :
    Tells raw b (ended stack) := by
  cases stack with
  | nil => exact ⟨before, v, h, hv, he⟩
  | cons br outer =>
    refine ⟨br, outer, rfl, ?_⟩
    rw [he]
    exact h.value hv

theorem tells_startValue {stack : List Bracket} {raw : List UInt8} (h : Nested stack raw)
    (b : UInt8) : Tells raw b (startValue stack b) := by
  have hopen : ∀ br : Bracket, b = br.open_ → Tells raw b (.more ⟨br :: stack, .opened⟩) := by
    intro br hb
    refine ⟨br, stack, rfl, raw, [b], [], h, ?_, by simp, rfl⟩
    rw [hb]
    exact .opened .nil
  have hword : ∀ ls, LiteralText (b :: ls) → ls ≠ [] → Tells raw b (.more ⟨stack, .literal ls⟩) :=
    fun ls hl hne => ⟨raw, [b], h, hl, hne, rfl⟩
  have hnumber : ∀ n, NumberSkipper.start? b = some n → Tells raw b (.more ⟨stack, .number n⟩) :=
    fun n hn => ⟨raw, [b], h, NumberSkipper.holds_start hn, rfl⟩
  unfold startValue
  split_ifs with hq ha ho hn ht hf hm hz hd
  · exact ⟨raw, [], h, StringSkipper.holds_start, by rw [hq]⟩
  · exact hopen .array ha
  · exact hopen .object ho
  · exact hword _ (.inl (by rw [hn])) (by simp [nullLetters])
  · exact hword _ (.inr (.inl (by rw [ht]))) (by simp [trueLetters])
  · exact hword _ (.inr (.inr (by rw [hf]))) (by simp [falseLetters])
  · exact hnumber _ (by simp [NumberSkipper.start?, hm])
  · exact hnumber _ (by simp [NumberSkipper.start?, hz])
  · exact hnumber _ (by simp [NumberSkipper.start?, hm, hz, hd])
  · trivial

theorem tells_startKey {outer : List Bracket} {st : Stage} {raw : List UInt8} (hs : st ≠ .item)
    (h : Inside (Nested outer) .object st raw) (b : UInt8) :
    Tells raw b (startKey (.object :: outer) b) := by
  unfold startKey
  split_ifs with hq
  · exact ⟨outer, st, raw, [], rfl, hs, h, StringSkipper.holds_start, by rw [hq]⟩
  · trivial

theorem tells_stepOpened {br : Bracket} {outer : List Bracket} {raw : List UInt8}
    (h : Inside (Nested outer) br .opened raw) (b : UInt8) :
    Tells raw b (stepOpened (br :: outer) b) := by
  obtain ⟨before, v, hb, hv, he⟩ := h.close (by simp)
  cases br with
  | array =>
    simp only [stepOpened]
    split_ifs with hc
    · exact tells_ended hb hv (hc ▸ he)
    · have hnested : Nested (.array :: outer) raw := ⟨.opened, by simp, h⟩
      exact tells_startValue hnested b
  | object =>
    simp only [stepOpened]
    split_ifs with hc
    · exact tells_ended hb hv (hc ▸ he)
    · exact tells_startKey (by simp) h b

theorem tells_stepAfter {br : Bracket} {outer : List Bracket} {raw : List UInt8}
    (h : Inside (Nested outer) br .item raw) (b : UInt8) :
    Tells raw b (stepAfter (br :: outer) b) := by
  obtain ⟨before, v, hb, hv, he⟩ := h.close (by simp)
  cases br with
  | array =>
    simp only [stepAfter]
    split_ifs with hc he'
    · exact ⟨.comma, by simp, hc ▸ h.comma⟩
    · exact tells_ended hb hv (he' ▸ he)
    · trivial
  | object =>
    simp only [stepAfter]
    split_ifs with hc he'
    · exact ⟨outer, rfl, hc ▸ h.comma⟩
    · exact tells_ended hb hv (he' ▸ he)
    · trivial

theorem tells_blankOr {k : Skipper} {raw : List UInt8} {b : UInt8} {next : Step Skipper Unit}
    (hblank : isBlank b → k.Holds (raw ++ [b])) (hnext : Tells raw b next) :
    Tells raw b (k.blankOr b next) := by
  unfold blankOr
  split_ifs with hb
  · exact hblank hb
  · exact hnext

/-- Every step keeps the account of what has been skipped. -/
theorem Holds.step {k : Skipper} {raw : List UInt8} (h : k.Holds raw) (b : UInt8) :
    Tells raw b (k.step b) := by
  obtain ⟨stack, phase⟩ := k
  cases phase with
  | value =>
    have hn : Nested stack raw := h
    exact tells_blankOr (fun hb => hn.blank hb) (tells_startValue hn b)
  | opened =>
    obtain ⟨br, outer, rfl, hi⟩ := h
    exact tells_blankOr (fun hb => ⟨br, outer, rfl, hi.blank hb⟩) (tells_stepOpened hi b)
  | afterValue =>
    obtain ⟨br, outer, rfl, hi⟩ := h
    exact tells_blankOr (fun hb => ⟨br, outer, rfl, hi.blank hb⟩) (tells_stepAfter hi b)
  | key =>
    obtain ⟨outer, rfl, hi⟩ := h
    exact tells_blankOr (fun hb => ⟨outer, rfl, hi.blank hb⟩) (tells_startKey (by simp) hi b)
  | colon =>
    obtain ⟨outer, st, before, key, ws, rfl, hs, hi, hk, hw, rfl⟩ := h
    refine tells_blankOr (fun hb => ?_) ?_
    · exact ⟨outer, st, before, key, ws ++ [b], rfl, hs, hi, hk, hw.snoc hb, by simp⟩
    · split_ifs with hc
      · exact ⟨st, before, key, ws, [], hs, hi, hk, hw, .nil, by simp [hc]⟩
      · trivial
  | keyString t =>
    obtain ⟨outer, st, before, part, rfl, hs, hi, ht, rfl⟩ := h
    simp only [Skipper.step]
    split
    · next t' hm => exact ⟨outer, st, before, part ++ [b], rfl, hs, hi, ht.more hm, by simp⟩
    · next hd =>
      exact ⟨outer, st, before, _, [], rfl, hs, hi, ht.done hd, .nil, by simp⟩
    · next hp => exact absurd hp (StringSkipper.step_ne_passed _ _)
    · trivial
  | string t =>
    obtain ⟨before, part, hn, ht, rfl⟩ := h
    simp only [Skipper.step]
    split
    · next t' hm => exact ⟨before, part ++ [b], hn, ht.more hm, by simp⟩
    · next hd => exact tells_ended hn (.string (ht.done hd)) (by simp)
    · next hp => exact absurd hp (StringSkipper.step_ne_passed _ _)
    · trivial
  | number n =>
    obtain ⟨before, part, hn, hp, rfl⟩ := h
    simp only [Skipper.step]
    split
    · next n' hm => exact ⟨before, part ++ [b], hn, hp.more hm, by simp⟩
    · next hd => exact absurd hd (NumberSkipper.step_ne_done _ _)
    · next hpass =>
      have hv : Value part := .number (hp.text (NumberSkipper.canEnd_of_passed hpass))
      cases stack with
      | nil => exact ⟨before, part, hn, hv, rfl⟩
      | cons br outer =>
        have hi := hn.value hv
        simp only [List.isEmpty_cons, Bool.false_eq_true, if_false]
        split_ifs with hb
        · exact ⟨br, outer, rfl, hi.blank hb⟩
        · exact tells_stepAfter hi b
    · trivial
  | literal ls =>
    obtain ⟨before, part, hn, hl, hne, rfl⟩ := h
    obtain ⟨l, rest, rfl⟩ := List.exists_cons_of_ne_nil hne
    by_cases hb : b = l
    · subst hb
      cases rest with
      | nil =>
        simp only [Skipper.step, Letters.step, List.isEmpty_nil, if_true]
        exact tells_ended hn (.literal hl) (by simp)
      | cons c cs =>
        simp only [Skipper.step, Letters.step, List.isEmpty_cons, Bool.false_eq_true, if_true,
          if_false]
        exact ⟨before, part ++ [b], hn, by simpa using hl, by simp, by simp⟩
    · simp only [Skipper.step, Letters.step, if_neg hb]
      trivial

theorem holds_start : start.Holds [] := Blanks.nil

/-! ## Reading a value -/

abbrev Skips : Skipper → List UInt8 → Skipper → Prop :=
  Reads fun k b => (k.step b).next?

/-- The machine stands behind a value inside a bracket. -/
def Behind (stack : List Bracket) (k : Skipper) : Prop :=
  k = ⟨stack, .afterValue⟩ ∨ ∃ n, n.canEnd ∧ k = ⟨stack, .number n⟩

/-- These bytes take the machine to the end of a value: either the last byte ends it, or it is
a number that may end here. -/
def Finishes (stack : List Bracket) (k : Skipper) (bs : List UInt8) : Prop :=
  (∃ front b k', bs = front ++ [b] ∧ Skips k front k' ∧ k'.step b = ended stack) ∨
  ∃ n, n.canEnd ∧ Skips k bs ⟨stack, .number n⟩

/-- The first byte of a value and what it does. -/
def Starts (stack : List Bracket) (raw : List UInt8) : Prop :=
  ∃ b rest k, raw = b :: rest ∧ isBlank b = false ∧ b ≠ 0x5D ∧ startValue stack b = .more k ∧
    Finishes stack k rest

theorem Finishes.behind {br : Bracket} {outer : List Bracket} {k : Skipper} {bs : List UInt8}
    (h : Finishes (br :: outer) k bs) : ∃ k', Behind (br :: outer) k' ∧ Skips k bs k' := by
  rcases h with ⟨front, b, k', rfl, hr, hs⟩ | ⟨n, hn, hr⟩
  · exact ⟨_, .inl rfl, hr.snoc (by simp [hs, ended])⟩
  · exact ⟨_, .inr ⟨n, hn, rfl⟩, hr⟩

theorem Behind.step_eq {br : Bracket} {outer : List Bracket} {k : Skipper} {b : UInt8}
    (h : Behind (br :: outer) k) (hb : isBlank b ∨ b = 0x2C ∨ b = 0x5D ∨ b = 0x7D) :
    k.step b = step ⟨br :: outer, .afterValue⟩ b := by
  rcases h with rfl | ⟨n, hn, rfl⟩
  · rfl
  · have hp := NumberSkipper.step_of_canEnd hn hb
    simp only [step, hp, List.isEmpty_cons, Bool.false_eq_true, if_false, blankOr]

theorem skips_blanks {k : Skipper} {ws : List UInt8} (hw : Blanks ws)
    (h : ∀ b, isBlank b → k.step b = .more k) : Skips k ws k :=
  .stay fun b hb => by simp [h b (hw b hb)]

/-- What an item is read from behind a comma. -/
def next : Bracket → SkipPhase
  | .array => .value
  | .object => .key

/-- The machine reads the item behind a comma, and its first byte may as well come first. -/
def ReadsItem (br : Bracket) (x : List UInt8) : Prop :=
  ∀ outer, ∃ b rest k k', x = b :: rest ∧ isBlank b = false ∧ b ≠ br.close ∧
    step ⟨br :: outer, next br⟩ b = .more k ∧ step ⟨br :: outer, .opened⟩ b = .more k ∧
    Skips k rest k' ∧ Behind (br :: outer) k'

/-- Where the machine stands inside a bracket. -/
def At (br : Bracket) (outer : List Bracket) : Stage → Skipper → Prop
  | .opened, k => k = ⟨br :: outer, .opened⟩
  | .comma, k => k = ⟨br :: outer, next br⟩
  | .item, k => Behind (br :: outer) k

theorem skips_part {br : Bracket} {st : Stage} {items : List (List UInt8)} {raw : List UInt8}
    (h : Part br.open_ st items raw) (hi : ∀ x ∈ items, ReadsItem br x) (outer : List Bracket) :
    ∃ body k, raw = br.open_ :: body ∧ At br outer st k ∧ Skips ⟨br :: outer, .opened⟩ body k := by
  refine Part.reads (S := fun st _ k => At br outer st k) rfl ?_ ?_ ?_ h List.prefix_rfl
  · intro st _ k b hk hb
    cases st with
    | opened =>
      obtain rfl : k = _ := hk
      exact ⟨_, by simp [step, blankOr, hb], rfl⟩
    | comma =>
      obtain rfl : k = _ := hk
      exact ⟨_, by cases br <;> simp [step, next, blankOr, hb], rfl⟩
    | item =>
      refine ⟨⟨br :: outer, .afterValue⟩, ?_, .inl rfl⟩
      rw [Behind.step_eq hk (.inl hb)]
      simp [step, blankOr, hb]
  · intro _ k hk
    refine ⟨⟨br :: outer, next br⟩, ?_, rfl⟩
    rw [Behind.step_eq hk (.inr (.inl rfl))]
    cases br <;> rfl
  · intro st xs x k hk hs hx
    obtain ⟨b, rest, k₁, k₂, rfl, -, -, hnext, hopened, hrest, hbehind⟩ :=
      hi x (hx.subset (by simp)) outer
    have hstep : k.step b = .more k₁ := by
      cases st with
      | opened => exact (show k = _ from hk) ▸ hopened
      | comma => exact (show k = _ from hk) ▸ hnext
      | item => exact absurd rfl hs
    exact ⟨k₂, .cons (by simp [hstep]) hrest, hbehind⟩

theorem starts_enclosed {br : Bracket} {items : List (List UInt8)} {raw : List UInt8}
    (h : Enclosed br.open_ br.close items raw) (hi : ∀ x ∈ items, ReadsItem br x)
    (stack : List Bracket) : Starts stack raw := by
  obtain ⟨st, body, hs, hp, rfl⟩ := h.part
  obtain ⟨body, k, rfl, hk, hr⟩ := skips_part hp hi stack
  have hclose : k.step br.close = ended stack := by
    cases st with
    | opened =>
      obtain rfl : k = _ := hk
      cases br <;> rfl
    | comma => exact absurd rfl hs
    | item =>
      rw [Behind.step_eq hk (by cases br <;> simp [Bracket.close])]
      cases br <;> rfl
  refine ⟨br.open_, body ++ [br.close], ⟨br :: stack, .opened⟩, by simp, ?_, ?_, ?_,
    .inl ⟨body, br.close, k, rfl, hr, hclose⟩⟩
  all_goals cases br <;> first | rfl | decide

theorem readsItem_of_value {x : List UInt8} (h : ∀ stack, Starts stack x) :
    ReadsItem .array x := by
  intro outer
  obtain ⟨b, rest, k, rfl, hblank, hclose, hstart, hf⟩ := h (.array :: outer)
  obtain ⟨k', hk', hr⟩ := hf.behind
  refine ⟨b, rest, k, k', rfl, hblank, hclose, ?_, ?_, hr, hk'⟩
  · simpa [step, next, blankOr, hblank] using hstart
  · have hclose : b ≠ 0x5D := hclose
    simpa [step, stepOpened, blankOr, hblank, hclose] using hstart

theorem skips_content {body : List UInt8} (h : LooseContent body) {f : StringSkipper → Skipper}
    (hf : ∀ t b t', t.step b = .more t' → (f t).step b = .more (f t')) :
    Skips (f .plain) body (f .plain) := by
  refine (StringSkipper.reads_content h).lift ?_
  intro t b t' ht
  simp only [Step.next?_eq_some] at ht ⊢
  exact hf t b t' ht

theorem readsItem_of_pair {key v x : List UInt8} (hk : LooseString key)
    (hv : ∀ stack, Starts stack v) (hp : PairText key v x) : ReadsItem .object x := by
  intro outer
  obtain ⟨body, hc, rfl⟩ := hk
  obtain ⟨ws, ws', hw, hw', rfl⟩ := hp
  obtain ⟨b, rest, k, rfl, hblank, -, hstart, hf⟩ := hv (.object :: outer)
  obtain ⟨k', hk', hrest⟩ := hf.behind
  have hkey := skips_content hc (f := fun t => ⟨.object :: outer, .keyString t⟩)
    fun t b t' ht => by simp [step, ht]
  have hcolon : Skips ⟨.object :: outer, .colon⟩ ws ⟨.object :: outer, .colon⟩ :=
    skips_blanks hw fun c hc => by simp [step, blankOr, hc]
  have hvalue : Skips ⟨.object :: outer, .value⟩ ws' ⟨.object :: outer, .value⟩ :=
    skips_blanks hw' fun c hc => by simp [step, blankOr, hc]
  refine ⟨0x22, body ++ 0x22 :: (ws ++ 0x3A :: (ws' ++ b :: rest)),
    ⟨.object :: outer, .keyString .plain⟩, k', by simp, rfl, by decide, rfl, rfl, ?_, hk'⟩
  refine hkey.append (.cons (t := ⟨.object :: outer, .colon⟩) rfl ?_)
  refine hcolon.append (.cons (t := ⟨.object :: outer, .value⟩) rfl ?_)
  refine hvalue.append (.cons (t := k) ?_ hrest)
  simp [step, blankOr, hblank, hstart]

theorem starts_string {raw : List UInt8} (h : LooseString raw) (stack : List Bracket) :
    Starts stack raw := by
  obtain ⟨body, hc, rfl⟩ := h
  have hbody := skips_content hc (f := fun t => ⟨stack, .string t⟩)
    fun t b t' ht => by simp [step, ht]
  exact ⟨0x22, body ++ [0x22], ⟨stack, .string .plain⟩, rfl, rfl, by decide, rfl,
    .inl ⟨body, 0x22, _, rfl, hbody, rfl⟩⟩

theorem startValue_of_start? {b : UInt8} {n : NumberSkipper} (h : NumberSkipper.start? b = some n)
    (stack : List Bracket) : startValue stack b = .more ⟨stack, .number n⟩ := by
  unfold NumberSkipper.start? at h
  split_ifs at h with hm hz hd
  · obtain rfl := Option.some.inj h
    rw [hm]
    rfl
  · obtain rfl := Option.some.inj h
    rw [hz]
    rfl
  · obtain rfl := Option.some.inj h
    have hne : b ≠ 0x22 ∧ b ≠ 0x5B ∧ b ≠ 0x7B ∧ b ≠ 0x6E ∧ b ≠ 0x74 ∧ b ≠ 0x66 := by
      refine ⟨?_, ?_, ?_, ?_, ?_, ?_⟩ <;> rintro rfl <;> revert hd <;> decide
    simp [startValue, hne, hm, hz, hd]

theorem starts_number {raw : List UInt8} (h : NumberText raw) (stack : List Bracket) :
    Starts stack raw := by
  obtain ⟨b, rest, n, m, rfl, hstart, hr, hend⟩ := NumberSkipper.reads_number h
  have hne : isBlank b = false ∧ b ≠ 0x5D := by
    constructor
    · by_contra hb
      have hb : isBlank b := by simpa using hb
      simp only [isBlank, Bool.or_eq_true, decide_eq_true_eq] at hb
      rcases hb with ((rfl | rfl) | rfl) | rfl <;> simp [NumberSkipper.start?, isDigit] at hstart
    · rintro rfl
      simp [NumberSkipper.start?, isDigit] at hstart
  refine ⟨b, rest, _, rfl, hne.1, hne.2, startValue_of_start? hstart stack, .inr ⟨m, hend, ?_⟩⟩
  refine hr.lift (f := fun n => Skipper.mk stack (.number n)) ?_
  intro n b n' hn
  simp only [Step.next?_eq_some] at hn
  simp [step, hn]

theorem finishes_literal {ls : Letters} (h : ls ≠ []) (stack : List Bracket) :
    Finishes stack ⟨stack, .literal ls⟩ ls := by
  induction ls with
  | nil => exact absurd rfl h
  | cons l rest ih =>
    cases rest with
    | nil => exact .inl ⟨[], l, _, rfl, .nil, by simp [step, Letters.step]⟩
    | cons c cs =>
      have hstep : step ⟨stack, .literal (l :: c :: cs)⟩ l = .more ⟨stack, .literal (c :: cs)⟩ := by
        simp [step, Letters.step]
      rcases ih (by simp) with ⟨front, b, k', he, hr, hs⟩ | ⟨n, hn, hr⟩
      · exact .inl ⟨l :: front, b, k', by simp [he], .cons (by simp [hstep]) hr, hs⟩
      · exact .inr ⟨n, hn, .cons (by simp [hstep]) hr⟩

theorem starts_literal {raw : List UInt8} (h : LiteralText raw) (stack : List Bracket) :
    Starts stack raw := by
  rcases h with rfl | rfl | rfl
  · exact ⟨_, _, _, rfl, rfl, by decide, rfl, finishes_literal (by simp [nullLetters]) stack⟩
  · exact ⟨_, _, _, rfl, rfl, by decide, rfl, finishes_literal (by simp [trueLetters]) stack⟩
  · exact ⟨_, _, _, rfl, rfl, by decide, rfl, finishes_literal (by simp [falseLetters]) stack⟩

/-- Every value is skipped, whatever brackets are open around it. -/
theorem starts_value {raw : List UInt8} (h : Value raw) (stack : List Bracket) :
    Starts stack raw := by
  -- an item of a bracket is read with one more bracket open
  induction h generalizing stack with
  | literal h => exact starts_literal h stack
  | number h => exact starts_number h stack
  | string h => exact starts_string h stack
  | array _ h ih =>
    exact @starts_enclosed .array _ _ h (fun x hx => readsItem_of_value (ih x hx)) stack
  | object keys _ h ih =>
    obtain ⟨items, hp, he⟩ := h
    refine @starts_enclosed .object _ _ he ?_ stack
    intro x hx
    obtain ⟨m, hm, hpair⟩ := exists_left_of_forall₂ hp hx
    exact readsItem_of_pair (keys m hm) (ih m hm) hpair

end Skipper

end TypeDeps.Json
