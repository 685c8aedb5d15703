import TypeDeps.Proofs.Json.SkippedValue
import TypeDeps.Proofs.Text.Utf8

/-!
# One text, one reading

A machine that takes one byte at a time finds the same end of a value wherever it starts from the
same text. So a text is the text of one string, one list of items or one list of members only.
-/
namespace TypeDeps.Json

/-! ## Where machines stop -/

section Machines

variable {σ α : Type} {step : σ → UInt8 → Step σ α} {s m m' : σ}
variable {bs bs' rest rest' : List UInt8}

/-- The machine comes to the end of these bytes: it says so at the last one, or it would not take
what comes next. -/
def Stops (step : σ → UInt8 → Step σ α) (s : σ) (bs rest : List UInt8) : Prop :=
  (∃ front b m a, bs = front ++ [b] ∧ Reads (fun s b => (step s b).next?) s front m ∧
    step m b = .done a) ∨
  ∃ m, Reads (fun s b => (step s b).next?) s bs m ∧
    ∀ b, rest.head? = some b → ∃ a, step m b = .passed a

theorem Reads.unique {step : σ → UInt8 → Option σ} (h : Reads step s bs m)
    (h' : Reads step s bs m') : m = m' :=
  Option.some.inj (h.symm.trans h')

theorem Reads.split {step : σ → UInt8 → Option σ} {front : List UInt8} {b : UInt8}
    (h : Reads step s (front ++ b :: rest) m) :
    ∃ t u, Reads step s front t ∧ step t b = some u ∧ Reads step u rest m := by
  induction front generalizing s with
  | nil =>
    obtain ⟨u, hu, hr⟩ := reads_cons.mp h
    exact ⟨s, u, .nil, hu, hr⟩
  | cons c front ih =>
    obtain ⟨t, ht, hr⟩ := reads_cons.mp h
    obtain ⟨t', u, hfront, hu, hrest⟩ := ih hr
    exact ⟨t', u, .cons ht hfront, hu, hrest⟩

/-- A machine that stops later takes every byte before. -/
theorem Stops.takes {front : List UInt8} {b : UInt8} {more : List UInt8}
    (h : Stops step s (front ++ b :: more) rest) :
    ∃ t, Reads (fun s b => (step s b).next?) s front t ∧ (∀ a, step t b ≠ .passed a) ∧
      (more ≠ [] → ∀ a, step t b ≠ .done a) := by
  have htaken : ∀ {more' : List UInt8} {m : σ},
      Reads (fun s b => (step s b).next?) s (front ++ b :: more') m →
      ∃ t, Reads (fun s b => (step s b).next?) s front t ∧ (∀ a, step t b ≠ .passed a) ∧
        ∀ a, step t b ≠ .done a := by
    intro more' m hr
    obtain ⟨t, u, hfront, hu, -⟩ := hr.split
    have hmore : step t b = .more u := Step.next?_eq_some.mp hu
    exact ⟨t, hfront, by simp [hmore], by simp [hmore]⟩
  rcases h with ⟨before, last, m, a, hbytes, hr, hdone⟩ | ⟨m, hr, -⟩
  · rcases List.eq_nil_or_concat more with rfl | ⟨more', c, rfl⟩
    · obtain ⟨rfl, hb⟩ := List.append_inj' hbytes rfl
      obtain rfl : b = last := by simpa using hb
      exact ⟨m, hr, by simp [hdone], by simp⟩
    · have hlast : front ++ b :: more' ++ [c] = before ++ [last] := by simpa using hbytes
      have hbefore : front ++ b :: more' = before := (List.append_inj' hlast rfl).1
      obtain ⟨t, ht, hpassed, hdone⟩ := htaken (hbefore ▸ hr)
      exact ⟨t, ht, hpassed, fun _ => hdone⟩
  · obtain ⟨t, ht, hpassed, hdone⟩ := htaken hr
    exact ⟨t, ht, hpassed, fun _ => hdone⟩

theorem Stops.not_shorter {b : UInt8} {more : List UInt8} (h : Stops step s bs (b :: rest))
    (h' : Stops step s (bs ++ b :: more) rest') : False := by
  rcases h with ⟨front, last, m, a, rfl, hr, hdone⟩ | ⟨m, hr, hpassed⟩
  · rw [List.append_assoc, List.singleton_append] at h'
    obtain ⟨t, ht, -, hnot⟩ := h'.takes
    obtain rfl := ht.unique hr
    exact hnot (by simp) a hdone
  · obtain ⟨t, ht, hnot, -⟩ := h'.takes
    obtain rfl := ht.unique hr
    obtain ⟨a, ha⟩ := hpassed b rfl
    exact hnot a ha

/-- On one text the machine stops at one place. -/
theorem Stops.unique (h : Stops step s bs rest) (h' : Stops step s bs' rest')
    (htext : bs ++ rest = bs' ++ rest') : bs = bs' ∧ rest = rest' := by
  rcases List.append_eq_append_iff.mp htext with ⟨more, rfl, hrest⟩ | ⟨more, rfl, hrest⟩
  · cases more with
    | nil => exact ⟨(List.append_nil bs).symm, by simpa using hrest⟩
    | cons b more =>
      rw [hrest] at h
      exact absurd h' h.not_shorter
  · cases more with
    | nil => exact ⟨List.append_nil bs', by simpa using hrest.symm⟩
    | cons b more =>
      rw [hrest] at h'
      exact absurd h h'.not_shorter

end Machines

variable {v v' rest rest' raw : List UInt8}

/-! ## Values -/

/-- What comes next is nothing or may come behind a value. -/
def Delimited (rest : List UInt8) : Prop :=
  ∀ b, rest.head? = some b → isBlank b ∨ b = 0x2C ∨ b = 0x5D ∨ b = 0x7D

theorem stops_of_finishes {k : Skipper} {bs : List UInt8} (h : Skipper.Finishes [] k bs)
    (hrest : Delimited rest) : Stops Skipper.step k bs rest := by
  rcases h with ⟨front, b, k', hbytes, hr, hend⟩ | ⟨n, hn, hr⟩
  · exact .inl ⟨front, b, k', (), hbytes, hr, hend⟩
  · refine .inr ⟨_, hr, fun b hb => ⟨(), ?_⟩⟩
    have hpassed := NumberSkipper.step_of_canEnd hn (hrest b hb)
    simp [Skipper.step, hpassed]

/-- Two values that begin one text are the same. -/
theorem Value.unique (hv : Value v) (hv' : Value v') (hrest : Delimited rest)
    (hrest' : Delimited rest') (htext : v ++ rest = v' ++ rest') : v = v' ∧ rest = rest' := by
  obtain ⟨b, bs, k, rfl, -, -, hstart, hend⟩ := Skipper.starts_value hv []
  obtain ⟨b', bs', k', rfl, -, -, hstart', hend'⟩ := Skipper.starts_value hv' []
  obtain ⟨rfl, htail⟩ := List.cons.inj htext
  obtain rfl : k = k' := by simpa [hstart] using hstart'
  obtain ⟨rfl, hsame⟩ :=
    (stops_of_finishes hend hrest).unique (stops_of_finishes hend' hrest') htail
  exact ⟨rfl, hsame⟩

theorem Value.head (hv : Value v) : ∃ b bs, v = b :: bs ∧ isBlank b = false ∧ b ≠ 0x5D := by
  obtain ⟨b, bs, k, rfl, hblank, hclose, -, -⟩ := Skipper.starts_value hv []
  exact ⟨b, bs, rfl, hblank, hclose⟩

/-! ## Strings -/

theorem stops_of_content {s : String} {body : List UInt8} (h : Content body (bytesOf s))
    (rest : List UInt8) : Stops StringReader.step .start (body ++ [0x22]) rest :=
  .inl ⟨body, 0x22, _, s, rfl, StringReader.reads_content h, StringReader.step_quote s⟩

theorem Spells.unique {s s' : String} {key key' : List UInt8} (h : Spells s key)
    (h' : Spells s' key') (htext : key ++ rest = key' ++ rest') :
    s = s' ∧ key = key' ∧ rest = rest' := by
  obtain ⟨body, hc, rfl⟩ := h
  obtain ⟨body', hc', rfl⟩ := h'
  obtain ⟨-, htail⟩ := List.cons.inj htext
  obtain ⟨hbody, hrest⟩ := (stops_of_content hc rest).unique (stops_of_content hc' rest') htail
  obtain rfl := List.append_cancel_right hbody
  have hstate := (StringReader.reads_content hc).unique (StringReader.reads_content hc')
  have hbytes : bytesOf s = bytesOf s' := by simpa using hstate
  exact ⟨bytesOf_injective hbytes, rfl, hrest⟩

/-! ## Blanks -/

/-- This does not begin with a blank. -/
def Inked (raw : List UInt8) : Prop := ∀ b, raw.head? = some b → isBlank b = false

theorem inked_cons {b : UInt8} (hb : isBlank b = false) (rest : List UInt8) :
    Inked (b :: rest) := by
  intro c hc
  obtain rfl : b = c := by simpa using hc
  exact hb

/-- Blanks in front of something else are the same blanks. -/
theorem Blanks.unique {ws ws' x x' : List UInt8} (hw : Blanks ws) (hw' : Blanks ws')
    (hx : Inked x) (hx' : Inked x') (htext : ws ++ x = ws' ++ x') : ws = ws' ∧ x = x' := by
  induction ws generalizing ws' with
  | nil =>
    cases ws' with
    | nil => exact ⟨rfl, htext⟩
    | cons b ws' =>
      have hb := hw' b List.mem_cons_self
      rw [hx b (by rw [← List.nil_append x, htext]; rfl)] at hb
      cases hb
  | cons b ws ih =>
    have hb := hw b List.mem_cons_self
    cases ws' with
    | nil =>
      rw [hx' b (by rw [← List.nil_append x', ← htext]; rfl)] at hb
      cases hb
    | cons b' ws' =>
      obtain ⟨rfl, htail⟩ := List.cons.inj htext
      obtain ⟨rfl, hsame⟩ := ih (fun c hc => hw c (List.mem_cons_of_mem _ hc))
        (fun c hc => hw' c (List.mem_cons_of_mem _ hc)) htail
      exact ⟨rfl, hsame⟩

theorem delimited_nil : Delimited [] := by simp [Delimited]

theorem delimited_of_blanks {ws : List UInt8} (hw : Blanks ws) (hrest : Delimited rest) :
    Delimited (ws ++ rest) := by
  cases ws with
  | nil => exact hrest
  | cons b ws =>
    intro c hc
    obtain rfl : b = c := by simpa using hc
    exact .inl (hw b List.mem_cons_self)

/-! ## Brackets -/

/-- What stands between brackets can be told from what comes behind it. -/
structure Separable (close : UInt8) (P : List UInt8 → Prop) : Prop where
  head : ∀ x, P x → ∃ b bs, x = b :: bs ∧ isBlank b = false ∧ b ≠ close
  unique : ∀ x x' rest rest', P x → P x' → Delimited rest → Delimited rest' →
    x ++ rest = x' ++ rest' → x = x' ∧ rest = rest'

variable {P : List UInt8 → Prop} {o close : UInt8} {items items' padded padded' : List (List UInt8)}

theorem Separable.inked (h : Separable close P) {x : List UInt8} (hx : P x)
    (rest : List UInt8) : Inked (x ++ rest) := by
  obtain ⟨b, bs, rfl, hblank, -⟩ := h.head x hx
  exact inked_cons hblank _

/-- What follows an item: the closing bracket, or a comma and the next one. -/
def tail (close : UInt8) (padded : List (List UInt8)) : List UInt8 :=
  if padded = [] then [close] else 0x2C :: List.intercalate [0x2C] padded ++ [close]

theorem intercalate_close (close : UInt8) (item : List UInt8) (padded : List (List UInt8)) :
    List.intercalate [0x2C] (item :: padded) ++ [close] = item ++ tail close padded := by
  cases padded with
  | nil => simp [tail]
  | cons next padded => simp [tail, List.intercalate_cons_cons]

theorem tail_cons (close : UInt8) (item : List UInt8) (padded : List (List UInt8)) :
    tail close (item :: padded) = 0x2C :: (item ++ tail close padded) := by
  rw [← intercalate_close]
  simp [tail]

theorem tail_bounds (hclose : close = 0x5D ∨ close = 0x7D) (padded : List (List UInt8)) :
    Delimited (tail close padded) ∧ Inked (tail close padded) := by
  have hhead : ∀ b, (tail close padded).head? = some b → b = 0x2C ∨ b = 0x5D ∨ b = 0x7D := by
    intro b hb
    unfold tail at hb
    split_ifs at hb
    · obtain rfl : close = b := by simpa using hb
      exact .inr hclose
    · obtain rfl : 0x2C = b := by simpa using hb
      exact .inl rfl
  refine ⟨fun b hb => .inr (hhead b hb), fun b hb => ?_⟩
  rcases hhead b hb with rfl | rfl | rfl <;> rfl

theorem intercalate_unique (hclose : close = 0x5D ∨ close = 0x7D) (hP : Separable close P)
    (hitems : ∀ x ∈ items, P x) (hitems' : ∀ x ∈ items', P x)
    (hpad : List.Forall₂ Padded items padded) (hpad' : List.Forall₂ Padded items' padded')
    (htext : tail close padded = tail close padded') : items = items' := by
  have hcomma : close ≠ 0x2C := by
    rintro rfl
    simp at hclose
  induction hpad generalizing items' padded' with
  | nil =>
    cases hpad' with
    | nil => rfl
    | cons h hpad' => simp [tail, hcomma] at htext
  | @cons x px items padded h hpad ih =>
    cases hpad' with
    | nil => simp [tail, hcomma.symm] at htext
    | @cons x' px' items' padded' h' hpad' =>
      obtain ⟨ws, ws₁, hw, hw₁, rfl⟩ := h
      obtain ⟨ws', ws₁', hw', hw₁', rfl⟩ := h'
      have hx := hitems x List.mem_cons_self
      have hx' := hitems' x' List.mem_cons_self
      obtain ⟨hbound, hink⟩ := tail_bounds hclose padded
      obtain ⟨hbound', hink'⟩ := tail_bounds hclose padded'
      simp only [tail_cons, List.cons.injEq, true_and, List.append_assoc] at htext
      obtain ⟨-, hinner⟩ := Blanks.unique hw hw' (hP.inked hx _) (hP.inked hx' _) htext
      obtain ⟨rfl, hafter⟩ := hP.unique _ _ _ _ hx hx' (delimited_of_blanks hw₁ hbound)
        (delimited_of_blanks hw₁' hbound') hinner
      obtain ⟨-, hrest⟩ := Blanks.unique hw₁ hw₁' hink hink' hafter
      rw [ih (fun y hy => hitems y (List.mem_cons_of_mem _ hy))
        (fun y hy => hitems' y (List.mem_cons_of_mem _ hy)) hpad' hrest]

/-- A text encloses one list of items only. -/
theorem Enclosed.unique (hclose : close = 0x5D ∨ close = 0x7D) (hP : Separable close P)
    (hitems : ∀ x ∈ items, P x) (hitems' : ∀ x ∈ items', P x) (h : Enclosed o close items raw)
    (h' : Enclosed o close items' raw) : items = items' := by
  -- an empty bracket ends where an item would have to begin
  have hempty : ∀ {items padded : List (List UInt8)} {ws : List UInt8}, (∀ x ∈ items, P x) →
      Blanks ws → List.Forall₂ Padded items padded → items ≠ [] →
      o :: ws ++ [close] ≠ o :: List.intercalate [0x2C] padded ++ [close] := by
    intro items padded ws hitems hw hpad hne htext
    cases hpad with
    | nil => exact hne rfl
    | @cons x px items padded hx hpad =>
      obtain ⟨ws', ws₁, hw', -, rfl⟩ := hx
      obtain ⟨b, bs, rfl, hblank, hb⟩ := hP.head x (hitems x List.mem_cons_self)
      simp only [List.cons_append, List.cons.injEq, true_and, intercalate_close,
        List.append_assoc] at htext
      have hend : isBlank close = false := by rcases hclose with rfl | rfl <;> rfl
      obtain ⟨-, hsame⟩ :=
        Blanks.unique hw hw' (inked_cons hend []) (inked_cons hblank _) htext
      exact hb (List.cons.inj hsame).1.symm
  rcases h with ⟨rfl, ws, hw, rfl⟩ | ⟨hne, padded, hpad, rfl⟩
  · rcases h' with ⟨rfl, -⟩ | ⟨hne', padded', hpad', htext⟩
    · rfl
    · exact absurd htext (hempty hitems' hw hpad' hne')
  · rcases h' with ⟨-, ws, hw, htext⟩ | ⟨hne', padded', hpad', htext⟩
    · exact absurd htext.symm (hempty hitems hw hpad hne)
    · refine intercalate_unique hclose hP hitems hitems' hpad hpad' ?_
      have hpadded : padded ≠ [] := by
        rintro rfl
        exact hne (List.forall₂_nil_right_iff.mp hpad)
      have hpadded' : padded' ≠ [] := by
        rintro rfl
        exact hne' (List.forall₂_nil_right_iff.mp hpad')
      simpa [tail, hpadded, hpadded'] using htext

theorem separable_value : Separable 0x5D Value where
  head _ h := h.head
  unique _ _ _ _ h h' hrest hrest' htext := h.unique h' hrest hrest' htext

end TypeDeps.Json
