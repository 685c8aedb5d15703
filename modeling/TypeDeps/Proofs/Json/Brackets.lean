import TypeDeps.Proofs.Json.Grammar
import TypeDeps.Proofs.Json.Runs

/-!
# Unfinished brackets

A machine that reads from left to right sees the items of a bracket come in one by one.
`Part` is what it has seen: the items so far and what may come next. It leads to the same
texts as `Enclosed`.
-/
namespace TypeDeps.Json

/-- What a machine has just read inside a bracket. -/
inductive Stage where
  | opened
  | comma
  | item
  deriving DecidableEq

/-- An opening bracket and what follows it, blanks included. -/
inductive Part (open_ : UInt8) : Stage → List (List UInt8) → List UInt8 → Prop
  | opened {ws : List UInt8} (h : Blanks ws) : Part open_ .opened [] (open_ :: ws)
  | comma {xs : List (List UInt8)} {raw ws : List UInt8} (h : Part open_ .item xs raw)
      (hw : Blanks ws) : Part open_ .comma xs (raw ++ 0x2C :: ws)
  | item {st : Stage} {xs : List (List UInt8)} {raw x ws : List UInt8} (h : Part open_ st xs raw)
      (hs : st ≠ .item) (hw : Blanks ws) : Part open_ .item (xs ++ [x]) (raw ++ x ++ ws)

theorem Blanks.nil : Blanks [] := by simp [Blanks]

theorem Blanks.snoc {ws : List UInt8} {b : UInt8} (h : Blanks ws) (hb : isBlank b) :
    Blanks (ws ++ [b]) := by
  intro c hc
  rcases List.mem_append.mp hc with hc | hc
  · exact h c hc
  · rwa [List.mem_singleton.mp hc]

theorem Part.blank {o b : UInt8} {st : Stage} {xs : List (List UInt8)} {raw : List UInt8}
    (h : Part o st xs raw) (hb : isBlank b) : Part o st xs (raw ++ [b]) := by
  cases h with
  | opened hw => exact .opened (hw.snoc hb)
  | comma h hw =>
    rw [List.append_assoc, List.cons_append]
    exact .comma h (hw.snoc hb)
  | item h hs hw =>
    rw [List.append_assoc]
    exact .item h hs (hw.snoc hb)

theorem Part.blanks {o : UInt8} {st : Stage} {xs : List (List UInt8)} {raw ws : List UInt8}
    (h : Part o st xs raw) (hw : Blanks ws) : Part o st xs (raw ++ ws) := by
  induction ws generalizing raw with
  | nil => simpa using h
  | cons b ws ih =>
    have := ih (h.blank (hw b (by simp))) fun c hc => hw c (by simp [hc])
    simpa using this

theorem intercalate_snoc {α : Type} (sep : List α) {xs : List (List α)} (x : List α) (h : xs ≠ []) :
    List.intercalate sep (xs ++ [x]) = List.intercalate sep xs ++ sep ++ x := by
  induction xs with
  | nil => exact absurd rfl h
  | cons y ys ih =>
    cases ys with
    | nil => simp [List.intercalate]
    | cons z zs =>
      have := ih (by simp)
      simp only [List.cons_append, List.intercalate, List.intersperse] at this ⊢
      simp only [List.flatten_cons, this, List.append_assoc]

theorem forall₂_snoc_left {α β : Type} {R : α → β → Prop} {xs : List α} {x : α} {zs : List β}
    (h : List.Forall₂ R (xs ++ [x]) zs) :
    ∃ ys y, zs = ys ++ [y] ∧ List.Forall₂ R xs ys ∧ R x y := by
  have hl : (zs.drop xs.length).length = 1 := by
    rw [List.length_drop, ← h.length_eq]
    simp
  obtain ⟨y, hy⟩ := List.length_eq_one_iff.mp hl
  have ht := List.forall₂_take xs.length h
  have hd := List.forall₂_drop xs.length h
  rw [List.take_left] at ht
  rw [List.drop_left, hy] at hd
  refine ⟨zs.take xs.length, y, ?_, ht, (List.forall₂_cons.mp hd).1⟩
  rw [← hy, List.take_append_drop]

theorem exists_left_of_forall₂ {α β : Type} {R : α → β → Prop} {xs : List α} {ys : List β}
    (h : List.Forall₂ R xs ys) {y : β} (hy : y ∈ ys) : ∃ x ∈ xs, R x y := by
  induction h with
  | nil => simp at hy
  | @cons a b _ _ hab _ ih =>
    rcases List.mem_cons.mp hy with rfl | hy
    · exact ⟨a, by simp, hab⟩
    · obtain ⟨x, hx, hr⟩ := ih hy
      exact ⟨x, by simp [hx], hr⟩

/-- The items of a bracket so far, with commas between them. -/
def Joined (o : UInt8) (xs : List (List UInt8)) (raw : List UInt8) : Prop :=
  xs ≠ [] ∧ ∃ padded, List.Forall₂ Padded xs padded ∧ raw = o :: List.intercalate [0x2C] padded

theorem Joined.first {o : UInt8} {x ws ws' : List UInt8} (hw : Blanks ws) (hw' : Blanks ws') :
    Joined o [x] (o :: ws ++ x ++ ws') :=
  ⟨by simp, [ws ++ x ++ ws'], .cons ⟨ws, ws', hw, hw', rfl⟩ .nil, by simp [List.intercalate]⟩

theorem Joined.next {o : UInt8} {xs : List (List UInt8)} {raw x ws ws' : List UInt8}
    (h : Joined o xs raw) (hw : Blanks ws) (hw' : Blanks ws') :
    Joined o (xs ++ [x]) (raw ++ 0x2C :: ws ++ x ++ ws') := by
  obtain ⟨hne, padded, hp, rfl⟩ := h
  have hpne : padded ≠ [] := by
    rintro rfl
    exact hne (List.forall₂_nil_right_iff.mp hp)
  refine ⟨by simp, padded ++ [ws ++ x ++ ws'], ?_, ?_⟩
  · exact List.rel_append hp (.cons ⟨ws, ws', hw, hw', rfl⟩ .nil)
  · rw [intercalate_snoc _ _ hpne]
    simp

theorem Part.shape {o : UInt8} {st : Stage} {xs : List (List UInt8)} {raw : List UInt8}
    (h : Part o st xs raw) :
    match st with
    | .opened => xs = [] ∧ ∃ ws, Blanks ws ∧ raw = o :: ws
    | .comma => ∃ items ws, Joined o xs items ∧ Blanks ws ∧ raw = items ++ 0x2C :: ws
    | .item => Joined o xs raw := by
  induction h with
  | opened hw => exact ⟨rfl, _, hw, rfl⟩
  | comma _ hw ih => exact ⟨_, _, ih, hw, rfl⟩
  | @item st xs raw x ws _ hs hw ih =>
    cases st with
    | opened =>
      obtain ⟨rfl, ws', hw', rfl⟩ := ih
      exact Joined.first hw' hw
    | comma =>
      obtain ⟨items, ws', hj, hw', rfl⟩ := ih
      exact hj.next hw' hw
    | item => exact absurd rfl hs

theorem Joined.part {o : UInt8} {xs : List (List UInt8)} {raw : List UInt8}
    (h : Joined o xs raw) : Part o .item xs raw := by
  induction xs using List.reverseRecOn generalizing raw with
  | nil => exact absurd rfl h.1
  | append_singleton xs x ih =>
    obtain ⟨-, padded, hp, rfl⟩ := h
    obtain ⟨ps, p, rfl, hps, ws, ws', hw, hw', rfl⟩ := forall₂_snoc_left hp
    by_cases hx : xs = []
    · subst hx
      obtain rfl := List.forall₂_nil_left_iff.mp hps
      simpa [List.intercalate] using Part.item (x := x) (.opened hw) (by simp) hw'
    · have hpne : ps ≠ [] := by
        rintro rfl
        exact hx (List.forall₂_nil_right_iff.mp hps)
      have := Part.item (x := x) (.comma (ih ⟨hx, ps, hps, rfl⟩) hw) (by simp) hw'
      rw [intercalate_snoc _ _ hpne]
      simpa using this

theorem Part.close {o c : UInt8} {st : Stage} {xs : List (List UInt8)} {raw : List UInt8}
    (h : Part o st xs raw) (hs : st ≠ .comma) : Enclosed o c xs (raw ++ [c]) := by
  have hshape := h.shape
  cases st with
  | opened =>
    obtain ⟨rfl, ws, hw, rfl⟩ := hshape
    exact .inl ⟨rfl, ws, hw, rfl⟩
  | comma => exact absurd rfl hs
  | item =>
    obtain ⟨hne, padded, hp, rfl⟩ := hshape
    exact .inr ⟨hne, padded, hp, rfl⟩

theorem Enclosed.part {o c : UInt8} {xs : List (List UInt8)} {raw : List UInt8}
    (h : Enclosed o c xs raw) :
    ∃ st body, st ≠ .comma ∧ Part o st xs body ∧ raw = body ++ [c] := by
  rcases h with ⟨rfl, ws, hw, rfl⟩ | ⟨hne, padded, hp, rfl⟩
  · exact ⟨.opened, o :: ws, by simp, .opened hw, rfl⟩
  · exact ⟨.item, _, by simp, Joined.part ⟨hne, padded, hp, rfl⟩, rfl⟩

/-- A machine reads a bracket item by item. `S` says where it stands behind these items. -/
theorem Part.reads {σ : Type} {step : σ → UInt8 → Option σ} {o : UInt8}
    {items : List (List UInt8)} {S : Stage → List (List UInt8) → σ → Prop} {s₀ : σ}
    (hopen : S .opened [] s₀)
    (hblank : ∀ st xs s b, S st xs s → isBlank b → ∃ t, step s b = some t ∧ S st xs t)
    (hcomma : ∀ xs s, S .item xs s → ∃ t, step s 0x2C = some t ∧ S .comma xs t)
    (hitem : ∀ st xs x s, S st xs s → st ≠ .item → xs ++ [x] <+: items →
      ∃ t, Reads step s x t ∧ S .item (xs ++ [x]) t)
    {st : Stage} {xs : List (List UInt8)} {raw : List UInt8} (h : Part o st xs raw)
    (hx : xs <+: items) : ∃ body s, raw = o :: body ∧ S st xs s ∧ Reads step s₀ body s := by
  have blanks : ∀ st xs ws s, Blanks ws → S st xs s → ∃ t, Reads step s ws t ∧ S st xs t := by
    intro st xs ws
    induction ws with
    | nil => exact fun s _ hs => ⟨s, .nil, hs⟩
    | cons b ws ih =>
      intro s hw hs
      obtain ⟨t, ht, hst⟩ := hblank st xs s b hs (hw b (by simp))
      obtain ⟨u, hu, hsu⟩ := ih t (fun c hc => hw c (by simp [hc])) hst
      exact ⟨u, .cons ht hu, hsu⟩
  -- every stage of the bracket ends in blanks, and `S` stays over them
  induction h with
  | opened hw =>
    obtain ⟨t, ht, hs⟩ := blanks _ _ _ _ hw hopen
    exact ⟨_, t, rfl, hs, ht⟩
  | comma _ hw ih =>
    obtain ⟨body, s, rfl, hs, hr⟩ := ih hx
    obtain ⟨t, ht, hst⟩ := hcomma _ s hs
    obtain ⟨u, hu, hsu⟩ := blanks _ _ _ _ hw hst
    exact ⟨_, u, rfl, hsu, hr.append (.cons ht hu)⟩
  | @item st xs raw x ws _ hne hw ih =>
    obtain ⟨body, s, rfl, hs, hr⟩ := ih ((List.prefix_append xs [x]).trans hx)
    obtain ⟨t, ht, hst⟩ := hitem st xs x s hs hne hx
    obtain ⟨u, hu, hsu⟩ := blanks _ _ _ _ hw hst
    exact ⟨body ++ x ++ ws, u, by simp, hsu, (hr.append ht).append hu⟩

end TypeDeps.Json
