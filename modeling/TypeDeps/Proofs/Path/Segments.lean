import TypeDeps.Disk.Resolve
import TypeDeps.Proofs.Json.Brackets
import TypeDeps.Proofs.Text.Lossy

/-!
# The pieces of paths

A path is cut at its slashes, and what is put in front of it or behind it reaches no further
than the next slash. Joining two paths puts their names one behind the other, and a path climbs
to a parent where its display does.
-/
namespace TypeDeps.Path

section Splitting

variable {α : Type} [BEq α] [LawfulBEq α] {a : α} {xs : List α}

theorem splitOn_append_of_not_mem (h : a ∉ xs) (ys : List α) :
    (xs ++ ys).splitOn a = (ys.splitOn a).modifyHead (xs ++ ·) := by
  induction xs with
  | nil =>
    rw [List.nil_append]
    cases ys.splitOn a <;> rfl
  | cons x xs ih =>
    have hx : (x == a) = false := by
      rw [beq_eq_false_iff_ne]
      rintro rfl
      simp at h
    have hxs : (xs ++ ys).splitOnP (· == a) = (ys.splitOnP (· == a)).modifyHead (xs ++ ·) :=
      ih fun hmem => h (List.mem_cons_of_mem x hmem)
    simp only [List.splitOn, List.cons_append, List.splitOnP_cons_eq_if_modifyHead, hx,
      Bool.false_eq_true, if_false, hxs]
    cases ys.splitOnP (· == a) <;> rfl

theorem splitOn_cons_self (a : α) (xs : List α) : (a :: xs).splitOn a = [] :: xs.splitOn a := by
  simpa using List.splitOn_append_cons_self (a := a) [] xs

/-- What is put in front changes only the first piece. -/
theorem tail_splitOn_suffix (a : α) (xs ys : List α) :
    (ys.splitOn a).tail <:+ ((xs ++ ys).splitOn a).tail := by
  induction xs with
  | nil => exact List.suffix_refl _
  | cons x xs ih =>
    by_cases hx : a = x
    · subst hx
      rw [List.cons_append, splitOn_cons_self]
      exact ih.trans (List.tail_suffix _)
    · have hnot : a ∉ [x] := by simpa using hx
      have hcons := splitOn_append_of_not_mem hnot (xs ++ ys)
      rw [List.singleton_append] at hcons
      rw [List.cons_append, hcons, List.tail_modifyHead]
      exact ih

theorem forall₂_modifyHead {β γ : Type} {R : β → γ → Prop} {f : β → β} {g : γ → γ} {xs : List β}
    {ys : List γ} (h : List.Forall₂ R xs ys) (hfg : ∀ x y, R x y → R (f x) (g y)) :
    List.Forall₂ R (xs.modifyHead f) (ys.modifyHead g) := by
  cases h with
  | nil => exact .nil
  | cons hxy hs => exact .cons (hfg _ _ hxy) hs

end Splitting

/-! ## Displays -/

open Utf8 (Shows High)

theorem slash_not_mem {run : List UInt8} (h : High run) : slash ∉ run :=
  fun hmem => absurd (h.2 slash hmem) (by decide)

/-- The pieces of a display show the pieces of the path. -/
theorem shows_splitOn {bs shown : List UInt8} (h : Shows bs shown) :
    List.Forall₂ Shows (bs.splitOn slash) (shown.splitOn slash) := by
  induction h with
  | nil => exact .cons .nil .nil
  | @ascii b bs shown low _ ih =>
    by_cases hb : slash = b
    · subst hb
      rw [splitOn_cons_self, splitOn_cons_self]
      exact .cons .nil ih
    · have hnot : slash ∉ [b] := by simpa using hb
      rw [← List.singleton_append (l := bs), ← List.singleton_append (l := shown),
        splitOn_append_of_not_mem hnot, splitOn_append_of_not_mem hnot]
      exact forall₂_modifyHead ih fun _ _ hxy => .ascii low hxy
  | high hidden visible _ ih =>
    rw [splitOn_append_of_not_mem (slash_not_mem hidden),
      splitOn_append_of_not_mem (slash_not_mem visible)]
    exact forall₂_modifyHead ih fun _ _ hxy => .high hidden visible hxy

/-- The name that climbs to the parent. -/
def parentName : List UInt8 := [dot, dot]

theorem eq_parentName_of_shows {bs : List UInt8} (h : Shows bs parentName) : bs = parentName := by
  obtain ⟨second, rfl, hsecond⟩ := h.ascii_inv (by decide)
  obtain ⟨rest, rfl, hrest⟩ := hsecond.ascii_inv (by decide)
  rw [hrest.eq_nil]
  rfl

theorem up_mem_components_iff {p : Path} :
    Component.up ∈ p.components ↔ parentName ∈ p.segments := by
  have hsegment : ∀ s, Component.ofSegment? s = some .up ↔ s = parentName := by
    intro s
    unfold Component.ofSegment? parentName
    split_ifs with h1 h2
    · rcases h1 with rfl | rfl <;> simp
    · simp [h2]
    · simp [h2]
  have hlead : Component.up ∉ (if p.isAbsolute then [Component.root]
      else if p.segments.head? = some [dot] then [Component.here] else []) := by
    split_ifs <;> simp
  simp only [components, List.mem_append, hlead, false_or, List.mem_filterMap, hsegment]
  exact ⟨fun ⟨_, hs, he⟩ => he ▸ hs, fun h => ⟨_, h, rfl⟩⟩

/-- A display climbs only where its path does. -/
theorem up_mem_of_display {p : Path} (h : Component.up ∈ (ofString p.display).components) :
    Component.up ∈ p.components := by
  rw [up_mem_components_iff] at h ⊢
  have hshows : Shows p.bytes (ofString p.display).bytes := by
    simpa [ofString, display, bytesOf] using Utf8.shows_lossy p.bytes
  obtain ⟨segment, hmem, hsegment⟩ := Json.exists_left_of_forall₂ (shows_splitOn hshows) h
  rwa [eq_parentName_of_shows hsegment] at hmem

end TypeDeps.Path

namespace TypeDeps.Disk

open TypeDeps.Path

theorem isAbsolute_join {p q : Path} (hq : q.isAbsolute = false) :
    (p.join q).isAbsolute = p.isAbsolute := by
  obtain ⟨bytes⟩ := p
  unfold join
  rw [hq]
  cases bytes with
  | nil => simpa [isAbsolute] using hq
  | cons b bs =>
    simp only [Bool.false_eq_true, if_false]
    split_ifs <;> rfl

/-- Joining puts the names of the second path behind those of the first one. -/
theorem names_join {p q : Path} (hq : q.isAbsolute = false) :
    names (p.join q) = names p ++ names q := by
  obtain ⟨bytes⟩ := p
  unfold join
  rw [hq]
  simp only [Bool.false_eq_true, if_false]
  split_ifs with h
  · rcases h with rfl | hlast
    · simp [names, segments]
    · have hbytes : bytes = bytes.dropLast ++ [slash] :=
        (List.dropLast_append_getLast? slash hlast).symm
      have hfront : (⟨bytes⟩ : Path).segments = bytes.dropLast.splitOn slash ++ [[]] := by
        rw [segments, hbytes, List.splitOn_append_cons_self, List.splitOn_nil]
        simp
      have hall : (⟨bytes ++ q.bytes⟩ : Path).segments =
          bytes.dropLast.splitOn slash ++ q.segments := by
        rw [segments, hbytes, List.append_assoc, List.singleton_append,
          List.splitOn_append_cons_self, segments]
        simp
      simp [names, hfront, hall]
  · simp [names, segments, List.splitOn_append_cons_self]

end TypeDeps.Disk
