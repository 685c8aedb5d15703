import TypeDeps.Proofs.Disk.Frames
import TypeDeps.Proofs.Path.Segments

/-!
# Walks to places

Whoever has come to a place has come by the directories above it, as long as the working
directory hangs in the tree of directories. A walk that does not climb passes nothing but
places above its end.
-/
namespace TypeDeps.Disk

open TypeDeps.Path

/-- The working directory is there, and so are all directories above it. -/
def Grounded (d : Disk) : Prop := ∀ q, q <+: d.here → d.at? q = some .directory

variable {d d' : Disk} {p q : Path} {place place' : Place} {n : Name} {ns : List Name}
variable {touched : List Place}

theorem mem_placesTo (h : place' <+: place) (hne : place' ≠ []) : place' ∈ placesTo place := by
  have hlength := List.length_pos_iff.mpr hne
  have hle := h.length_le
  refine List.mem_map.mpr ⟨place'.length - 1, List.mem_range.mpr (by omega), ?_⟩
  rw [Nat.sub_add_cancel hlength]
  exact (List.prefix_iff_eq_take.mp h).symm

theorem grounded_empty (place : Place) : (Disk.empty place).Grounded := by
  intro place' h
  by_cases hne : place' = []
  · rw [hne]
    exact at?_root _
  · have hmem : (place', Node.directory) ∈ (Disk.empty place).nodes :=
      List.mem_map.mpr ⟨place', mem_placesTo h hne, rfl⟩
    have hfound : ((Disk.empty place).nodes.find? (·.1 = place')).isSome :=
      List.find?_isSome.mpr ⟨_, hmem, by simp⟩
    obtain ⟨entry, hentry⟩ := Option.isSome_iff_exists.mp hfound
    obtain ⟨_, -, rfl⟩ := List.mem_map.mp (List.mem_of_find?_eq_some hentry)
    rw [at?, if_neg hne, hentry]
    rfl

theorem Grounded.frame (h : d.Grounded) (hf : Frame touched d d') : d'.Grounded := by
  intro r hr
  rw [hf.here] at hr
  exact hf.directories r (h r hr)

theorem Grounded.origin (h : d.Grounded) (p : Path) :
    ∀ r, r <+: d.origin p → d.at? r = some .directory := by
  intro r hr
  unfold Disk.origin at hr
  split_ifs at hr
  · rw [List.prefix_nil.mp hr]
    exact at?_root d
  · exact h r hr

theorem isThere_iff : d.isThere p ↔
    d.Reaches p ∧ ∃ node, d.at? (d.placeOf p) = some node ∧
      (node = .directory ∨ endsInSlash p = false) := by
  have hok : d.isThere p ↔ ∃ x, d.find? p = .ok x := by
    unfold isThere
    cases d.find? p <;> simp [Except.isOk, Except.toBool]
  rw [hok]
  constructor
  · rintro ⟨⟨place, node⟩, h⟩
    obtain ⟨hr, rfl, ha, hs⟩ := find?_eq_ok_iff.mp h
    exact ⟨hr, node, ha, hs⟩
  · rintro ⟨hr, node, ha, hs⟩
    exact ⟨_, find?_eq_ok_iff.mpr ⟨hr, rfl, ha, hs⟩⟩

/-- What is there and is a file can be read. -/
theorem contentAt_of_isThere {c : List UInt8} (h : d.isThere p)
    (ha : d.at? (d.placeOf p) = some (.file c)) : d.contentAt p = .ok c := by
  obtain ⟨hr, node, hnode, hslash⟩ := isThere_iff.mp h
  obtain rfl := Option.some.inj (ha.symm.trans hnode)
  exact contentAt_eq_ok_iff.mpr ⟨hr, by simpa using hslash, ha⟩

theorem isDirectoryAt_iff :
    d.isDirectoryAt p ↔ d.Reaches p ∧ d.at? (d.placeOf p) = some .directory := by
  have hfind : d.isDirectoryAt p ↔ d.find? p = .ok (d.placeOf p, .directory) := by
    unfold isDirectoryAt
    split
    · next place h =>
      obtain ⟨-, rfl, -⟩ := find?_eq_ok_iff.mp h
      simp [h]
    · next hnot => simpa using hnot (d.placeOf p)
  simp [hfind, find?_eq_ok_iff]

/-! ## Places that are passed -/

theorem passed_snoc (place : Place) (ns : List Name) (n : Name) :
    passed place (ns ++ [n]) = passed place ns ++ [ns.foldl stepTo place] := by
  rw [passed_append]
  rfl

theorem stepTo_of_not_special (h : Spot.isSpecial n = false) (place : Place) :
    stepTo place n = place ++ [n] := by
  have hnot : ¬(n = [dot] ∨ n = [dot, dot]) := by
    rw [← special_iff]
    simp [h]
  simp only [not_or] at hnot
  simp [stepTo, hnot]

/-- A name that is longer than two dots leads down. -/
theorem stepTo_of_long (h : 2 < n.length) (place : Place) : stepTo place n = place ++ [n] := by
  refine stepTo_of_not_special ?_ place
  rw [← Bool.not_eq_true, special_iff]
  rintro (rfl | rfl) <;> simp at h

theorem prefix_stepTo (h : n ≠ parentName) (place : Place) : place <+: stepTo place n := by
  unfold stepTo
  split_ifs with h1 h2
  · exact List.prefix_refl place
  · exact absurd h2 h
  · exact List.prefix_append place [n]

theorem prefix_foldl_stepTo (h : parentName ∉ ns) (place : Place) :
    place <+: ns.foldl stepTo place := by
  induction ns generalizing place with
  | nil => exact List.prefix_refl place
  | cons n ns ih =>
    rw [List.mem_cons, not_or] at h
    exact (prefix_stepTo (Ne.symm h.1) place).trans (ih h.2 _)

/-- A walk that does not climb passes only what lies above its end. -/
theorem prefix_of_passed (h : parentName ∉ ns) (hq : place' ∈ passed place ns) :
    place' <+: ns.foldl stepTo place := by
  induction ns generalizing place with
  | nil => cases hq
  | cons n ns ih =>
    rcases List.mem_cons.mp hq with rfl | hq
    · exact prefix_foldl_stepTo h place'
    · exact ih (List.not_mem_of_not_mem_cons h) hq

/-- The places above those that are passed are directories if those above the start are. -/
theorem directory_above_passed (hplace : ∀ r, r <+: place → d.at? r = some .directory)
    (hway : ∀ r ∈ passed place ns, d.at? r = some .directory) (hq : place' ∈ passed place ns) :
    ∀ r, r <+: place' → d.at? r = some .directory := by
  induction ns generalizing place with
  | nil => cases hq
  | cons n ns ih =>
    rcases List.mem_cons.mp hq with rfl | hq
    · exact hplace
    · refine ih ?_ (fun r hr => hway r (List.mem_cons_of_mem _ hr)) hq
      -- there are names left, so the next place is passed, too
      have hnext : d.at? (stepTo place n) = some .directory := by
        cases ns with
        | nil => cases hq
        | cons m ms => exact hway _ (by simp [passed])
      intro r hr
      unfold stepTo at hr hnext
      split_ifs at hr hnext
      · exact hplace r hr
      · exact hplace r (hr.trans (List.dropLast_prefix place))
      · rcases List.prefix_concat_iff.mp hr with rfl | hr
        · exact hnext
        · exact hplace r hr

theorem Reaches.above (h : d.Reaches p) (hground : d.Grounded) (hq : place ∈ d.way p) :
    ∀ r, r <+: place → d.at? r = some .directory :=
  directory_above_passed (hground.origin p) h.directories hq

/-! ## Joined paths -/

theorem origin_join (d : Disk) (hq : q.isAbsolute = false) :
    d.origin (p.join q) = d.origin p := by
  simp [origin, isAbsolute_join hq]

theorem placeOf_join (d : Disk) (hq : q.isAbsolute = false) :
    d.placeOf (p.join q) = (names q).foldl stepTo (d.placeOf p) := by
  rw [placeOf, origin_join d hq, names_join hq, List.foldl_append, placeOf]

theorem way_join (d : Disk) (hq : q.isAbsolute = false) :
    d.way (p.join q) = d.way p ++ passed (d.placeOf p) (names q) := by
  rw [way, origin_join d hq, names_join hq, passed_append, way, placeOf]

end TypeDeps.Disk
