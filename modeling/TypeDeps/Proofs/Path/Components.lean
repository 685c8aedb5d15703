import TypeDeps.Proofs.Disk.Places
import TypeDeps.Proofs.Path.Segments

/-!
# Components and the way to a path

The plainest spelling of a path's components has these components again, and so has every front
part of them. The front parts are the paths above a path: each of them leads to a place that is
passed on the way to the path.
-/
namespace TypeDeps.Path

theorem not_mem_of_mem_splitOn {α : Type} [BEq α] [LawfulBEq α] {a : α} {xs piece : List α}
    (h : piece ∈ xs.splitOn a) : a ∉ piece := by
  induction xs generalizing piece with
  | nil =>
    obtain rfl : piece = [] := by simpa using h
    exact List.not_mem_nil
  | cons x xs ih =>
    by_cases hx : a = x
    · subst hx
      rw [splitOn_cons_self] at h
      rcases List.mem_cons.mp h with rfl | h
      · exact List.not_mem_nil
      · exact ih h
    · have hnot : a ∉ [x] := by simpa using hx
      rw [← List.singleton_append, splitOn_append_of_not_mem hnot] at h
      cases hsplit : xs.splitOn a with
      | nil => simp [hsplit] at h
      | cons first pieces =>
        rw [hsplit] at h ih
        rcases List.mem_cons.mp h with rfl | h
        · have hfirst := ih List.mem_cons_self
          simp [hx, hfirst]
        · exact ih (List.mem_cons_of_mem _ h)

/-- A component that a segment below the first one stands for. -/
structure Component.IsInner (c : Component) : Prop where
  spelled : Component.ofSegment? c.bytes = some c
  noSlash : slash ∉ c.bytes

theorem ofSegment?_eq_some {s : List UInt8} {c : Component}
    (h : Component.ofSegment? s = some c) : c.bytes = s ∧ s ≠ [] ∧ s ≠ [dot] := by
  unfold Component.ofSegment? at h
  split_ifs at h with hnone hup
  all_goals
    obtain rfl := Option.some.inj h
    rw [not_or] at hnone
    refine ⟨?_, hnone⟩
  · rw [hup]
    rfl
  · rfl

theorem isInner_of_mem {p : Path} {c : Component}
    (h : c ∈ p.segments.filterMap Component.ofSegment?) : c.IsInner := by
  obtain ⟨s, hs, hc⟩ := List.mem_filterMap.mp h
  obtain ⟨hbytes, -, -⟩ := ofSegment?_eq_some hc
  exact ⟨by rw [hbytes, hc], by rw [hbytes]; exact not_mem_of_mem_splitOn hs⟩

theorem Component.IsInner.bytes_ne {c : Component} (h : c.IsInner) :
    c.bytes ≠ [] ∧ c.bytes ≠ [dot] :=
  (ofSegment?_eq_some h.spelled).2

/-- What can stand in front of the inner components. -/
def IsLead (lead : List Component) : Prop := lead = [] ∨ lead = [.root] ∨ lead = [.here]

/-- The components of some path. -/
inductive Canonical : List Component → Prop
  | intro {lead inner : List Component} (hlead : IsLead lead) (hinner : ∀ c ∈ inner, c.IsInner) :
    Canonical (lead ++ inner)

theorem canonical_components (p : Path) : Canonical p.components := by
  refine .intro ?_ fun c hc => isInner_of_mem hc
  unfold IsLead
  split_ifs <;> simp

theorem Canonical.initial {cs cs' : List Component} (h : Canonical cs) (hp : cs' <+: cs) :
    Canonical cs' := by
  obtain @⟨lead, inner, hlead, hinner⟩ := h
  have hparts : cs' = [] ∨ ∃ inner', inner' <+: inner ∧ cs' = lead ++ inner' := by
    rcases hlead with rfl | rfl | rfl
    · exact .inr ⟨cs', hp, rfl⟩
    all_goals
      rcases List.prefix_cons_iff.mp hp with rfl | ⟨inner', rfl, hinner'⟩
      · exact .inl rfl
      · exact .inr ⟨inner', hinner', rfl⟩
  rcases hparts with rfl | ⟨inner', hinner', rfl⟩
  · exact @Canonical.intro [] [] (.inl rfl) (by simp)
  · exact .intro hlead fun c hc => hinner c (hinner'.subset hc)

/-! ## The plainest spelling -/

theorem segments_intercalate {ps : List (List UInt8)} (h : ∀ s ∈ ps, slash ∉ s) (hne : ps ≠ []) :
    (⟨List.intercalate [slash] ps⟩ : Path).segments = ps :=
  List.splitOn_intercalate slash h hne

theorem isAbsolute_iff (p : Path) :
    p.isAbsolute ↔ ∃ rest, rest ≠ [] ∧ p.segments = [] :: rest := by
  obtain ⟨bytes⟩ := p
  cases bytes with
  | nil => simp [isAbsolute, segments]
  | cons b bytes =>
    have hpieces : bytes.splitOn slash ≠ [] := List.splitOn_ne_nil _ _
    by_cases hb : slash = b
    · subst hb
      simp [isAbsolute, segments, splitOn_cons_self, hpieces]
    · have hnot : slash ∉ [b] := by simpa using hb
      have hsplit : (b :: bytes).splitOn slash = (bytes.splitOn slash).modifyHead ([b] ++ ·) := by
        rw [← List.singleton_append, splitOn_append_of_not_mem hnot]
      cases hrest : bytes.splitOn slash with
      | nil => exact absurd hrest hpieces
      | cons first pieces => simp [isAbsolute, segments, hsplit, hrest, Ne.symm hb]

/-- The segments of the plainest spelling are the components as they are spelled. -/
theorem segments_ofComponents {cs : List Component} (h : Canonical cs) (hne : cs ≠ [])
    (hroot : cs ≠ [.root]) : (ofComponents cs).segments = cs.map Component.bytes := by
  have hspelled : ofComponents cs = ⟨List.intercalate [slash] (cs.map Component.bytes)⟩ := by
    unfold ofComponents
    split
    · exact absurd rfl hne
    · exact absurd rfl hroot
    · rfl
  rw [hspelled]
  refine segments_intercalate (fun s hs => ?_) (by simpa using hne)
  obtain ⟨c, hc, rfl⟩ := List.mem_map.mp hs
  obtain ⟨hlead, hinner⟩ := h
  rcases List.mem_append.mp hc with hc | hc
  · rcases hlead with rfl | rfl | rfl
    · cases hc
    all_goals
      obtain rfl := List.mem_singleton.mp hc
      decide
  · exact (hinner c hc).noSlash

theorem filterMap_bytes {inner : List Component} (h : ∀ c ∈ inner, c.IsInner) :
    (inner.map Component.bytes).filterMap Component.ofSegment? = inner := by
  rw [List.filterMap_map, List.filterMap_congr (g := some)]
  · exact List.filterMap_some
  · exact fun c hc => (h c hc).spelled

theorem isAbsolute_ofComponents {cs : List Component} (h : Canonical cs) :
    (ofComponents cs).isAbsolute ↔ cs.head? = some .root := by
  by_cases hroot : cs = [.root]
  · subst hroot
    decide
  · by_cases hne : cs = []
    · subst hne
      decide
    · rw [isAbsolute_iff, segments_ofComponents h hne hroot]
      obtain @⟨lead, inner, hlead, hinner⟩ := h
      rcases hlead with rfl | rfl | rfl
      · cases inner with
        | nil => exact absurd rfl hne
        | cons c inner =>
          have hbytes := (hinner c List.mem_cons_self).bytes_ne.1
          have hc : c ≠ .root := by
            rintro rfl
            exact hbytes rfl
          simp [hbytes, hc]
      · have hinner : inner ≠ [] := by simpa using hroot
        simpa [Component.bytes] using hinner
      · simp [Component.bytes]

theorem components_ofComponents {cs : List Component} (h : Canonical cs) :
    (ofComponents cs).components = cs := by
  by_cases hroot : cs = [.root]
  · subst hroot
    decide
  · by_cases hne : cs = []
    · subst hne
      decide
    · have habsolute : (ofComponents cs).isAbsolute = decide (cs.head? = some .root) := by
        rw [Bool.eq_iff_iff, decide_eq_true_iff]
        exact isAbsolute_ofComponents h
      unfold components
      rw [habsolute, segments_ofComponents h hne hroot]
      obtain @⟨lead, inner, hlead, hinner⟩ := h
      rw [List.map_append, List.filterMap_append, filterMap_bytes hinner]
      rcases hlead with rfl | rfl | rfl
      · cases inner with
        | nil => exact absurd rfl hne
        | cons c inner =>
          obtain ⟨hempty, hdot⟩ := (hinner c List.mem_cons_self).bytes_ne
          have hc : c ≠ .root := by
            rintro rfl
            exact hempty rfl
          simp [hc, hdot]
      · simp [Component.bytes, Component.ofSegment?]
      · simp [Component.bytes, Component.ofSegment?]

end TypeDeps.Path

namespace TypeDeps.Disk

open TypeDeps.Path

/-! ## Where components lead -/

/-- The place behind a component. Only the root has no name of its own. -/
def stepBy (place : Place) (c : Component) : Place :=
  if c.bytes = [] then place else stepTo place c.bytes

theorem foldl_stepTo_filter (cs : List Component) (place : Place) :
    ((cs.map Component.bytes).filter (· ≠ [])).foldl stepTo place = cs.foldl stepBy place := by
  induction cs generalizing place with
  | nil => rfl
  | cons c cs ih =>
    by_cases hc : c.bytes = []
    · simpa [hc, stepBy] using ih place
    · simpa [hc, stepBy] using ih (stepTo place c.bytes)

theorem placeOf_ofComponents {d : Disk} {cs : List Component} (h : Canonical cs) (hne : cs ≠ []) :
    d.placeOf (ofComponents cs) =
      cs.foldl stepBy (if cs.head? = some .root then [] else d.here) := by
  have horigin : d.origin (ofComponents cs) =
      if cs.head? = some .root then [] else d.here := by
    unfold Disk.origin
    simp only [isAbsolute_ofComponents h]
  have hnames : names (ofComponents cs) = (cs.map Component.bytes).filter (· ≠ []) := by
    by_cases hroot : cs = [.root]
    · subst hroot
      decide
    · rw [names, segments_ofComponents h hne hroot]
  rw [placeOf, horigin, hnames, foldl_stepTo_filter]

/-- What comes before one of the components that segments stand for is passed by their names. -/
theorem mem_passed_of_prefix (ss : List (List UInt8)) (place : Place) {cs : List Component}
    (hp : cs <+: ss.filterMap Component.ofSegment?)
    (hne : cs ≠ ss.filterMap Component.ofSegment?) :
    cs.foldl stepBy place ∈ passed place (ss.filter (· ≠ [])) := by
  induction ss generalizing place cs with
  | nil => exact absurd (List.prefix_nil.mp hp) hne
  | cons s ss ih =>
    cases hs : Component.ofSegment? s with
    | none =>
      rw [List.filterMap_cons_none hs] at hp hne
      have hmem := ih place hp hne
      by_cases hempty : s = []
      · simpa [hempty] using hmem
      · have hdot : s = [dot] := by
          unfold Component.ofSegment? at hs
          split_ifs at hs with hnone
          exact hnone.resolve_left hempty
        have hfilter : (s :: ss).filter (· ≠ []) = s :: ss.filter (· ≠ []) := by simp [hempty]
        rw [hfilter, passed, stepTo, if_pos hdot]
        exact List.mem_cons_of_mem _ hmem
    | some c =>
      rw [List.filterMap_cons_some hs] at hp hne
      obtain ⟨hbytes, hempty, -⟩ := ofSegment?_eq_some hs
      have hfilter : (s :: ss).filter (· ≠ []) = s :: ss.filter (· ≠ []) := by simp [hempty]
      rw [hfilter, passed]
      rcases List.prefix_cons_iff.mp hp with rfl | ⟨cs', rfl, hp'⟩
      · exact List.mem_cons_self
      · have hstep : stepBy place c = stepTo place s := by
          rw [stepBy, hbytes, if_neg hempty]
        rw [List.foldl_cons, hstep]
        exact List.mem_cons_of_mem _ (ih _ hp' fun he => hne (by rw [he]))

/-- The paths above a path lead to places that are passed on the way to it. -/
theorem placeOf_mem_way (d : Disk) {p : Path} {cs : List Component} (hp : cs <+: p.components)
    (hne : cs ≠ p.components) (hnil : cs ≠ []) : d.placeOf (ofComponents cs) ∈ d.way p := by
  have hcanonical := (canonical_components p).initial hp
  rw [placeOf_ofComponents hcanonical hnil, way, Disk.origin, names]
  unfold components at hp hne
  by_cases habsolute : p.isAbsolute
  · simp only [habsolute, if_true, List.singleton_append] at hp hne ⊢
    obtain ⟨inner, rfl, hinner⟩ := (List.prefix_cons_iff.mp hp).resolve_left hnil
    have hroot : stepBy [] .root = [] := rfl
    rw [List.foldl_cons, List.head?_cons, if_pos rfl, hroot]
    exact mem_passed_of_prefix _ _ hinner fun he => hne (by rw [he])
  · simp only [habsolute, Bool.false_eq_true, if_false] at hp hne ⊢
    by_cases hhere : p.segments.head? = some [dot]
    · simp only [hhere, if_true, List.singleton_append] at hp hne
      obtain ⟨inner, rfl, hinner⟩ := (List.prefix_cons_iff.mp hp).resolve_left hnil
      have hstay : stepBy d.here .here = d.here := rfl
      rw [List.foldl_cons, List.head?_cons, if_neg (by simp), hstay]
      exact mem_passed_of_prefix _ _ hinner fun he => hne (by rw [he])
    · simp only [hhere, if_false, List.nil_append] at hp hne
      have hhead : cs.head? ≠ some .root := by
        intro hroot
        have hmem := hp.subset (List.mem_of_head? hroot)
        exact (isInner_of_mem hmem).bytes_ne.1 rfl
      rw [if_neg hhead]
      exact mem_passed_of_prefix _ _ hp hne

theorem parent?_eq_some {p q : Path} (h : p.parent? = some q) :
    q = ofComponents p.components.dropLast ∧ p.components ≠ [] := by
  unfold parent? at h
  split at h
  · cases h
  · cases h
  · next hlast =>
    refine ⟨(Option.some.inj h).symm, ?_⟩
    rintro hnil
    simp [hnil] at hlast

theorem exists_of_mem_upward {count : Nat} {cs : List Component} (h : Canonical cs) {q : Path}
    (hq : q ∈ upward count (ofComponents cs)) :
    ∃ cs', cs' <+: cs ∧ cs' ≠ [] ∧ q = ofComponents cs' := by
  induction count generalizing cs with
  | zero => cases hq
  | succ count ih =>
    unfold upward at hq
    split at hq
    · cases hq
    · next above habove =>
      obtain ⟨rfl, hne⟩ := parent?_eq_some habove
      rw [components_ofComponents h] at hq hne
      rcases List.mem_cons.mp hq with rfl | hq
      · exact ⟨cs, List.prefix_refl _, hne, rfl⟩
      · have hdrop : cs.dropLast <+: cs := List.dropLast_prefix cs
        obtain ⟨cs', hcs', hnil, rfl⟩ := ih (h.initial hdrop) hq
        exact ⟨cs', hcs'.trans hdrop, hnil, rfl⟩

/-- So do the directories that are made for a file. -/
theorem mem_way_of_mem_upward (d : Disk) {p parent q : Path} {count : Nat}
    (hparent : p.parent? = some parent) (hq : q ∈ upward count parent) :
    d.placeOf q ∈ d.way p := by
  obtain ⟨rfl, hne⟩ := parent?_eq_some hparent
  have hdrop : p.components.dropLast <+: p.components := List.dropLast_prefix _
  obtain ⟨cs, hcs, hnil, rfl⟩ := exists_of_mem_upward ((canonical_components p).initial hdrop) hq
  refine d.placeOf_mem_way (hcs.trans hdrop) ?_ hnil
  rintro rfl
  have hlength := hcs.length_le
  have hpos := List.length_pos_iff.mpr hne
  rw [List.length_dropLast] at hlength
  omega

end TypeDeps.Disk
