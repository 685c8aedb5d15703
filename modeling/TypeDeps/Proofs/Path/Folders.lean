import TypeDeps.Proofs.Path.Components
import TypeDeps.Proofs.Path.Endings

/-!
# Folders and stems

A path is its folder, which reaches up to the last slash, with its stem behind it. What is put
behind a path changes nothing but the stem. So two paths with the same ending are spellings of
one path exactly if their folders are and their stems agree, and on a disk they lead to one place
exactly if their folders do and their stems agree.
-/
namespace TypeDeps.Path

/-- All up to the last slash. -/
def folder (p : Path) : Path := ⟨p.bytes.rdropWhile (· ≠ slash)⟩

/-- All behind the last slash. -/
def stem (p : Path) : List UInt8 := p.bytes.rtakeWhile (· ≠ slash)

/-- Nothing, or something that ends in a slash. -/
def IsFolder (f : Path) : Prop := f.bytes = [] ∨ ∃ front, f.bytes = front ++ [slash]

variable {p q f : Path} {x : List UInt8} {e e' : String}

@[simp] theorem folder_append_stem (p : Path) : p.folder.bytes ++ p.stem = p.bytes :=
  List.rdropWhile_append_rtakeWhile

theorem slash_not_mem_stem (p : Path) : slash ∉ p.stem := by
  intro h
  simpa using List.mem_rtakeWhile_imp h

theorem isFolder_folder (p : Path) : IsFolder p.folder := by
  by_cases h : p.folder.bytes = []
  · exact .inl h
  · have hlast : ¬decide (p.folder.bytes.getLast h ≠ slash) = true :=
      List.rdropWhile_last_not _ _ h
    refine .inr ⟨p.folder.bytes.dropLast, ?_⟩
    have hslash : p.folder.bytes.getLast h = slash := by simpa using hlast
    rw [← hslash, List.dropLast_append_getLast h]

/-- There is one way only to split a path like this. -/
theorem folder_stem_of_append (hf : IsFolder f) (hx : slash ∉ x) :
    (⟨f.bytes ++ x⟩ : Path).folder = f ∧ (⟨f.bytes ++ x⟩ : Path).stem = x := by
  have hall : ∀ b ∈ x.reverse, decide (b ≠ slash) = true := by
    intro b hb
    rw [List.mem_reverse] at hb
    simp only [decide_eq_true_eq]
    rintro rfl
    exact hx hb
  have hdrop : f.bytes.reverse.dropWhile (· ≠ slash) = f.bytes.reverse := by
    rcases hf with h | ⟨front, h⟩ <;> simp [h]
  have htake : f.bytes.reverse.takeWhile (· ≠ slash) = [] := by
    rcases hf with h | ⟨front, h⟩ <;> simp [h]
  constructor
  · rw [folder, List.rdropWhile, List.reverse_append, List.dropWhile_append_of_pos hall, hdrop,
      List.reverse_reverse]
  · rw [stem, List.rtakeWhile, List.reverse_append, List.takeWhile_append_of_pos hall, htake,
      List.append_nil, List.reverse_reverse]

theorem slash_not_mem_stem_append (he : IsEnding e) (p : Path) :
    slash ∉ p.stem ++ bytesOf e :=
  List.not_mem_append p.slash_not_mem_stem he.noSlash

theorem append_eq (p : Path) (e : String) :
    p.append e = ⟨p.folder.bytes ++ (p.stem ++ bytesOf e)⟩ := by
  rw [append, ← List.append_assoc, folder_append_stem]

theorem isAbsolute_folder (p : Path) : p.folder.isAbsolute = p.isAbsolute := by
  have hbytes := p.folder_append_stem
  have hstem : p.stem.head? ≠ some slash :=
    fun h => p.slash_not_mem_stem (List.mem_of_head? h)
  rw [isAbsolute, isAbsolute, ← hbytes]
  cases hfolder : p.folder.bytes with
  | nil => simp [hstem]
  | cons b bs => rfl

/-- A path is put behind what it is joined to, and that becomes a folder. -/
theorem exists_join (p : Path) : ∃ f : Path, IsFolder f ∧ f.components = p.components ∧
    (f.bytes = [] ↔ p.bytes = []) ∧
    ∀ q : Path, q.isAbsolute = false → p.join q = ⟨f.bytes ++ q.bytes⟩ := by
  by_cases h : p.bytes = [] ∨ p.bytes.getLast? = some slash
  · refine ⟨p, h.imp_right fun hlast => ⟨p.bytes.dropLast, ?_⟩, rfl, Iff.rfl, fun q hq => ?_⟩
    · exact (List.dropLast_append_getLast? slash hlast).symm
    · rw [join, hq, if_neg (by simp), if_pos h]
  · rw [not_or] at h
    have habsolute : (⟨p.bytes ++ [slash]⟩ : Path).isAbsolute = p.isAbsolute := by
      rw [isAbsolute, isAbsolute, List.head?_append_of_ne_nil _ h.1]
    have hsegments : (⟨p.bytes ++ [slash]⟩ : Path).segments = p.segments ++ [[]] := by
      rw [segments, List.splitOn_append_cons_self, List.splitOn_nil, segments]
    refine ⟨⟨p.bytes ++ [slash]⟩, .inr ⟨_, rfl⟩, ?_, by simp [h.1], fun q hq => ?_⟩
    · have hne : p.segments ≠ [] := List.splitOn_ne_nil _ _
      simp [components, habsolute, hsegments, List.head?_append_of_ne_nil _ hne,
        Component.ofSegment?]
    · rw [join, hq, if_neg (by simp), if_neg (by simpa using h)]
      simp

/-- What a path is joined to stays in front of its folder. -/
theorem folder_stem_join (p q : Path) :
    (p.join q).folder = p.join q.folder ∧ (p.join q).stem = q.stem := by
  cases hq : q.isAbsolute with
  | true =>
    have hfolder := hq
    rw [← isAbsolute_folder] at hfolder
    rw [join, if_pos hq, join, if_pos hfolder]
    exact ⟨rfl, rfl⟩
  | false =>
    obtain ⟨f, hf, -, -, hjoin⟩ := p.exists_join
    have hfolder := hq
    rw [← isAbsolute_folder] at hfolder
    have hbytes : f.bytes ++ q.bytes = (⟨f.bytes ++ q.folder.bytes⟩ : Path).bytes ++ q.stem := by
      rw [List.append_assoc, folder_append_stem]
    have hisFolder : IsFolder ⟨f.bytes ++ q.folder.bytes⟩ := by
      rcases q.isFolder_folder with h | ⟨front, h⟩
      · simpa [IsFolder, h] using hf
      · exact .inr ⟨f.bytes ++ front, by rw [h, List.append_assoc]⟩
    rw [hjoin q hq, hjoin q.folder hfolder, hbytes]
    exact folder_stem_of_append hisFolder q.slash_not_mem_stem

/-! ## Components -/

/-- What the first segment alone says. -/
def lead (p : Path) : List Component :=
  if p.isAbsolute then [Component.root]
  else if p.segments.head? = some [dot] then [Component.here]
  else []

/-- The components that segments stand for. -/
def inner (p : Path) : List Component := p.segments.filterMap Component.ofSegment?

theorem components_eq (p : Path) : p.components = p.lead ++ p.inner := rfl

theorem segments_append (hf : IsFolder f) (bytes : List UInt8) : ∃ front,
    (f.bytes ≠ [] → front ≠ []) ∧ f.segments = front ++ [[]] ∧
      (⟨f.bytes ++ bytes⟩ : Path).segments = front ++ (⟨bytes⟩ : Path).segments := by
  rcases hf with h | ⟨front, h⟩
  · exact ⟨[], by simp [h], by simp [segments, h], by simp [segments, h]⟩
  · refine ⟨front.splitOn slash, fun _ => List.splitOn_ne_nil _ _, ?_, ?_⟩
    · rw [segments, h, List.splitOn_append_cons_self, List.splitOn_nil]
    · rw [segments, h, List.append_assoc, List.singleton_append, List.splitOn_append_cons_self,
        segments]

theorem inner_append (hf : IsFolder f) (bytes : List UInt8) :
    (⟨f.bytes ++ bytes⟩ : Path).inner = f.inner ++ (⟨bytes⟩ : Path).inner := by
  obtain ⟨front, -, hfolder, happend⟩ := segments_append hf bytes
  simp [inner, hfolder, happend, Component.ofSegment?]

theorem lead_append (hf : IsFolder f) (hne : f.bytes ≠ []) (bytes : List UInt8) :
    (⟨f.bytes ++ bytes⟩ : Path).lead = f.lead := by
  obtain ⟨front, hfront, hfolder, happend⟩ := segments_append hf bytes
  have habsolute : (⟨f.bytes ++ bytes⟩ : Path).isAbsolute = f.isAbsolute := by
    rw [isAbsolute, isAbsolute, List.head?_append_of_ne_nil _ hne]
  rw [lead, lead, habsolute, hfolder, happend, List.head?_append_of_ne_nil _ (hfront hne),
    List.head?_append_of_ne_nil _ (hfront hne)]

theorem components_of_empty (h : p.bytes = []) : p.components = [] := by
  obtain ⟨bytes⟩ := p
  obtain rfl : bytes = [] := h
  rfl

theorem components_append_of_isFolder (hf : IsFolder f) (bytes : List UInt8)
    (hlead : f.bytes = [] → (⟨bytes⟩ : Path).lead = []) :
    (⟨f.bytes ++ bytes⟩ : Path).components = f.components ++ (⟨bytes⟩ : Path).inner := by
  by_cases hne : f.bytes = []
  · rw [components_of_empty hne, hne, List.nil_append, List.nil_append, components_eq, hlead hne,
      List.nil_append]
  · rw [components_eq, components_eq, inner_append hf, lead_append hf hne, List.append_assoc]

/-- Behind its folder, a path goes on as its stem says. -/
theorem components_eq_folder_append (h : p.lead = []) :
    p.components = p.folder.components ++ (⟨p.stem⟩ : Path).inner := by
  have hsplit : p = ⟨p.folder.bytes ++ p.stem⟩ := by rw [folder_append_stem]
  have hstem : p.folder.bytes = [] → (⟨p.stem⟩ : Path).lead = [] := by
    intro hempty
    rwa [hsplit, hempty, List.nil_append] at h
  conv_lhs => rw [hsplit]
  exact components_append_of_isFolder p.isFolder_folder p.stem hstem

theorem lead_of_slash_not_mem (hx : slash ∉ x) (hdot : x ≠ [dot]) : (⟨x⟩ : Path).lead = [] := by
  have hhead : x.head? ≠ some slash := fun h => hx (List.mem_of_head? h)
  simp [lead, isAbsolute, hhead, segments, List.splitOn_eq_singleton hx, hdot]

theorem inner_of_slash_not_mem (hx : slash ∉ x) :
    (⟨x⟩ : Path).inner = (Component.ofSegment? x).toList := by
  rw [inner, segments, List.splitOn_eq_singleton hx]
  cases h : Component.ofSegment? x <;> simp [h]

theorem ofSegment?_of_long (h : 2 < x.length) : Component.ofSegment? x = some (.name x) := by
  unfold Component.ofSegment?
  rw [if_neg, if_neg]
  · rintro rfl
    simp at h
  · rintro (rfl | rfl) <;> simp at h

/-- A path with an ending has the components of its folder, and one name behind them. -/
theorem components_append (he : IsEnding e) (p : Path) :
    (p.append e).components = p.folder.components ++ [.name (p.stem ++ bytesOf e)] := by
  have hlong := he.long_append p.stem
  have hdot : p.stem ++ bytesOf e ≠ [dot] := by
    intro h
    simp [h] at hlong
  have hslash := slash_not_mem_stem_append he p
  rw [append_eq, components_append_of_isFolder p.isFolder_folder _
    fun _ => lead_of_slash_not_mem hslash hdot, inner_of_slash_not_mem hslash,
    ofSegment?_of_long hlong]
  rfl

theorem append_same_append_iff (he : IsEnding e) (he' : IsEnding e') :
    (p.append e).Same (q.append e') ↔
      p.folder.Same q.folder ∧ p.stem ++ bytesOf e = q.stem ++ bytesOf e' := by
  rw [Same, components_append he, components_append he', Same, List.append_singleton_inj]
  simp

/-- Paths with endings that differ in their last byte are spellings of different paths. -/
theorem append_not_same (he : IsEnding e) (he' : IsEnding e')
    (hlast : (bytesOf e).getLast? ≠ (bytesOf e').getLast?) : ¬(p.append e).Same (q.append e') := by
  rw [append_same_append_iff he he']
  exact fun h => he.append_ne_append he' hlast h.2

/-- Paths that are the same with one ending are the same with every ending. -/
theorem append_same_iff (he : IsEnding e) (he' : IsEnding e') :
    (p.append e).Same (q.append e) ↔ (p.append e').Same (q.append e') := by
  rw [append_same_append_iff he he, append_same_append_iff he' he', List.append_cancel_right_eq,
    List.append_cancel_right_eq]

/-- Joining puts the components of the second path behind those of the first one. A leading dot
of the second path is one only as long as nothing is in front of it. -/
theorem components_join (hq : q.isAbsolute = false) : ∃ rest,
    (p.join q).components = p.components ++ rest ∧
      (q.components = rest ∨ q.components = .here :: rest) := by
  obtain ⟨f, hf, hcomponents, hempty, hjoin⟩ := p.exists_join
  have hlead : q.lead = [] ∨ q.lead = [.here] := by
    unfold lead
    simp only [hq, Bool.false_eq_true, if_false]
    split_ifs <;> simp
  rw [hjoin q hq, ← hcomponents]
  by_cases hne : f.bytes = []
  · have hnone : f.components = [] := by
      rw [hcomponents, components_of_empty (hempty.mp hne)]
    exact ⟨q.components, by rw [hnone, hne]; rfl, .inl rfl⟩
  · refine ⟨q.inner, components_append_of_isFolder hf _ fun h => absurd h hne, ?_⟩
    rw [components_eq]
    rcases hlead with h | h <;> simp [h]

end TypeDeps.Path

namespace TypeDeps.Disk

open TypeDeps.Path

variable {d : Disk} {p q : Path} {e e' : String}

/-! ## Places -/

theorem foldl_stepTo_segments (ss : List (List UInt8)) (place : Place) :
    (ss.filter (· ≠ [])).foldl stepTo place =
      (ss.filterMap Component.ofSegment?).foldl stepBy place := by
  induction ss generalizing place with
  | nil => rfl
  | cons s ss ih =>
    by_cases hempty : s = []
    · subst hempty
      simpa [Component.ofSegment?] using ih place
    have hfilter : (s :: ss).filter (· ≠ []) = s :: ss.filter (· ≠ []) := by simp [hempty]
    rw [hfilter, List.foldl_cons, ih]
    cases hs : Component.ofSegment? s with
    | none =>
      have hdot : s = [dot] := by
        unfold Component.ofSegment? at hs
        split_ifs at hs with hnone
        exact hnone.resolve_left hempty
      rw [List.filterMap_cons_none hs, stepTo, if_pos hdot]
    | some c =>
      obtain ⟨hbytes, -, -⟩ := ofSegment?_eq_some hs
      rw [List.filterMap_cons_some hs, List.foldl_cons, stepBy, hbytes, if_neg hempty]

theorem foldl_stepTo_names (p : Path) (place : Place) :
    (names p).foldl stepTo place = p.components.foldl stepBy place := by
  have hlead : p.lead.foldl stepBy place = place := by
    unfold lead
    split_ifs <;> rfl
  rw [names, foldl_stepTo_segments, components_eq, List.foldl_append, hlead, Path.inner]

/-- A place depends on the components alone. -/
theorem placeOf_eq_foldl (d : Disk) (p : Path) :
    d.placeOf p = p.components.foldl stepBy (d.origin p) :=
  foldl_stepTo_names p (d.origin p)

theorem isAbsolute_iff_head? (p : Path) : p.isAbsolute ↔ p.components.head? = some .root := by
  have hinner : p.inner.head? ≠ some .root := fun h =>
    (isInner_of_mem (List.mem_of_head? h)).bytes_ne.1 rfl
  rw [components_eq, lead]
  split_ifs with habsolute <;> simp [habsolute, hinner]

/-- A path with an ending leads to a name in the place of its folder. -/
theorem placeOf_append (he : IsEnding e) (d : Disk) (p : Path) :
    d.placeOf (p.append e) = d.placeOf p.folder ++ [p.stem ++ bytesOf e] := by
  have horigin : d.origin (p.append e) = d.origin p.folder := by
    rw [origin_append d p he, origin, origin, isAbsolute_folder]
  rw [placeOf_eq_foldl, components_append he, List.foldl_append, horigin, ← placeOf_eq_foldl,
    List.foldl_cons, List.foldl_nil, stepBy, Component.bytes, if_neg (he.append_ne_nil p.stem),
    stepTo_of_long (he.long_append p.stem)]

theorem placeOf_append_eq_iff (he : IsEnding e) (he' : IsEnding e') :
    d.placeOf (p.append e) = d.placeOf (q.append e') ↔
      d.placeOf p.folder = d.placeOf q.folder ∧ p.stem ++ bytesOf e = q.stem ++ bytesOf e' := by
  rw [placeOf_append he, placeOf_append he', List.append_singleton_inj]

/-- Endings that differ in their last byte lead to different places. -/
theorem placeOf_append_ne (he : IsEnding e) (he' : IsEnding e')
    (hlast : (bytesOf e).getLast? ≠ (bytesOf e').getLast?) :
    d.placeOf (p.append e) ≠ d.placeOf (q.append e') := by
  rw [ne_eq, placeOf_append_eq_iff he he']
  exact fun h => he.append_ne_append he' hlast h.2

/-- Paths that meet with one ending meet with every ending. -/
theorem placeOf_append_iff (he : IsEnding e) (he' : IsEnding e') :
    d.placeOf (p.append e) = d.placeOf (q.append e) ↔
      d.placeOf (p.append e') = d.placeOf (q.append e') := by
  rw [placeOf_append_eq_iff he he, placeOf_append_eq_iff he' he', List.append_cancel_right_eq,
    List.append_cancel_right_eq]

end TypeDeps.Disk
