import TypeDeps.Proofs.Graph.Impact
import TypeDeps.ReferenceFilter

/-!
# Filters one after the other

A filter looks at names in dotted form, and a name in dotted form is rewritten by no filter. So a
file that has passed one filter can only lose references to the next one, and filters one after the
other do what one filter with all their namespaces does, in whatever order they come.
-/
namespace TypeDeps.ReferenceFilter

variable {filter filter' : ReferenceFilter} {filters filters' : List ReferenceFilter}
variable {f : SourceFile} {k n : String}

/-! ## Dotted names -/

theorem dollar_not_mem_dotted (name : String) : '$' ∉ (dotted name).toList := by
  rw [dotted, String.toList_ofList, List.mem_map]
  rintro ⟨c, -, hc⟩
  unfold dottedChar at hc
  split_ifs at hc with hdollar
  · cases hc
  · exact hdollar hc

theorem dotted_eq_self_iff : dotted n = n ↔ '$' ∉ n.toList := by
  constructor
  · intro h
    rw [← h]
    exact dollar_not_mem_dotted n
  · intro h
    have hkept : ∀ c ∈ n.toList, dottedChar c = c := by
      intro c hc
      rw [dottedChar, if_neg]
      rintro rfl
      exact h hc
    rw [dotted, List.map_congr_left hkept, List.map_id', String.ofList_toList]

/-! ## What a filter keeps -/

/-- The name starts with none of the excluded namespaces. -/
def Keeps (filter : ReferenceFilter) (n : String) : Prop :=
  ∀ lead ∈ filter.excluded, ¬lead.toList <+: n.toList

theorem excludes_eq_false_iff : filter.excludes n = false ↔ filter.Keeps n := by
  simp [excludes, Keeps]

theorem mem_declares_apply : k ∈ (filter.apply f).declares ↔ ∃ m ∈ f.declares, dotted m = k :=
  List.mem_map

theorem mem_references_apply : k ∈ (filter.apply f).references ↔
    ∃ n ∈ f.references, dotted n = k ∧ filter.Keeps (dotted n) := by
  simp only [apply, List.mem_filter, List.mem_map, Bool.not_eq_true', excludes_eq_false_iff]
  constructor
  · rintro ⟨⟨n, hn, rfl⟩, hkeeps⟩
    exact ⟨n, hn, rfl, hkeeps⟩
  · rintro ⟨n, hn, rfl, hkeeps⟩
    exact ⟨⟨n, hn, rfl⟩, hkeeps⟩

/-- References are kept or dropped where they stand. -/
theorem exists_selects_references (filter : ReferenceFilter) (f : SourceFile) :
    ∃ kept, Selects (fun n => filter.Keeps (dotted n)) f.references kept ∧
      (filter.apply f).references = kept.map dotted := by
  refine ⟨f.references.filter fun n => !filter.excludes (dotted n), ?_, ?_⟩
  · refine (selects_filter _ f.references).congr fun n _ => ?_
    rw [Bool.not_eq_true', excludes_eq_false_iff]
  · rw [apply, List.filter_map]
    rfl

/-! ## Files that have passed -/

/-- All names of the file are in dotted form, and the filter excludes none of its references. -/
structure Passes (filter : ReferenceFilter) (f : SourceFile) : Prop where
  declared : ∀ n ∈ f.declares, '$' ∉ n.toList
  referenced : ∀ n ∈ f.references, '$' ∉ n.toList
  kept : ∀ n ∈ f.references, filter.excludes n = false

theorem passes_apply (filter : ReferenceFilter) (f : SourceFile) :
    filter.Passes (filter.apply f) := by
  refine ⟨fun n hn => ?_, fun n hn => ?_, fun n hn => ?_⟩
  · obtain ⟨name, -, rfl⟩ := List.mem_map.mp hn
    exact dollar_not_mem_dotted name
  · obtain ⟨name, -, rfl⟩ := List.mem_map.mp (List.mem_filter.mp hn).1
    exact dollar_not_mem_dotted name
  · simpa using (List.mem_filter.mp hn).2

theorem Passes.mono (h : filter.Passes f)
    (hle : ∀ n, filter'.excludes n = true → filter.excludes n = true) : filter'.Passes f := by
  refine ⟨h.declared, h.referenced, fun n hn => ?_⟩
  by_contra hexcluded
  have hnot := h.kept n hn
  rw [hle n (by simpa using hexcluded)] at hnot
  cases hnot

/-- To a file that has passed some filter, another one does no more than to drop references. -/
theorem Passes.apply_eq (h : filter.Passes f) (filter' : ReferenceFilter) :
    filter'.apply f =
      { f with references := f.references.filter fun n => !filter'.excludes n } := by
  have hdotted : ∀ {names : List String}, (∀ n ∈ names, '$' ∉ n.toList) →
      names.map dotted = names := by
    intro names hnames
    rw [List.map_congr_left fun n hn => dotted_eq_self_iff.mpr (hnames n hn), List.map_id']
  rw [apply, hdotted h.declared, hdotted h.referenced]

/-- The files that a filter leaves as they are. -/
theorem apply_eq_self_iff : filter.apply f = f ↔ filter.Passes f := by
  constructor
  · intro h
    rw [← h]
    exact passes_apply filter f
  · intro h
    have hkept : f.references.filter (fun n => !filter.excludes n) = f.references := by
      rw [List.filter_eq_self]
      intro n hn
      rw [h.kept n hn, Bool.not_false]
    rw [h.apply_eq, hkept]

/-! ## Two filters and more -/

/-- The filter with its own namespaces and then those of the other one. -/
def followedBy (filter other : ReferenceFilter) : ReferenceFilter :=
  ⟨filter.excluded ++ other.excluded⟩

theorem excludes_followedBy (filter other : ReferenceFilter) (n : String) :
    (filter.followedBy other).excludes n = (filter.excludes n || other.excludes n) := by
  rw [excludes, followedBy, List.any_append]
  rfl

theorem apply_apply (filter other : ReferenceFilter) (f : SourceFile) :
    other.apply (filter.apply f) = (filter.followedBy other).apply f := by
  rw [(passes_apply filter f).apply_eq other]
  simp only [apply, List.filter_filter, excludes_followedBy, Bool.not_or, Bool.and_comm]

theorem apply_comm (filter other : ReferenceFilter) (f : SourceFile) :
    other.apply (filter.apply f) = filter.apply (other.apply f) := by
  rw [apply_apply, apply_apply]
  simp only [apply, excludes_followedBy, Bool.or_comm]

/-- One filter after the other. -/
def applyAll (filters : List ReferenceFilter) (f : SourceFile) : SourceFile :=
  filters.foldl (fun f filter => filter.apply f) f

/-- The filter with the namespaces of all of them. -/
def joined (filters : List ReferenceFilter) : ReferenceFilter := ⟨filters.flatMap excluded⟩

/-- Without any filter, names stay as they are, so there has to be a first one. -/
theorem applyAll_cons (filter : ReferenceFilter) (filters : List ReferenceFilter)
    (f : SourceFile) :
    applyAll (filter :: filters) f = (joined (filter :: filters)).apply f := by
  induction filters generalizing filter with
  | nil => simp [applyAll, joined]
  | cons other filters ih =>
    calc applyAll (filter :: other :: filters) f
        = applyAll (filter.followedBy other :: filters) f := by
          simp only [applyAll, List.foldl_cons, apply_apply]
      _ = (joined (filter.followedBy other :: filters)).apply f := ih _
      _ = (joined (filter :: other :: filters)).apply f := by
          simp [joined, followedBy]

theorem applyAll_perm (h : filters.Perm filters') (f : SourceFile) :
    applyAll filters f = applyAll filters' f := by
  have hcomm : RightCommutative fun (f : SourceFile) (filter : ReferenceFilter) =>
      filter.apply f :=
    ⟨fun f filter other => apply_comm filter other f⟩
  exact h.foldl_eq f

/-- Two filters one after the other are the filter with the namespaces of both, so a filter does
nothing the second time and the order of two does not matter. Nor does it for any number of filters,
and these are one filter, too. A file keeps its path and all that it declares, and of its references
those that a filter keeps stay in their order and as often as they were there. -/
theorem filters_compose (filter other : ReferenceFilter) (filters : List ReferenceFilter)
    (f : SourceFile) :
    other.apply (filter.apply f) = (filter.followedBy other).apply f ∧
    filter.apply (filter.apply f) = filter.apply f ∧
    other.apply (filter.apply f) = filter.apply (other.apply f) ∧
    applyAll (filter :: filters) f = (joined (filter :: filters)).apply f ∧
    (∀ filters', filters.Perm filters' → applyAll filters f = applyAll filters' f) ∧
    (filter.apply f).path = f.path ∧
    (filter.apply f).declares = f.declares.map dotted ∧
    ∃ kept, Selects (fun n => filter.Keeps (dotted n)) f.references kept ∧
      (filter.apply f).references = kept.map dotted := by
  refine ⟨apply_apply filter other f, ?_, apply_comm filter other f,
    applyAll_cons filter filters f, fun filters' h => applyAll_perm h f, rfl, rfl,
    exists_selects_references filter f⟩
  exact apply_eq_self_iff.mpr (passes_apply filter f)

/-- The first filter excludes a namespace that only shows in dotted form, the second one a sign that
no dotted form has. -/
def mixedFilters : List ReferenceFilter := [⟨["java.", "pkg.Base."]⟩, ⟨["$"]⟩, platform]

def mixedFile : SourceFile :=
  ⟨.ofString "A.java", ["pkg.A$B", "java.A"], ["pkg.A$B", "pkg$Base$Node", "javax$X", "pkg.A.B"]⟩

theorem filters_compose_reversed :
    mixedFilters.Perm mixedFilters.reverse ∧
    applyAll mixedFilters mixedFile = applyAll mixedFilters.reverse mixedFile ∧
    applyAll mixedFilters.reverse mixedFile =
      ⟨.ofString "A.java", ["pkg.A.B", "java.A"], ["pkg.A.B", "pkg.A.B"]⟩ := by
  have hperm := (List.reverse_perm mixedFilters).symm
  obtain ⟨-, -, -, -, horder, -⟩ := filters_compose platform keepAll mixedFilters mixedFile
  exact ⟨hperm, horder _ hperm, by decide +kernel⟩

end TypeDeps.ReferenceFilter
