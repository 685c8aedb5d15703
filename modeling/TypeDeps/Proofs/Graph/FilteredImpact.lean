import TypeDeps.Proofs.Filter.Composition
import TypeDeps.Proofs.Graph.Clashes

/-!
# Impact among filtered files

A filter rewrites the names that files declare and those that they reference in the same way, so two
names meet in the filtered graph exactly if their dotted forms are one. Excluded namespaces take
references away, never declarations, and it is the dotted form of a reference that they look at.
-/
namespace TypeDeps

namespace ReferenceFilter

variable {filter : ReferenceFilter} {f F : SourceFile}

/-- The file references a name that the other one declares if the names are put into dotted form,
and the filter keeps it. -/
def Links (filter : ReferenceFilter) (f F : SourceFile) : Prop :=
  ∃ m ∈ F.declares, ∃ n ∈ f.references, dotted m = dotted n ∧ filter.Keeps (dotted n)

theorem uses_apply_iff : (filter.apply f).Uses (filter.apply F) ↔ filter.Links f F := by
  simp only [SourceFile.Uses, mem_references_apply, mem_declares_apply]
  constructor
  · rintro ⟨_, ⟨n, hn, rfl, hkeeps⟩, m, hm, heq⟩
    exact ⟨m, hm, n, hn, heq, hkeeps⟩
  · rintro ⟨m, hm, n, hn, heq, hkeeps⟩
    exact ⟨_, ⟨n, hn, rfl, hkeeps⟩, m, hm, heq⟩

end ReferenceFilter

open ReferenceFilter

namespace Graph

variable {filter : ReferenceFilter} {raw : List SourceFile} {F : SourceFile} {p : Path} {k : String}

/-- The graph of these files behind the filter. -/
def filtered (filter : ReferenceFilter) (raw : List SourceFile) : Graph := ⟨raw.map filter.apply⟩

theorem firstAt_filtered (h : FirstAt raw p F) :
    FirstAt (filtered filter raw).files p (filter.apply F) := by
  obtain ⟨before, after, rfl, hsame, hbefore⟩ := h
  refine ⟨before.map filter.apply, after.map filter.apply, by simp [filtered], hsame, ?_⟩
  intro f' hf'
  obtain ⟨f, hf, rfl⟩ := List.mem_map.mp hf'
  exact hbefore f hf

theorem impactedBy_filtered (h : FirstAt raw p F) : (filtered filter raw).impactedBy p =
    .ok ((raw.filter fun f => (filter.apply f).references? (filter.apply F).declares).map
      filter.apply) := by
  rw [impactedBy_of_firstAt (firstAt_filtered h), filtered, List.filter_map]
  rfl

theorem exists_owner?_iff {g : Graph} :
    (∃ q, g.owner? k = some q) ↔ ∃ f ∈ g.files, k ∈ f.declares := by
  rw [← Option.ne_none_iff_exists', ne_eq, owner?_eq_none_iff]
  push Not
  rfl

theorem exists_owner?_filtered_iff : (∃ q, (filtered filter raw).owner? k = some q) ↔
    ∃ f ∈ raw, ∃ m ∈ f.declares, dotted m = k := by
  simp [exists_owner?_iff, filtered, mem_declares_apply]

/-- In the graph of the filtered files, a change to a path touches the files at those positions
where the unfiltered file is linked to the first one that has the path. A reference that is kept has
an owner exactly if some file declares a name with the same dotted form. -/
theorem impact_of_filtered (filter : ReferenceFilter) (raw : List SourceFile) (p : Path) :
    ((∃ f ∈ raw, f.path.Same p) → ∃ F linked, FirstAt raw p F ∧
      Selects (filter.Links · F) raw linked ∧
      (filtered filter raw).impactedBy p = .ok (linked.map filter.apply)) ∧
    ∀ f ∈ raw, ∀ k ∈ (filter.apply f).references, ∃ n ∈ f.references, k = dotted n ∧
      ((∃ q, (filtered filter raw).owner? k = some q) ↔
        ∃ f' ∈ raw, ∃ m ∈ f'.declares, dotted m = dotted n) := by
  constructor
  · intro h
    obtain ⟨F, hF⟩ := exists_firstAt (g := ⟨raw⟩) h
    refine ⟨F, _, hF, ?_, impactedBy_filtered hF⟩
    refine (selects_filter _ raw).congr fun f _ => ?_
    rw [SourceFile.references?_iff, uses_apply_iff]
  · intro f _ k hk
    obtain ⟨n, hn, rfl, -⟩ := mem_references_apply.mp hk
    exact ⟨n, hn, rfl, exists_owner?_filtered_iff⟩

/-- A nested type and one in an excluded namespace, both referenced with the other sign than they
are declared with. -/
def nestedFiles : List SourceFile :=
  [⟨.ofString "Base.java", ["pkg.Base$Node", "java.Fake"], []⟩,
    ⟨.ofString "Child.java", ["pkg.Child"], ["java$Fake", "pkg.Base.Node"]⟩,
    ⟨.ofString "Other.java", [], ["java$Fake", "pkg$Lost"]⟩]

theorem impact_of_filtered_nested :
    (∃ f ∈ nestedFiles, f.path.Same (.ofString "Base.java")) ∧
    (∃ F linked, FirstAt nestedFiles (.ofString "Base.java") F ∧
      Selects (platform.Links · F) nestedFiles linked ∧
      linked.map platform.apply = [⟨.ofString "Child.java", ["pkg.Child"], ["pkg.Base.Node"]⟩]) ∧
    ∃ q, (filtered platform nestedFiles).owner? "pkg.Base.Node" = some q := by
  have hthere : ∃ f ∈ nestedFiles, f.path.Same (.ofString "Base.java") := by decide +kernel
  have htouched : (filtered platform nestedFiles).impactedBy (.ofString "Base.java") =
      .ok [⟨.ofString "Child.java", ["pkg.Child"], ["pkg.Base.Node"]⟩] := by
    decide +kernel
  obtain ⟨himpact, howner⟩ := impact_of_filtered platform nestedFiles (.ofString "Base.java")
  obtain ⟨F, linked, hF, hselects, hanswer⟩ := himpact hthere
  obtain ⟨n, -, hk, hiff⟩ := howner
    ⟨.ofString "Child.java", ["pkg.Child"], ["java$Fake", "pkg.Base.Node"]⟩
    (by simp [nestedFiles]) "pkg.Base.Node" (by decide +kernel)
  refine ⟨hthere, ⟨F, linked, hF, hselects, Except.ok.inj (hanswer.symm.trans htouched)⟩, ?_⟩
  refine hiff.mpr ⟨⟨.ofString "Base.java", ["pkg.Base$Node", "java.Fake"], []⟩,
    by simp [nestedFiles], "pkg.Base$Node", by simp, ?_⟩
  rw [← hk]
  decide +kernel

end Graph

end TypeDeps
