import Mathlib
import TypeDeps.Graph.Impact

/-!
# Answers about impact

A question about a path is about the first file that has it, in whatever spelling. The answer lists
the files that reference a name of this file, each at its own position in the graph. So it depends
on what the path names only, and files that come to the end of the graph come to the end of the
answer.
-/
namespace TypeDeps

/-! ## Selecting by position -/

/-- What stands at the positions where the property holds, in their order. -/
def Selects {α : Type} (P : α → Prop) (xs ys : List α) : Prop :=
  ∃ positions : List (Fin xs.length), positions.Pairwise (· < ·) ∧
    (∀ i, i ∈ positions ↔ P (xs.get i)) ∧ ys = positions.map xs.get

theorem selects_filter {α : Type} (P : α → Bool) (xs : List α) :
    Selects (P · = true) xs (xs.filter P) := by
  refine ⟨(List.finRange xs.length).filter fun i => P (xs.get i), ?_, fun i => ?_, ?_⟩
  · exact (List.pairwise_lt_finRange xs.length).filter _
  · simp
  · calc xs.filter P = ((List.finRange xs.length).map xs.get).filter P := by
          rw [List.map_get_finRange]
      _ = _ := List.filter_map

theorem Selects.congr {α : Type} {P Q : α → Prop} {xs ys : List α} (h : Selects P xs ys)
    (hiff : ∀ x ∈ xs, P x ↔ Q x) : Selects Q xs ys := by
  obtain ⟨positions, hrising, hmem, hys⟩ := h
  exact ⟨positions, hrising, fun i => (hmem i).trans (hiff _ (xs.get_mem i)), hys⟩

/-! ## The file that is asked about -/

/-- The first file that has this path. -/
def FirstAt (fs : List SourceFile) (p : Path) (F : SourceFile) : Prop :=
  ∃ before after, fs = before ++ F :: after ∧ F.path.Same p ∧ ∀ f ∈ before, ¬f.path.Same p

theorem FirstAt.append {fs : List SourceFile} {p : Path} {F : SourceFile} (h : FirstAt fs p F)
    (more : List SourceFile) : FirstAt (fs ++ more) p F := by
  obtain ⟨before, after, rfl, hsame, hbefore⟩ := h
  exact ⟨before, after ++ more, by simp, hsame, hbefore⟩

/-- The file references a name that the other one declares. -/
def SourceFile.Uses (f F : SourceFile) : Prop := ∃ n ∈ f.references, n ∈ F.declares

theorem SourceFile.references?_iff (f F : SourceFile) :
    f.references? F.declares = true ↔ f.Uses F := by
  simp [references?, Uses]

namespace Graph

variable {g : Graph} {p q : Path} {F : SourceFile} {e : Error}

theorem find?_eq_some_iff : g.find? p = some F ↔ FirstAt g.files p F := by
  rw [find?, List.find?_eq_some_iff_append, FirstAt]
  simp only [decide_eq_true_eq, Bool.not_eq_true', decide_eq_false_iff_not]
  tauto

theorem find?_eq_none_iff : g.find? p = none ↔ ∀ f ∈ g.files, ¬f.path.Same p := by
  simp [find?]

theorem find?_congr (h : q.Same p) : g.find? q = g.find? p := by
  have hiff : ∀ f : SourceFile, f.path.Same q ↔ f.path.Same p :=
    fun f => ⟨fun hf => hf.trans h, fun hf => hf.trans h.symm⟩
  simp only [find?, hiff]

theorem exists_firstAt (h : ∃ f ∈ g.files, f.path.Same p) : ∃ F, FirstAt g.files p F := by
  cases hfind : g.find? p with
  | none =>
    obtain ⟨f, hf, hsame⟩ := h
    exact absurd hsame (find?_eq_none_iff.mp hfind f hf)
  | some F => exact ⟨F, find?_eq_some_iff.mp hfind⟩

/-! ## The answer -/

theorem impactedBy_of_firstAt (h : FirstAt g.files p F) :
    g.impactedBy p = .ok (g.files.filter (·.references? F.declares)) := by
  rw [impactedBy, find?_eq_some_iff.mpr h]

theorem impactedBy_eq_error_iff :
    g.impactedBy p = .error e ↔ e = .notInGraph p ∧ ∀ f ∈ g.files, ¬f.path.Same p := by
  rw [impactedBy, ← find?_eq_none_iff]
  cases g.find? p <;> simp [eq_comm]

theorem impactedBy_congr (h : q.Same p) {touched : List SourceFile}
    (hp : g.impactedBy p = .ok touched) : g.impactedBy q = .ok touched := by
  unfold impactedBy at hp ⊢
  rw [find?_congr h]
  cases hfind : g.find? p with
  | none => simp [hfind] at hp
  | some F => simpa [hfind] using hp

theorem selects_uses (fs : List SourceFile) (F : SourceFile) :
    Selects (·.Uses F) fs (fs.filter (·.references? F.declares)) :=
  (selects_filter _ fs).congr fun f _ => f.references?_iff F

theorem impact_eq_error_iff : g.impact p = .error e ↔ g.impactedBy p = .error e := by
  unfold impact
  cases g.impactedBy p <;> simp [Except.map]

theorem isSelfReferencing_iff (i : Impact) :
    i.isSelfReferencing = true ↔ ∃ q ∈ i.touched, q.Same i.changed := by
  simp [Impact.isSelfReferencing]

/-- A question fails exactly if no file has the path. Otherwise it is about the first file that has
it and answers the files that use a name of this one, in graph order, for every spelling of the
path. Files behind those of the graph add only those of them that use such a name. The report lists
the paths of the same files and tells if one of them is the path that was asked about. -/
theorem impact_of_path (g : Graph) (p : Path) :
    (∀ e, g.impactedBy p = .error e ↔ e = .notInGraph p ∧ ∀ f ∈ g.files, ¬f.path.Same p) ∧
    (∀ e, g.impact p = .error e ↔ g.impactedBy p = .error e) ∧
    ((∃ f ∈ g.files, f.path.Same p) → ∃ F touched,
      FirstAt g.files p F ∧ g.impactedBy p = .ok touched ∧ Selects (·.Uses F) g.files touched ∧
      (∀ q, q.Same p → g.impactedBy q = .ok touched) ∧
      (∀ fs, ∃ more, Graph.impactedBy ⟨g.files ++ fs⟩ p = .ok (touched ++ more) ∧
        Selects (·.Uses F) fs more) ∧
      ∃ i, g.impact p = .ok i ∧ i.changed = p ∧ i.touched = touched.map SourceFile.path ∧
        (i.isSelfReferencing = true ↔ ∃ f ∈ touched, f.path.Same p)) := by
  refine ⟨fun e => impactedBy_eq_error_iff, fun e => impact_eq_error_iff, fun h => ?_⟩
  obtain ⟨F, hF⟩ := exists_firstAt h
  have hanswer := impactedBy_of_firstAt hF
  refine ⟨F, _, hF, hanswer, selects_uses g.files F, fun q hq => impactedBy_congr hq hanswer,
    fun fs => ⟨_, ?_, selects_uses fs F⟩, ⟨p, _⟩, ?_, rfl, rfl, ?_⟩
  · rw [impactedBy_of_firstAt (g := ⟨g.files ++ fs⟩) (hF.append fs), List.filter_append]
  · rw [impact, hanswer]
    rfl
  · rw [isSelfReferencing_iff]
    simp

/-- Two files have the path `a/` in other spellings. Only the first of them counts, and it uses a
name of its own. -/
def respelledGraph : Graph :=
  ⟨[⟨.ofString "b", [], ["X", "A", "A"]⟩, ⟨.ofString "a/.", ["A", "A"], ["A"]⟩,
    ⟨.ofString "a", ["B"], ["B"]⟩, ⟨.ofString "./a", ["X"], ["B", "A"]⟩]⟩

theorem impact_of_path_respelled :
    (∃ f ∈ respelledGraph.files, f.path.Same (.ofString "a/")) ∧
    FirstAt respelledGraph.files (.ofString "a/") ⟨.ofString "a/.", ["A", "A"], ["A"]⟩ ∧
    ∃ touched i, respelledGraph.impactedBy (.ofString "a//") = .ok touched ∧
      Selects (·.Uses ⟨.ofString "a/.", ["A", "A"], ["A"]⟩) respelledGraph.files touched ∧
      respelledGraph.impact (.ofString "a/") = .ok i ∧ i.isSelfReferencing = true ∧
      i.touched = [.ofString "b", .ofString "a/.", .ofString "./a"] := by
  have hthere : ∃ f ∈ respelledGraph.files, f.path.Same (.ofString "a/") := by decide +kernel
  have hfirst : respelledGraph.find? (.ofString "a/") =
      some ⟨.ofString "a/.", ["A", "A"], ["A"]⟩ := by
    decide +kernel
  obtain ⟨F, touched, hF, hanswer, hselects, hspelled, -, i, hi, -, hpaths, hself⟩ :=
    (impact_of_path respelledGraph (.ofString "a/")).2.2 hthere
  obtain rfl := Option.some.inj (hfirst.symm.trans (find?_eq_some_iff.mpr hF))
  have htouched : respelledGraph.impactedBy (.ofString "a/") = .ok
      [⟨.ofString "b", [], ["X", "A", "A"]⟩, ⟨.ofString "a/.", ["A", "A"], ["A"]⟩,
        ⟨.ofString "./a", ["X"], ["B", "A"]⟩] := by
    decide +kernel
  obtain rfl := Except.ok.inj (hanswer.symm.trans htouched)
  exact ⟨hthere, hF, _, i, hspelled _ (by decide +kernel), hselects, hi,
    hself.mpr (by decide +kernel), hpaths⟩

end Graph

end TypeDeps
