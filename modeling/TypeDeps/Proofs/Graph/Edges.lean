import Mathlib
import TypeDeps.Graph.Impact
import TypeDeps.Proofs.Graph.Drawing

/-!
# Edges and impact

An edge of the drawing leads to the owner of a name, the last file that declares it. A question
about a path is answered from the names that the first file of this path declares. If all paths
differ, an edge is always known to the answer. If no name is declared by several files either, a
name has one file that declares it, and both say the same.
-/
namespace TypeDeps

/-! ## Who declares a name -/

namespace Declarers

variable {d : Declarers} {p : Path} {n m : String} {f : SourceFile} {fs : List SourceFile}

/-- The declaring paths of a name, the latest one first. -/
def pathsOf (d : Declarers) (n : String) : List Path := ((d.find? (·.1 = n)).map Prod.snd).getD []

theorem pathsOf_cons (entry : String × List Path) (d : Declarers) (n : String) :
    pathsOf (entry :: d) n = if entry.1 = n then entry.2 else pathsOf d n := by
  unfold pathsOf
  rw [List.find?_cons]
  split_ifs with h <;> simp [h]

theorem pathsOf_add (d : Declarers) (p : Path) (m n : String) :
    pathsOf (d.add p m) n = if m = n then addPath p (pathsOf d n) else pathsOf d n := by
  induction d with
  | nil => rw [add, pathsOf_cons]; rfl
  | cons entry d ih =>
    obtain ⟨k, ps⟩ := entry
    rw [add]
    by_cases hk : k = m
    · subst hk
      rw [if_pos rfl, pathsOf_cons, pathsOf_cons]
      split_ifs <;> rfl
    · rw [if_neg hk, pathsOf_cons, pathsOf_cons, ih]
      split_ifs with hkn hmn
      · exact absurd (hkn.trans hmn.symm) hk
      · rfl
      · rfl
      · rfl

theorem suffix_addPath (p : Path) (ps : List Path) : ps <:+ addPath p ps := by
  unfold addPath
  split
  · simp
  · split_ifs
    · exact List.suffix_refl _
    · exact List.suffix_cons _ _

theorem head_addPath (p : Path) (ps : List Path) : ∃ q qs, addPath p ps = q :: qs ∧ q.Same p := by
  unfold addPath
  split
  · exact ⟨p, [], rfl, rfl⟩
  · split_ifs with h
    · exact ⟨_, _, rfl, h⟩
    · exact ⟨_, _, rfl, rfl⟩

theorem suffix_add (d : Declarers) (p : Path) (m n : String) :
    pathsOf d n <:+ pathsOf (d.add p m) n := by
  rw [pathsOf_add]
  split_ifs
  · exact suffix_addPath p _
  · exact List.suffix_refl _

def addAll (d : Declarers) (xs : List (Path × String)) : Declarers :=
  xs.foldl (fun d x => d.add x.1 x.2) d

/-- Nothing is forgotten. -/
theorem suffix_addAll (d : Declarers) (xs : List (Path × String)) (n : String) :
    pathsOf d n <:+ pathsOf (d.addAll xs) n := by
  induction xs generalizing d with
  | nil => exact List.suffix_refl _
  | cons x xs ih => exact (suffix_add d x.1 x.2 n).trans (ih _)

theorem suffix_addAll_of_mem {xs : List (Path × String)} (h : (p, n) ∈ xs) (d : Declarers) :
    ∃ q qs, q :: qs <:+ pathsOf (d.addAll xs) n ∧ q.Same p := by
  induction xs generalizing d with
  | nil => cases h
  | cons x xs ih =>
    rcases List.mem_cons.mp h with rfl | h
    · obtain ⟨q, qs, hadd, hq⟩ := head_addPath p (pathsOf d n)
      refine ⟨q, qs, ?_, hq⟩
      have hhere : q :: qs = pathsOf (d.add p n) n := by rw [pathsOf_add, if_pos rfl, hadd]
      rw [hhere]
      exact suffix_addAll _ xs n
    · exact ih h _

/-- The only path that is known for a name is that of every file that declares it. -/
theorem same_of_mem {xs : List (Path × String)} {q : Path} (hp : (p, n) ∈ xs) (hq : (q, n) ∈ xs)
    (hone : (pathsOf (d.addAll xs) n).length ≤ 1) : p.Same q := by
  have hsingle : ∀ {p}, (p, n) ∈ xs → ∃ r, pathsOf (d.addAll xs) n = [r] ∧ r.Same p := by
    intro p hp
    obtain ⟨r, rs, hsuffix, hr⟩ := suffix_addAll_of_mem hp d
    have hlength := hsuffix.length_le
    rw [List.length_cons] at hlength
    obtain rfl : rs = [] := List.length_eq_zero_iff.mp (by omega)
    exact ⟨r, (hsuffix.eq_of_length (by rw [List.length_singleton]; omega)).symm, hr⟩
  obtain ⟨r, hr, hrp⟩ := hsingle hp
  obtain ⟨r', hr', hrq⟩ := hsingle hq
  obtain rfl : r = r' := by simpa [hr] using hr'
  exact hrp.symm.trans hrq

end Declarers

namespace Graph

variable {g : Graph} {f F R : SourceFile} {n : String} {p q : Path}

/-- Every file's path with every name that the file declares. -/
def declarations (g : Graph) : List (Path × String) :=
  g.files.flatMap fun f => f.declares.map (f.path, ·)

theorem declarers_eq (g : Graph) : g.declarers = Declarers.addAll [] g.declarations := by
  rw [declarers, Declarers.addAll, declarations, List.foldl_flatMap]
  simp only [List.foldl_map]
  rfl

theorem mem_declarations (hf : f ∈ g.files) (hn : n ∈ f.declares) :
    (f.path, n) ∈ g.declarations :=
  List.mem_flatMap.mpr ⟨f, hf, List.mem_map.mpr ⟨n, hn, rfl⟩⟩

theorem length_pathsOf_le (h : g.clashes = []) (n : String) :
    (Declarers.pathsOf g.declarers n).length ≤ 1 := by
  unfold Declarers.pathsOf
  cases hfind : g.declarers.find? (·.1 = n) with
  | none => simp
  | some entry =>
    obtain ⟨m, ps⟩ := entry
    have hnone := List.filterMap_eq_nil_iff.mp h _ (List.mem_of_find?_eq_some hfind)
    simpa using hnone

/-- Without clashes, the files that declare a name have one path. -/
theorem same_of_declares (h : g.clashes = []) (hf : f ∈ g.files) (hF : F ∈ g.files)
    (hn : n ∈ f.declares) (hN : n ∈ F.declares) : f.path.Same F.path := by
  have hone := length_pathsOf_le h n
  rw [declarers_eq] at hone
  exact Declarers.same_of_mem (mem_declarations hf hn) (mem_declarations hF hN) hone

/-! ## Graphs whose paths differ -/

/-- No two files have spellings of one path. -/
def PathsDiffer (g : Graph) : Prop := g.files.Pairwise fun a b => ¬a.path.Same b.path

instance (g : Graph) : Decidable g.PathsDiffer := inferInstanceAs (Decidable (List.Pairwise _ _))

theorem PathsDiffer.eq (h : g.PathsDiffer) (hf : f ∈ g.files) (hF : F ∈ g.files)
    (hsame : f.path.Same F.path) : f = F := by
  have : Std.Symm fun a b : SourceFile => ¬a.path.Same b.path := ⟨fun _ _ hab hba => hab hba.symm⟩
  by_contra hne
  exact List.Pairwise.forall h hf hF hne hsame

theorem PathsDiffer.find? (h : g.PathsDiffer) (hF : F ∈ g.files) : g.find? F.path = some F := by
  cases hfind : g.find? F.path with
  | none => exact absurd (decide_eq_true rfl) (List.find?_eq_none.mp hfind F hF)
  | some f =>
    have hsame : f.path.Same F.path := by simpa using List.find?_some hfind
    rw [h.eq (List.mem_of_find?_eq_some hfind) hF hsame]

theorem mem_impactedBy_iff (h : g.PathsDiffer) (hR : R ∈ g.files) (hF : F ∈ g.files) :
    (∃ files, g.impactedBy F.path = .ok files ∧ R ∈ files) ↔
      ∃ n ∈ R.references, n ∈ F.declares := by
  unfold impactedBy
  rw [h.find? hF]
  simp [hR, SourceFile.references?]

theorem exists_of_owner? (h : g.owner? n = some p) :
    ∃ F ∈ g.files, n ∈ F.declares ∧ F.path = p := by
  obtain ⟨F, hfind, rfl⟩ := Option.map_eq_some_iff.mp h
  exact ⟨F, List.mem_reverse.mp (List.mem_of_find?_eq_some hfind),
    by simpa using List.find?_some hfind, rfl⟩

/-- Without clashes, a file owns the names that it declares and no others. -/
theorem owner?_eq_some_iff (h : g.PathsDiffer) (hclash : g.clashes = []) (hF : F ∈ g.files) :
    g.owner? n = some F.path ↔ n ∈ F.declares := by
  constructor
  · intro howner
    obtain ⟨F', hF', hn, hpath⟩ := exists_of_owner? howner
    rwa [← h.eq hF' hF (congrArg Path.components hpath)]
  · intro hn
    cases hfind : g.files.reverse.find? (fun f => n ∈ f.declares) with
    | none => simpa [hn] using List.find?_eq_none.mp hfind F (List.mem_reverse.mpr hF)
    | some f =>
      have hf := List.mem_reverse.mp (List.mem_of_find?_eq_some hfind)
      have hnf : n ∈ f.declares := by simpa using List.find?_some hfind
      rw [owner?, hfind, h.eq hf hF (same_of_declares hclash hf hF hnf hn)]
      rfl

end Graph

namespace Dot

variable {g : Graph} {f F R : SourceFile} {p q : Path}

/-! ## Counting edges -/

theorem mem_statementsOf_edge : .edge p q ∈ statementsOf g f ↔
    f.path = p ∧ ∃ n ∈ f.references, g.owner? n = some q := by
  unfold statementsOf
  split_ifs with hleaf
  · have hnil : f.references = [] := by simpa [SourceFile.isLeaf] using hleaf
    simp [hnil]
  · simp [and_comm]

theorem count_statementsOf_self (g : Graph) (f : SourceFile) (q : Path) :
    (statementsOf g f).count (.edge f.path q) =
      f.references.countP fun n => g.owner? n = some q := by
  unfold statementsOf
  split_ifs with hleaf
  · have hnil : f.references = [] := by simpa [SourceFile.isLeaf] using hleaf
    simp [hnil]
  · have hinj : Function.Injective (Statement.edge f.path) := fun _ _ h => (Statement.edge.inj h).2
    rw [List.count_map_of_injective _ _ hinj, List.count, List.countP_filterMap]
    refine List.countP_congr fun n _ => ?_
    cases g.owner? n <;> simp

/-- All edges from a file come from its own statements. -/
theorem count_flatMap_statementsOf {fs : List SourceFile}
    (h : fs.Pairwise fun a b => ¬a.path.Same b.path) (hR : R ∈ fs) (q : Path) :
    (fs.flatMap (statementsOf g)).count (.edge R.path q) =
      (statementsOf g R).count (.edge R.path q) := by
  induction fs with
  | nil => cases hR
  | cons f fs ih =>
    obtain ⟨hf, hfs⟩ := List.pairwise_cons.mp h
    rw [List.flatMap_cons, List.count_append]
    rcases List.mem_cons.mp hR with rfl | hR
    · rw [Nat.add_eq_left, List.count_eq_zero]
      intro hedge
      obtain ⟨f', hf', hedge⟩ := List.mem_flatMap.mp hedge
      exact hf f' hf' (congrArg Path.components (mem_statementsOf_edge.mp hedge).1.symm)
    · rw [ih hfs hR, Nat.add_eq_right, List.count_eq_zero]
      exact fun hedge => hf R hR (congrArg Path.components (mem_statementsOf_edge.mp hedge).1)

/-- The drawing of a graph has a line for every one of its edges, and if all paths are legible,
these are what it reads as. In a graph whose paths differ, a file with an edge to a path is among
those that a change to the path touches. Without clashes, there is one edge for every time that
the file references a name of the other one, and so there is an edge exactly if the file is
touched. -/
theorem edges_agree_with_impact {g : Graph} (h : g.PathsDiffer) :
    Draws g.dot (statements g) ∧
    ((∀ s ∈ statements g, ∀ p ∈ s.paths, Legible p) →
      ∀ ss, ReadsAs g.dot ss ↔ ss = statements g) ∧
    (∀ p q, .edge p q ∈ statements g →
      ∃ R ∈ g.files, R.path = p ∧ ∃ files, g.impactedBy q = .ok files ∧ R ∈ files) ∧
    (g.clashes = [] → ∀ R ∈ g.files, ∀ F ∈ g.files,
      (statements g).count (.edge R.path F.path) = R.references.countP (· ∈ F.declares) ∧
      (0 < (statements g).count (.edge R.path F.path) ↔
        ∃ files, g.impactedBy F.path = .ok files ∧ R ∈ files)) := by
  refine ⟨draws_dot g, fun hlegible ss => ?_, ?_, ?_⟩
  · have hread := readsAs_statements_iff.mpr hlegible
    exact ⟨fun hss => hss.unique hread, fun hss => hss ▸ hread⟩
  · intro p q hedge
    obtain ⟨R, hR, hedge⟩ := List.mem_flatMap.mp hedge
    obtain ⟨rfl, n, hn, howner⟩ := mem_statementsOf_edge.mp hedge
    obtain ⟨F, hF, hnF, rfl⟩ := Graph.exists_of_owner? howner
    exact ⟨R, hR, rfl, (Graph.mem_impactedBy_iff h hR hF).mpr ⟨n, hn, hnF⟩⟩
  · intro hclash R hR F hF
    have hcount : (statements g).count (.edge R.path F.path) =
        R.references.countP (· ∈ F.declares) := by
      rw [statements, count_flatMap_statementsOf h hR, count_statementsOf_self]
      refine List.countP_congr fun n _ => ?_
      simp [Graph.owner?_eq_some_iff h hclash hF]
    refine ⟨hcount, ?_⟩
    rw [hcount, List.countP_pos_iff, Graph.mem_impactedBy_iff h hR hF]
    simp

/-- The last file references two names of the first one, one of them twice, and a name of its
own. -/
def tracedGraph : Graph :=
  ⟨[⟨.ofString "a", ["A", "B", "A"], []⟩, ⟨.ofString "./a", [], ["X"]⟩,
    ⟨.ofString "c", ["C"], ["B", "C", "A", "X", "B"]⟩]⟩

theorem edges_agree_with_impact_three_times :
    tracedGraph.PathsDiffer ∧ tracedGraph.clashes = [] ∧
      (∃ ss, Draws tracedGraph.dot ss ∧ (∀ ss', ReadsAs tracedGraph.dot ss' ↔ ss' = ss) ∧
        ss.count (.edge (.ofString "c") (.ofString "a")) = 3) ∧
      ∃ files, tracedGraph.impactedBy (.ofString "a") = .ok files ∧
        ⟨.ofString "c", ["C"], ["B", "C", "A", "X", "B"]⟩ ∈ files := by
  have hdiffer : tracedGraph.PathsDiffer := by decide +kernel
  have hclash : tracedGraph.clashes = [] := by decide +kernel
  have hlegible : ∀ s ∈ statements tracedGraph, ∀ p ∈ s.paths, Legible p := by
    have hpaths : ∀ s ∈ statements tracedGraph, ∀ p ∈ s.paths,
        p = pathOf ['a'] ∨ p = pathOf ['c'] := by
      decide +kernel
    intro s hs p hp
    rcases hpaths s hs p hp with rfl | rfl
    · exact ⟨['a'], rfl, by decide⟩
    · exact ⟨['c'], rfl, by decide⟩
  obtain ⟨hdraws, hreads, -, hagree⟩ := edges_agree_with_impact hdiffer
  obtain ⟨hcount, hiff⟩ := hagree hclash
    ⟨.ofString "c", ["C"], ["B", "C", "A", "X", "B"]⟩ (by simp [tracedGraph])
    ⟨.ofString "a", ["A", "B", "A"], []⟩ (by simp [tracedGraph])
  have hthree : (statements tracedGraph).count (.edge (.ofString "c") (.ofString "a")) = 3 :=
    hcount
  exact ⟨hdiffer, hclash, ⟨_, hdraws, hreads hlegible, hthree⟩, hiff.mp (by rw [hthree]; decide)⟩

end Dot

end TypeDeps
