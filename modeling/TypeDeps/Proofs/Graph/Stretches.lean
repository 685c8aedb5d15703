import TypeDeps.Proofs.Graph.Clashes

/-!
# How many files a clash counts

Among the files that declare a name, those that follow each other with one path make a stretch.
A clash has one path for every stretch. So it has more paths than there are files if the files that
declare the name come back to a path after another one.
-/
namespace TypeDeps

/-- No other path stands between two spellings of one path. -/
def Grouped (ps : List Path) : Prop := ∀ p q r, [p, q, r].Sublist ps → p.Same r → q.Same p

theorem snoc_sublist_snoc_iff {α : Type} {l m : List α} {a b : α} :
    (l ++ [a]).Sublist (m ++ [b]) ↔ (l ++ [a]).Sublist m ∨ l.Sublist m ∧ a = b := by
  constructor
  · intro h
    obtain ⟨front, back, heq, hfront, hback⟩ := List.sublist_append_iff.mp h
    rcases List.sublist_singleton.mp hback with rfl | rfl
    · rw [List.append_nil] at heq
      exact .inl (heq ▸ hfront)
    · obtain ⟨rfl, hlast⟩ := List.append_inj' heq rfl
      exact .inr ⟨hfront, List.singleton_inj.mp hlast⟩
  · rintro (h | ⟨h, rfl⟩)
    · exact h.trans (List.sublist_append_left m [b])
    · exact h.append (.refl [a])

variable {ps : List Path} {p : Path}

/-! ## Paths that come back -/

theorem grouped_snoc_iff : Grouped (ps ++ [p]) ↔
    Grouped ps ∧ ∀ q r, [q, r].Sublist ps → q.Same p → r.Same q := by
  have hsnoc : ∀ q r s, [q, r, s].Sublist (ps ++ [p]) ↔
      [q, r, s].Sublist ps ∨ [q, r].Sublist ps ∧ s = p :=
    fun q r s => snoc_sublist_snoc_iff (l := [q, r])
  simp only [Grouped, hsnoc]
  constructor
  · intro h
    exact ⟨fun q r s hs => h q r s (.inl hs), fun q r hs => h q r p (.inr ⟨hs, rfl⟩)⟩
  · rintro ⟨hps, hp⟩ q r s (hs | ⟨hs, rfl⟩)
    · exact hps q r s hs
    · exact hp q r hs

theorem grouped_snoc_of_same (h : ∃ l ∈ ps.getLast?, l.Same p) :
    Grouped (ps ++ [p]) ↔ Grouped ps := by
  refine grouped_snoc_iff.trans (and_iff_left_of_imp fun hps q r hs hsame => ?_)
  obtain ⟨l, hl, hlp⟩ := h
  obtain ⟨front, rfl⟩ := List.getLast?_eq_some_iff.mp hl
  have hql : q.Same l := hsame.trans hlp.symm
  rcases (snoc_sublist_snoc_iff (l := [q])).mp hs with hfront | ⟨-, rfl⟩
  · exact hps q r l (snoc_sublist_snoc_iff (l := [q, r]).mpr (.inr ⟨hfront, rfl⟩)) hql
  · exact hql.symm

theorem grouped_snoc_of_differ (h : ∀ l ∈ ps.getLast?, ¬l.Same p) :
    Grouped (ps ++ [p]) ↔ Grouped ps ∧ ∀ q ∈ ps, ¬q.Same p := by
  refine grouped_snoc_iff.trans (and_congr_right fun _ => ⟨fun hback q hq hsame => ?_, ?_⟩)
  · -- between a path that comes back and its return stands at least the last path
    obtain ⟨front, l, rfl⟩ := (List.eq_nil_or_concat' ps).resolve_left (List.ne_nil_of_mem hq)
    have hl : ¬l.Same p := h l (by simp)
    rcases List.mem_append.mp hq with hq | hq
    · have hs : [q, l].Sublist (front ++ [l]) :=
        (List.singleton_sublist.mpr hq).append (.refl [l])
      exact hl ((hback q l hs hsame).trans hsame)
    · exact hl (List.mem_singleton.mp hq ▸ hsame)
  · intro hne q r hs hsame
    exact absurd hsame (hne q (hs.subset (by simp)))

theorem Condenses.exists_last_same_iff {ks : List Path} (h : Condenses ks ps) :
    (∃ k ∈ ks.getLast?, k.Same p) ↔ ∃ l ∈ ps.getLast?, l.Same p := by
  constructor
  · rintro ⟨k, hk, hsame⟩
    have hne : ps ≠ [] := List.ne_nil_of_mem (h.sublist.subset (List.mem_of_getLast? hk))
    obtain ⟨k', hk', hkl⟩ := h.last _ (List.getLast?_eq_some_getLast hne)
    obtain rfl : k = k' := Option.mem_unique hk hk'
    exact ⟨_, List.getLast?_eq_some_getLast hne, hkl.symm.trans hsame⟩
  · rintro ⟨l, hl, hsame⟩
    obtain ⟨k, hk, hkl⟩ := h.last l hl
    exact ⟨k, hk, hkl.trans hsame⟩

theorem Condenses.forall_differ_iff {ks : List Path} (h : Condenses ks ps) :
    (∀ k ∈ ks, ¬k.Same p) ↔ ∀ q ∈ ps, ¬q.Same p := by
  refine ⟨fun hks q hq hsame => ?_, fun hps k hk => hps k (h.sublist.subset hk)⟩
  obtain ⟨k, hk, hkq⟩ := h.covers q hq
  exact hks k hk (hkq.trans hsame)

/-- No two stretches have one path exactly if no path comes back. -/
theorem pairwise_stretches_iff (ps : List Path) :
    (stretches ps).Pairwise (fun p q => ¬p.Same q) ↔ Grouped ps := by
  induction ps using List.reverseRecOn with
  | nil => simp [stretches, Grouped]
  | append_singleton ps p ih =>
    have hkept := condenses_stretches ps
    rw [stretches_snoc]
    split_ifs with hlast
    · have hend : ∀ l ∈ ps.getLast?, ¬l.Same p := fun l hl hsame => by
        obtain ⟨k, hk, hkp⟩ := hkept.exists_last_same_iff.mpr ⟨l, hl, hsame⟩
        exact hlast k hk hkp
      rw [grouped_snoc_of_differ hend, ← ih, ← hkept.forall_differ_iff, List.pairwise_append]
      simp
    · push Not at hlast
      rw [ih, grouped_snoc_of_same (hkept.exists_last_same_iff.mp hlast)]

/-! ## Counting -/

/-- The number of files that paths lead to, whatever their spelling. -/
def fileCount (ps : List Path) : ℕ := (ps.map Path.components).toFinset.card

theorem Condenses.fileCount_eq {ks : List Path} (h : Condenses ks ps) :
    fileCount ks = fileCount ps := by
  unfold fileCount
  congr 1
  ext cs
  simp only [List.mem_toFinset, List.mem_map]
  constructor
  · rintro ⟨k, hk, rfl⟩
    exact ⟨k, h.sublist.subset hk, rfl⟩
  · rintro ⟨p, hp, rfl⟩
    obtain ⟨k, hk, hsame⟩ := h.covers p hp
    exact ⟨k, hk, hsame⟩

theorem fileCount_le_length (ks : List Path) : fileCount ks ≤ ks.length :=
  (List.toFinset_card_le _).trans_eq (List.length_map _)

theorem length_eq_fileCount_iff (ks : List Path) :
    ks.length = fileCount ks ↔ ks.Pairwise fun p q => ¬p.Same q := by
  have hnodup : (ks.map Path.components).Nodup ↔ ks.Pairwise fun p q => ¬p.Same q :=
    List.pairwise_map
  rw [← hnodup, ← List.length_map (f := Path.components), eq_comm]
  exact Multiset.toFinset_card_eq_card_iff_nodup

namespace Graph

variable {g : Graph} {c : Clash}

theorem paths_of_mem_clashes (hc : c ∈ g.clashes) :
    c.paths = stretches ((g.declaring c.name).map SourceFile.path) := by
  rw [(mem_clashes_iff.mp hc).2, reverse_pathsOf]

/-- A clash has one path for every stretch of the files that declare its name. These are never
fewer than the files, and as many exactly if no path comes back after another one, which is when
its paths differ. -/
theorem clash_counts_stretches (g : Graph) : ∀ c ∈ g.clashes,
    c.paths = stretches ((g.declaring c.name).map SourceFile.path) ∧
    fileCount ((g.declaring c.name).map SourceFile.path) ≤ c.paths.length ∧
    (c.paths.length = fileCount ((g.declaring c.name).map SourceFile.path) ↔
      Grouped ((g.declaring c.name).map SourceFile.path)) ∧
    (c.paths.Pairwise (fun p q => ¬p.Same q) ↔
      Grouped ((g.declaring c.name).map SourceFile.path)) := by
  intro c hc
  have hcount := (condenses_of_mem_clashes hc).fileCount_eq
  have hpairwise : c.paths.Pairwise (fun p q => ¬p.Same q) ↔
      Grouped ((g.declaring c.name).map SourceFile.path) := by
    rw [paths_of_mem_clashes hc, pairwise_stretches_iff]
  refine ⟨paths_of_mem_clashes hc, hcount ▸ fileCount_le_length c.paths, ?_, hpairwise⟩
  rw [← hcount, length_eq_fileCount_iff, hpairwise]

/-- Two files declare each of the names, one of them before and behind the other if the name is
`N`. -/
theorem clash_counts_stretches_of_repetitions :
    ⟨"M", [.ofString "a", .ofString "b/."]⟩ ∈ repeatingGraph.clashes ∧
    fileCount ((repeatingGraph.declaring "M").map SourceFile.path) = 2 ∧
    ⟨"N", [.ofString "a", .ofString "b", .ofString "a"]⟩ ∈ repeatingGraph.clashes ∧
    fileCount ((repeatingGraph.declaring "N").map SourceFile.path) < 3 := by
  have hM : ⟨"M", [.ofString "a", .ofString "b/."]⟩ ∈ repeatingGraph.clashes := by
    decide +kernel
  have hN : ⟨"N", [.ofString "a", .ofString "b", .ofString "a"]⟩ ∈ repeatingGraph.clashes := by
    decide +kernel
  obtain ⟨-, -, hcountM, hpairwiseM⟩ := clash_counts_stretches repeatingGraph _ hM
  obtain ⟨-, hle, hcountN, hpairwiseN⟩ := clash_counts_stretches repeatingGraph _ hN
  have hcomes := mt hpairwiseN.mpr (by decide +kernel)
  have hgrouped := hpairwiseM.mp (by decide +kernel)
  exact ⟨hM, (hcountM.mpr hgrouped).symm, hN, lt_of_le_of_ne hle (mt hcountN.mp hcomes ∘ Eq.symm)⟩

/-- A clash can have a path twice. -/
theorem clash_repeats_path :
    ¬∀ g : Graph, ∀ c ∈ g.clashes, c.paths.Pairwise fun p q => ¬p.Same q := by
  intro h
  have hclash : ⟨"N", [.ofString "a", .ofString "b", .ofString "a"]⟩ ∈ repeatingGraph.clashes := by
    decide +kernel
  exact absurd (h repeatingGraph _ hclash) (by decide +kernel)

end Graph

end TypeDeps
