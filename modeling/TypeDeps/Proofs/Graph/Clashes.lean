import TypeDeps.Proofs.Graph.Edges

/-!
# Owners and clashes

The owner of a name is the last file that declares it. One pass over the files finds all owners,
with a later declaration in the stead of an earlier one. Another pass finds the clashes: a path is
put behind those that are known for a name, unless it is the last of them already. Both meet the
files that declare a name in the same order, and so a clash ends with the owner.
-/
namespace TypeDeps

/-! ## Paths without repetitions -/

/-- What remains of some paths if a path is left out that follows a spelling of itself. -/
structure Condenses (ks ps : List Path) : Prop where
  sublist : ks.Sublist ps
  covers : ∀ p ∈ ps, ∃ k ∈ ks, k.Same p
  separate : ks.IsChain fun k l => ¬k.Same l
  last : ∀ p ∈ ps.getLast?, ∃ k ∈ ks.getLast?, k.Same p

namespace Condenses

variable {ks ps : List Path} {p k : Path}

theorem nil : Condenses [] [] := by constructor <;> simp

theorem repeated (h : Condenses ks ps) (hk : k ∈ ks.getLast?) (hsame : k.Same p) :
    Condenses ks (ps ++ [p]) where
  sublist := h.sublist.trans (List.sublist_append_left ps [p])
  covers q hq := by
    rcases List.mem_append.mp hq with hq | hq
    · exact h.covers q hq
    · obtain rfl : q = p := by simpa using hq
      exact ⟨k, List.mem_of_getLast? hk, hsame⟩
  separate := h.separate
  last q hq := by
    obtain rfl : p = q := by simpa using hq
    exact ⟨k, hk, hsame⟩

theorem snoc (h : Condenses ks ps) (hlast : ∀ k ∈ ks.getLast?, ¬k.Same p) :
    Condenses (ks ++ [p]) (ps ++ [p]) where
  sublist := h.sublist.append (.refl [p])
  covers q hq := by
    rcases List.mem_append.mp hq with hq | hq
    · obtain ⟨k, hk, hsame⟩ := h.covers q hq
      exact ⟨k, List.mem_append_left _ hk, hsame⟩
    · exact ⟨q, List.mem_append_right _ hq, rfl⟩
  separate := by
    refine List.isChain_append.mpr ⟨h.separate, .singleton p, fun k hk q hq => ?_⟩
    obtain rfl : p = q := by simpa using hq
    exact hlast k hk
  last q hq := ⟨q, by simpa using hq, rfl⟩

/-- More than one path remains exactly if not all are spellings of one path. -/
theorem one_lt_length_iff (h : Condenses ks ps) :
    1 < ks.length ↔ ∃ p ∈ ps, ∃ q ∈ ps, ¬p.Same q := by
  match ks, h with
  | [], h =>
    have hnone : ∀ p, p ∉ ps := fun p hp => by simpa using h.covers p hp
    simp [hnone]
  | [k], h =>
    have hsame : ∀ p ∈ ps, k.Same p := fun p hp => by simpa using h.covers p hp
    have hall : ∀ p ∈ ps, ∀ q ∈ ps, p.Same q :=
      fun p hp q hq => (hsame p hp).symm.trans (hsame q hq)
    simpa using hall
  | k :: l :: ks, h =>
    have hkl : ¬k.Same l := (List.isChain_cons_cons.mp h.separate).1
    refine iff_of_true (by simp) ⟨k, h.sublist.subset (by simp), l, h.sublist.subset (by simp), hkl⟩

end Condenses

/-- The first path of every stretch of spellings of one path. -/
def stretches (ps : List Path) : List Path := ps.destutter fun p q => ¬p.Same q

theorem destutter'_snoc {α : Type} {R : α → α → Prop} [DecidableRel R] (a b : α) (l : List α) :
    (l ++ [b]).destutter' R a =
      if ∀ k ∈ (l.destutter' R a).getLast?, R k b then l.destutter' R a ++ [b]
      else l.destutter' R a := by
  induction l generalizing a with
  | nil => simp [List.destutter'_singleton]
  | cons c l ih =>
    have hne : l.destutter' R c ≠ [] := List.destutter'_ne_nil l R
    rw [List.cons_append, List.destutter'_cons, List.destutter'_cons]
    split_ifs with hac h h
    · rw [ih, if_pos, List.cons_append]
      rwa [List.getLast?_cons_of_ne_nil hne] at h
    · rw [ih, if_neg]
      rwa [List.getLast?_cons_of_ne_nil hne] at h
    · rw [ih, if_pos h]
    · rw [ih, if_neg h]

theorem stretches_snoc (ps : List Path) (p : Path) : stretches (ps ++ [p]) =
    if ∀ k ∈ (stretches ps).getLast?, ¬k.Same p then stretches ps ++ [p] else stretches ps := by
  cases ps with
  | nil => simp [stretches]
  | cons q ps => exact destutter'_snoc q p ps

theorem condenses_stretches (ps : List Path) : Condenses (stretches ps) ps := by
  induction ps using List.reverseRecOn with
  | nil => exact .nil
  | append_singleton ps p ih =>
    rw [stretches_snoc]
    split_ifs with hlast
    · exact ih.snoc hlast
    · push Not at hlast
      obtain ⟨k, hk, hsame⟩ := hlast
      exact ih.repeated hk hsame

/-! ## First occurrences -/

/-- The names, each where it stands first. -/
def firsts (names : List String) : List String :=
  names.foldl (fun seen name => if name ∈ seen then seen else seen ++ [name]) []

theorem firsts_snoc (names : List String) (n : String) : firsts (names ++ [n]) =
    if n ∈ firsts names then firsts names else firsts names ++ [n] := by
  rw [firsts, List.foldl_append]
  rfl

theorem mem_firsts {names : List String} {n : String} : n ∈ firsts names ↔ n ∈ names := by
  induction names using List.reverseRecOn with
  | nil => simp [firsts]
  | append_singleton names m ih =>
    have hsnoc : n ∈ firsts (names ++ [m]) ↔ n ∈ firsts names ∨ n = m := by
      rw [firsts_snoc]
      split_ifs with hm
      · exact ⟨.inl, fun h => h.elim id fun heq => heq ▸ hm⟩
      · simp
    rw [hsnoc, ih]
    simp

theorem pairwise_firsts (names : List String) :
    (firsts names).Pairwise fun m n => names.idxOf m < names.idxOf n := by
  induction names using List.reverseRecOn with
  | nil => simp [firsts]
  | append_singleton names n ih =>
    have hbefore : ∀ m ∈ firsts names, (names ++ [n]).idxOf m = names.idxOf m := fun m hm =>
      List.idxOf_append_of_mem (mem_firsts.mp hm)
    have hpairwise : (firsts names).Pairwise fun l m =>
        (names ++ [n]).idxOf l < (names ++ [n]).idxOf m :=
      ih.imp_of_mem fun hl hm h => by rwa [hbefore _ hl, hbefore _ hm]
    rw [firsts_snoc]
    split_ifs with hn
    · exact hpairwise
    · refine List.pairwise_append.mpr ⟨hpairwise, List.pairwise_singleton _ _, fun m hm l hl => ?_⟩
      obtain rfl : l = n := by simpa using hl
      rw [hbefore m hm, List.idxOf_append_of_notMem (mem_firsts.not.mp hn)]
      exact (List.idxOf_lt_length_iff.mpr (mem_firsts.mp hm)).trans_le (Nat.le_add_right _ _)

namespace Declarers

variable {d : Declarers} {n m : String} {p : Path} {ps : List Path} {f : SourceFile}

theorem addPath_idem (p : Path) (ps : List Path) : addPath p (addPath p ps) = addPath p ps := by
  obtain ⟨q, qs, hadd, hsame⟩ := head_addPath p ps
  rw [hadd, addPath, if_pos hsame]

theorem reverse_addPath (p : Path) (ks : List Path) : (addPath p ks).reverse =
    if ∀ k ∈ ks.reverse.getLast?, ¬k.Same p then ks.reverse ++ [p] else ks.reverse := by
  cases ks with
  | nil => simp [addPath]
  | cons k ks =>
    rw [addPath]
    by_cases hsame : k.Same p
    · simp [hsame]
    · simp [hsame]

/-- A file that declares a name several times is known for it once. -/
theorem pathsOf_addFile (d : Declarers) (f : SourceFile) (n : String) :
    pathsOf (d.addFile f) n =
      if n ∈ f.declares then addPath f.path (pathsOf d n) else pathsOf d n := by
  rw [addFile]
  induction f.declares generalizing d with
  | nil => simp
  | cons m names ih =>
    rw [List.foldl_cons, ih, pathsOf_add]
    by_cases hm : m = n
    · subst hm
      simp [addPath_idem]
    · simp [hm, Ne.symm hm]

theorem map_fst_add (d : Declarers) (p : Path) (n : String) :
    (d.add p n).map Prod.fst =
      if n ∈ d.map Prod.fst then d.map Prod.fst else d.map Prod.fst ++ [n] := by
  induction d with
  | nil => simp [add]
  | cons entry d ih =>
    obtain ⟨m, ps⟩ := entry
    rw [add]
    by_cases hm : m = n
    · simp [hm]
    · simp only [hm, if_false, List.map_cons, ih, List.mem_cons, Ne.symm hm, false_or]
      split_ifs <;> simp

theorem map_fst_addAll (xs : List (Path × String)) :
    (addAll [] xs).map Prod.fst = firsts (xs.map Prod.snd) := by
  induction xs using List.reverseRecOn with
  | nil => rfl
  | append_singleton xs x ih =>
    rw [List.map_append, List.map_singleton, firsts_snoc, ← ih, ← map_fst_add _ x.1, addAll,
      List.foldl_append]
    rfl

theorem pathsOf_of_mem (hd : (d.map Prod.fst).Nodup) (h : (n, ps) ∈ d) : pathsOf d n = ps := by
  induction d with
  | nil => cases h
  | cons entry d ih =>
    rw [List.map_cons, List.nodup_cons] at hd
    rw [pathsOf_cons]
    rcases List.mem_cons.mp h with rfl | h
    · simp
    · have hne : entry.1 ≠ n := fun heq => hd.1 (heq ▸ List.mem_map_of_mem h)
      rw [if_neg hne, ih hd.2 h]

theorem mem_of_pathsOf (h : pathsOf d n ≠ []) : (n, pathsOf d n) ∈ d := by
  induction d with
  | nil => exact absurd rfl h
  | cons entry d ih =>
    rw [pathsOf_cons] at h ⊢
    split_ifs at h ⊢ with hn
    · simp [← hn]
    · exact List.mem_cons_of_mem _ (ih h)

end Declarers

namespace Graph

variable {g : Graph} {c : Clash} {n : String} {p : Path}

/-- The files that declare the name, in graph order. -/
def declaring (g : Graph) (n : String) : List SourceFile := g.files.filter (n ∈ ·.declares)

/-- The paths that a pass over the files ends with if a later declaration replaces an earlier
one. -/
def index (g : Graph) : String → Option Path :=
  g.files.foldl (fun found f =>
    f.declares.foldl (fun found n => Function.update found n (some f.path)) found) fun _ => none

theorem mem_declaring_paths : p ∈ (g.declaring n).map SourceFile.path ↔
    ∃ f ∈ g.files, n ∈ f.declares ∧ f.path = p := by
  simp [declaring, and_assoc]

/-! ## The owner -/

theorem owner?_eq_getLast? (g : Graph) (n : String) :
    g.owner? n = ((g.declaring n).map SourceFile.path).getLast? := by
  rw [owner?, declaring, List.getLast?_map, ← List.head?_filter, List.filter_reverse,
    List.head?_reverse]

theorem indexFile_apply (found : String → Option Path) (f : SourceFile) (n : String) :
    f.declares.foldl (fun found n => Function.update found n (some f.path)) found n =
      if n ∈ f.declares then some f.path else found n := by
  induction f.declares generalizing found with
  | nil => simp
  | cons m names ih =>
    rw [List.foldl_cons, ih]
    by_cases hm : n = m
    · simp [hm]
    · simp [hm]

theorem index_eq_owner? (g : Graph) : g.index = g.owner? := by
  obtain ⟨files⟩ := g
  funext n
  rw [owner?_eq_getLast?, index, declaring]
  induction files using List.reverseRecOn with
  | nil => rfl
  | append_singleton files f ih =>
    rw [List.foldl_append, List.foldl_cons, List.foldl_nil, indexFile_apply, List.filter_append]
    by_cases hn : n ∈ f.declares
    · simp [hn]
    · simp [hn, ih]

/-- The owner is the last file that declares the name. -/
theorem owner?_eq_some_iff_append : g.owner? n = some p ↔
    ∃ before f after, g.files = before ++ f :: after ∧ n ∈ f.declares ∧
      (∀ f' ∈ after, n ∉ f'.declares) ∧ f.path = p := by
  rw [owner?, Option.map_eq_some_iff]
  simp only [List.find?_eq_some_iff_append, decide_eq_true_eq, Bool.not_eq_true',
    decide_eq_false_iff_not]
  constructor
  · rintro ⟨f, ⟨hn, after, before, hfiles, hafter⟩, hpath⟩
    refine ⟨before.reverse, f, after.reverse, ?_, hn, fun f' hf' => ?_, hpath⟩
    · simpa using congrArg List.reverse hfiles
    · exact hafter f' (List.mem_reverse.mp hf')
  · rintro ⟨before, f, after, hfiles, hn, hafter, hpath⟩
    refine ⟨f, ⟨hn, after.reverse, before.reverse, by simp [hfiles], fun f' hf' => ?_⟩, hpath⟩
    exact hafter f' (List.mem_reverse.mp hf')

theorem owner?_eq_none_iff : g.owner? n = none ↔ ∀ f ∈ g.files, n ∉ f.declares := by
  simp [owner?]

/-! ## The clashes -/

theorem map_snd_declarations (g : Graph) :
    g.declarations.map Prod.snd = g.files.flatMap SourceFile.declares := by
  simp [declarations, List.map_flatMap]

theorem map_fst_declarers (g : Graph) : g.declarers.map Prod.fst = g.declaredNames := by
  rw [declarers_eq, Declarers.map_fst_addAll, map_snd_declarations]
  rfl

theorem pairwise_declaredNames (g : Graph) : g.declaredNames.Pairwise fun m n =>
    (g.files.flatMap SourceFile.declares).idxOf m < (g.files.flatMap SourceFile.declares).idxOf n :=
  pairwise_firsts _

theorem nodup_declaredNames (g : Graph) : g.declaredNames.Nodup :=
  (pairwise_declaredNames g).imp fun h heq => by simp [heq] at h

/-- The pass over the files keeps one path for every stretch. -/
theorem reverse_pathsOf (g : Graph) (n : String) :
    (Declarers.pathsOf g.declarers n).reverse =
      stretches ((g.declaring n).map SourceFile.path) := by
  obtain ⟨files⟩ := g
  rw [declarers, declaring]
  induction files using List.reverseRecOn with
  | nil => rfl
  | append_singleton files f ih =>
    rw [List.foldl_append, List.foldl_cons, List.foldl_nil, Declarers.pathsOf_addFile,
      List.filter_append]
    by_cases hn : n ∈ f.declares
    · simp [hn, Declarers.reverse_addPath, stretches_snoc, ih]
    · simpa [hn] using ih

theorem condenses_pathsOf (g : Graph) (n : String) :
    Condenses (Declarers.pathsOf g.declarers n).reverse
      ((g.declaring n).map SourceFile.path) :=
  reverse_pathsOf g n ▸ condenses_stretches _

theorem mem_clashes_iff : c ∈ g.clashes ↔ 1 < c.paths.length ∧
    c.paths = (Declarers.pathsOf g.declarers c.name).reverse := by
  have hentry : ∀ n ps, 1 < ps.length →
      ((n, ps) ∈ g.declarers ↔ Declarers.pathsOf g.declarers n = ps) := by
    intro n ps hps
    constructor
    · exact Declarers.pathsOf_of_mem (map_fst_declarers g ▸ nodup_declaredNames g)
    · rintro rfl
      exact Declarers.mem_of_pathsOf (List.ne_nil_of_length_pos (by omega))
  obtain ⟨n, paths⟩ := c
  simp only [clashes, List.mem_filterMap, Prod.exists, Option.ite_none_right_eq_some,
    Option.some.injEq, Clash.mk.injEq]
  constructor
  · rintro ⟨m, ps, hmem, hps, rfl, rfl⟩
    exact ⟨by simpa using hps, by rw [(hentry m ps hps).mp hmem]⟩
  · rintro ⟨hlength, rfl⟩
    rw [List.length_reverse] at hlength
    exact ⟨n, _, (hentry n _ hlength).mpr rfl, hlength, rfl, rfl⟩

theorem mem_map_name_clashes : n ∈ g.clashes.map Clash.name ↔
    1 < (Declarers.pathsOf g.declarers n).length := by
  rw [List.mem_map]
  constructor
  · rintro ⟨c, hc, rfl⟩
    obtain ⟨hlength, hpaths⟩ := mem_clashes_iff.mp hc
    rwa [hpaths, List.length_reverse] at hlength
  · intro hlength
    exact ⟨⟨n, (Declarers.pathsOf g.declarers n).reverse⟩,
      mem_clashes_iff.mpr ⟨by simpa using hlength, rfl⟩, rfl⟩

theorem exists_clash_iff (g : Graph) (n : String) : n ∈ g.clashes.map Clash.name ↔
    ∃ f ∈ g.files, ∃ f' ∈ g.files,
      n ∈ f.declares ∧ n ∈ f'.declares ∧ ¬f.path.Same f'.path := by
  rw [mem_map_name_clashes, ← List.length_reverse, (condenses_pathsOf g n).one_lt_length_iff]
  constructor
  · rintro ⟨p, hp, q, hq, hne⟩
    obtain ⟨f, hf, hn, rfl⟩ := mem_declaring_paths.mp hp
    obtain ⟨f', hf', hn', rfl⟩ := mem_declaring_paths.mp hq
    exact ⟨f, hf, f', hf', hn, hn', hne⟩
  · rintro ⟨f, hf, f', hf', hn, hn', hne⟩
    exact ⟨_, mem_declaring_paths.mpr ⟨f, hf, hn, rfl⟩, _,
      mem_declaring_paths.mpr ⟨f', hf', hn', rfl⟩, hne⟩

theorem condenses_of_mem_clashes (hc : c ∈ g.clashes) :
    Condenses c.paths ((g.declaring c.name).map SourceFile.path) :=
  (mem_clashes_iff.mp hc).2 ▸ condenses_pathsOf g c.name

theorem owner_of_mem_clashes (hc : c ∈ g.clashes) :
    ∃ p q, c.paths.getLast? = some p ∧ g.owner? c.name = some q ∧ p.Same q := by
  have hcondenses := condenses_of_mem_clashes hc
  have hne : (g.declaring c.name).map SourceFile.path ≠ [] := by
    have hlength := (mem_clashes_iff.mp hc).1.trans_le hcondenses.sublist.length_le
    exact List.ne_nil_of_length_pos (by omega)
  have howner := (owner?_eq_getLast? g c.name).trans (List.getLast?_eq_some_getLast hne)
  obtain ⟨p, hp, hsame⟩ := hcondenses.last _ (List.getLast?_eq_some_getLast hne)
  exact ⟨p, _, hp, howner, hsame⟩

theorem map_name_clashes_sublist (g : Graph) :
    (g.clashes.map Clash.name).Sublist g.declaredNames := by
  have hnames : g.clashes.map Clash.name =
      (g.declarers.filter fun entry => 1 < entry.2.length).map Prod.fst := by
    rw [clashes]
    induction g.declarers with
    | nil => rfl
    | cons entry d ih =>
      rw [List.filterMap_cons, List.filter_cons]
      by_cases hlength : 1 < entry.2.length
      · simp [hlength, ih]
      · simp [hlength, ih]
  rw [hnames, ← map_fst_declarers]
  exact List.filter_sublist.map _

/-- A name belongs to the last file that declares it, and it clashes exactly if two files declare
it whose paths differ. There is one clash for such a name, the clashes stand in the order in which
their names are declared first, and each has the paths of the files that declare the name, up to
repetitions, with the owner at the end. -/
theorem owners_and_clashes (g : Graph) :
    (∀ n, g.index n = g.owner? n) ∧
    (∀ n p, g.owner? n = some p ↔ ∃ before f after, g.files = before ++ f :: after ∧
      n ∈ f.declares ∧ (∀ f' ∈ after, n ∉ f'.declares) ∧ f.path = p) ∧
    (∀ n, g.owner? n = none ↔ ∀ f ∈ g.files, n ∉ f.declares) ∧
    (∀ n, n ∈ g.clashes.map Clash.name ↔ ∃ f ∈ g.files, ∃ f' ∈ g.files,
      n ∈ f.declares ∧ n ∈ f'.declares ∧ ¬f.path.Same f'.path) ∧
    (g.clashes.map Clash.name).Nodup ∧
    (g.clashes.map Clash.name).Pairwise (fun m n =>
      (g.files.flatMap SourceFile.declares).idxOf m <
        (g.files.flatMap SourceFile.declares).idxOf n) ∧
    ∀ c ∈ g.clashes,
      Condenses c.paths ((g.declaring c.name).map SourceFile.path) ∧
      ∃ p q, c.paths.getLast? = some p ∧ g.owner? c.name = some q ∧ p.Same q := by
  have hnames := map_name_clashes_sublist g
  refine ⟨congrFun (index_eq_owner? g), fun n p => owner?_eq_some_iff_append,
    fun n => owner?_eq_none_iff, exists_clash_iff g, (nodup_declaredNames g).sublist hnames,
    (pairwise_declaredNames g).sublist hnames, fun c hc => ?_⟩
  exact ⟨condenses_of_mem_clashes hc, owner_of_mem_clashes hc⟩

/-- One name is declared twice by the first file, and its files come back to that path. The third
file has a spelling of the second one's path. -/
def repeatingGraph : Graph :=
  ⟨[⟨.ofString "a", ["N", "M", "N"], []⟩, ⟨.ofString "b", ["N"], []⟩,
    ⟨.ofString "b/.", ["M", "N"], []⟩, ⟨.ofString "a", ["N"], []⟩]⟩

theorem owners_and_clashes_of_repetitions :
    repeatingGraph.index "N" = some (.ofString "a") ∧
      Condenses [.ofString "a", .ofString "b", .ofString "a"]
        [.ofString "a", .ofString "b", .ofString "b/.", .ofString "a"] ∧
      repeatingGraph.owner? "M" = some (.ofString "b/.") := by
  have hfiles : (repeatingGraph.declaring "N").map SourceFile.path =
      [.ofString "a", .ofString "b", .ofString "b/.", .ofString "a"] := by
    decide +kernel
  have hclash : ⟨"N", [.ofString "a", .ofString "b", .ofString "a"]⟩ ∈ repeatingGraph.clashes := by
    decide +kernel
  obtain ⟨hindex, howner, -, -, -, -, hpaths⟩ := owners_and_clashes repeatingGraph
  refine ⟨(hindex "N").trans (by decide +kernel), hfiles ▸ (hpaths _ hclash).1, ?_⟩
  refine (howner "M" _).mpr ⟨repeatingGraph.files.take 2, ⟨.ofString "b/.", ["M", "N"], []⟩,
    repeatingGraph.files.drop 3, rfl, by simp, ?_, rfl⟩
  simp [repeatingGraph]

end Graph

end TypeDeps
