import TypeDeps.Proofs.Path.Folders
import TypeDeps.Proofs.Store.Keys

/-!
# Where the files of a store lie

A file of a store lies below the store's directory unless the folder in its key climbs further up
than it has come down. What keys are freed of is slashes in front, not names that climb, and the
key of the module is not freed of anything: an absolute one leads away from the directory.
-/
namespace TypeDeps

namespace Path

def Component.isName : Component → Bool
  | .name _ => true
  | _ => false

/-- Read from the front, there are never more parents than names. -/
def NeverClimbs (cs : List Component) : Prop :=
  ∀ front, front <+: cs → front.count .up ≤ front.countP Component.isName

instance (cs : List Component) : Decidable (NeverClimbs cs) :=
  decidable_of_iff (∀ front ∈ cs.inits, front.count .up ≤ front.countP Component.isName)
    (by simp [NeverClimbs])

/-- The path goes on from the directory, and does not climb out of it. -/
def LiesBelow (p directory : Path) : Prop :=
  ∃ rest, p.components = directory.components ++ rest ∧ NeverClimbs rest

variable {p q directory : Path} {cs : List Component} {c : Component} {e : String}

theorem NeverClimbs.initial {front : List Component} (h : NeverClimbs cs) (hp : front <+: cs) :
    NeverClimbs front :=
  fun front' hfront => h front' (hfront.trans hp)

theorem neverClimbs_concat_iff : NeverClimbs (cs ++ [c]) ↔
    NeverClimbs cs ∧ (cs ++ [c]).count .up ≤ (cs ++ [c]).countP Component.isName := by
  constructor
  · intro h
    exact ⟨h.initial (List.prefix_append cs [c]), h _ (List.prefix_refl _)⟩
  · rintro ⟨h, hall⟩ front hfront
    rcases List.prefix_concat_iff.mp hfront with rfl | hp
    · exact hall
    · exact h front hp

/-- A name at the end takes nobody up. -/
theorem neverClimbs_concat_name (cs : List Component) (n : List UInt8) :
    NeverClimbs (cs ++ [.name n]) ↔ NeverClimbs cs := by
  rw [neverClimbs_concat_iff, and_iff_left_iff_imp]
  intro h
  have hcs := h cs (List.prefix_refl cs)
  have hup : (cs ++ [Component.name n]).count .up = cs.count .up := by
    simp
  have hname : (cs ++ [Component.name n]).countP Component.isName =
      cs.countP Component.isName + 1 := by
    simp [Component.isName]
  omega

/-- A dot in front says nothing. -/
theorem neverClimbs_here_cons : NeverClimbs (.here :: cs) ↔ NeverClimbs cs := by
  have hup : ∀ front : List Component, (Component.here :: front).count .up = front.count .up :=
    fun front => List.count_cons_of_ne (by simp)
  have hname : ∀ front : List Component,
      (Component.here :: front).countP Component.isName = front.countP Component.isName :=
    fun front => List.countP_cons_of_neg (by simp [Component.isName])
  constructor
  · intro h front hfront
    have hall := h (.here :: front) ((List.prefix_cons_inj _).mpr hfront)
    rwa [hup, hname] at hall
  · intro h front hfront
    rcases List.prefix_cons_iff.mp hfront with rfl | ⟨rest, rfl, hrest⟩
    · simp
    · rw [hup, hname]
      exact h rest hrest

end Path

namespace Disk

open TypeDeps.Path

variable {cs : List Component} {c : Component} {n : Name}

theorem stepBy_name (h : (Component.name n).IsInner) (place : Place) :
    stepBy place (.name n) = place ++ [n] := by
  have hspelled : Component.ofSegment? n = some (.name n) := h.spelled
  obtain ⟨hempty, hdot⟩ := h.bytes_ne
  have hparent : n ≠ [dot, dot] := by
    rintro rfl
    simp [Component.ofSegment?] at hspelled
  rw [stepBy, if_neg hempty, stepTo, if_neg hdot, Component.bytes, if_neg hparent]

theorem stepBy_up (place : Place) : stepBy place .up = place.dropLast := rfl

theorem isInner_of_canonical (h : Canonical cs) (hn : .name n ∈ cs) :
    (Component.name n).IsInner := by
  obtain @⟨lead, inner, hlead, hinner⟩ := h
  rcases List.mem_append.mp hn with hn | hn
  · rcases hlead with rfl | rfl | rfl <;> simp at hn
  · exact hinner _ hn

/-- What does not climb leads below where it starts, as deep as it has more names than parents. -/
theorem exists_foldl_stepBy (hcs : Canonical cs) (h : NeverClimbs cs) (place : Place) :
    ∃ below, cs.foldl stepBy place = place ++ below ∧
      below.length + cs.count .up = cs.countP Component.isName := by
  induction cs using List.reverseRecOn with
  | nil => exact ⟨[], by simp, by simp⟩
  | append_singleton cs c ih =>
    obtain ⟨hfront, hall⟩ := neverClimbs_concat_iff.mp h
    obtain ⟨below, hplace, hlength⟩ := ih (hcs.initial (List.prefix_append cs [c])) hfront
    rw [List.count_append, List.countP_append] at hall
    rw [List.foldl_append, hplace, List.foldl_cons, List.foldl_nil, List.count_append,
      List.countP_append]
    cases c with
    | root => exact ⟨below, rfl, by simpa [Component.isName] using hlength⟩
    | here => exact ⟨below, rfl, by simpa [Component.isName] using hlength⟩
    | up =>
      -- there is a name to be taken back, since the parents do not outnumber the names
      simp only [List.count_singleton_self, List.countP_singleton, Component.isName,
        Bool.false_eq_true, if_false] at hall ⊢
      have hpos : 0 < below.length := by omega
      refine ⟨below.dropLast, ?_, ?_⟩
      · rw [stepBy_up, List.dropLast_append_of_ne_nil (List.length_pos_iff.mp hpos)]
      · rw [List.length_dropLast]
        omega
    | name n =>
      refine ⟨below ++ [n], ?_, ?_⟩
      · rw [stepBy_name (isInner_of_canonical hcs (by simp)), List.append_assoc]
      · simp [Component.isName]
        omega

end Disk

namespace Path

/-! ## Joined paths -/

/-- The path goes on from the directory, and stays below it as long as the folder in its name does
not climb. -/
structure Anchored (directory name p : Path) : Prop where
  continues : directory.components <+: p.components
  below_iff : p.LiesBelow directory ↔ NeverClimbs name.folder.components
  place : NeverClimbs name.folder.components → ∀ d : Disk, d.placeOf directory <+: d.placeOf p

theorem anchored_join (he : IsEnding e) (hq : q.isAbsolute = false) :
    Anchored p q (p.join (q.append e)) := by
  have hrelative : (q.append e).isAbsolute = false := by rw [isAbsolute_append he.noSlash, hq]
  have hcomponents := components_append he q
  obtain ⟨rest, hjoin, hrest⟩ := components_join (p := p) hrelative
  have hclimbs : NeverClimbs rest ↔ NeverClimbs q.folder.components := by
    rw [← neverClimbs_concat_name q.folder.components (q.stem ++ bytesOf e),
      ← hcomponents]
    rcases hrest with h | h
    · rw [h]
    · rw [h, neverClimbs_here_cons]
  refine ⟨⟨rest, hjoin.symm⟩, ?_, fun h d => ?_⟩
  · rw [← hclimbs, LiesBelow, hjoin]
    simp
  · have hname : NeverClimbs (q.append e).components := by
      rwa [hcomponents, neverClimbs_concat_name]
    obtain ⟨below, hbelow, -⟩ :=
      Disk.exists_foldl_stepBy (canonical_components _) hname (d.placeOf p)
    rw [Disk.placeOf_join d hrelative, Disk.foldl_stepTo_names, hbelow]
    exact List.prefix_append _ below

end Path

namespace Store

open TypeDeps.Path

/-- The files of a key always go on from the store's directory, and lie below it exactly if the
folder in the key does not climb. So does the module graph if the module's key is relative. If it
is absolute, the directory has no say. -/
theorem files_anchored (s : Store) (key : String) :
    Anchored s.outputDir (relativePath key) (s.fragmentPath key) ∧
      Anchored s.outputDir (relativePath key) (s.digestPath key) ∧
      if (Path.ofString s.moduleName).isAbsolute then
        s.modulePath = .ofString (s.moduleName ++ "-graph.json")
      else Anchored s.outputDir (.ofString s.moduleName) s.modulePath := by
  have hkey := isAbsolute_relativePath key
  refine ⟨?_, ?_, ?_⟩
  · rw [fragmentPath_eq_join_append]
    exact anchored_join isEnding_fragment hkey
  · rw [digestPath_eq_join_append]
    exact anchored_join isEnding_digest hkey
  · split_ifs with hmodule
    · have habsolute : (Path.ofString (s.moduleName ++ "-graph.json")).isAbsolute := by
        rwa [ofString_append, isAbsolute_append isEnding_module.noSlash]
      rw [modulePath, join, if_pos habsolute]
    · rw [modulePath_eq_join_append]
      exact anchored_join isEnding_module (by simpa using hmodule)

example : ¬NeverClimbs (relativePath "/../../x").folder.components := by decide +kernel

def strayStore : Store := ⟨.ofString "out", "/etc/app", .existence⟩

/-- A module graph can lie outside of the directory. -/
theorem absolute_module_leaves_directory :
    ¬∀ (s : Store) (key : String), (s.fragmentPath key).LiesBelow s.outputDir ∧
      (s.digestPath key).LiesBelow s.outputDir ∧ s.modulePath.LiesBelow s.outputDir := by
  intro h
  obtain ⟨rest, hrest, -⟩ := (h strayStore "A.java").2.2
  have hhead : strayStore.modulePath.components.head? = some .root := by decide +kernel
  have hdirectory : strayStore.outputDir.components = [.name (bytesOf "out")] := by
    decide +kernel
  simp [hrest, hdirectory] at hhead

end Store

end TypeDeps
