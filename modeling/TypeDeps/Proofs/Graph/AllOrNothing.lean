import TypeDeps.Proofs.Disk.Parents
import TypeDeps.Proofs.Disk.Walks
import TypeDeps.Proofs.Graph.Files
import TypeDeps.Proofs.Path.Endings
import TypeDeps.Store.Fragment

/-!
# Saving a graph is all or nothing

A graph that has been saved reads back, nothing is left of the temporary file, and no other file
has been touched. If it could not be saved, no file but the temporary one has been touched, and a
graph without document leaves no trace at all.
-/
namespace TypeDeps.Graph

open Disk

/-- The graph has been saved, and only it. -/
structure Saved (p : Path) (g : Graph) (d d' : Disk) : Prop where
  reads : d'.perform (load p) = (.ok g, d')
  tidy : d'.isThere (Storage.temporary p) = false
  frame : Frame [d.placeOf (Storage.temporary p), d.placeOf p] d d'
  directories : Makes (d.way p) d d'

/-- Nothing has been saved. What was at the path is still there. -/
structure Unsaved (p : Path) (e : Error) (d d' : Disk) : Prop where
  spares : Spares p d d'
  frame : Frame [d.placeOf (Storage.temporary p)] d d'
  directories : Makes (d.way p) d d'
  unwritable : ∀ reason, e = .unwritable reason → d' = d

/-- What an attempt to save a graph may answer and leave behind. -/
def AllOrNothing {α : Type} (p : Path) (g : Graph) (d : Disk) : Except Error α × Disk → Prop
  | (.ok _, d') => Saved p g d d'
  | (.error e, d') => Unsaved p e d d'

variable {d d' : Disk} {p : Path} {g : Graph} {bytes : List UInt8}

/-- The temporary file is gone once it has taken its place. -/
theorem isThere_temporary_of_writeAtomic
    (h : d.perform (Storage.writeAtomic p bytes) = (.ok (), d')) :
    d'.isThere (Storage.temporary p) = false := by
  rw [writeAtomic_eq] at h
  obtain ⟨_, d₁, -, h⟩ := perform_bind_eq_ok_iff.mp h
  obtain ⟨_, d₂, -, h⟩ := perform_bind_eq_ok_iff.mp h
  have hmove : d₂.replace (Storage.temporary p) p = .ok d' := perform_change_eq_ok_iff.mp h
  have hhere := (replace_frame hmove).1.here
  obtain ⟨c, -, hs, ht, -, -, -, hd'⟩ := replace_eq hmove
  have hgone : d'.at? (d₂.placeOf (Storage.temporary p)) = none := by
    rw [hd', at?_put _ ht, at?_erase _ hs, if_neg (d₂.placeOf_temporary_ne p), if_pos rfl]
  rw [← Bool.not_eq_true, isThere_iff, placeOf_congr hhere, hgone]
  simp

theorem save_makes (d : Disk) (p : Path) (g : Graph) :
    Makes (d.way p) d (d.perform (save p g)).2 := by
  cases hw : g.write with
  | error e =>
    rw [perform_save_of_error hw]
    exact .refl _ _
  | ok t =>
    rw [perform_save_of_write hw]
    exact writeAtomic_makes d p _

/-- Only a graph without document is unwritable. -/
theorem disk_of_unwritable {reason : String}
    (h : d.perform (save p g) = (.error (.unwritable reason), d')) : d' = d := by
  cases hw : g.write with
  | error e =>
    rw [perform_save_of_error hw] at h
    exact (Prod.mk.inj h).2.symm
  | ok t =>
    rw [perform_save_of_write hw] at h
    obtain ⟨failure, hfailure⟩ := storage_of_writeAtomic (congrArg Prod.fst h)
    cases hfailure

theorem saved_of_save (h : d.perform (save p g) = (.ok (), d')) : Saved p g d d' := by
  have hframe := save_frame d p g
  have hmakes := save_makes d p g
  rw [h] at hframe hmakes
  obtain ⟨t, hw, hcontent⟩ := contentAt_of_save h
  rw [perform_save_of_write hw] at h
  exact ⟨perform_load_of_write hw hcontent, isThere_temporary_of_writeAtomic h, hframe, hmakes⟩

theorem unsaved_of_save {e : Error} (h : d.perform (save p g) = (.error e, d')) :
    Unsaved p e d d' := by
  have hframe := save_frame_of_error h
  have hmakes := save_makes d p g
  rw [h] at hmakes
  have hp : d.placeOf p ∉ [d.placeOf (Storage.temporary p)] := by
    simpa using (d.placeOf_temporary_ne p).symm
  refine ⟨hframe.spares hp, hframe, hmakes, fun reason hreason => ?_⟩
  rw [hreason] at h
  exact disk_of_unwritable h

theorem allOrNothing_save (d : Disk) (p : Path) (g : Graph) :
    AllOrNothing p g d (d.perform (save p g)) := by
  rcases h : d.perform (save p g) with ⟨e | u, d'⟩
  · exact unsaved_of_save h
  · exact saved_of_save h

theorem perform_writeModule (d : Disk) (s : Store) (g : Graph) :
    d.perform (s.writeModule g) =
      ((d.perform (save s.modulePath g)).1.map fun _ => s.modulePath,
        (d.perform (save s.modulePath g)).2) := by
  rw [Store.writeModule, perform_bind]
  rcases d.perform (save s.modulePath g) with ⟨_ | _, d'⟩ <;> rfl

/-- Both ways to write a graph are all or nothing, and the one for a whole module answers where it
has been written. -/
theorem save_all_or_nothing (d : Disk) (p : Path) (s : Store) (g : Graph) :
    AllOrNothing p g d (d.perform (save p g)) ∧
      AllOrNothing s.modulePath g d (d.perform (s.writeModule g)) ∧
      ∀ q, (d.perform (s.writeModule g)).1 = .ok q → q = s.modulePath := by
  have hmodule := allOrNothing_save d s.modulePath g
  refine ⟨allOrNothing_save d p g, ?_⟩
  rw [perform_writeModule]
  generalize d.perform (save s.modulePath g) = result at hmodule ⊢
  obtain ⟨e | u, d'⟩ := result
  · refine ⟨hmodule, fun q hq => ?_⟩
    cases hq
  · exact ⟨hmodule, fun q hq => (Except.ok.inj hq).symm⟩

def appStore : Store := ⟨.ofString "out", "app", .existence⟩

def appGraph : Graph := ⟨[⟨.ofString "A.java", ["pkg.A"], ["pkg.B"]⟩]⟩

/-- A directory lies where the temporary file of the module graph has to be. -/
def obstructedDisk : Disk :=
  ((Disk.empty []).put [bytesOf "out"] .directory).put
    [bytesOf "out", bytesOf "app-graph.json.tmp"] .directory

/-- One save goes well, one is obstructed. -/
theorem save_all_or_nothing_samples : ∃ d' obstructed,
    (Disk.empty []).perform (appStore.writeModule appGraph) =
      (.ok appStore.modulePath, d') ∧
    Saved appStore.modulePath appGraph (Disk.empty []) d' ∧
    obstructedDisk.perform (save appStore.modulePath appGraph) =
      (.error (.storage .isDirectory), obstructed) ∧
    Unsaved appStore.modulePath (.storage .isDirectory) obstructedDisk obstructed := by
  have hwrite : ((Disk.empty []).perform (appStore.writeModule appGraph)).1 =
      .ok appStore.modulePath := by
    decide +kernel
  have hfail : (obstructedDisk.perform (save appStore.modulePath appGraph)).1 =
      .error (.storage .isDirectory) := by
    decide +kernel
  obtain ⟨d', hwrite⟩ := exists_snd hwrite
  obtain ⟨obstructed, hfail⟩ := exists_snd hfail
  have hsaved := (save_all_or_nothing (Disk.empty []) appStore.modulePath appStore
    appGraph).2.1
  have hunsaved := (save_all_or_nothing obstructedDisk appStore.modulePath appStore
    appGraph).1
  rw [hwrite] at hsaved
  rw [hfail] at hunsaved
  exact ⟨d', obstructed, hwrite, hsaved, hfail, hunsaved⟩

end TypeDeps.Graph
