import TypeDeps.Proofs.Path.Folders
import TypeDeps.Proofs.Session.Origins
import TypeDeps.Proofs.Store.Keys

/-!
# Fragments behind the end of a session

Fragments and module graphs are named by two rules, and the rules can give one name: a key whose
last name is that of the module with `-graph` behind it has the module graph for its fragment, as
long as both keys name one folder. Such a fragment is replaced when its session is finished. Every
other one is as it was.
-/
namespace TypeDeps

namespace Store

open TypeDeps.Path

variable {s : Store} {key : String} {d : Disk}

/-- The last name in the key is that of the module graph. -/
def SharesName (s : Store) (key : String) : Prop :=
  (relativePath key).stem = (Path.ofString s.moduleName).stem ++ bytesOf "-graph"

theorem sharesName_iff : s.SharesName key ↔
    (s.stemPath key).stem ++ bytesOf ".json" =
      (s.outputDir.join (Path.ofString s.moduleName)).stem ++ bytesOf "-graph.json" := by
  have hending : bytesOf "-graph.json" = bytesOf "-graph" ++ bytesOf ".json" := by decide
  rw [hending, ← List.append_assoc, List.append_cancel_right_eq, stemPath,
    (folder_stem_join _ _).2, (folder_stem_join _ _).2, SharesName, relativePath]

/-- When a fragment's path is a spelling of the module graph's. -/
theorem fragment_same_module_iff : (s.fragmentPath key).Same s.modulePath ↔
    (s.outputDir.join (relativePath key).folder).Same
        (s.outputDir.join (Path.ofString s.moduleName).folder) ∧
      s.SharesName key := by
  rw [fragmentPath_eq, modulePath_eq, append_same_append_iff isEnding_fragment isEnding_module,
    sharesName_iff, (folder_stem_join _ _).1, stemPath, (folder_stem_join _ _).1, relativePath]

/-- When a fragment lies where the module graph does. -/
theorem fragment_place_module_iff : d.placeOf (s.fragmentPath key) = d.placeOf s.modulePath ↔
    d.placeOf (s.outputDir.join (relativePath key).folder) =
        d.placeOf (s.outputDir.join (Path.ofString s.moduleName).folder) ∧
      s.SharesName key := by
  rw [fragmentPath_eq, modulePath_eq, Disk.placeOf_append_eq_iff isEnding_fragment isEnding_module,
    sharesName_iff, (folder_stem_join _ _).1, stemPath, (folder_stem_join _ _).1, relativePath]

end Store

namespace Session

open Disk

variable {s : Session} {key : String} {d d' : Disk} {c : List UInt8}
variable {answer : Except Error SessionResult}

/-- A fragment outlasts the end of a session unless it lies where the module graph is saved. -/
theorem fragment_outlasts_finish (hc : d.contentAt (s.store.fragmentPath key) = .ok c)
    (h : d.perform s.finish = (answer, d'))
    (hnot : ¬(d.placeOf (s.store.fragmentPath key) = d.placeOf s.store.modulePath ∧
      answer.isOk)) : d'.contentAt (s.store.fragmentPath key) = .ok c := by
  by_cases hplace : d.placeOf (s.store.fragmentPath key) = d.placeOf s.store.modulePath
  · obtain ⟨saved, hsaved, hok⟩ := saved_of_finish h
    cases saved with
    | ok u => exact absurd ⟨hplace, hok.mp rfl⟩ hnot
    | error e =>
      refine contentAt_frame (Graph.save_frame_of_error hsaved) ?_ hc
      rw [List.mem_singleton]
      exact Store.place_ne_temporary (.fragment key) .moduleGraph
  · have hframe := s.finish_frame d
    rw [h] at hframe
    exact contentAt_frame hframe (Store.place_not_mem (.fragment key) .moduleGraph hplace) hc

/-- One that lies there reads as the module graph from then on. -/
theorem fragment_replaced_by_finish (hc : d.contentAt (s.store.fragmentPath key) = .ok c)
    (h : d.perform s.finish = (answer, d'))
    (hplace : d.placeOf (s.store.fragmentPath key) = d.placeOf s.store.modulePath)
    (hok : answer.isOk) : ∃ t, Graph.write ⟨s.files⟩ = .ok t ∧
      d'.contentAt (s.store.fragmentPath key) = .ok (bytesOf t) := by
  obtain ⟨saved, hsaved, hanswer⟩ := saved_of_finish h
  obtain rfl := hanswer.mpr hok
  obtain ⟨t, ht, hmodule⟩ := Graph.contentAt_of_save hsaved
  have hframe := s.finish_frame d
  rw [h] at hframe
  obtain ⟨hreach, hslash, -⟩ := contentAt_eq_ok_iff.mp hc
  obtain ⟨-, -, ha⟩ := contentAt_eq_ok_iff.mp hmodule
  rw [placeOf_congr hframe.here, ← hplace, ← placeOf_congr hframe.here] at ha
  exact ⟨t, ht, contentAt_eq_ok_iff.mpr ⟨hreach.frame hframe, hslash, ha⟩⟩

/-- When a key's fragment and the module graph are one path, when they lie in one place, and what
that means for a fragment at the end of a session. -/
theorem fragment_behind_finish (hc : d.contentAt (s.store.fragmentPath key) = .ok c)
    (h : d.perform s.finish = (answer, d')) :
    ((s.store.fragmentPath key).Same s.store.modulePath ↔
      (s.store.outputDir.join (Store.relativePath key).folder).Same
          (s.store.outputDir.join (Path.ofString s.store.moduleName).folder) ∧
        s.store.SharesName key) ∧
    (d.placeOf (s.store.fragmentPath key) = d.placeOf s.store.modulePath ↔
      d.placeOf (s.store.outputDir.join (Store.relativePath key).folder) =
          d.placeOf (s.store.outputDir.join (Path.ofString s.store.moduleName).folder) ∧
        s.store.SharesName key) ∧
    (d.placeOf (s.store.fragmentPath key) = d.placeOf s.store.modulePath ∧ answer.isOk →
      ∃ t, Graph.write ⟨s.files⟩ = .ok t ∧
        d'.contentAt (s.store.fragmentPath key) = .ok (bytesOf t)) ∧
    (¬(d.placeOf (s.store.fragmentPath key) = d.placeOf s.store.modulePath ∧ answer.isOk) →
      d'.contentAt (s.store.fragmentPath key) = .ok c) :=
  ⟨Store.fragment_same_module_iff, Store.fragment_place_module_iff,
    fun hreplaced => fragment_replaced_by_finish hc h hreplaced.1 hreplaced.2,
    fragment_outlasts_finish hc h⟩

theorem keeps_of_answer {store : Store} {p : Path} {files : List SourceFile}
    (h : (d.perform (store.readFragment p.display)).1 = .ok ⟨files⟩) : Keeps store d p files :=
  Prod.ext h (Graph.load_disk d _)

def twinStore : Store := ⟨.ofString "out", "", .existence⟩

/-- The name of the module graph. -/
def twinPath : Path := .ofString "module-graph"

def twinVisits : List Visit :=
  visitAll (fun p => .ok ⟨p, ["pkg.A"], []⟩) [twinPath, .ofString "A.java"]

def twinScan : Task (StateM Disk) (List ScanOutcome × Session) :=
  (start twinStore .platform).scanAll (fun _ => "") twinVisits

def twinSession : Session :=
  ⟨twinStore, .platform, [⟨twinPath, ["pkg.A"], []⟩, ⟨.ofString "A.java", ["pkg.A"], []⟩], 0, 2⟩

def twinResult : SessionResult := ⟨twinStore.modulePath, ⟨twinSession.files⟩, 0, 2⟩

def twinDisk : Disk := ((Disk.empty []).perform twinScan).2

theorem perform_twinScan : (Disk.empty []).perform twinScan =
    (.ok ([.extracted, .extracted], twinSession), twinDisk) :=
  eq_mk_snd (by decide +kernel)

theorem twinSession_finishes : (twinDisk.perform twinSession.finish).1 = .ok twinResult := by
  decide +kernel

theorem twinDisk_keeps : Keeps twinStore twinDisk twinPath [⟨twinPath, ["pkg.A"], []⟩] :=
  keeps_of_answer (by decide +kernel)

theorem twin_places : twinDisk.placeOf (twinStore.fragmentPath twinPath.display) =
    twinDisk.placeOf twinStore.modulePath := by
  decide +kernel

/-- Instead of its own graph, the fragment of the first file holds that of both. -/
theorem fragment_behind_finish_replaced : ∃ d' t,
    twinDisk.perform twinSession.finish = (.ok twinResult, d') ∧
      Graph.write ⟨twinSession.files⟩ = .ok t ∧
      d'.contentAt (twinStore.fragmentPath twinPath.display) = .ok (bytesOf t) := by
  obtain ⟨d', hfinish⟩ := exists_snd twinSession_finishes
  obtain ⟨c, hc, -⟩ := keeps_iff.mp twinDisk_keeps
  obtain ⟨t, ht, hreplaced⟩ :=
    (fragment_behind_finish (s := twinSession) hc hfinish).2.2.1 ⟨twin_places, rfl⟩
  exact ⟨d', t, hfinish, ht, hreplaced⟩

/-- A fragment can have the path of the module graph, and then it does not outlast the session. -/
theorem finish_destroys_fragment :
    (¬∀ (store : Store) (key : String), ¬(store.fragmentPath key).Same store.modulePath) ∧
    ¬∀ (store : Store) (filter : ReferenceFilter) (visits : List Visit) (d d₁ d₂ : Disk)
        (outcomes : List ScanOutcome) (s : Session) (r : SessionResult) (c : List UInt8),
      d.perform ((start store filter).scanAll (fun _ => "") visits) = (.ok (outcomes, s), d₁) →
      d₁.perform s.finish = (.ok r, d₂) →
      ∀ v ∈ visits, d₁.contentAt (store.fragmentPath v.path.display) = .ok c →
        d₂.contentAt (store.fragmentPath v.path.display) = .ok c := by
  constructor
  · intro h
    exact h twinStore twinPath.display (by decide +kernel)
  · intro h
    obtain ⟨d₂, hfinish⟩ := exists_snd twinSession_finishes
    obtain ⟨c, hc, -⟩ := keeps_iff.mp twinDisk_keeps
    obtain ⟨t, ht, hreplaced⟩ :=
      fragment_replaced_by_finish (s := twinSession) hc hfinish twin_places rfl
    have hfirst : ⟨twinPath, fun p => .ok ⟨p, ["pkg.A"], []⟩⟩ ∈ twinVisits := List.mem_cons_self
    have hkept : d₂.contentAt (twinStore.fragmentPath twinPath.display) = .ok c :=
      h twinStore .platform twinVisits (Disk.empty []) twinDisk d₂ [.extracted, .extracted]
        twinSession twinResult c perform_twinScan hfinish ⟨twinPath, _⟩ hfirst hc
    -- one content would be the document of one file and of two
    obtain rfl : c = bytesOf t := Except.ok.inj (hkept.symm.trans hreplaced)
    have hread : twinDisk.perform (twinStore.readFragment twinPath.display) =
        (.ok ⟨twinSession.files⟩, twinDisk) := Graph.perform_load_of_write ht hc
    have hsame := congrArg Prod.fst (twinDisk_keeps.symm.trans hread)
    simp [twinSession] at hsame

end Session

end TypeDeps
