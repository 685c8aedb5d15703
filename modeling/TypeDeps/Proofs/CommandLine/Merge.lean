import TypeDeps.CommandLine.Run
import TypeDeps.Proofs.Session.Runs

/-!
# Merging fragments

A merge reads one graph after the other and writes all their files as one graph. A finished
session has written the files that it has got itself. After a run both are the same, since each
fragment reads as what its scan has found.
-/
namespace TypeDeps.CommandLine

open Disk Session TypeDeps.Path

variable {digesting : Store.Digesting} {store : Store} {filter : ReferenceFilter} {s : Session}
variable {d d₁ d₂ d₃ : Disk} {visits : List Visit} {outcomes : List ScanOutcome}
variable {ps : List Path} {found : List (List SourceFile)} {output : Path} {colour : Bool}

/-- The fragments of the visited paths, as often as they are visited. -/
def fragmentPaths (store : Store) (visits : List Visit) : List Path :=
  visits.map fun v => store.fragmentPath v.path.display

/-- Graphs that can be loaded are loaded in order before the others. -/
theorem run_loadAll_append (notices : List Notice) (files : List SourceFile) (rest : List Path)
    (h : List.Forall₂ (fun p fs => d.perform (Graph.load p) = (.ok ⟨fs⟩, d)) ps found) :
    ∃ notices', (loadAll notices files (ps ++ rest) : StateM Disk _).run d =
      (loadAll notices' (files ++ found.flatten) rest : StateM Disk _).run d := by
  induction h generalizing notices files with
  | nil =>
    rw [List.flatten_nil, List.append_nil]
    exact ⟨notices, rfl⟩
  | @cons p fs ps found hload _ ih =>
    obtain ⟨notices', hrest⟩ := ih (notices ++ Notice.ofGraph ⟨fs⟩) (files ++ fs)
    refine ⟨notices', ?_⟩
    have hrun : StateT.run (Graph.load p : Task (StateM Disk) Graph) d = (.ok ⟨fs⟩, d) := hload
    rw [List.cons_append, loadAll, StateT.run_bind, hrun, List.flatten_cons, ← List.append_assoc]
    exact hrest

/-- A merge of such graphs answers as writing all their files does. -/
theorem run_runMerge (colour : Bool) (output : Path)
    (h : List.Forall₂ (fun p fs => d.perform (Graph.load p) = (.ok ⟨fs⟩, d)) ps found) :
    ∃ notices, (runMerge colour ps output : StateM Disk Progress).run d =
      (⟨notices, (d.perform (Graph.save output ⟨found.flatten⟩)).1.map fun _ =>
          mergeText colour ps.length ⟨found.flatten⟩ output⟩,
        (d.perform (Graph.save output ⟨found.flatten⟩)).2) := by
  obtain ⟨notices, hloaded⟩ := run_loadAll_append [] [] [] h
  refine ⟨notices ++ Notice.ofGraph ⟨found.flatten⟩, ?_⟩
  rw [List.append_nil] at hloaded
  rw [runMerge, StateT.run_bind, hloaded]
  rfl

/-- After a run, a merge of the scanned paths' fragments in their order fails only if its output
cannot be written. Otherwise the output reads as the module graph that the session has
written. -/
theorem merge_agrees_with_run {r : SessionResult} (hmode : store.cacheMode = .existence)
    (hground : d.Grounded) (hup : ∀ v ∈ visits, Component.up ∉ v.path.components)
    (hmodule : ∀ v ∈ visits,
      d.placeOf (store.fragmentPath v.path.display) ≠ d.placeOf store.modulePath)
    (hscan : d.perform ((start store filter).scanAll digesting visits) = (.ok (outcomes, s), d₁))
    (hfinish : d₁.perform s.finish = (.ok r, d₂)) :
    ∃ c, d₂.contentAt store.modulePath = .ok c ∧
      ∀ (colour : Bool) (settings : Settings) (output? : Option Path) (progress : Progress)
        (d₃ : Disk),
        (runCommand colour settings (.merge (fragmentPaths store visits) output?) :
          StateM Disk Progress).run d₂ = (progress, d₃) →
        progress.result = (d₂.perform (Graph.save (graphPath settings output?) ⟨s.files⟩)).1.map
          (fun _ => mergeText colour visits.length ⟨s.files⟩ (graphPath settings output?)) ∧
        ∀ text, progress.result = .ok text →
          d₃.contentAt (graphPath settings output?) = .ok c := by
  obtain ⟨found, hfound, hkept⟩ := keeps_of_run (s := start store filter) hmode hground hup hmodule
    hscan hfinish
  have hfiles : s.files = found.flatten := hfound
  have hstore : s.store = store := (scanAll_leaves hmode hground hup hscan).2
  obtain ⟨hsave, -⟩ := finish_eq_ok_iff.mp hfinish
  obtain ⟨t, ht, hc⟩ := Graph.contentAt_of_save hsave
  rw [hstore] at hc
  refine ⟨_, hc, fun colour settings output? progress d₃ hmerge => ?_⟩
  have hloads : List.Forall₂ (fun p fs => d₂.perform (Graph.load p) = (.ok ⟨fs⟩, d₂))
      (fragmentPaths store visits) found := by
    rw [fragmentPaths, List.forall₂_map_left_iff]
    exact List.forall₂_map_left_iff.mp hkept
  obtain ⟨notices, hrun⟩ := run_runMerge colour (graphPath settings output?) hloads
  rw [runCommand, hrun, ← hfiles, fragmentPaths, List.length_map] at hmerge
  obtain ⟨rfl, rfl⟩ := Prod.mk.inj hmerge
  refine ⟨rfl, fun text htext => ?_⟩
  obtain ⟨d₃, hsaved⟩ : ∃ d₃,
      d₂.perform (Graph.save (graphPath settings output?) ⟨s.files⟩) = (.ok (), d₃) := by
    refine exists_snd ?_
    cases hanswer : (d₂.perform (Graph.save (graphPath settings output?) ⟨s.files⟩)).1 with
    | ok u => rfl
    | error e => simp [hanswer, Except.map] at htext
  rw [hsaved]
  obtain ⟨t', ht', hc'⟩ := Graph.contentAt_of_save hsaved
  rw [hc', Except.ok.inj (ht.symm.trans ht')]

def coldMerge : StateM Disk Progress :=
  runCommand false .standard
    (.merge (fragmentPaths coldStore coldVisits) (some (.ofString "m/all.json")))

/-- Two files are found, each of them twice, and the merge into another directory has both of them
twice. -/
theorem merge_agrees_with_run_of_two_files :
    ∃ d₁ d₂ c progress d₃,
      (Disk.empty []).perform coldScan =
        (.ok ([.extracted, .extracted, .cached, .cached], coldSession), d₁) ∧
      d₁.perform coldSession.finish = (.ok coldResult, d₂) ∧
      d₂.contentAt coldStore.modulePath = .ok c ∧ coldMerge.run d₂ = (progress, d₃) ∧
      progress.result = .ok "Merged 4 fragments (4 files) into m/all.json\n" ∧
      d₃.contentAt (.ofString "m/all.json") = .ok c := by
  have hfinish := coldSession_finishes
  have hmerge : (coldMerge.run
      (((Disk.empty []).perform coldScan).2.perform coldSession.finish).2).1.result =
        .ok "Merged 4 fragments (4 files) into m/all.json\n" := by
    decide +kernel
  obtain ⟨d₁, hrun⟩ := exists_snd coldScan_answer
  rw [hrun] at hfinish hmerge
  obtain ⟨d₂, hend⟩ := exists_snd hfinish
  rw [hend] at hmerge
  obtain ⟨c, hc, hmerged⟩ := merge_agrees_with_run rfl (grounded_empty [])
    coldVisits_climb_not coldVisits_apart hrun hend
  obtain ⟨-, hwritten⟩ := hmerged false .standard (some (.ofString "m/all.json")) _ _ rfl
  exact ⟨d₁, d₂, c, _, _, hrun, hend, hc, rfl, hmerge, hwritten _ hmerge⟩

end TypeDeps.CommandLine
