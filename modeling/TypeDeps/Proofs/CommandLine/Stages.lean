import TypeDeps.Proofs.CommandLine.Merge
import TypeDeps.Proofs.Disk.Fresh

/-!
# Merging in stages

A merge writes the files of all fragments in their order. So it does not matter whether fragments
are merged at once or in groups whose merged graphs are merged in turn. A merge reads everything
before it writes, and if a fragment cannot be read it writes nothing.
-/
namespace TypeDeps.CommandLine

open Disk

/-- The path loads as the graph of these files. -/
def Loads (d : Disk) (p : Path) (fs : List SourceFile) : Prop :=
  d.perform (Graph.load p) = (.ok ⟨fs⟩, d)

/-- One merge after the other, each of a group of fragments into a fresh file. -/
inductive Staged : Disk → List (List Path) → List Path → Disk → Prop
  | nil {d : Disk} : Staged d [] [] d
  | cons {d d₁ d' : Disk} {ps : List Path} {p : Path} {groups : List (List Path)}
      {stages : List Path} {colour : Bool} {settings : Settings} {progress : Progress}
      {text : String} :
      d.Fresh p →
      (runCommand colour settings (.merge ps (some p)) : StateM Disk Progress).run d =
        (progress, d₁) →
      progress.result = .ok text → Staged d₁ groups stages d' →
      Staged d (ps :: groups) (p :: stages) d'

variable {d d' : Disk} {p : Path} {ps stages : List Path} {fs : List SourceFile} {t : String}
variable {found : List (List SourceFile)} {groups : List (List Path)} {e : Error}
variable {colour : Bool} {settings : Settings} {output? : Option Path} {progress : Progress}

theorem graphPath_some (settings : Settings) (p : Path) : graphPath settings (some p) = p := rfl

theorem Loads.mono (h : Loads d p fs)
    (hreads : ∀ c, d.contentAt p = .ok c → d'.contentAt p = .ok c) : Loads d' p fs := by
  obtain ⟨⟨c, hc, hdocument⟩, -⟩ := Graph.perform_load_eq_ok_iff.mp h
  exact Graph.perform_load_eq_ok_iff.mpr ⟨⟨c, hreads c hc, hdocument⟩, rfl⟩

/-- What has been loaded can be written. -/
theorem exists_write_of_loads (h : List.Forall₂ (Loads d) ps found) :
    ∃ t, (⟨found.flatten⟩ : Graph).write = .ok t := by
  refine Graph.exists_write_iff.mpr fun f hf => ?_
  obtain ⟨fs, hfs, hmem⟩ := List.mem_flatten.mp hf
  obtain ⟨p, -, hload⟩ := Json.exists_left_of_forall₂ h hfs
  obtain ⟨⟨c, -, hdocument⟩, -⟩ := Graph.perform_load_eq_ok_iff.mp hload
  have hwritten := Graph.exists_write_of_documentText (g := ⟨fs⟩) hdocument
  exact Graph.exists_write_iff.mp hwritten f hmem

theorem run_merge (h : List.Forall₂ (Loads d) ps found)
    (ht : (⟨found.flatten⟩ : Graph).write = .ok t) (colour : Bool) (settings : Settings)
    (output? : Option Path) :
    ∃ notices, (runCommand colour settings (.merge ps output?) : StateM Disk Progress).run d =
      (⟨notices, (d.perform (Storage.writeAtomic (graphPath settings output?) (bytesOf t))).1.map
          fun _ => mergeText colour ps.length ⟨found.flatten⟩ (graphPath settings output?)⟩,
        (d.perform (Storage.writeAtomic (graphPath settings output?) (bytesOf t))).2) := by
  obtain ⟨notices, hrun⟩ := run_runMerge colour (graphPath settings output?) h
  rw [Graph.perform_save_of_write ht] at hrun
  exact ⟨notices, hrun⟩

theorem written_of_merge {text : String} (h : List.Forall₂ (Loads d) ps found)
    (ht : (⟨found.flatten⟩ : Graph).write = .ok t)
    (hrun : (runCommand colour settings (.merge ps output?) : StateM Disk Progress).run d =
      (progress, d'))
    (hok : progress.result = .ok text) :
    d.perform (Storage.writeAtomic (graphPath settings output?) (bytesOf t)) = (.ok (), d') := by
  obtain ⟨notices, hmerge⟩ := run_merge h ht colour settings output?
  obtain ⟨rfl, rfl⟩ := Prod.mk.inj (hmerge.symm.trans hrun)
  refine eq_mk_snd ?_
  cases hanswer : (d.perform (Storage.writeAtomic (graphPath settings output?) (bytesOf t))).1 with
  | ok u => rfl
  | error e => simp [hanswer, Except.map] at hok

/-! ## Groups -/

theorem exists_groups {R : Path → List SourceFile → Prop}
    (h : List.Forall₂ R groups.flatten found) :
    ∃ founds, founds.flatten = found ∧ List.Forall₂ (List.Forall₂ R) groups founds := by
  induction groups generalizing found with
  | nil =>
    cases h
    exact ⟨[], rfl, .nil⟩
  | cons ps groups ih =>
    have hflip : List.Forall₂ (flip R) found (ps ++ groups.flatten) := h.flip
    obtain ⟨founds, hflatten, hfounds⟩ := ih (List.forall₂_drop_append _ _ _ hflip).flip
    refine ⟨found.take ps.length :: founds, ?_, .cons ?_ hfounds⟩
    · rw [List.flatten_cons, hflatten, List.take_append_drop]
    · exact (List.forall₂_take_append _ _ _ hflip).flip

/-- Stages take no fragment away, and each loads as the files of its group. -/
theorem Staged.loads {founds : List (List (List SourceFile))} (h : Staged d groups stages d')
    (hall : List.Forall₂ (List.Forall₂ (Loads d)) groups founds) :
    (∀ p fs, Loads d p fs → Loads d' p fs) ∧
      List.Forall₂ (Loads d') stages (founds.map List.flatten) := by
  induction h generalizing founds with
  | nil =>
    cases hall
    exact ⟨fun _ _ h => h, .nil⟩
  | @cons d d₁ d' ps p groups stages _ _ _ _ hfresh hrun hok _ ih =>
    cases hall with
    | @cons _ found _ founds hfirst hrest =>
      obtain ⟨t, ht⟩ := exists_write_of_loads hfirst
      have hwrite := written_of_merge hfirst ht hrun hok
      rw [graphPath_some] at hwrite
      have hkeeps : ∀ q fs, Loads d q fs → Loads d₁ q fs :=
        fun q fs hload => hload.mono fun c hc => hfresh.contentAt hwrite hc
      obtain ⟨hkeeps', hstages⟩ := ih (hrest.imp fun _ _ hload => hload.imp hkeeps)
      have hstage : Loads d₁ p found.flatten :=
        Graph.perform_load_of_write ht (contentAt_of_writeAtomic hwrite)
      exact ⟨fun q fs hload => hkeeps' q fs (hkeeps q fs hload), .cons (hkeeps' p _ hstage) hstages⟩

/-! ## Fragments that cannot be loaded -/

theorem run_merge_of_error {before after : List Path} (h : List.Forall₂ (Loads d) before found)
    (he : (d.perform (Graph.load p)).1 = .error e) (colour : Bool) (settings : Settings)
    (output? : Option Path) :
    ∃ notices, (runCommand colour settings (.merge (before ++ p :: after) output?) :
      StateM Disk Progress).run d = (.failed notices e, d) := by
  obtain ⟨notices, hloaded⟩ := run_loadAll_append [] [] (p :: after) h
  have hrun : StateT.run (Graph.load p : Task (StateM Disk) Graph) d = (.error e, d) :=
    Prod.ext he (Graph.load_disk d p)
  refine ⟨notices, ?_⟩
  rw [runCommand, runMerge, StateT.run_bind, hloaded, loadAll, StateT.run_bind, hrun]
  rfl

/-- If all fragments can be loaded, a merge fails only if its output cannot be written, and
otherwise writes the document of all files in their order. So does a merge of stages for groups of
these fragments. If a fragment cannot be loaded, a merge answers the failure of the first one and
leaves the disk as it was. -/
theorem merge_in_stages (d : Disk) (ps : List Path) :
    (∀ found, List.Forall₂ (Loads d) ps found →
      ∃ t, (⟨found.flatten⟩ : Graph).write = .ok t ∧
        (∀ colour settings output? progress d',
          (runCommand colour settings (.merge ps output?) : StateM Disk Progress).run d =
            (progress, d') →
          progress.result =
            (d.perform (Storage.writeAtomic (graphPath settings output?) (bytesOf t))).1.map
              (fun _ => mergeText colour ps.length ⟨found.flatten⟩ (graphPath settings output?)) ∧
          ∀ text, progress.result = .ok text →
            d'.contentAt (graphPath settings output?) = .ok (bytesOf t)) ∧
        ∀ groups stages d₁, groups.flatten = ps → Staged d groups stages d₁ →
          ∀ colour settings output? progress d',
            (runCommand colour settings (.merge stages output?) : StateM Disk Progress).run d₁ =
              (progress, d') →
            ∀ text, progress.result = .ok text →
              d'.contentAt (graphPath settings output?) = .ok (bytesOf t)) ∧
    ∀ before p after found e, ps = before ++ p :: after → List.Forall₂ (Loads d) before found →
      (d.perform (Graph.load p)).1 = .error e →
      ∀ colour settings output?, ∃ notices,
        (runCommand colour settings (.merge ps output?) : StateM Disk Progress).run d =
          (.failed notices e, d) := by
  constructor
  · intro found h
    obtain ⟨t, ht⟩ := exists_write_of_loads h
    refine ⟨t, ht, fun colour settings output? progress d' hrun => ⟨?_, fun text hok => ?_⟩, ?_⟩
    · obtain ⟨notices, hmerge⟩ := run_merge h ht colour settings output?
      obtain ⟨rfl, rfl⟩ := Prod.mk.inj (hmerge.symm.trans hrun)
      rfl
    · exact contentAt_of_writeAtomic (written_of_merge h ht hrun hok)
    · rintro groups stages d₁ rfl hstaged colour settings output? progress d' hrun text hok
      obtain ⟨founds, rfl, hfounds⟩ := exists_groups h
      rw [List.flatten_flatten] at ht
      exact contentAt_of_writeAtomic (written_of_merge (hstaged.loads hfounds).2 ht hrun hok)
  · rintro before p after found e rfl h he colour settings output?
    exact run_merge_of_error h he colour settings output?

/-- Three fragments in the working directory. None of them is spelled as it would be written. -/
def fragmentDisk : Disk :=
  (((Disk.empty []).put [bytesOf "a"] (.file (bytesOf "[[[\"A\",[\"X\"],[]]]]"))).put
    [bytesOf "b"] (.file (bytesOf "[[]]"))).put
    [bytesOf "c"] (.file (bytesOf "[[[\"./A\",[],[\"X\"]]]]"))

def fragmentFiles : List (List SourceFile) :=
  [[⟨.ofString "A", ["X"], []⟩], [], [⟨.ofString "./A", [], ["X"]⟩]]

def mergeInto (fragments : List String) (output : String) : StateM Disk Progress :=
  runCommand false .standard (.merge (fragments.map .ofString) (some (.ofString output)))

theorem fragmentDisk_loads_a : Loads fragmentDisk (.ofString "a") [⟨.ofString "A", ["X"], []⟩] :=
  Prod.ext (by decide +kernel) (Graph.load_disk _ _)

theorem fragmentDisk_loads : List.Forall₂ (Loads fragmentDisk)
    [.ofString "a", .ofString "b", .ofString "c"] fragmentFiles :=
  .cons fragmentDisk_loads_a (.cons (Prod.ext (by decide +kernel) (Graph.load_disk _ _))
    (.cons (Prod.ext (by decide +kernel) (Graph.load_disk _ _)) .nil))

/-- The second stage takes the name of the temporary file of the first one. -/
theorem fragmentDisk_staged : ∃ d₂ progress d₃,
    Staged fragmentDisk [[.ofString "a"], [.ofString "b", .ofString "c"]]
      [.ofString "m", .ofString "m.tmp"] d₂ ∧
    (mergeInto ["m", "m.tmp"] "b").run d₂ = (progress, d₃) ∧
    progress.result = .ok "Merged 2 fragments (2 files) into b\n" := by
  have hbare : Storage.directoryOf? (.ofString "m") = none ∧
      Storage.directoryOf? (.ofString "m.tmp") = none := by
    decide +kernel
  have hfresh : fragmentDisk.Fresh (.ofString "m") :=
    ⟨by simp [hbare.1], by decide +kernel, by decide +kernel⟩
  -- the runs are evaluated on the concrete disk before their results get names
  have hfirst : ((mergeInto ["a"] "m").run fragmentDisk).1.result =
      .ok "Merged 1 fragments (1 files) into m\n" := by
    decide +kernel
  have hfresh' : ((mergeInto ["a"] "m").run fragmentDisk).2.Fresh (.ofString "m.tmp") :=
    ⟨by simp [hbare.2], by decide +kernel, by decide +kernel⟩
  have hsecond : ((mergeInto ["b", "c"] "m.tmp").run
      ((mergeInto ["a"] "m").run fragmentDisk).2).1.result =
      .ok "Merged 2 fragments (1 files) into m.tmp\n" := by
    decide +kernel
  have hlast : ((mergeInto ["m", "m.tmp"] "b").run ((mergeInto ["b", "c"] "m.tmp").run
      ((mergeInto ["a"] "m").run fragmentDisk).2).2).1.result =
      .ok "Merged 2 fragments (2 files) into b\n" := by
    decide +kernel
  generalize hrun₁ : (mergeInto ["a"] "m").run fragmentDisk = run₁
    at hfirst hfresh' hsecond hlast
  obtain ⟨progress₁, d₁⟩ := run₁
  generalize hrun₂ : (mergeInto ["b", "c"] "m.tmp").run d₁ = run₂ at hsecond hlast
  obtain ⟨progress₂, d₂⟩ := run₂
  exact ⟨d₂, _, _, .cons hfresh hrun₁ hfirst (.cons hfresh' hrun₂ hsecond .nil), rfl, hlast⟩

/-- The three are merged into the first of them, and in two stages into the second one. A merge with
a fragment that is not there changes nothing. -/
theorem merge_in_stages_of_three : ∃ c progress d₁ d₂ progress' d₃ notices,
    (mergeInto ["a", "b", "c"] "a").run fragmentDisk = (progress, d₁) ∧
    progress.result = .ok "Merged 3 fragments (2 files) into a\n" ∧
    d₁.contentAt (.ofString "a") = .ok c ∧
    Staged fragmentDisk [[.ofString "a"], [.ofString "b", .ofString "c"]]
      [.ofString "m", .ofString "m.tmp"] d₂ ∧
    (mergeInto ["m", "m.tmp"] "b").run d₂ = (progress', d₃) ∧
    progress'.result = .ok "Merged 2 fragments (2 files) into b\n" ∧
    d₃.contentAt (.ofString "b") = .ok c ∧
    (mergeInto ["a", "x", "c"] "a").run fragmentDisk =
      (.failed notices (.storage .notFound), fragmentDisk) := by
  obtain ⟨d₂, progress', d₃, hstaged, hlast, hmerged'⟩ := fragmentDisk_staged
  have hmerged : ((mergeInto ["a", "b", "c"] "a").run fragmentDisk).1.result =
      .ok "Merged 3 fragments (2 files) into a\n" := by
    decide +kernel
  generalize hrun : (mergeInto ["a", "b", "c"] "a").run fragmentDisk = run at hmerged
  obtain ⟨progress, d₁⟩ := run
  obtain ⟨t, -, hwrites, hstages⟩ := (merge_in_stages fragmentDisk
    [.ofString "a", .ofString "b", .ofString "c"]).1 fragmentFiles fragmentDisk_loads
  have hnone : (fragmentDisk.perform (Graph.load (.ofString "x"))).1 =
      .error (.storage .notFound) := by
    decide +kernel
  obtain ⟨notices, hfails⟩ := (merge_in_stages fragmentDisk
    [.ofString "a", .ofString "x", .ofString "c"]).2 [.ofString "a"] _ _ _ _ rfl
    (.cons fragmentDisk_loads_a .nil) hnone false .standard (some (.ofString "a"))
  exact ⟨bytesOf t, progress, d₁, d₂, progress', d₃, notices, rfl, hmerged,
    (hwrites _ _ _ _ _ hrun).2 _ hmerged, hstaged, hlast, hmerged',
    hstages _ _ _ rfl hstaged _ _ _ _ _ hlast _ hmerged', hfails⟩

end TypeDeps.CommandLine
