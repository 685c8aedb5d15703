import TypeDeps.Proofs.Disk.Again
import TypeDeps.Proofs.Session.Scan
import TypeDeps.Proofs.Store.Keys

/-!
# Runs over many files

Where a fragment counts as soon as it is there, a scan leaves behind a fragment that reads as the
files it has found, and no later scan of the run takes that away: a path whose fragment is shared
with an earlier one is not extracted again. So a second run finds everything that the first one
has found, without asking its extractor.
-/
namespace TypeDeps.Session

open Disk TypeDeps.Path

/-- A file that is scanned, and how it would be extracted at that time. -/
structure Visit where
  path : Path
  extract : Extractor

/-- Visits with one extractor for all of them. -/
def visitAll (extract : Extractor) (paths : List Path) : List Visit := paths.map (⟨·, extract⟩)

@[simp] theorem map_path_visitAll (extract : Extractor) (paths : List Path) :
    (visitAll extract paths).map Visit.path = paths := by
  simp [visitAll, Function.comp_def]

/-- Scan one file after the other, as long as no scan fails. -/
def scanAll {m : Type → Type} [Monad m] [Storage m] (digesting : Store.Digesting) (s : Session) :
    List Visit → Task m (List ScanOutcome × Session)
  | [] => pure ([], s)
  | v :: visits => do
    let (outcome, s) ← s.scan digesting v.extract v.path
    let (outcomes, s) ← scanAll digesting s visits
    pure (outcome :: outcomes, s)

variable {digesting digesting' : Store.Digesting} {extract : Extractor} {store : Store}
variable {s s' : Session} {d d' d₁ d₂ : Disk} {p q : Path} {outcome : ScanOutcome}
variable {outcomes : List ScanOutcome} {visits visits' : List Visit} {files : List SourceFile}
variable {found : List (List SourceFile)} {touched : List Place}

theorem perform_scanAll_cons {v : Visit} :
    d.perform (s.scanAll digesting (v :: visits)) = (.ok (outcomes, s'), d') ↔
      ∃ first s₁ d₁ rest, d.perform (s.scan digesting v.extract v.path) = (.ok (first, s₁), d₁) ∧
        d₁.perform (s₁.scanAll digesting visits) = (.ok (rest, s'), d') ∧
        outcomes = first :: rest := by
  rw [scanAll, perform_bind_eq_ok_iff]
  constructor
  · rintro ⟨⟨first, s₁⟩, d₁, hfirst, h⟩
    obtain ⟨⟨rest, s₂⟩, d₂, hrest, h⟩ := perform_bind_eq_ok_iff.mp h
    obtain ⟨hanswer, rfl⟩ := Prod.mk.inj h
    obtain ⟨rfl, rfl⟩ := Prod.mk.inj (Except.ok.inj hanswer)
    exact ⟨first, s₁, d₁, rest, hfirst, hrest, rfl⟩
  · rintro ⟨first, s₁, d₁, rest, hfirst, hrest, rfl⟩
    exact ⟨_, d₁, hfirst, perform_bind_eq_ok_iff.mpr ⟨_, d', hrest, rfl⟩⟩

theorem add_store (s : Session) (outcome : ScanOutcome) (files : List SourceFile) :
    (s.add outcome files).store = s.store := by
  cases outcome <;> rfl

theorem add_files (s : Session) (outcome : ScanOutcome) (files : List SourceFile) :
    (s.add outcome files).files = s.files ++ files := by
  cases outcome <;> rfl

/-! ## Scans that look for fragments only -/

/-- A fragment that is there is read, whatever the extractor says. Otherwise the file is extracted
and its fragment written. -/
theorem perform_scan_existence (hmode : s.store.cacheMode = .existence)
    (digesting : Store.Digesting) (extract : Extractor) (d : Disk) (p : Path) :
    d.perform (s.scan digesting extract p) =
      if d.isThere (s.store.fragmentPath p.display) then
        ((d.perform (s.store.readFragment p.display)).1.map fun g =>
          (.cached, s.add .cached g.files), d)
      else
        match extract p with
        | .error e => (.error e, d)
        | .ok file =>
          let saved := d.perform
            (Graph.save (s.store.fragmentPath p.display) ⟨[s.filter.apply file]⟩)
          (saved.1.map fun _ => (.extracted, s.add .extracted [s.filter.apply file]), saved.2) := by
  have hsource : (d.perform (s.sourceOf p)).1 = .ok none := by
    rw [sourceOf, hmode, perform_pure]
  rw [perform_scan, hsource]
  simp only [Store.perform_isCached, hmode]
  cases d.isThere (s.store.fragmentPath p.display) with
  | true => rfl
  | false =>
    simp only [Bool.false_eq_true, if_false]
    cases extract p with
    | error e => rfl
    | ok file =>
      simp only [Store.writeFragment, hmode, perform_bind]
      split <;> simp [*, Except.map]

/-- All that a scan may have done. -/
theorem scan_existence_cases (hmode : s.store.cacheMode = .existence)
    (h : d.perform (s.scan digesting extract p) = (.ok (outcome, s'), d')) :
    (∃ g, outcome = .cached ∧ d.perform (s.store.readFragment p.display) = (.ok g, d) ∧
      s' = s.add .cached g.files ∧ d' = d) ∨
    ∃ file, outcome = .extracted ∧ d.isThere (s.store.fragmentPath p.display) = false ∧
      d.perform (Graph.save (s.store.fragmentPath p.display) ⟨[s.filter.apply file]⟩) =
        (.ok (), d') ∧ s' = s.add .extracted [s.filter.apply file] := by
  rw [perform_scan_existence hmode] at h
  split_ifs at h with hthere
  · have hload := Graph.load_disk d (s.store.fragmentPath p.display)
    cases hg : (d.perform (s.store.readFragment p.display)).1 with
    | error e => simp [hg, Except.map] at h
    | ok g =>
      simp only [hg, Except.map, Prod.mk.injEq, Except.ok.injEq] at h
      exact .inl ⟨g, h.1.1.symm, Prod.ext hg hload, h.1.2.symm, h.2.symm⟩
  · cases hfile : extract p with
    | error e => simp [hfile] at h
    | ok file =>
      simp only [hfile] at h
      generalize hsaved : d.perform
        (Graph.save (s.store.fragmentPath p.display) ⟨[s.filter.apply file]⟩) = saved at h
      obtain ⟨_ | _, d₁⟩ := saved <;> simp only [Except.map, Prod.mk.injEq] at h
      · simp at h
      · simp only [Except.ok.injEq, Prod.mk.injEq] at h
        exact .inr ⟨file, h.1.1.symm, by simpa using hthere, h.2 ▸ hsaved, h.1.2.symm⟩

/-- The fragment of this path reads as these files. -/
def Keeps (store : Store) (d : Disk) (p : Path) (files : List SourceFile) : Prop :=
  d.perform (store.readFragment p.display) = (.ok ⟨files⟩, d)

theorem keeps_iff : Keeps store d p files ↔
    ∃ c, d.contentAt (store.fragmentPath p.display) = .ok c ∧
      Document.DocumentText files c := by
  unfold Keeps Store.readFragment
  rw [Graph.perform_load_eq_ok_iff]
  simp

theorem Keeps.frame (h : Keeps store d p files) (hf : Frame touched d d')
    (hp : d.placeOf (store.fragmentPath p.display) ∉ touched) : Keeps store d' p files := by
  rw [keeps_iff] at h ⊢
  obtain ⟨c, hc, hfiles⟩ := h
  exact ⟨c, contentAt_frame hf hp hc, hfiles⟩

theorem Keeps.isThere (h : Keeps store d p files) :
    d.isThere (store.fragmentPath p.display) := by
  obtain ⟨c, hc, -⟩ := keeps_iff.mp h
  exact isThere_of_contentAt hc

/-- What a scan has found, its fragment keeps. -/
theorem keeps_scan_self (hmode : s.store.cacheMode = .existence)
    (h : d.perform (s.scan digesting extract p) = (.ok (outcome, s'), d')) :
    ∃ files, s'.files = s.files ++ files ∧ Keeps s.store d' p files := by
  rcases scan_existence_cases hmode h with ⟨g, rfl, hg, rfl, rfl⟩ | ⟨file, rfl, -, hsave, rfl⟩
  · exact ⟨g.files, add_files _ _ _, hg⟩
  · obtain ⟨t, ht, hc⟩ := Graph.contentAt_of_save hsave
    exact ⟨_, add_files _ _ _, keeps_iff.mpr ⟨_, hc, Graph.documentText_write ht⟩⟩

/-- A scan takes no fragment away: if it writes, no earlier path can have the same fragment. -/
theorem Keeps.scan (hq : Keeps s.store d q files) (hmode : s.store.cacheMode = .existence)
    (hground : d.Grounded) (hup : Component.up ∉ p.components)
    (h : d.perform (s.scan digesting extract p) = (.ok (outcome, s'), d')) :
    Keeps s.store d' q files := by
  rcases scan_existence_cases hmode h with ⟨g, -, -, -, rfl⟩ | ⟨file, -, hnot, hsave, -⟩
  · exact hq
  · have hframe := Graph.save_frame d (s.store.fragmentPath p.display) ⟨[s.filter.apply file]⟩
    rw [hsave] at hframe
    refine hq.frame hframe
      (Store.place_not_mem (.fragment q.display) (.fragment p.display) fun hplace => ?_)
    obtain ⟨t, -, hwritten⟩ := Graph.contentAt_of_save hsave
    obtain ⟨hr', hslash, -⟩ := contentAt_eq_ok_iff.mp hwritten
    obtain ⟨c, hc, -⟩ := keeps_iff.mp hq
    obtain ⟨hr, -, ha⟩ := contentAt_eq_ok_iff.mp hc
    have hreach : d.Reaches (s.store.fragmentPath p.display) :=
      Store.reaches_fragment hground (fun h => hup (up_mem_of_display h)) hplace.symm hr
        hr'.sound hr'.fits
    have hthere : d.isThere (s.store.fragmentPath p.display) :=
      isThere_iff.mpr ⟨hreach, _, hplace ▸ ha, .inr hslash⟩
    simp [hnot] at hthere

theorem scan_store (h : d.perform (s.scan digesting extract p) = (.ok (outcome, s'), d'))
    (hmode : s.store.cacheMode = .existence) : s'.store = s.store := by
  rcases scan_existence_cases hmode h with ⟨_, -, -, rfl, -⟩ | ⟨_, -, -, -, rfl⟩
  · exact add_store _ _ _
  · exact add_store _ _ _

/-! ## Whole runs -/

/-- What a run leaves behind: the working directory is where it was, the old fragments are kept,
and those of the scanned paths hold what the session has got. -/
structure Leaves (store : Store) (visits : List Visit) (before after : List SourceFile)
    (d d' : Disk) : Prop where
  here : d'.here = d.here
  grounded : d'.Grounded
  keeps : ∀ q files, Keeps store d q files → Keeps store d' q files
  found : ∃ found, after = before ++ found.flatten ∧
    List.Forall₂ (Keeps store d') (visits.map Visit.path) found

theorem scanAll_leaves (hmode : s.store.cacheMode = .existence) (hground : d.Grounded)
    (hup : ∀ v ∈ visits, Component.up ∉ v.path.components)
    (h : d.perform (s.scanAll digesting visits) = (.ok (outcomes, s'), d')) :
    Leaves s.store visits s.files s'.files d d' ∧ s'.store = s.store := by
  induction visits generalizing s d outcomes with
  | nil =>
    obtain ⟨hanswer, rfl⟩ := Prod.mk.inj h
    obtain ⟨-, rfl⟩ := Prod.mk.inj (Except.ok.inj hanswer)
    exact ⟨⟨rfl, hground, fun _ _ hq => hq, [], by simp, .nil⟩, rfl⟩
  | cons v visits ih =>
    obtain ⟨first, s₁, d₁, rest, hfirst, hrest, -⟩ := perform_scanAll_cons.mp h
    have hstore := scan_store hfirst hmode
    have hframe := scan_frame digesting v.extract s d v.path
    rw [hfirst] at hframe
    obtain ⟨files, hfiles, hkept⟩ := keeps_scan_self hmode hfirst
    rw [← hstore] at hkept hmode
    obtain ⟨hleaves, hstore'⟩ := ih hmode (hground.frame hframe)
      (fun v hv => hup v (List.mem_cons_of_mem _ hv)) hrest
    rw [hstore] at hleaves hkept
    obtain ⟨found, hfound, hall⟩ := hleaves.found
    refine ⟨⟨hleaves.here.trans hframe.here, hleaves.grounded, fun q files hq => ?_, ?_⟩,
      hstore'.trans hstore⟩
    · exact hleaves.keeps q files
        (hq.scan (hstore ▸ hmode) hground (hup v List.mem_cons_self) hfirst)
    · exact ⟨files :: found, by simp [hfound, hfiles],
        .cons (hleaves.keeps _ _ hkept) hall⟩

/-- Where all fragments are kept, every scan is cached and nothing is written. -/
theorem scanAll_of_keeps (digesting : Store.Digesting) (hmode : s.store.cacheMode = .existence)
    (h : List.Forall₂ (Keeps s.store d) (visits.map Visit.path) found) :
    ∃ s', d.perform (s.scanAll digesting visits) = (.ok (visits.map fun _ => .cached, s'), d) ∧
      s'.files = s.files ++ found.flatten ∧ s'.store = s.store := by
  induction visits generalizing s found with
  | nil =>
    obtain rfl := List.forall₂_nil_left_iff.mp h
    exact ⟨s, rfl, by simp, rfl⟩
  | cons v visits ih =>
    obtain ⟨files, found, hkept, hrest, rfl⟩ := List.forall₂_cons_left_iff.mp h
    have hscan : d.perform (s.scan digesting v.extract v.path) =
        (.ok (.cached, s.add .cached files), d) := by
      have hread : (d.perform (s.store.readFragment v.path.display)).1 = .ok ⟨files⟩ :=
        congrArg Prod.fst hkept
      rw [perform_scan_existence hmode, if_pos hkept.isThere, hread]
      rfl
    obtain ⟨s', hs', hfiles, hstore⟩ := ih (s := s.add .cached files) hmode hrest
    refine ⟨s', perform_scanAll_cons.mpr ⟨_, _, d, _, hscan, hs', rfl⟩, ?_, hstore⟩
    rw [hfiles, add_files]
    simp

theorem finish_eq_ok_iff {r : SessionResult} : d.perform s.finish = (.ok r, d') ↔
    d.perform (Graph.save s.store.modulePath ⟨s.files⟩) = (.ok (), d') ∧
      r = ⟨s.store.modulePath, ⟨s.files⟩, s.cached, s.extracted⟩ := by
  unfold finish Store.writeModule
  rw [perform_bind_eq_ok_iff]
  constructor
  · rintro ⟨path, d₁, hpath, h⟩
    obtain ⟨_, d₂, hsave, hpath⟩ := perform_bind_eq_ok_iff.mp hpath
    obtain ⟨hanswer, rfl⟩ := Prod.mk.inj hpath
    obtain ⟨hresult, rfl⟩ := Prod.mk.inj h
    obtain rfl := Except.ok.inj hanswer
    exact ⟨hsave, (Except.ok.inj hresult).symm⟩
  · rintro ⟨hsave, rfl⟩
    exact ⟨_, d', perform_bind_eq_ok_iff.mpr ⟨_, d', hsave, rfl⟩, rfl⟩

/-! ## Second runs -/

/-- After a run, each scanned path has a fragment, and together the fragments hold what the
session has got. -/
theorem keeps_of_run (hmode : s.store.cacheMode = .existence) (hground : d.Grounded)
    (hup : ∀ v ∈ visits, Component.up ∉ v.path.components)
    (hmodule : ∀ v ∈ visits,
      d.placeOf (s.store.fragmentPath v.path.display) ≠ d.placeOf s.store.modulePath)
    (hscan : d.perform (s.scanAll digesting visits) = (.ok (outcomes, s'), d₁)) {r : SessionResult}
    (hfinish : d₁.perform s'.finish = (.ok r, d₂)) :
    ∃ found, s'.files = s.files ++ found.flatten ∧
      List.Forall₂ (Keeps s.store d₂) (visits.map Visit.path) found := by
  obtain ⟨hleaves, hstore⟩ := scanAll_leaves hmode hground hup hscan
  obtain ⟨found, hfound, hall⟩ := hleaves.found
  have hframe := finish_frame s' d₁
  rw [hfinish, hstore] at hframe
  refine ⟨found, hfound, ?_⟩
  rw [List.forall₂_map_left_iff] at hall ⊢
  have hmem : List.Forall₂ (fun v files => v ∈ visits ∧ Keeps s.store d₁ v.path files) visits
      found := (List.forall₂_and_left _ _).mpr ⟨fun v hv => hv, hall⟩
  refine hmem.imp fun v files ⟨hv, hkept⟩ => hkept.frame hframe ?_
  refine Store.place_not_mem (.fragment v.path.display) .moduleGraph ?_
  rw [placeOf_congr hleaves.here, placeOf_congr hleaves.here]
  exact hmodule v hv

/-- A run is repeated by a second one over the same paths, whatever its filter and its
extractors: every scan is cached and changes nothing, the session gets the same files, and it
writes the same module graph. -/
theorem second_run_cached {filter filter' : ReferenceFilter} {r : SessionResult}
    (hmode : store.cacheMode = .existence) (hground : d.Grounded)
    (hup : ∀ v ∈ visits, Component.up ∉ v.path.components)
    (hmodule : ∀ v ∈ visits,
      d.placeOf (store.fragmentPath v.path.display) ≠ d.placeOf store.modulePath)
    (hscan : d.perform ((start store filter).scanAll digesting visits) = (.ok (outcomes, s), d₁))
    (hfinish : d₁.perform s.finish = (.ok r, d₂))
    (hpaths : visits'.map Visit.path = visits.map Visit.path) :
    ∃ s' r' d₃ c,
      d₂.perform ((start store filter').scanAll digesting' visits') =
        (.ok (visits'.map fun _ => .cached, s'), d₂) ∧
      s'.files = s.files ∧ d₂.perform s'.finish = (.ok r', d₃) ∧
      d₂.contentAt store.modulePath = .ok c ∧ d₃.contentAt store.modulePath = .ok c := by
  obtain ⟨found, hfound, hkept⟩ := keeps_of_run (s := start store filter) hmode hground hup hmodule
    hscan hfinish
  obtain ⟨s', hs', hfiles, hstore⟩ :=
    scanAll_of_keeps (s := start store filter') digesting' hmode (hpaths ▸ hkept)
  have hsame : s'.files = s.files := hfiles.trans hfound.symm
  have hstore₁ : s.store = store := (scanAll_leaves hmode hground hup hscan).2
  obtain ⟨hsave, -⟩ := finish_eq_ok_iff.mp hfinish
  rw [hstore₁] at hsave
  obtain ⟨t, ht, hc⟩ := Graph.contentAt_of_save hsave
  -- the module graph has been written once, so it can be written again
  rw [Graph.perform_save_of_write ht] at hsave
  obtain ⟨d₃, hagain⟩ := writeAtomic_again hsave (bytesOf t)
  rw [← Graph.perform_save_of_write ht] at hagain
  have hfinish' := finish_eq_ok_iff (s := s').mpr ⟨by rw [hstore, hsame]; exact hagain, rfl⟩
  obtain ⟨t', ht', hc'⟩ := Graph.contentAt_of_save hagain
  obtain rfl := Except.ok.inj (ht.symm.trans ht')
  exact ⟨s', _, d₃, _, hs', hsame, hfinish', hc, hc'⟩

def coldStore : Store := ⟨.ofString "o", "", .existence⟩

/-- Two of these paths share a fragment, and one is scanned twice. -/
def coldPaths : List Path := ["b/c", "a", "/b//c", "a"].map .ofString

def coldVisits : List Visit := visitAll (fun p => .ok ⟨p, ["A"], ["java.B"]⟩) coldPaths

def warmVisits : List Visit := visitAll (fun p => .error (.extraction p "")) coldPaths

def coldScan : Task (StateM Disk) (List ScanOutcome × Session) :=
  (start coldStore .platform).scanAll (fun _ => "") coldVisits

def coldSession : Session :=
  let found (p : String) : SourceFile := ⟨.ofString p, ["A"], []⟩
  ⟨coldStore, .platform, [found "b/c", found "a", found "b/c", found "a"], 2, 2⟩

def coldResult : SessionResult :=
  ⟨coldStore.modulePath, ⟨coldSession.files⟩, coldSession.cached, coldSession.extracted⟩

theorem coldVisits_climb_not : ∀ v ∈ coldVisits, Component.up ∉ v.path.components := by
  decide +kernel

theorem coldVisits_apart : ∀ v ∈ coldVisits,
    (Disk.empty []).placeOf (coldStore.fragmentPath v.path.display) ≠
      (Disk.empty []).placeOf coldStore.modulePath := by
  decide +kernel

theorem coldScan_answer : ((Disk.empty []).perform coldScan).1 =
    .ok ([.extracted, .extracted, .cached, .cached], coldSession) := by
  decide +kernel

theorem coldSession_finishes :
    (((Disk.empty []).perform coldScan).2.perform coldSession.finish).1 = .ok coldResult := by
  decide +kernel

/-- The first run extracts two files. The second one is cached although it cannot extract
anything. -/
theorem second_run_cached_without_extractor :
    ∃ d₁ d₂,
      (Disk.empty []).perform coldScan =
        (.ok ([.extracted, .extracted, .cached, .cached], coldSession), d₁) ∧
      d₁.perform coldSession.finish = (.ok coldResult, d₂) ∧
      ∃ s' r' d₃ c,
        d₂.perform ((start coldStore .keepAll).scanAll (fun _ => "") warmVisits) =
          (.ok (warmVisits.map fun _ => .cached, s'), d₂) ∧
        s'.files = coldSession.files ∧ d₂.perform s'.finish = (.ok r', d₃) ∧
        d₂.contentAt coldStore.modulePath = .ok c ∧
        d₃.contentAt coldStore.modulePath = .ok c := by
  have hfinish := coldSession_finishes
  obtain ⟨d₁, hrun⟩ := exists_snd coldScan_answer
  rw [hrun] at hfinish
  obtain ⟨d₂, hend⟩ := exists_snd hfinish
  have hpaths : warmVisits.map Visit.path = coldVisits.map Visit.path := by
    rw [warmVisits, coldVisits, map_path_visitAll, map_path_visitAll]
  exact ⟨d₁, d₂, hrun, hend, second_run_cached rfl (grounded_empty []) coldVisits_climb_not
    coldVisits_apart hrun hend hpaths⟩

end TypeDeps.Session
