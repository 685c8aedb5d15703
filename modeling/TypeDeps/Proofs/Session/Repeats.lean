import TypeDeps.Proofs.Graph.Edges
import TypeDeps.Proofs.Session.Sharing

/-!
# Files that occur twice

A session does not look for a file among those that it has got already. If no fragment has been
there before, a scan that is cached takes the fragment of one of its own scans, and the file of that
scan occurs twice. So a file occurs once exactly if no scan is cached and no path is extracted
again.
-/
namespace TypeDeps.Session

open Disk

/-- Scans of one session, its reports, the session and the disk behind them. Every scan may have
an extractor of its own as long as it answers with the path that it has been asked for, and it may
fail. Anything may happen to the disk in between, but no fragment is put there. -/
inductive Course (digesting : Store.Digesting) (store : Store) (filter : ReferenceFilter)
    (d₀ : Disk) : List Report → Session → Disk → Prop where
  | start : Course digesting store filter d₀ [] (start store filter) d₀
  | scan {reports : List Report} {s s' : Session} {d : Disk} {a : Attempt} {r : Report} :
      Course digesting store filter d₀ reports s d → a.before.here = d.here →
      (∀ key c, a.before.HasFile (store.fragmentPath key) c →
        d.HasFile (store.fragmentPath key) c) →
      (∀ file, a.extract a.path = .ok file → file.path.Same a.path) →
      s.attempt digesting a = (r, s') →
      Course digesting store filter d₀ (reports ++ [r]) s' r.after

/-- The paths whose scans have succeeded, one for each scan. -/
def scanned (reports : List Report) : List Path :=
  (reports.filter (·.answer.isOk)).map (·.attempt.path)

/-- Scans behind which every fragment belongs to a file of the session: a fragment alone is not
left behind by a scan that fails. -/
def Steady (store : Store) (reports : List Report) : Prop :=
  store.cacheMode = .existence ∨ ∀ r ∈ reports, r.answer.isOk

/-- Scans that have found files of their own paths: there has been no hit, or no other path shares
a fragment with a scanned one. -/
def Straight (reports : List Report) : Prop :=
  (∀ r ∈ reports, r.answer ≠ .ok .cached) ∨ ∀ r ∈ reports, Store.Plain r.attempt.path

variable {digesting : Store.Digesting} {store : Store} {filter : ReferenceFilter}
variable {d₀ d d' : Disk} {reports : List Report} {r : Report} {s s' : Session}
variable {key : String} {c : List UInt8} {f : SourceFile} {extract : Extractor} {p : Path}

theorem scanned_snoc (reports : List Report) (r : Report) : scanned (reports ++ [r]) =
    scanned reports ++ if r.answer.isOk then [r.attempt.path] else [] := by
  unfold scanned
  split_ifs with hok <;> simp [hok]

theorem Steady.initial (h : Steady store (reports ++ [r])) : Steady store reports :=
  h.imp_right fun hall r' hr' => hall r' (List.mem_append_left _ hr')

theorem Straight.initial (h : Straight (reports ++ [r])) : Straight reports :=
  h.imp (fun hall r' hr' => hall r' (List.mem_append_left _ hr'))
    fun hall r' hr' => hall r' (List.mem_append_left _ hr')

/-- This is the document of a file that a scan has been asked for, at the place of its fragment. -/
structure Traced (store : Store) (reports : List Report) (d : Disk) (key : String)
    (c : List UInt8) (f : SourceFile) : Prop where
  document : ∃ t, Graph.write ⟨[f]⟩ = .ok t ∧ c = bytesOf t
  asked : ∃ r ∈ reports, f.path.Same r.attempt.path ∧
    d.placeOf (store.fragmentPath r.attempt.path.display) = d.placeOf (store.fragmentPath key)

theorem Traced.congr (h : Traced store reports d key c f) (hhere : d'.here = d.here) :
    Traced store reports d' key c f := by
  obtain ⟨r, hr, hpath, hplace⟩ := h.asked
  refine ⟨h.document, r, hr, hpath, ?_⟩
  rw [placeOf_congr hhere, placeOf_congr hhere]
  exact hplace

theorem Traced.snoc (h : Traced store reports d key c f) (r : Report) :
    Traced store (reports ++ [r]) d key c f := by
  obtain ⟨r', hr', hasked⟩ := h.asked
  exact ⟨h.document, r', List.mem_append_left _ hr', hasked⟩

/-- What is so behind every course of scans. -/
structure Told (store : Store) (reports : List Report) (s : Session) (d : Disk) : Prop where
  kept : s.store = store
  fragments : ∀ key c, d.HasFile (store.fragmentPath key) c →
    ∃ f, Traced store reports d key c f ∧ (Steady store reports → f ∈ s.files)
  size : s.files.length = (scanned reports).length
  paths : Straight reports →
    s.files.map (·.path.components) = (scanned reports).map Path.components
  repeats : Steady store reports → (∃ r ∈ reports, r.answer = .ok .cached) →
    ¬Graph.PathsDiffer ⟨s.files⟩

theorem told_start (hbare : ∀ key, d.NoFile (store.fragmentPath key)) :
    Told store [] (start store filter) d where
  kept := rfl
  fragments key c hc := absurd hc (hbare key c)
  size := rfl
  paths _ := rfl
  repeats _ h := by simp at h

/-- What happens between two scans. -/
theorem Told.edit (h : Told store reports s d) (hhere : d'.here = d.here)
    (hedit : ∀ key c, d'.HasFile (store.fragmentPath key) c →
      d.HasFile (store.fragmentPath key) c) : Told store reports s d' where
  kept := h.kept
  fragments key c hc := by
    obtain ⟨f, hf, hmem⟩ := h.fragments key c (hedit key c hc)
    exact ⟨f, hf.congr hhere, hmem⟩
  size := h.size
  paths := h.paths
  repeats := h.repeats

/-- A scan that succeeds adds one file, and a fragment that has not been there before is its
document. -/
theorem Told.of_success (h : Told store reports s d) (hhere : d'.here = d.here)
    (hkept : s'.store = s.store) (hfiles : s'.files = s.files ++ [f]) (hok : r.answer.isOk)
    (hpath : Straight (reports ++ [r]) → f.path.Same r.attempt.path)
    (hagain : r.answer = .ok .cached → Steady store reports → f ∈ s.files)
    (hfragments : ∀ key c, d'.HasFile (store.fragmentPath key) c →
      d.HasFile (store.fragmentPath key) c ∨ Traced store (reports ++ [r]) d key c f) :
    Told store (reports ++ [r]) s' d' where
  kept := hkept.trans h.kept
  fragments key c hc := by
    rw [hfiles]
    rcases hfragments key c hc with hold | hnew
    · obtain ⟨f', hf', hmem⟩ := h.fragments key c hold
      exact ⟨f', (hf'.snoc r).congr hhere,
        fun hsteady => List.mem_append_left _ (hmem hsteady.initial)⟩
    · exact ⟨f, hnew.congr hhere, fun _ => List.mem_append_right _ (List.mem_singleton_self f)⟩
  size := by
    rw [hfiles, scanned_snoc, if_pos hok, List.length_append, List.length_append, h.size]
    rfl
  paths hstraight := by
    have hsame : f.path.components = r.attempt.path.components := hpath hstraight
    rw [hfiles, scanned_snoc, if_pos hok, List.map_append, List.map_append,
      h.paths hstraight.initial, List.map_singleton, List.map_singleton, hsame]
  repeats hsteady hhit hdiffer := by
    rw [Graph.PathsDiffer, hfiles, List.pairwise_append] at hdiffer
    obtain ⟨r', hr', hcached⟩ := hhit
    rcases List.mem_append.mp hr' with hr' | hr'
    · exact h.repeats hsteady.initial ⟨r', hr', hcached⟩ hdiffer.1
    · obtain rfl := List.mem_singleton.mp hr'
      exact hdiffer.2.2 f (hagain hcached hsteady.initial) f (List.mem_singleton_self f) rfl

/-- A hit adds a file for the second time. -/
theorem Told.hit (h : Told store reports s d) (hr : r.answer = .ok .cached)
    (hscan : d.perform (s.scan digesting r.attempt.extract r.attempt.path) =
      (.ok (.cached, s'), d')) : Told store (reports ++ [r]) s' d' := by
  obtain ⟨rfl, g, rfl, c, hc, hdocument⟩ := files_of_cached_scan hscan
  obtain rfl := h.kept
  obtain ⟨f, hf, hmem⟩ := h.fragments _ c hc
  obtain ⟨t, ht, rfl⟩ := hf.document
  have hfiles : (s.add .cached g.files).files = s.files ++ [f] := by
    rw [add_files, files_of_document hdocument ht]
  refine h.of_success rfl (add_store _ _ _) hfiles (by rw [hr]; rfl) (fun hstraight => ?_)
    (fun _ => hmem) fun _ _ => .inl
  have hlast : r ∈ reports ++ [r] := List.mem_append_right _ (List.mem_singleton_self r)
  have hplain := hstraight.resolve_left fun hnone => hnone r hlast hr
  obtain ⟨r', hr', hpath, hplace⟩ := hf.asked
  exact hpath.trans ((hplain r' (List.mem_append_left _ hr')).same (hplain r hlast) hplace)

/-- A fragment that a scan has left behind is the document of what it has extracted. -/
theorem old_or_traced {answer : Except Error (ScanOutcome × Session)} (reports : List Report)
    (hstore : s.store = store)
    (hpath : ∀ file, r.attempt.extract r.attempt.path = .ok file →
      file.path.Same r.attempt.path)
    (hscan : d.perform (s.scan digesting r.attempt.extract r.attempt.path) = (answer, d'))
    (hc : d'.HasFile (store.fragmentPath key) c) :
    d.HasFile (store.fragmentPath key) c ∨
      ∃ file, r.attempt.extract r.attempt.path = .ok file ∧
        Traced store (reports ++ [r]) d key c (s.filter.apply file) := by
  subst hstore
  rcases hasFile_of_scan hscan hc with hold | ⟨file, t, hfile, ht, rfl, hplace⟩
  · exact .inl hold
  · have hlast : r ∈ reports ++ [r] := List.mem_append_right _ (List.mem_singleton_self r)
    exact .inr ⟨file, hfile, ⟨t, ht, rfl⟩, r, hlast, hpath file hfile, hplace.symm⟩

theorem Told.extraction (h : Told store reports s d) (hr : r.answer = .ok .extracted)
    (hpath : ∀ file, r.attempt.extract r.attempt.path = .ok file →
      file.path.Same r.attempt.path)
    (hscan : d.perform (s.scan digesting r.attempt.extract r.attempt.path) =
      (.ok (.extracted, s'), d')) : Told store (reports ++ [r]) s' d' := by
  obtain ⟨file, -, hfile, rfl, -, -⟩ := written_of_extracted_scan hscan
  have hmiss : r.answer ≠ .ok .cached := by
    rw [hr]
    simp
  refine h.of_success (here_of_scan hscan) (add_store _ _ _) (add_files _ _ _) (by rw [hr]; rfl)
    (fun _ => hpath file hfile) (fun hcached => absurd hcached hmiss) fun key c hc => ?_
  rcases old_or_traced reports h.kept hpath hscan hc with hold | ⟨file', hfile', hnew⟩
  · exact .inl hold
  · obtain rfl : file = file' := Except.ok.inj (hfile.symm.trans hfile')
    exact .inr hnew

/-- A scan that fails may leave a fragment behind, but not where fragments count as soon as they
are there. -/
theorem Told.failure {e : Error} (h : Told store reports s d) (hr : r.answer = .error e)
    (hpath : ∀ file, r.attempt.extract r.attempt.path = .ok file →
      file.path.Same r.attempt.path)
    (hscan : d.perform (s.scan digesting r.attempt.extract r.attempt.path) = (.error e, d')) :
    Told store (reports ++ [r]) s d' := by
  have hhere := here_of_scan hscan
  have hfailed : ¬r.answer.isOk := by
    rw [hr]
    exact Bool.false_ne_true
  have hscanned : scanned (reports ++ [r]) = scanned reports := by
    rw [scanned_snoc, if_neg hfailed, List.append_nil]
  have hfragments : ∀ key c, d.HasFile (store.fragmentPath key) c →
      ∃ f, Traced store (reports ++ [r]) d' key c f ∧
        (Steady store (reports ++ [r]) → f ∈ s.files) := by
    intro key c hc
    obtain ⟨f, hf, hmem⟩ := h.fragments key c hc
    exact ⟨f, (hf.snoc r).congr hhere, fun hsteady => hmem hsteady.initial⟩
  refine ⟨h.kept, fun key c hc => ?_, by rw [hscanned, h.size], fun hstraight => ?_,
    fun hsteady hhit => h.repeats hsteady.initial ?_⟩
  · by_cases hmode : store.cacheMode = .existence
    · obtain rfl := h.kept
      refine hfragments key c (hc.of_frame (frame_of_failed_scan hmode hscan) ?_)
      rw [List.mem_singleton]
      exact Store.place_ne_temporary (.fragment key) (.fragment _)
    · rcases old_or_traced reports h.kept hpath hscan hc with hold | ⟨file, -, hnew⟩
      · exact hfragments key c hold
      · have hlast : r ∈ reports ++ [r] := List.mem_append_right _ (List.mem_singleton_self r)
        exact ⟨_, hnew.congr hhere,
          fun hsteady => absurd (hsteady.resolve_left hmode r hlast) hfailed⟩
  · rw [hscanned, h.paths hstraight.initial]
  · obtain ⟨r', hr', hcached⟩ := hhit
    rcases List.mem_append.mp hr' with hr' | hr'
    · exact ⟨r', hr', hcached⟩
    · rw [List.mem_singleton.mp hr', hr] at hcached
      cases hcached

/-- The invariant of the scans. -/
theorem Course.told (hbare : ∀ key, d₀.NoFile (store.fragmentPath key))
    (h : Course digesting store filter d₀ reports s d) : Told store reports s d := by
  induction h with
  | start => exact told_start hbare
  | @scan reports s s' d a r h hhere hedit hpath hattempt ih =>
    have hbefore := ih.edit hhere hedit
    unfold Session.attempt at hattempt
    split at hattempt
    · next outcome t after hscan =>
      obtain ⟨rfl, rfl⟩ := Prod.mk.inj hattempt
      cases outcome with
      | cached => exact hbefore.hit rfl hscan
      | extracted => exact hbefore.extraction rfl hpath hscan
    · next e after hscan =>
      obtain ⟨rfl, rfl⟩ := Prod.mk.inj hattempt
      exact hbefore.failure rfl hpath hscan

theorem pathsDiffer_iff {files : List SourceFile} {paths : List Path}
    (h : files.map (·.path.components) = paths.map Path.components) :
    Graph.PathsDiffer ⟨files⟩ ↔ paths.Pairwise fun p q => ¬p.Same q := by
  have hfiles : (files.map (·.path.components)).Nodup ↔ Graph.PathsDiffer ⟨files⟩ :=
    List.pairwise_map
  have hpaths : (paths.map Path.components).Nodup ↔ paths.Pairwise fun p q => ¬p.Same q :=
    List.pairwise_map
  rw [← hfiles, h, hpaths]

/-- Behind any course of scans over a store without fragments, there is one file for each scan
that has succeeded, and the session finishes with these. If fragments count as soon as they are
there, or if no scan has failed, a file occurs once exactly if no scan has been cached and the
scanned paths differ. And if all paths are plain, the files have the scanned paths. -/
theorem files_occur_once_iff (hbare : ∀ key, d₀.NoFile (store.fragmentPath key))
    (h : Course digesting store filter d₀ reports s d) :
    s.files.length = (scanned reports).length ∧
    (∀ (d₁ d₂ : Disk) (result : SessionResult),
      d₁.perform s.finish = (.ok result, d₂) → result.graph = ⟨s.files⟩) ∧
    (store.cacheMode = .existence ∨ (∀ r ∈ reports, r.answer.isOk) →
      (Graph.PathsDiffer ⟨s.files⟩ ↔ (∀ r ∈ reports, r.answer ≠ .ok .cached) ∧
        (scanned reports).Pairwise fun p q => ¬p.Same q)) ∧
    ((∀ r ∈ reports, Store.Plain r.attempt.path) →
      s.files.map (·.path.components) = (scanned reports).map Path.components ∧
      (Graph.PathsDiffer ⟨s.files⟩ ↔ (scanned reports).Pairwise fun p q => ¬p.Same q)) := by
  have htold := h.told hbare
  refine ⟨htold.size, fun d₁ d₂ result hfinish => ?_, fun hsteady => ?_, fun hplain => ?_⟩
  · rw [(finish_eq_ok_iff.mp hfinish).2]
  · by_cases hhit : ∃ r ∈ reports, r.answer = .ok .cached
    · obtain ⟨r, hr, hcached⟩ := hhit
      exact iff_of_false (htold.repeats hsteady ⟨r, hr, hcached⟩) fun hnone => hnone.1 r hr hcached
    · have hnone : ∀ r ∈ reports, r.answer ≠ .ok .cached := by simpa using hhit
      rw [pathsDiffer_iff (htold.paths (.inl hnone))]
      exact (and_iff_right hnone).symm
  · have hpaths := htold.paths (.inr hplain)
    exact ⟨hpaths, pathsDiffer_iff hpaths⟩

/-- The disk behind the first scan of a path. -/
def scannedDisk : Disk := ((Disk.empty []).perform
  ((start sharedStore .platform).scan Digest.Sha256.hex sharedExtract sharedPath)).2

theorem scannedDisk_scan : (Disk.empty []).perform
    ((start sharedStore .platform).scan Digest.Sha256.hex sharedExtract sharedPath) =
      (.ok (.extracted, sharedSession), scannedDisk) :=
  eq_mk_snd (by decide +kernel)

theorem scannedDisk_again : scannedDisk.perform
    (sharedSession.scan Digest.Sha256.hex sharedExtract sharedPath) =
      (.ok (.cached, sharedSession.add .cached [sharedFile]), scannedDisk) := by
  have hanswer : (scannedDisk.perform
      (sharedSession.scan Digest.Sha256.hex sharedExtract sharedPath)).1 =
        .ok (.cached, sharedSession.add .cached [sharedFile]) := by
    decide +kernel
  obtain ⟨d', hscan⟩ := exists_snd hanswer
  obtain ⟨rfl, -⟩ := files_of_cached_scan hscan
  exact hscan

theorem sharedExtract_path {file : SourceFile} (h : sharedExtract p = .ok file) :
    file.path = p := by
  rw [← Except.ok.inj h]

/-- The reports of an extraction and of a hit for one path. -/
def scannedTwice : List Report :=
  [⟨⟨⟨sharedPath, sharedExtract⟩, .empty []⟩, .ok .extracted, scannedDisk⟩,
    ⟨⟨⟨sharedPath, sharedExtract⟩, scannedDisk⟩, .ok .cached, scannedDisk⟩]

theorem files_occur_once_iff_of_scannedTwice :
    Course Digest.Sha256.hex sharedStore .platform (Disk.empty []) scannedTwice
        (sharedSession.add .cached [sharedFile]) scannedDisk ∧
      ¬Graph.PathsDiffer ⟨[sharedFile, sharedFile]⟩ ∧
      ¬(scanned scannedTwice).Pairwise fun p q => ¬p.Same q := by
  have hpath : ∀ file, sharedExtract sharedPath = .ok file → file.path.Same sharedPath :=
    fun file hfile => congrArg Path.components (sharedExtract_path hfile)
  have hstart : Course Digest.Sha256.hex sharedStore .platform (Disk.empty []) []
      (start sharedStore .platform) (Disk.empty []) := .start
  have hfirst := hstart.scan (a := ⟨⟨sharedPath, sharedExtract⟩, .empty []⟩) rfl
    (fun _ _ => id) hpath (by rw [Session.attempt, scannedDisk_scan])
  have hsecond := hfirst.scan (a := ⟨⟨sharedPath, sharedExtract⟩, scannedDisk⟩) rfl
    (fun _ _ => id) hpath (by rw [Session.attempt, scannedDisk_again])
  obtain ⟨-, -, honce, hplain⟩ :=
    files_occur_once_iff (fun _ => noFile_empty [] _) hsecond
  have hrepeats : ¬Graph.PathsDiffer ⟨[sharedFile, sharedFile]⟩ := fun hdiffer =>
    ((honce (.inl rfl)).mp hdiffer).1 _ (List.mem_append_right _ (List.mem_singleton_self _)) rfl
  refine ⟨hsecond, hrepeats, fun hpairwise => hrepeats ((hplain fun r hr => ?_).2.mpr hpairwise)⟩
  have hscanned : r.attempt.path = sharedPath := by
    rcases List.mem_append.mp hr with hr | hr <;> rw [List.mem_singleton.mp hr]
  rw [hscanned]
  exact ⟨by decide +kernel, by decide +kernel⟩

/-- Scanning one path a second time puts its file into the graph a second time. -/
theorem rescanned_file_occurs_twice :
    ¬∀ (store : Store) (filter : ReferenceFilter) (extract : Extractor) (paths : List Path)
        (d d' : Disk) (outcomes : List ScanOutcome) (s : Session),
      (∀ key, d.NoFile (store.fragmentPath key)) →
      (∀ p file, extract p = .ok file → file.path = p) →
      d.perform ((start store filter).scanAll Digest.Sha256.hex (visitAll extract paths)) =
        (.ok (outcomes, s), d') →
      Graph.PathsDiffer ⟨s.files⟩ := by
  intro h
  have hrun : (Disk.empty []).perform ((start sharedStore .platform).scanAll Digest.Sha256.hex
      (visitAll sharedExtract [sharedPath, sharedPath])) =
        (.ok ([.extracted, .cached], sharedSession.add .cached [sharedFile]), scannedDisk) :=
    perform_scanAll_cons.mpr ⟨_, _, _, _, scannedDisk_scan,
      perform_scanAll_cons.mpr ⟨_, _, _, [], scannedDisk_again, rfl, rfl⟩, rfl⟩
  have hdiffer := h sharedStore .platform sharedExtract [sharedPath, sharedPath] (Disk.empty [])
    scannedDisk _ _ (fun _ => noFile_empty [] _) (fun _ _ => sharedExtract_path) hrun
  revert hdiffer
  decide +kernel

end TypeDeps.Session
