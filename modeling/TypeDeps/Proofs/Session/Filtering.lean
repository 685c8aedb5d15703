import TypeDeps.Digest.Sha256
import TypeDeps.Proofs.Filter.Composition
import TypeDeps.Proofs.Path.Folders
import TypeDeps.Proofs.Session.Origins
import TypeDeps.Proofs.Store.Vouching

/-!
# Filters and the files of a session

Every file of a session has passed a filter, but not always the session's own. A fragment that an
earlier session has written is taken as it is, with the references that were kept then. The names
in it are in dotted form in any case.
-/
namespace TypeDeps.Session

open Disk ReferenceFilter

/-- Sessions one after the other that write into one directory: their filters, the newest one
first, the last session and the disk behind it. Sessions may have stores of either mode and with
any module key, scans and finishing may fail, and anything may happen to the disk in between, but
no fragment is put there. -/
inductive Succession (store : Store) (d₀ : Disk) : List ReferenceFilter → Session → Disk → Prop
  | first {own : Store} {filter : ReferenceFilter} :
      own.outputDir = store.outputDir → Succession store d₀ [filter] (start own filter) d₀
  | next {filters : List ReferenceFilter} {s : Session} {d : Disk} {own : Store}
      {filter : ReferenceFilter} :
      Succession store d₀ filters s d → own.outputDir = store.outputDir →
      Succession store d₀ (filter :: filters) (start own filter) d
  | scan {filters : List ReferenceFilter} {s s' : Session} {d d' : Disk}
      {digesting : Store.Digesting} {extract : Extractor} {p : Path} {outcome : ScanOutcome} :
      Succession store d₀ filters s d →
      d.perform (s.scan digesting extract p) = (.ok (outcome, s'), d') →
      Succession store d₀ filters s' d'
  | failed {filters : List ReferenceFilter} {s : Session} {d d' : Disk}
      {digesting : Store.Digesting} {extract : Extractor} {p : Path} {e : Error} :
      Succession store d₀ filters s d →
      d.perform (s.scan digesting extract p) = (.error e, d') →
      Succession store d₀ filters s d'
  | finish {filters : List ReferenceFilter} {s : Session} {d d' : Disk}
      {answer : Except Error SessionResult} :
      Succession store d₀ filters s d → d.perform s.finish = (answer, d') →
      Succession store d₀ filters s d'
  | edit {filters : List ReferenceFilter} {s : Session} {d d' : Disk} :
      Succession store d₀ filters s d →
      (∀ key c, d'.HasFile (store.fragmentPath key) c → d.HasFile (store.fragmentPath key) c) →
      Succession store d₀ filters s d'

/-- The file has passed one of these filters. -/
def PassesSome (filters : List ReferenceFilter) (f : SourceFile) : Prop :=
  ∃ filter ∈ filters, filter.Passes f

/-- Every fragment is the document of files that have passed one of these filters. -/
def FragmentsPass (store : Store) (filters : List ReferenceFilter) (d : Disk) : Prop :=
  ∀ key c, d.HasFile (store.fragmentPath key) c →
    ∃ (g : Graph) (t : String), g.write = .ok t ∧ c = bytesOf t ∧
      ∀ f ∈ g.files, PassesSome filters f

/-- So have the files of the session, whose own filter is among these. -/
structure Filtered (store : Store) (filters : List ReferenceFilter) (s : Session) (d : Disk) :
    Prop where
  directory : s.store.outputDir = store.outputDir
  own : s.filter ∈ filters
  files : ∀ f ∈ s.files, PassesSome filters f
  fragments : FragmentsPass store filters d

variable {digesting : Store.Digesting} {extract : Extractor} {store : Store} {s s' : Session}
variable {filters : List ReferenceFilter} {filter : ReferenceFilter} {f : SourceFile} {p : Path}
variable {d₀ d d' : Disk} {outcome : ScanOutcome}

theorem PassesSome.cons (h : PassesSome filters f) : PassesSome (filter :: filters) f := by
  obtain ⟨filter, hfilter, hf⟩ := h
  exact ⟨filter, List.mem_cons_of_mem _ hfilter, hf⟩

theorem FragmentsPass.cons (h : FragmentsPass store filters d) :
    FragmentsPass store (filter :: filters) d := by
  intro key c hc
  obtain ⟨g, t, ht, hct, hg⟩ := h key c hc
  exact ⟨g, t, ht, hct, fun f hf => (hg f hf).cons⟩

theorem Filtered.passes_apply (h : Filtered store filters s d) (file : SourceFile) :
    PassesSome filters (s.filter.apply file) :=
  ⟨s.filter, h.own, ReferenceFilter.passes_apply _ _⟩

/-- Whatever comes of a scan, it may write what has passed the session's own filter. -/
theorem Filtered.fragments_of_scan {answer : Except Error (ScanOutcome × Session)}
    (h : Filtered store filters s d)
    (hscan : d.perform (s.scan digesting extract p) = (answer, d')) :
    FragmentsPass store filters d' := by
  intro key c hc
  rw [← Store.fragmentPath_congr h.directory] at hc
  rcases hasFile_of_scan hscan hc with hold | ⟨file, t, -, ht, rfl, -⟩
  · rw [Store.fragmentPath_congr h.directory] at hold
    exact h.fragments key c hold
  · refine ⟨_, t, ht, rfl, fun f hf => ?_⟩
    rw [List.mem_singleton.mp hf]
    exact h.passes_apply file

theorem Filtered.files_of_scan (h : Filtered store filters s d)
    (hscan : d.perform (s.scan digesting extract p) = (.ok (outcome, s'), d')) :
    ∃ files, s' = s.add outcome files ∧ ∀ f ∈ files, PassesSome filters f := by
  cases outcome with
  | cached =>
    obtain ⟨-, g, rfl, c, hc, hdocument⟩ := files_of_cached_scan hscan
    rw [Store.fragmentPath_congr h.directory] at hc
    obtain ⟨written, t, ht, rfl, hpass⟩ := h.fragments _ c hc
    refine ⟨g.files, rfl, ?_⟩
    rw [files_of_document hdocument ht]
    exact hpass
  | extracted =>
    obtain ⟨file, t, -, rfl, -, -⟩ := written_of_extracted_scan hscan
    refine ⟨_, rfl, fun f hf => ?_⟩
    rw [List.mem_singleton.mp hf]
    exact h.passes_apply file

theorem Filtered.scan (h : Filtered store filters s d)
    (hscan : d.perform (s.scan digesting extract p) = (.ok (outcome, s'), d')) :
    Filtered store filters s' d' := by
  obtain ⟨files, rfl, hfiles⟩ := h.files_of_scan hscan
  refine ⟨?_, ?_, fun f hf => ?_, h.fragments_of_scan hscan⟩
  · rw [add_store]
    exact h.directory
  · rw [add_filter]
    exact h.own
  · rw [add_files] at hf
    exact (List.mem_append.mp hf).elim (h.files f) (hfiles f)

/-- A module graph that comes to lie where a fragment has to be has passed as well. -/
theorem Filtered.finish {answer : Except Error SessionResult} (h : Filtered store filters s d)
    (hfinish : d.perform s.finish = (answer, d')) : Filtered store filters s d' := by
  refine ⟨h.directory, h.own, h.files, fun key c hc => ?_⟩
  rw [← Store.fragmentPath_congr h.directory] at hc
  rcases hasFile_of_finish hfinish hc with hold | ⟨t, ht, rfl⟩
  · rw [Store.fragmentPath_congr h.directory] at hold
    exact h.fragments key c hold
  · exact ⟨_, t, ht, rfl, h.files⟩

/-- The invariant of the sessions. -/
theorem Succession.filtered (hbare : ∀ key, d₀.NoFile (store.fragmentPath key))
    (h : Succession store d₀ filters s d) : Filtered store filters s d := by
  induction h with
  | first hdirectory =>
    exact ⟨hdirectory, List.mem_cons_self, by simp [start], fun key c hc => absurd hc (hbare key c)⟩
  | next h hdirectory ih =>
    exact ⟨hdirectory, List.mem_cons_self, by simp [start], ih.fragments.cons⟩
  | scan h hscan ih => exact ih.scan hscan
  | failed h hscan ih => exact ⟨ih.directory, ih.own, ih.files, ih.fragments_of_scan hscan⟩
  | finish h hfinish ih => exact ih.finish hfinish
  | edit h hedit ih =>
    exact ⟨ih.directory, ih.own, ih.files, fun key c hc => ih.fragments key c (hedit key c hc)⟩

/-- The files of a session have passed the filter of one of the sessions up to it, and its own
filter if that excludes nothing that the other ones keep. What it extracts itself passes its own
filter in any case. It finishes with these files. -/
theorem files_pass_filters (hbare : ∀ key, d₀.NoFile (store.fragmentPath key))
    (h : Succession store d₀ filters s d) :
    (∀ f ∈ s.files, ∃ filter ∈ filters, filter.Passes f) ∧
    ((∀ filter ∈ filters, ∀ n, s.filter.excludes n = true → filter.excludes n = true) →
      ∀ f ∈ s.files, s.filter.Passes f) ∧
    (∀ digesting extract p s' d',
      d.perform (s.scan digesting extract p) = (.ok (.extracted, s'), d') →
      ∃ f, s'.files = s.files ++ [f] ∧ s.filter.Passes f) ∧
    ∀ r d', d.perform s.finish = (.ok r, d') → r.graph.files = s.files := by
  have hfiltered := h.filtered hbare
  refine ⟨hfiltered.files, fun hle f hf => ?_, fun digesting extract p s' d' hscan => ?_,
    fun r d' hfinish => ?_⟩
  · obtain ⟨filter, hfilter, hpasses⟩ := hfiltered.files f hf
    exact hpasses.mono (hle filter hfilter)
  · obtain ⟨file, t, -, rfl, -, -⟩ := written_of_extracted_scan hscan
    exact ⟨_, add_files s _ _, passes_apply _ _⟩
  · obtain ⟨-, rfl⟩ := finish_eq_ok_iff.mp hfinish
    rfl

def reusedStore : Store := ⟨.ofString "out", "", .contentHash⟩

def reusedPath : Path := .ofString "A.java"

/-- The source lies there, and no fragment. -/
def sourceDisk : Disk := (Disk.empty []).put [bytesOf "A.java"] (.file (bytesOf "v1"))

theorem sourceDisk_bare (key : String) : sourceDisk.NoFile (reusedStore.fragmentPath key) := by
  intro c hc
  rw [sourceDisk, at?_put _ (by simp)] at hc
  split_ifs at hc with hplace
  · rw [Store.fragmentPath_eq, placeOf_append Store.isEnding_fragment] at hplace
    have hname := congrArg List.getLast? hplace
    rw [List.getLast?_concat, List.getLast?_singleton, Option.some.injEq] at hname
    have hlast := congrArg List.getLast? hname
    have hjson : (bytesOf ".json").getLast? = some 0x6E := by decide
    have hjava : (bytesOf "A.java").getLast? = some 0x61 := by decide
    simp [List.getLast?_append, hjson, hjava] at hlast
  · exact noFile_empty [] _ c hc

def reusedScan (filter : ReferenceFilter) : Task (StateM Disk) (ScanOutcome × Session) :=
  (start reusedStore filter).scan Digest.Sha256.hex
    (fun p => .ok ⟨p, ["pkg.A"], ["java.util.List", "pkg.B$C"]⟩) reusedPath

def reusedFile : SourceFile := ⟨reusedPath, ["pkg.A"], ["java.util.List", "pkg.B.C"]⟩

def lenientSession : Session := ⟨reusedStore, .keepAll, [reusedFile], 0, 1⟩

def lenientDisk : Disk := (sourceDisk.perform (reusedScan .keepAll)).2

theorem perform_lenient_scan :
    sourceDisk.perform (reusedScan .keepAll) =
      (.ok (.extracted, lenientSession), lenientDisk) :=
  eq_mk_snd (by decide +kernel)

def reusedDisk : Disk := (lenientDisk.perform lenientSession.finish).2

theorem perform_lenient_finish : ∃ answer,
    lenientDisk.perform lenientSession.finish = (answer, reusedDisk) :=
  ⟨_, rfl⟩

def strictSession : Session := ⟨reusedStore, .platform, [reusedFile], 1, 0⟩

theorem strict_scan_cached :
    (reusedDisk.perform (reusedScan .platform)).1 = .ok (.cached, strictSession) := by
  decide +kernel

/-- The first session keeps every reference, the second one takes its fragment. -/
theorem exists_succession : ∃ d,
    Succession reusedStore sourceDisk [.platform, .keepAll] strictSession d := by
  obtain ⟨answer, hfinish⟩ := perform_lenient_finish
  obtain ⟨d, hscan⟩ := exists_snd strict_scan_cached
  have hlenient : Succession reusedStore sourceDisk [.keepAll] lenientSession lenientDisk :=
    .scan (.first rfl) perform_lenient_scan
  exact ⟨d, .scan (.next (.finish hlenient hfinish) rfl) hscan⟩

/-- What the second session has taken has passed the filter of the first one. -/
theorem files_pass_filters_reused : ∃ d,
    Succession reusedStore sourceDisk [platform, keepAll] strictSession d ∧
      ∀ f ∈ strictSession.files, ∃ filter ∈ [platform, keepAll], filter.Passes f := by
  obtain ⟨d, hd⟩ := exists_succession
  exact ⟨d, hd, (files_pass_filters sourceDisk_bare hd).1⟩

/-- A session can hold a reference that its own filter excludes. -/
theorem cached_file_evades_filter :
    ¬∀ (store : Store) (filters : List ReferenceFilter) (s : Session) (d₀ d : Disk),
      (∀ key, d₀.NoFile (store.fragmentPath key)) → Succession store d₀ filters s d →
      ∀ f ∈ s.files, s.filter.Passes f := by
  intro h
  obtain ⟨d, hd⟩ := exists_succession
  have hpasses := h reusedStore _ strictSession sourceDisk d sourceDisk_bare hd reusedFile
    List.mem_cons_self
  exact absurd (hpasses.kept "java.util.List" List.mem_cons_self) (by decide)

end TypeDeps.Session
