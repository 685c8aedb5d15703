import TypeDeps.Proofs.Store.Fragments
import TypeDeps.Session

/-!
# Scans on disks

A scan reads the source where it counts and asks the store. Only if the store has nothing that
is up to date and the file can be extracted, something is written.
-/
namespace TypeDeps.Session

open Disk

variable {digesting : Store.Digesting} {extract : Extractor} {s : Session} {d d' : Disk} {p : Path}

theorem sourceOf_disk (s : Session) (d : Disk) (p : Path) : (d.perform (s.sourceOf p)).2 = d := by
  unfold sourceOf
  cases s.store.cacheMode <;> simp

/-- Where digests count, the source is read. -/
theorem perform_sourceOf (hmode : s.store.cacheMode = .contentHash) (d : Disk) (p : Path) :
    (d.perform (s.sourceOf p)).1 = ((d.contentAt p).map some).mapError .storage := by
  rw [sourceOf, hmode, perform_map, perform_read]
  cases d.contentAt p <;> rfl

/-- All that a scan does. -/
theorem perform_scan (digesting : Store.Digesting) (extract : Extractor) (s : Session) (d : Disk)
    (p : Path) :
    d.perform (s.scan digesting extract p) =
      match (d.perform (s.sourceOf p)).1 with
      | .error e => (.error e, d)
      | .ok source? =>
        match (d.perform (s.store.isCached digesting p.display source?)).1 with
        | .error e => (.error e, d)
        | .ok true =>
          ((d.perform (s.store.readFragment p.display)).1.map fun g =>
            (.cached, s.add .cached g.files), d)
        | .ok false =>
          match extract p with
          | .error e => (.error e, d)
          | .ok file =>
            let written := d.perform
              (s.store.writeFragment digesting p.display ⟨[s.filter.apply file]⟩ source?)
            (written.1.map fun _ => (.extracted, s.add .extracted [s.filter.apply file]),
              written.2) := by
  unfold scan
  rw [perform_bind_of_same (s.sourceOf_disk d p)]
  cases (d.perform (s.sourceOf p)).1 with
  | error e => rfl
  | ok source? =>
    dsimp only
    rw [perform_bind_of_same (Store.isCached_disk digesting s.store p.display source? d)]
    cases (d.perform (s.store.isCached digesting p.display source?)).1 with
    | error e => rfl
    | ok b =>
      cases b with
      | true =>
        have hload := Graph.load_disk d (s.store.fragmentPath p.display)
        simp [Store.readFragment, hload]
      | false =>
        simp only [Bool.false_eq_true, if_false, perform_bind, perform_liftExcept]
        cases extract p with
        | error e => rfl
        | ok file =>
          dsimp only
          split <;> simp [*, Except.map]

/-- Scanning a file touches what writing its fragment touches, whatever comes of it. -/
theorem scan_frame (digesting : Store.Digesting) (extract : Extractor) (s : Session) (d : Disk)
    (p : Path) :
    Frame ([d.placeOf (Storage.temporary (s.store.fragmentPath p.display)),
        d.placeOf (s.store.fragmentPath p.display)] ++
      [d.placeOf (Storage.temporary (s.store.digestPath p.display)),
        d.placeOf (s.store.digestPath p.display)]) d
      (d.perform (s.scan digesting extract p)).2 := by
  rw [perform_scan]
  split
  · exact .refl _ d
  · split
    · exact .refl _ d
    · exact .refl _ d
    · split
      · exact .refl _ d
      · exact Store.writeFragment_frame digesting s.store p.display _ _ d

theorem finish_frame (s : Session) (d : Disk) :
    Frame [d.placeOf (Storage.temporary s.store.modulePath), d.placeOf s.store.modulePath] d
      (d.perform s.finish).2 := by
  unfold finish
  refine perform_bind_frame ?_ fun _ d₁ _ => .refl _ d₁
  unfold Store.writeModule
  exact perform_bind_frame (Graph.save_frame d _ _) fun _ d₁ _ => .refl _ d₁

/-! ## Scans that compare digests -/

/-- The store has nothing up to date for the present source, and the file can be extracted. -/
structure Misses (digesting : Store.Digesting) (extract : Extractor) (s : Session) (d : Disk)
    (p : Path) (source : List UInt8) (file : SourceFile) : Prop where
  reads : d.contentAt p = .ok source
  stale : (d.perform (s.store.isCached digesting p.display (some source))).1 = .ok false
  extracts : extract p = .ok file

def writing (digesting : Store.Digesting) (s : Session) (p : Path) (source : List UInt8)
    (file : SourceFile) : Task (StateM Disk) Path :=
  s.store.writeFragment digesting p.display ⟨[s.filter.apply file]⟩ (some source)

/-- What a scan writes, if it comes to that, does not fail. The fragment may still be of the
kind that has no document. -/
def WritesHold (digesting : Store.Digesting) (extract : Extractor) (s : Session) (d : Disk)
    (p : Path) : Prop :=
  ∀ source file failure, Misses digesting extract s d p source file →
    (d.perform (writing digesting s p source file)).1 ≠ .error (.storage failure)

/-- A scan misses and writes, or it takes what the fragment holds, or it fails before it has
written anything. -/
theorem scan_cases (hmode : s.store.cacheMode = .contentHash) (digesting : Store.Digesting)
    (extract : Extractor) (d : Disk) (p : Path) :
    (∃ source file, Misses digesting extract s d p source file ∧
      d.perform (s.scan digesting extract p) =
        ((d.perform (writing digesting s p source file)).1.map fun _ =>
          (.extracted, s.add .extracted [s.filter.apply file]),
        (d.perform (writing digesting s p source file)).2)) ∨
    (∃ source g, d.contentAt p = .ok source ∧
      (d.perform (s.store.isCached digesting p.display (some source))).1 = .ok true ∧
      (d.perform (s.store.readFragment p.display)).1 = .ok g ∧
      d.perform (s.scan digesting extract p) = (.ok (.cached, s.add .cached g.files), d)) ∨
    ∃ e, d.perform (s.scan digesting extract p) = (.error e, d) := by
  rw [perform_scan, perform_sourceOf hmode]
  cases hsource : d.contentAt p with
  | error e => exact .inr (.inr ⟨_, rfl⟩)
  | ok source =>
    simp only [Except.map, Except.mapError]
    cases hcached : (d.perform (s.store.isCached digesting p.display (some source))).1 with
    | error e => exact .inr (.inr ⟨e, rfl⟩)
    | ok b =>
      cases b with
      | true =>
        cases hg : (d.perform (s.store.readFragment p.display)).1 with
        | error e => exact .inr (.inr ⟨e, rfl⟩)
        | ok g => exact .inr (.inl ⟨source, g, rfl, hcached, rfl, rfl⟩)
      | false =>
        cases hfile : extract p with
        | error e => exact .inr (.inr ⟨e, rfl⟩)
        | ok file => exact .inl ⟨source, file, ⟨hsource, hcached, hfile⟩, rfl⟩

/-- An extraction comes of a miss and of a fragment that could be written. -/
theorem scan_extracted {s' : Session} (hmode : s.store.cacheMode = .contentHash)
    (h : d.perform (s.scan digesting extract p) = (.ok (.extracted, s'), d')) :
    ∃ source file, Misses digesting extract s d p source file ∧
      s' = s.add .extracted [s.filter.apply file] ∧
      ∃ q, d.perform (writing digesting s p source file) = (.ok q, d') := by
  rcases scan_cases hmode digesting extract d p with
    ⟨source, file, hmiss, hscan⟩ | ⟨source, g, -, -, -, hscan⟩ | ⟨e, hscan⟩
  · refine ⟨source, file, hmiss, ?_⟩
    rw [hscan] at h
    generalize d.perform (writing digesting s p source file) = written at h ⊢
    obtain ⟨_ | q, d₁⟩ := written <;> cases h
    exact ⟨rfl, q, rfl⟩
  · simp [hscan] at h
  · simp [hscan] at h

theorem scan_cached {s' : Session} (hmode : s.store.cacheMode = .contentHash)
    (h : d.perform (s.scan digesting extract p) = (.ok (.cached, s'), d')) :
    ∃ source g, d.contentAt p = .ok source ∧
      (d.perform (s.store.isCached digesting p.display (some source))).1 = .ok true ∧
      (d.perform (s.store.readFragment p.display)).1 = .ok g ∧ s' = s.add .cached g.files := by
  rcases scan_cases hmode digesting extract d p with
    ⟨source, file, -, hscan⟩ | ⟨source, g, hsource, hcached, hg, hscan⟩ | ⟨e, hscan⟩
  · rw [hscan] at h
    generalize d.perform (writing digesting s p source file) = written at h
    obtain ⟨_ | q, d₁⟩ := written <;> cases h
  · simp only [hscan, Prod.mk.injEq, Except.ok.injEq, true_and] at h
    exact ⟨source, g, hsource, hcached, hg, h.1.symm⟩
  · simp [hscan] at h

/-- Where writes hold, only an extraction changes the disk. -/
theorem scan_disk_of_not_extracted (hmode : s.store.cacheMode = .contentHash)
    (hw : WritesHold digesting extract s d p)
    (h : ∀ s', (d.perform (s.scan digesting extract p)).1 ≠ .ok (.extracted, s')) :
    (d.perform (s.scan digesting extract p)).2 = d := by
  rcases scan_cases hmode digesting extract d p with
    ⟨source, file, hmiss, hscan⟩ | ⟨source, g, -, -, -, hscan⟩ | ⟨e, hscan⟩
  · rw [hscan] at h ⊢
    cases hanswer : (d.perform (writing digesting s p source file)).1 with
    | ok q => simp [hanswer, Except.map] at h
    | error e =>
      cases hwrite : Graph.write ⟨[s.filter.apply file]⟩ with
      | error e' => rw [writing, Store.perform_writeFragment_of_error hwrite]
      | ok t =>
        obtain ⟨failure, rfl⟩ := Store.storage_of_writeFragment hwrite hanswer
        exact absurd hanswer (hw source file failure hmiss)
  · rw [hscan]
  · rw [hscan]

theorem writesHold_of_ok {a : ScanOutcome × Session} (hmode : s.store.cacheMode = .contentHash)
    (h : (d.perform (s.scan digesting extract p)).1 = .ok a) :
    WritesHold digesting extract s d p := by
  intro source file failure hmiss hfailure
  rw [perform_scan, perform_sourceOf hmode, hmiss.reads] at h
  simp only [Except.map, Except.mapError, hmiss.stale, hmiss.extracts] at h
  rw [writing] at hfailure
  simp [hfailure] at h

end TypeDeps.Session
