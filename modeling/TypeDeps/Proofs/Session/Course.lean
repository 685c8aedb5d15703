import TypeDeps.Proofs.Session.Runs

/-!
# The course of a session

A session that goes on behind failed scans, while anything may happen to the disk between its
scans, holds what its successful scans have found and nothing else: the filtered file of each
extraction and all that the fragment held behind each hit, in the order of the scans.
-/
namespace TypeDeps.Session

open Disk

/-- A scan and the disk that it meets. -/
structure Attempt extends Visit where
  before : Disk

/-- What has come of an attempt. -/
structure Report where
  attempt : Attempt
  answer : Except Error ScanOutcome
  after : Disk

/-- Scan a file. A scan that fails leaves the session as it was. -/
def attempt (digesting : Store.Digesting) (s : Session) (a : Attempt) : Report × Session :=
  match a.before.perform (s.scan digesting a.extract a.path) with
  | (.ok (outcome, s'), after) => (⟨a, .ok outcome, after⟩, s')
  | (.error e, after) => (⟨a, .error e, after⟩, s)

def attemptAll (digesting : Store.Digesting) (s : Session) : List Attempt → List Report × Session
  | [] => ([], s)
  | a :: attempts =>
    let (report, s) := s.attempt digesting a
    let (reports, s) := attemptAll digesting s attempts
    (report :: reports, s)

/-! ## A session that is changed in place -/

/-- Work on a session and on files. What it has changed stays changed when a later step fails. -/
abbrev Held := ExceptT Error (StateT Session (StateM Disk))

/-- The answer of such work, the session and the disk behind it. -/
def hold {α : Type} (s : Session) (d : Disk) (work : Held α) : Except Error α × Session × Disk :=
  let ((answer, s), d) := (work.run.run s).run d
  (answer, s, d)

def onFiles {α : Type} (work : Task (StateM Disk) α) : Held α := ExceptT.mk (StateT.lift work.run)

/-- The steps of a scan on a session that is at hand. -/
def scanInPlace (digesting : Store.Digesting) (extract : Extractor) (path : Path) :
    Held ScanOutcome := do
  let s ← get
  let source? ← onFiles (s.sourceOf path)
  if ← onFiles (s.store.isCached digesting path.display source?) then
    let fragment ← onFiles (s.store.readFragment path.display)
    modify fun s => { s with files := s.files ++ fragment.files }
    modify fun s => { s with cached := s.cached + 1 }
    pure .cached
  else
    let file ← onFiles (liftExcept (extract path))
    let fragment : Graph := ⟨[s.filter.apply file]⟩
    let _ ← onFiles (s.store.writeFragment digesting path.display fragment source?)
    modify fun s => { s with files := s.files ++ fragment.files }
    modify fun s => { s with extracted := s.extracted + 1 }
    pure .extracted

section Held

variable {α β : Type} {s : Session} {d : Disk} {work : Task (StateM Disk) α}

theorem hold_pure (s : Session) (d : Disk) (a : α) : hold s d (pure a) = (.ok a, s, d) := rfl

theorem hold_get (s : Session) (d : Disk) (f : Session → Held β) :
    hold s d (get >>= f) = hold s d (f s) := rfl

theorem hold_modify (s : Session) (d : Disk) (change : Session → Session) (f : Unit → Held β) :
    hold s d (modify change >>= f) = hold (change s) d (f ()) := rfl

theorem hold_onFiles (s : Session) (d : Disk) (work : Task (StateM Disk) α) (f : α → Held β) :
    hold s d (onFiles work >>= f) =
      match d.perform work with
      | (.ok a, d') => hold s d' (f a)
      | (.error e, d') => (.error e, s, d') := by
  have hwork : hold s d (onFiles work >>= f) = match d.perform work with
      | (answer, d') => hold s d' (ExceptT.mk (ExceptT.bindCont f answer)) := rfl
  rw [hwork]
  rcases d.perform work with ⟨_ | _, d'⟩ <;> rfl

theorem hold_onFiles_of_same (h : (d.perform work).2 = d) (f : α → Held β) :
    hold s d (onFiles work >>= f) =
      match (d.perform work).1 with
      | .ok a => hold s d (f a)
      | .error e => (.error e, s, d) := by
  rw [hold_onFiles]
  generalize d.perform work = done at h ⊢
  obtain ⟨answer, d'⟩ := done
  obtain rfl : d' = d := h
  cases answer <;> rfl

end Held

/-- A session that is changed in place goes through what an attempt goes through: nothing is
changed before the last step that can fail. -/
theorem hold_scanInPlace (digesting : Store.Digesting) (s : Session) (a : Attempt) :
    hold s a.before (scanInPlace digesting a.extract a.path) =
      ((s.attempt digesting a).1.answer, (s.attempt digesting a).2,
        (s.attempt digesting a).1.after) := by
  obtain ⟨⟨p, extract⟩, d⟩ := a
  unfold scanInPlace Session.attempt
  rw [hold_get, hold_onFiles_of_same (s.sourceOf_disk d p), perform_scan]
  cases (d.perform (s.sourceOf p)).1 with
  | error e => rfl
  | ok source? =>
    dsimp only
    rw [hold_onFiles_of_same (Store.isCached_disk digesting s.store p.display source? d)]
    cases (d.perform (s.store.isCached digesting p.display source?)).1 with
    | error e => rfl
    | ok hit =>
      cases hit with
      | true =>
        have hfragment : (d.perform (s.store.readFragment p.display)).2 = d :=
          Graph.load_disk d (s.store.fragmentPath p.display)
        simp only [if_true]
        rw [hold_onFiles_of_same hfragment]
        cases (d.perform (s.store.readFragment p.display)).1 with
        | error e => rfl
        | ok g => simp only [hold_modify, hold_pure, Except.map, add]
      | false =>
        simp only [Bool.false_eq_true, if_false]
        rw [hold_onFiles, perform_liftExcept]
        cases extract p with
        | error e => rfl
        | ok file =>
          dsimp only
          rw [hold_onFiles]
          rcases d.perform (s.store.writeFragment digesting p.display ⟨[s.filter.apply file]⟩
            source?) with ⟨e | q, d'⟩
          · rfl
          · simp only [hold_modify, hold_pure, Except.map, add]

/-- Scans of one session that is changed in place. A scan that fails hands on whatever it has left
of the session. -/
def holdAll (digesting : Store.Digesting) (s : Session) : List Attempt → List Report × Session
  | [] => ([], s)
  | a :: attempts =>
    let (answer, s, after) := hold s a.before (scanInPlace digesting a.extract a.path)
    let (reports, s) := holdAll digesting s attempts
    (⟨a, answer, after⟩ :: reports, s)

theorem attempt_attempt (digesting : Store.Digesting) (s : Session) (a : Attempt) :
    (s.attempt digesting a).1.attempt = a := by
  unfold Session.attempt
  split <;> rfl

theorem holdAll_eq_attemptAll (digesting : Store.Digesting) (s : Session)
    (attempts : List Attempt) : s.holdAll digesting attempts = s.attemptAll digesting attempts := by
  induction attempts generalizing s with
  | nil => rfl
  | cons a attempts ih =>
    have hattempt := attempt_attempt digesting s a
    rw [holdAll, attemptAll, hold_scanInPlace]
    generalize s.attempt digesting a = done at hattempt ⊢
    obtain ⟨⟨a', answer, after⟩, s'⟩ := done
    obtain rfl : a' = a := hattempt
    simp only [ih]

/-! ## Reports -/

namespace Report

/-- The files that a session with this store and this filter has found. -/
def Found (store : Store) (filter : ReferenceFilter) (r : Report) (files : List SourceFile) :
    Prop :=
  match r.answer with
  | .ok .extracted => ∃ file, r.attempt.extract r.attempt.path = .ok file ∧
      files = [filter.apply file] ∧
      r.after.perform (store.readFragment r.attempt.path.display) =
        (.ok ⟨[filter.apply file]⟩, r.after)
  | .ok .cached => ∃ content, r.after = r.attempt.before ∧
      r.attempt.before.contentAt (store.fragmentPath r.attempt.path.display) = .ok content ∧
      Graph.readStream content = .ok ⟨files⟩
  | .error _ => files = []

/-- Where fragments count as soon as they are there, a failed scan has at most begun to write
one. -/
def Restrained (store : Store) (r : Report) : Prop :=
  ∀ e, r.answer = .error e → store.cacheMode = .existence →
    Frame [r.attempt.before.placeOf
      (Storage.temporary (store.fragmentPath r.attempt.path.display))] r.attempt.before r.after

end Report

variable {digesting : Store.Digesting} {extract : Extractor} {s s' : Session} {d d' : Disk}
variable {p : Path} {outcome : ScanOutcome} {e : Error}

/-! ## One scan -/

/-- A successful scan is a hit or an extraction, whatever it compares. -/
theorem scan_eq_ok (h : d.perform (s.scan digesting extract p) = (.ok (outcome, s'), d')) :
    (∃ g, outcome = .cached ∧ d.perform (s.store.readFragment p.display) = (.ok g, d) ∧
      s' = s.add .cached g.files ∧ d' = d) ∨
    ∃ source? file q, outcome = .extracted ∧ extract p = .ok file ∧
      d.perform (s.store.writeFragment digesting p.display ⟨[s.filter.apply file]⟩ source?) =
        (.ok q, d') ∧ s' = s.add .extracted [s.filter.apply file] := by
  rw [perform_scan] at h
  cases hsource : (d.perform (s.sourceOf p)).1 with
  | error e => simp [hsource] at h
  | ok source? =>
    simp only [hsource] at h
    cases hcached : (d.perform (s.store.isCached digesting p.display source?)).1 with
    | error e => simp [hcached] at h
    | ok hit =>
      cases hit with
      | true =>
        simp only [hcached] at h
        have hload := Graph.load_disk d (s.store.fragmentPath p.display)
        cases hg : (d.perform (s.store.readFragment p.display)).1 with
        | error e => simp [hg, Except.map] at h
        | ok g =>
          simp only [hg, Except.map, Prod.mk.injEq, Except.ok.injEq] at h
          exact .inl ⟨g, h.1.1.symm, Prod.ext hg hload, h.1.2.symm, h.2.symm⟩
      | false =>
        simp only [hcached] at h
        cases hfile : extract p with
        | error e => simp [hfile] at h
        | ok file =>
          simp only [hfile] at h
          generalize hwritten : d.perform
            (s.store.writeFragment digesting p.display ⟨[s.filter.apply file]⟩ source?) = written
            at h
          obtain ⟨_ | q, d₁⟩ := written <;> simp only [Except.map, Prod.mk.injEq] at h
          · simp at h
          · simp only [Except.ok.injEq, Prod.mk.injEq] at h
            exact .inr ⟨source?, file, q, h.1.1.symm, rfl, h.2 ▸ hwritten, h.1.2.symm⟩

/-- What a successful scan adds to its session. -/
theorem found_of_scan (h : d.perform (s.scan digesting extract p) = (.ok (outcome, s'), d')) :
    ∃ files, s' = s.add outcome files ∧
      Report.Found s.store s.filter ⟨⟨⟨p, extract⟩, d⟩, .ok outcome, d'⟩ files := by
  rcases scan_eq_ok h with ⟨g, rfl, hg, rfl, rfl⟩ | ⟨source?, file, q, rfl, hfile, hwritten, rfl⟩
  · obtain ⟨⟨content, hcontent, hdocument⟩, -⟩ := Graph.perform_load_eq_ok_iff.mp hg
    exact ⟨g.files, rfl, content, rfl, hcontent, Graph.readStream_eq_ok_iff.mpr hdocument⟩
  · obtain ⟨⟨t, ht, hcontent⟩, -, -⟩ := Store.files_of_writeFragment hwritten
    exact ⟨_, rfl, file, hfile, rfl, Graph.perform_load_of_write ht hcontent⟩

theorem frame_of_failed_scan (hmode : s.store.cacheMode = .existence)
    (h : d.perform (s.scan digesting extract p) = (.error e, d')) :
    Frame [d.placeOf (Storage.temporary (s.store.fragmentPath p.display))] d d' := by
  rw [perform_scan_existence hmode] at h
  split_ifs at h
  · rw [← (Prod.mk.inj h).2]
    exact .refl _ _
  · split at h
    · rw [← (Prod.mk.inj h).2]
      exact .refl _ _
    · next file _ =>
      cases hsaved : d.perform
          (Graph.save (s.store.fragmentPath p.display) ⟨[s.filter.apply file]⟩) with
      | mk answer d₁ =>
        simp only [hsaved, Prod.mk.injEq] at h
        obtain ⟨hanswer, rfl⟩ := h
        cases answer with
        | ok u => cases hanswer
        | error e' => exact Graph.save_frame_of_error hsaved

theorem add_filter (s : Session) (outcome : ScanOutcome) (files : List SourceFile) :
    (s.add outcome files).filter = s.filter := by
  cases outcome <;> rfl

/-- All that an attempt does to its session. -/
theorem attempt_cases (digesting : Store.Digesting) (s : Session) (a : Attempt) :
    ∃ files, (s.attempt digesting a).1.Found s.store s.filter files ∧
      (s.attempt digesting a).1.Restrained s.store ∧
      (s.attempt digesting a).2 = match (s.attempt digesting a).1.answer with
        | .ok outcome => s.add outcome files
        | .error _ => s := by
  unfold Session.attempt
  split
  · next outcome s' after hscan =>
    obtain ⟨files, rfl, hfound⟩ := found_of_scan hscan
    refine ⟨files, hfound, fun e he => ?_, rfl⟩
    cases he
  · next e after hscan =>
    exact ⟨[], rfl, fun _ _ hmode => frame_of_failed_scan hmode hscan, rfl⟩

/-! ## A course of scans -/

def hits (reports : List Report) : Nat := reports.countP fun r => r.answer = .ok .cached

def extractions (reports : List Report) : Nat := reports.countP fun r => r.answer = .ok .extracted

/-- The session has grown by what these scans have found. -/
structure Grown (s s' : Session) (reports : List Report) (found : List (List SourceFile)) :
    Prop where
  store : s'.store = s.store
  filter : s'.filter = s.filter
  files : s'.files = s.files ++ found.flatten
  cached : s'.cached = s.cached + hits reports
  extracted : s'.extracted = s.extracted + extractions reports

theorem grown_of_answer {r : Report} {files : List SourceFile}
    (hfound : r.Found s.store s.filter files)
    (hs : s' = match r.answer with
      | .ok outcome => s.add outcome files
      | .error _ => s) : Grown s s' [r] [files] := by
  subst hs
  unfold Report.Found at hfound
  cases hanswer : r.answer with
  | error e =>
    obtain rfl : files = [] := by simpa [hanswer] using hfound
    exact ⟨rfl, rfl, by simp, by simp [hits, hanswer], by simp [extractions, hanswer]⟩
  | ok outcome =>
    refine ⟨add_store s outcome files, add_filter s outcome files, ?_, ?_, ?_⟩
    · simpa using add_files s outcome files
    · cases outcome <;> simp [hits, hanswer, add]
    · cases outcome <;> simp [extractions, hanswer, add]

theorem Grown.cons {s₁ s₂ : Session} {r : Report} {reports : List Report}
    {files : List SourceFile} {found : List (List SourceFile)} (h : Grown s s₁ [r] [files])
    (h' : Grown s₁ s₂ reports found) : Grown s s₂ (r :: reports) (files :: found) := by
  refine ⟨h'.store.trans h.store, h'.filter.trans h.filter, ?_, ?_, ?_⟩
  · rw [h'.files, h.files]
    simp
  · have hsum : hits (r :: reports) = hits [r] + hits reports := by
      rw [hits, ← List.singleton_append, List.countP_append, hits, hits]
    rw [h'.cached, h.cached, hsum, Nat.add_assoc]
  · have hsum : extractions (r :: reports) = extractions [r] + extractions reports := by
      rw [extractions, ← List.singleton_append, List.countP_append, extractions, extractions]
    rw [h'.extracted, h.extracted, hsum, Nat.add_assoc]

theorem attemptAll_grown (digesting : Store.Digesting) (s : Session) (attempts : List Attempt) :
    ∃ found,
      List.Forall₂ (Report.Found s.store s.filter) (s.attemptAll digesting attempts).1 found ∧
      (∀ r ∈ (s.attemptAll digesting attempts).1, r.Restrained s.store) ∧
      (s.attemptAll digesting attempts).1.map Report.attempt = attempts ∧
      Grown s (s.attemptAll digesting attempts).2 (s.attemptAll digesting attempts).1 found := by
  induction attempts generalizing s with
  | nil => exact ⟨[], .nil, by simp [attemptAll], rfl, rfl, rfl, by simp [attemptAll], rfl, rfl⟩
  | cons a attempts ih =>
    obtain ⟨files, hfound, hrestrained, hs⟩ := attempt_cases digesting s a
    have hfirst := grown_of_answer hfound hs
    obtain ⟨found, hall, hrest, hattempts, hgrown⟩ := ih (s.attempt digesting a).2
    rw [hfirst.store, hfirst.filter] at hall
    rw [hfirst.store] at hrest
    rw [attemptAll]
    refine ⟨files :: found, .cons hfound hall, ?_, ?_, hfirst.cons hgrown⟩
    · intro r hr
      rcases List.mem_cons.mp hr with rfl | hr
      · exact hrestrained
      · exact hrest r hr
    · rw [List.map_cons, attempt_attempt, hattempts]

/-- Finishing writes the files of the session and answers them with its counts. -/
theorem perform_finish (s : Session) (d : Disk) :
    d.perform s.finish =
      ((d.perform (s.store.writeModule ⟨s.files⟩)).1.map fun path =>
        ⟨path, ⟨s.files⟩, s.cached, s.extracted⟩,
      (d.perform (s.store.writeModule ⟨s.files⟩)).2) := by
  rw [finish, perform_bind]
  rcases d.perform (s.store.writeModule ⟨s.files⟩) with ⟨_ | _, d'⟩ <;> rfl

/-- After any scans on any disks, a session holds what the successful ones have found, in their
order, it has counted them, and it finishes with exactly that. Failed scans have added nothing, and
where fragments count as soon as they are there, they have left all files alone. All this is so
too of a session that is changed in place, which keeps what a failed scan has done to it. -/
theorem course_of_session (digesting : Store.Digesting) (store : Store) (filter : ReferenceFilter)
    (attempts : List Attempt) :
    ∃ reports s found, (start store filter).attemptAll digesting attempts = (reports, s) ∧
      (start store filter).holdAll digesting attempts = (reports, s) ∧
      reports.map Report.attempt = attempts ∧
      List.Forall₂ (Report.Found store filter) reports found ∧
      (∀ r ∈ reports, r.Restrained store) ∧
      s.files = found.flatten ∧ s.cached = hits reports ∧ s.extracted = extractions reports ∧
      ∀ d : Disk, d.perform s.finish =
        ((d.perform (store.writeModule ⟨found.flatten⟩)).1.map fun path =>
          ⟨path, ⟨found.flatten⟩, hits reports, extractions reports⟩,
        (d.perform (store.writeModule ⟨found.flatten⟩)).2) := by
  obtain ⟨found, hall, hrestrained, hattempts, hgrown⟩ :=
    attemptAll_grown digesting (start store filter) attempts
  have hstore : ((start store filter).attemptAll digesting attempts).2.store = store :=
    hgrown.store
  have hfiles : ((start store filter).attemptAll digesting attempts).2.files = found.flatten := by
    simpa [start] using hgrown.files
  have hcached := hgrown.cached.trans (Nat.zero_add _)
  have hextracted := hgrown.extracted.trans (Nat.zero_add _)
  refine ⟨_, _, found, rfl, holdAll_eq_attemptAll digesting _ attempts, hattempts, hall,
    hrestrained, hfiles, hcached, hextracted, fun d => ?_⟩
  rw [perform_finish, hstore, hfiles, hcached, hextracted]

/-- A scan that fails, one that extracts and one that meets a fragment of two files. -/
def unevenAttempts : List Attempt :=
  let fails : Extractor := fun p => .error (.extraction p "no parser")
  let finds : Extractor := fun p => .ok ⟨p, ["A"], ["java.B"]⟩
  let fragment : Graph := ⟨[⟨.ofString "b", ["B"], []⟩, ⟨.ofString "c", [], ["B"]⟩]⟩
  [⟨⟨.ofString "a", fails⟩, .empty []⟩, ⟨⟨.ofString "a", finds⟩, .empty []⟩,
    ⟨⟨.ofString "b", fails⟩, ((Disk.empty []).perform (fragment.save (.ofString "b.json"))).2⟩]

example : ((start .plain .platform).attemptAll (fun _ => "") unevenAttempts).2 =
    ⟨.plain, .platform, [⟨.ofString "a", ["A"], []⟩, ⟨.ofString "b", ["B"], []⟩,
      ⟨.ofString "c", [], ["B"]⟩], 1, 1⟩ := by
  decide +kernel

end TypeDeps.Session
