import TypeDeps.Proofs.Session.Scan

/-!
# Fresh fragments

Where digests are compared, a cached file is one whose content has the digest that it had when
it was last extracted, over any run of scans, finished sessions and edits. The invariant ties
the two files of every scanned path to the last extraction of that path.
-/
namespace TypeDeps

/-- A scan that has extracted its file: the content of the source then, and the files that the
session has got by it. -/
structure Extraction where
  path : Path
  source : List UInt8
  files : List SourceFile

namespace Extraction

def last? (past : List Extraction) (p : Path) : Option Extraction := past.find? (·.path = p)

/-- The extractions behind a scan. -/
def after (past : List Extraction) (d : Disk) (s : Session) (p : Path)
    (answer : Except Error (ScanOutcome × Session)) : List Extraction :=
  match d.contentAt p, answer with
  | .ok source, .ok (.extracted, s') => ⟨p, source, s'.files.drop s.files.length⟩ :: past
  | _, _ => past

variable {past : List Extraction} {d : Disk} {s s' : Session} {p q : Path} {source : List UInt8}
variable {answer : Except Error (ScanOutcome × Session)}

theorem last?_after_of_ne (h : p ≠ q) : last? (after past d s q answer) p = last? past p := by
  unfold after
  split
  · simp [last?, Ne.symm h]
  · rfl

theorem last?_after_extracted (past : List Extraction) (s s' : Session)
    (hsource : d.contentAt p = .ok source) :
    last? (after past d s p (.ok (.extracted, s'))) p =
      some ⟨p, source, s'.files.drop s.files.length⟩ := by
  simp [after, hsource, last?]

theorem after_of_not_extracted (h : ∀ s', answer ≠ .ok (.extracted, s')) :
    after past d s p answer = past := by
  unfold after
  split
  · exact absurd rfl (h _)
  · rfl

end Extraction

namespace Session

open Disk Extraction

/-- The extractions of a run, the newest one first, and the disk behind it. The sessions may be
in any state when they scan or finish, and every scan may have an extractor of its own. Scans
and finishing may fail, but not in writing a fragment or a digest. An edit may change all but
the files that a store has for the scanned paths. -/
inductive History (digesting : Store.Digesting) (store : Store) (scanned : Path → Prop)
    (d₀ : Disk) : List Extraction → Disk → Prop where
  | start : History digesting store scanned d₀ [] d₀
  | scan {past : List Extraction} {d : Disk} {s : Session} {extract : Extractor} {p : Path} :
      History digesting store scanned d₀ past d → s.store = store → scanned p →
      WritesHold digesting extract s d p →
      History digesting store scanned d₀
        (after past d s p (d.perform (s.scan digesting extract p)).1)
        (d.perform (s.scan digesting extract p)).2
  | finish {past : List Extraction} {d : Disk} {s : Session} :
      History digesting store scanned d₀ past d → s.store = store →
      History digesting store scanned d₀ past (d.perform s.finish).2
  | edit {past : List Extraction} {d d' : Disk} :
      History digesting store scanned d₀ past d → d'.here = d.here →
      (∀ p, scanned p → Spares (store.fragmentPath p.display) d d' ∧
        Spares (store.digestPath p.display) d d') →
      History digesting store scanned d₀ past d'

/-- What a run starts from: every scanned path has a fragment of its own, which is not the
module graph, and no digest yet. -/
structure Prepared (store : Store) (scanned : Path → Prop) (d : Disk) : Prop where
  apart : ∀ p q, scanned p → scanned q →
    d.placeOf (store.fragmentPath p.display) = d.placeOf (store.fragmentPath q.display) → p = q
  moduleApart : ∀ p, scanned p →
    d.placeOf (store.fragmentPath p.display) ≠ d.placeOf store.modulePath
  bare : ∀ p, scanned p → d.NoFile (store.digestPath p.display)

/-- The files of a path are those that its last extraction has written. -/
structure Tracks (digesting : Store.Digesting) (store : Store) (past : List Extraction) (p : Path)
    (d : Disk) : Prop where
  fragment : ∀ e, last? past p = some e → ∃ t, Graph.write ⟨e.files⟩ = .ok t ∧
    d.contentAt (store.fragmentPath p.display) = .ok (bytesOf t)
  digest : ∀ e, last? past p = some e →
    d.contentAt (store.digestPath p.display) = .ok (bytesOf (digesting e.source))
  absent : last? past p = none → d.NoFile (store.digestPath p.display)

variable {digesting : Store.Digesting} {store : Store} {scanned : Path → Prop} {d₀ d d' : Disk}
variable {past past' : List Extraction} {s : Session} {extract : Extractor} {p q : Path}

theorem Tracks.of_spares (h : Tracks digesting store past p d)
    (hlast : last? past' p = last? past p)
    (hf : Spares (store.fragmentPath p.display) d d')
    (hd : Spares (store.digestPath p.display) d d') : Tracks digesting store past' p d' := by
  constructor
  · intro e he
    obtain ⟨t, ht, hc⟩ := h.fragment e (hlast ▸ he)
    exact ⟨t, ht, hf.reads _ hc⟩
  · intro e he
    exact hd.reads _ (h.digest e (hlast ▸ he))
  · intro hnone
    exact hd.absent (h.absent (hlast ▸ hnone))

theorem Tracks.scan_other (h : Tracks digesting s.store past p d) (hne : p ≠ q)
    (hplace : d.placeOf (s.store.fragmentPath p.display) ≠
      d.placeOf (s.store.fragmentPath q.display)) :
    Tracks digesting s.store (after past d s q (d.perform (s.scan digesting extract q)).1) p
      (d.perform (s.scan digesting extract q)).2 := by
  have hframe := scan_frame digesting extract s d q
  refine h.of_spares (last?_after_of_ne hne) (hframe.spares ?_) (hframe.spares ?_)
  · exact Store.fragment_not_mem_write hplace
  · exact Store.digest_not_mem_write hplace

theorem Tracks.scan_self (h : Tracks digesting s.store past p d)
    (hmode : s.store.cacheMode = .contentHash) (hw : WritesHold digesting extract s d p) :
    Tracks digesting s.store (after past d s p (d.perform (s.scan digesting extract p)).1) p
      (d.perform (s.scan digesting extract p)).2 := by
  -- an extraction writes both files anew, and nothing else changes the disk
  by_cases hanswer : ∃ s', (d.perform (s.scan digesting extract p)).1 = .ok (.extracted, s')
  · obtain ⟨s', hs'⟩ := hanswer
    obtain ⟨source, file, hmiss, rfl, q, hq⟩ := scan_extracted hmode (Prod.ext hs' rfl)
    obtain ⟨t, ht, hfragment, hdigest⟩ := Store.contentAt_of_writeFragment hmode hq
    have hlast := last?_after_extracted past s (s.add .extracted [s.filter.apply file]) hmiss.reads
    have hfiles : (s.add .extracted [s.filter.apply file]).files.drop s.files.length =
        [s.filter.apply file] := by
      simp [add]
    rw [hfiles] at hlast
    rw [hs']
    constructor
    · intro e he
      obtain rfl := Option.some.inj (hlast.symm.trans he)
      exact ⟨t, ht, hfragment⟩
    · intro e he
      obtain rfl := Option.some.inj (hlast.symm.trans he)
      exact hdigest
    · intro hnone
      simp [hlast] at hnone
  · have hnot : ∀ s', (d.perform (s.scan digesting extract p)).1 ≠ .ok (.extracted, s') :=
      fun s' hs' => hanswer ⟨s', hs'⟩
    rw [after_of_not_extracted hnot, scan_disk_of_not_extracted hmode hw hnot]
    exact h

theorem Tracks.finish (h : Tracks digesting s.store past p d)
    (hplace : d.placeOf (s.store.fragmentPath p.display) ≠ d.placeOf s.store.modulePath) :
    Tracks digesting s.store past p (d.perform s.finish).2 := by
  have hframe := s.finish_frame d
  refine h.of_spares rfl (hframe.spares ?_) (hframe.spares ?_)
  · exact Store.place_not_mem (.fragment p.display) .moduleGraph hplace
  · exact Store.place_not_mem (.digest p.display) .moduleGraph Store.digest_place_ne_module

theorem History.here (h : History digesting store scanned d₀ past d) : d.here = d₀.here := by
  induction h with
  | start => rfl
  | scan h hs hp hw ih => exact (scan_frame _ _ _ _ _).here.trans ih
  | finish h hs ih => exact (finish_frame _ _).here.trans ih
  | edit h hhere hspares ih => exact hhere.trans ih

/-- The invariant of a run. -/
theorem History.tracks (hmode : store.cacheMode = .contentHash)
    (hstart : Prepared store scanned d₀) (hp : scanned p)
    (h : History digesting store scanned d₀ past d) : Tracks digesting store past p d := by
  induction h with
  | start => exact ⟨by simp [last?], by simp [last?], fun _ => hstart.bare p hp⟩
  | @scan past d s extract q h hs hq hw ih =>
    subst hs
    by_cases hpq : p = q
    · subst hpq
      exact ih.scan_self hmode hw
    · -- places depend on the working directory alone, which is that of the start
      refine ih.scan_other hpq fun hplace => hpq (hstart.apart p q hp hq ?_)
      rwa [placeOf_congr h.here, placeOf_congr h.here] at hplace
  | finish h hs ih =>
    subst hs
    refine ih.finish fun hplace => hstart.moduleApart p hp ?_
    rwa [placeOf_congr h.here, placeOf_congr h.here] at hplace
  | edit h hhere hspares ih => exact ih.of_spares rfl (hspares p hp).1 (hspares p hp).2

theorem Tracks.isCached_iff {b : Bool} {source : List UInt8}
    (h : Tracks digesting s.store past p d) (hmode : s.store.cacheMode = .contentHash)
    (hhex : ∀ bytes, Store.IsHex (digesting bytes))
    (hb : (d.perform (s.store.isCached digesting p.display (some source))).1 = .ok b) :
    b = true ↔ ∃ e, last? past p = some e ∧ digesting source = digesting e.source := by
  cases hlast : last? past p with
  | none =>
    have hnone := h.absent hlast
    simp [Store.isCached_of_no_digest hmode (fun c => contentAt_ne_of_noFile hnone) hb]
  | some e =>
    obtain ⟨t, -, hfragment⟩ := h.fragment e hlast
    rw [Store.perform_isCached_of_digest hmode (isThere_of_contentAt hfragment)
      (h.digest e hlast)] at hb
    rw [← Except.ok.inj hb, Store.vouches_iff (hhex _)]
    simp [eq_comm]

/-- At the end of a run, a scan that succeeds is cached exactly if the content of the file has
the digest that it had at the last extraction of that path. Then it adds what the extraction
has added. Otherwise the file is extracted now. -/
theorem scan_fresh (hmode : s.store.cacheMode = .contentHash)
    (hhex : ∀ bytes, Store.IsHex (digesting bytes)) (hstart : Prepared s.store scanned d₀)
    (h : History digesting s.store scanned d₀ past d) (hp : scanned p)
    {outcome : ScanOutcome} {s' : Session}
    (hscan : d.perform (s.scan digesting extract p) = (.ok (outcome, s'), d')) :
    ∃ source, d.contentAt p = .ok source ∧
      (outcome = .cached ↔
        ∃ e, last? past p = some e ∧ digesting source = digesting e.source) ∧
      (outcome = .cached → ∃ e, last? past p = some e ∧ s'.files = s.files ++ e.files) ∧
      (outcome = .extracted →
        ∃ file, extract p = .ok file ∧ s'.files = s.files ++ [s.filter.apply file]) := by
  have htracks := h.tracks hmode hstart hp
  cases outcome with
  | cached =>
    obtain ⟨source, g, hsource, hcached, hload, rfl⟩ := scan_cached hmode hscan
    have hlast := (htracks.isCached_iff hmode hhex hcached).mp rfl
    obtain ⟨e, he, hdigest⟩ := hlast
    obtain ⟨t, ht, hfragment⟩ := htracks.fragment e he
    have hkept : d.perform (s.store.readFragment p.display) = (.ok ⟨e.files⟩, d) :=
      Graph.perform_load_of_write ht hfragment
    obtain rfl : ⟨e.files⟩ = g := Except.ok.inj ((congrArg Prod.fst hkept).symm.trans hload)
    exact ⟨source, hsource, by simpa using ⟨e, he, hdigest⟩, fun _ => ⟨e, he, rfl⟩, by simp⟩
  | extracted =>
    obtain ⟨source, file, hmiss, rfl, -⟩ := scan_extracted hmode hscan
    have hlast := htracks.isCached_iff hmode hhex hmiss.stale
    refine ⟨source, hmiss.reads, ?_, by simp, fun _ => ⟨file, hmiss.extracts, rfl⟩⟩
    rw [← hlast]
    simp

def sampleDisk : Disk := (Disk.empty []).put [bytesOf "a"] (.file [0x31])

def sampleSession : Session := start ⟨.ofString "o", "", .contentHash⟩ .keepAll

def sampleScan : Task (StateM Disk) (ScanOutcome × Session) :=
  sampleSession.scan Digest.Sha256.hex (fun p => .ok ⟨p, ["A"], []⟩) (.ofString "a")

/-- Scanned again, an unchanged file is cached. -/
theorem scan_fresh_again :
    ∃ past s', History Digest.Sha256.hex sampleSession.store (· = .ofString "a") sampleDisk past
        (sampleDisk.perform sampleScan).2 ∧
      ((sampleDisk.perform sampleScan).2.perform sampleScan).1 = .ok (.cached, s') ∧
      ∃ e, last? past (.ofString "a") = some e ∧ s'.files = sampleSession.files ++ e.files := by
  have hfirst : (sampleDisk.perform sampleScan).1 =
      .ok (.extracted, sampleSession.add .extracted [⟨.ofString "a", ["A"], []⟩]) := by
    decide +kernel
  have hsecond : (sampleDisk.perform sampleScan).2.perform sampleScan =
      (.ok (.cached, sampleSession.add .cached [⟨.ofString "a", ["A"], []⟩]),
        (sampleDisk.perform sampleScan).2) := by
    decide +kernel
  have hstart : Prepared sampleSession.store (· = .ofString "a") sampleDisk := by
    refine ⟨fun p q hp hq _ => hp.trans hq.symm, ?_, ?_⟩
    · rintro p rfl
      decide +kernel
    · rintro p rfl c
      have hnone : sampleDisk.at? (sampleDisk.placeOf
          (sampleSession.store.digestPath (Path.ofString "a").display)) = none := by
        decide +kernel
      simp [hnone]
  have hhistory : History Digest.Sha256.hex sampleSession.store (· = .ofString "a") sampleDisk _
      (sampleDisk.perform sampleScan).2 :=
    .scan .start rfl rfl (writesHold_of_ok rfl hfirst)
  obtain ⟨source, -, -, hcached, -⟩ :=
    scan_fresh rfl Store.isHex_hex hstart hhistory rfl hsecond
  exact ⟨_, _, hhistory, congrArg Prod.fst hsecond, hcached rfl⟩

end Session

end TypeDeps
