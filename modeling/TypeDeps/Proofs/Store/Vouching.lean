import TypeDeps.Proofs.Disk.Walks
import TypeDeps.Proofs.Store.Fragments

/-!
# What digests vouch for

Stores of either mode may write into one directory, with sources or without. A digest is left
alone by every write that does not write one itself, also if the write replaces the fragment
beside it. So what a digest vouches for is the last write that came with a digest, which need not
be the last write.
-/
namespace TypeDeps.Store

open Disk

/-- A fragment that is written, and the store that writes it. -/
structure FragmentWrite where
  store : Store
  key : String
  graph : Graph
  source? : Option (List UInt8)

namespace FragmentWrite

/-- The source that a digest is written for. -/
def digested? (w : FragmentWrite) : Option (List UInt8) := w.store.digested? w.source?

/-- The work of writing the fragment. -/
def work (digesting : Digesting) (w : FragmentWrite) : Task (StateM Disk) Path :=
  w.store.writeFragment digesting w.key w.graph w.source?

/-- If the last write came with a digest, this is the last digest. -/
theorem source_of_findSome {w : FragmentWrite} {ws : List FragmentWrite} {source : List UInt8}
    (h : (w :: ws).findSome? digested? = some source) (hdigested : w.digested? ≠ none) :
    w.source? = some source := by
  obtain ⟨first, hfirst⟩ := Option.ne_none_iff_exists'.mp hdigested
  rw [List.findSome?_cons, hfirst] at h
  rw [source_of_digested hfirst, Option.some.inj h]

/-- The writes whose fragment is the one of this key. -/
def ofKey (d : Disk) (s : Store) (key : String) (past : List FragmentWrite) : List FragmentWrite :=
  past.filter fun w => d.placeOf (w.store.fragmentPath w.key) = d.placeOf (s.fragmentPath key)

end FragmentWrite

/-- Writes into one directory, the newest one first, and the disk behind them. -/
inductive Writes (digesting : Digesting) (outputDir : Path) (d₀ : Disk) :
    List FragmentWrite → Disk → Prop where
  | start : Writes digesting outputDir d₀ [] d₀
  | write {past : List FragmentWrite} {d d' : Disk} {w : FragmentWrite} {q : Path} :
      Writes digesting outputDir d₀ past d → w.store.outputDir = outputDir →
      d.perform (w.work digesting) = (.ok q, d') →
      Writes digesting outputDir d₀ (w :: past) d'

/-- The files at these two places after these writes of a fragment: the document of the last one,
and the digest of the last one that came with a digest. -/
structure Holds (digesting : Digesting) (fragment digest : Place) (ws : List FragmentWrite)
    (d : Disk) : Prop where
  document : ∀ w, ws.head? = some w →
    ∃ t, w.graph.write = .ok t ∧ d.at? fragment = some (.file (bytesOf t))
  digested : ∀ source, ws.findSome? FragmentWrite.digested? = some source →
    d.at? digest = some (.file (bytesOf (digesting source)))
  absent : ws.findSome? FragmentWrite.digested? = none → ∀ c, d.at? digest ≠ some (.file c)

variable {digesting : Digesting} {s : Store} {key : String} {source : List UInt8}
variable {d₀ d d' : Disk} {w : FragmentWrite} {past ws : List FragmentWrite} {q : Path}
variable {fragment digest : Place}

theorem fragmentPath_congr {s s' : Store} (h : s.outputDir = s'.outputDir) (key : String) :
    s.fragmentPath key = s'.fragmentPath key := by
  rw [fragmentPath, fragmentPath, h]

theorem digestPath_congr {s s' : Store} (h : s.outputDir = s'.outputDir) (key : String) :
    s.digestPath key = s'.digestPath key := by
  rw [digestPath, digestPath, h]

theorem FragmentWrite.work_frame (h : d.perform (w.work digesting) = (.ok q, d')) :
    Frame ([d.placeOf (Storage.temporary (w.store.fragmentPath w.key)),
        d.placeOf (w.store.fragmentPath w.key)] ++
      [d.placeOf (Storage.temporary (w.store.digestPath w.key)),
        d.placeOf (w.store.digestPath w.key)]) d d' := by
  have hframe := writeFragment_frame digesting w.store w.key w.graph w.source? d
  rwa [show d.perform (w.store.writeFragment digesting w.key w.graph w.source?) = (.ok q, d')
    from h] at hframe

theorem Holds.congr (h : Holds digesting fragment digest ws d)
    (hfragment : ∀ c, d'.at? fragment = some (.file c) ↔ d.at? fragment = some (.file c))
    (hdigest : ∀ c, d'.at? digest = some (.file c) ↔ d.at? digest = some (.file c)) :
    Holds digesting fragment digest ws d' := by
  refine ⟨fun w hw => ?_, fun source hsource => ?_, fun hnone c => ?_⟩
  · obtain ⟨t, ht, ha⟩ := h.document w hw
    exact ⟨t, ht, (hfragment _).mpr ha⟩
  · exact (hdigest _).mpr (h.digested source hsource)
  · exact fun hc => h.absent hnone c ((hdigest c).mp hc)

/-- A digest that lies there is that of the last write that came with one. -/
theorem Holds.vouched {stored : String} (h : Holds digesting fragment digest ws d)
    (hhex : ∀ bytes, IsHex (digesting bytes))
    (hstored : d.at? digest = some (.file (bytesOf stored)))
    (hvouches : vouches stored (digesting source)) :
    ∃ source', ws.findSome? FragmentWrite.digested? = some source' ∧
      digesting source = digesting source' := by
  cases hlast : ws.findSome? FragmentWrite.digested? with
  | none => exact absurd hstored (h.absent hlast _)
  | some source' =>
    have hwritten := hstored.symm.trans (h.digested source' hlast)
    have hsame : stored = digesting source' := bytesOf_injective (by simpa using hwritten)
    rw [hsame, vouches_iff (hhex source')] at hvouches
    exact ⟨source', rfl, hvouches.symm⟩

/-- A write of another fragment touches neither file. -/
theorem Holds.write_other
    (h : Holds digesting (d.placeOf (s.fragmentPath key)) (d.placeOf (s.digestPath key)) ws d)
    (hdirectory : w.store.outputDir = s.outputDir)
    (hplace : d.placeOf (w.store.fragmentPath w.key) ≠ d.placeOf (s.fragmentPath key))
    (hw : d.perform (w.work digesting) = (.ok q, d')) :
    Holds digesting (d.placeOf (s.fragmentPath key)) (d.placeOf (s.digestPath key)) ws d' := by
  have hframe := FragmentWrite.work_frame hw
  rw [fragmentPath_congr hdirectory, digestPath_congr hdirectory] at hframe
  rw [fragmentPath_congr hdirectory] at hplace
  refine h.congr (fun c => hframe.files _ c ?_) (fun c => hframe.files _ c ?_)
  · exact fragment_not_mem_write hplace.symm
  · exact digest_not_mem_write hplace.symm

/-- A write of the fragment itself replaces the document, and the digest if it comes with one. -/
theorem Holds.write_self
    (h : Holds digesting (d.placeOf (s.fragmentPath key)) (d.placeOf (s.digestPath key)) ws d)
    (hdirectory : w.store.outputDir = s.outputDir)
    (hplace : d.placeOf (w.store.fragmentPath w.key) = d.placeOf (s.fragmentPath key))
    (hw : d.perform (w.work digesting) = (.ok q, d')) :
    Holds digesting (d.placeOf (s.fragmentPath key)) (d.placeOf (s.digestPath key)) (w :: ws)
      d' := by
  have hframe := FragmentWrite.work_frame hw
  have hdigest : d.placeOf (w.store.digestPath w.key) = d.placeOf (s.digestPath key) := by
    rw [digestPath_congr hdirectory]
    rw [fragmentPath_congr hdirectory] at hplace
    exact digest_place_eq_iff.mpr hplace
  obtain ⟨⟨t, ht, hdocument⟩, hsome, hnone⟩ := files_of_writeFragment hw
  have ha := (contentAt_eq_ok_iff.mp hdocument).2.2
  rw [placeOf_congr hframe.here, hplace] at ha
  rw [hdigest] at hnone
  have hlast : ∀ w', (w :: ws).head? = some w' → ∃ t, w'.graph.write = .ok t ∧
      d'.at? (d.placeOf (s.fragmentPath key)) = some (.file (bytesOf t)) := by
    intro w' hw'
    obtain rfl := Option.some.inj hw'
    exact ⟨t, ht, ha⟩
  cases hdigested : w.digested? with
  | none =>
    have hsame := hnone hdigested
    have hskip : (w :: ws).findSome? FragmentWrite.digested? =
        ws.findSome? FragmentWrite.digested? := by
      rw [List.findSome?_cons, hdigested]
    refine ⟨hlast, fun source hsource => ?_, fun hfree c hc => ?_⟩
    · rw [hskip] at hsource
      exact (hsame _).mpr (h.digested source hsource)
    · rw [hskip] at hfree
      exact h.absent hfree c ((hsame c).mp hc)
  | some source =>
    have hfirst : (w :: ws).findSome? FragmentWrite.digested? = some source := by
      rw [List.findSome?_cons, hdigested]
    have hwritten := (contentAt_eq_ok_iff.mp (hsome source hdigested)).2.2
    rw [placeOf_congr hframe.here, hdigest] at hwritten
    refine ⟨hlast, fun source' hsource' => ?_, fun hfree => ?_⟩
    · obtain rfl := Option.some.inj (hfirst.symm.trans hsource')
      exact hwritten
    · simp [hfirst] at hfree

theorem Writes.here {outputDir : Path} (h : Writes digesting outputDir d₀ past d) :
    d.here = d₀.here := by
  induction h with
  | start => rfl
  | @write past d d' w q h hdirectory hw ih =>
    exact (FragmentWrite.work_frame hw).here.trans ih

/-- The invariant of the writes. -/
theorem Writes.holds (hbare : d₀.NoFile (s.digestPath key))
    (h : Writes digesting s.outputDir d₀ past d) :
    Holds digesting (d₀.placeOf (s.fragmentPath key)) (d₀.placeOf (s.digestPath key))
      (FragmentWrite.ofKey d₀ s key past) d := by
  induction h with
  | start => exact ⟨by simp [FragmentWrite.ofKey], by simp [FragmentWrite.ofKey], fun _ => hbare⟩
  | @write past d d' w q h hdirectory hw ih =>
    -- places depend on the working directory alone, which is that of the start
    rw [← placeOf_congr h.here (s.fragmentPath key), ← placeOf_congr h.here (s.digestPath key)]
      at ih ⊢
    by_cases hplace : d.placeOf (w.store.fragmentPath w.key) = d.placeOf (s.fragmentPath key)
    · have hcons : FragmentWrite.ofKey d₀ s key (w :: past) =
          w :: FragmentWrite.ofKey d₀ s key past := by
        rw [placeOf_congr h.here, placeOf_congr h.here] at hplace
        exact List.filter_cons_of_pos (by simpa using hplace)
      rw [hcons]
      exact ih.write_self hdirectory hplace hw
    · have hcons : FragmentWrite.ofKey d₀ s key (w :: past) =
          FragmentWrite.ofKey d₀ s key past := by
        rw [placeOf_congr h.here, placeOf_congr h.here] at hplace
        exact List.filter_cons_of_neg (by simpa using hplace)
      rw [hcons]
      exact ih.write_other hdirectory hplace hw

/-- What is up to date has the digest that came with a write last. What lies there is the document
of the last write, so the two belong together if that one came with a digest. -/
theorem isCached_of_writes (hmode : s.cacheMode = .contentHash)
    (hhex : ∀ bytes, IsHex (digesting bytes)) (hbare : d₀.NoFile (s.digestPath key))
    (h : Writes digesting s.outputDir d₀ past d)
    (hcached : (d.perform (s.isCached digesting key (some source))).1 = .ok true) :
    ∃ w source', (FragmentWrite.ofKey d₀ s key past).head? = some w ∧
      (FragmentWrite.ofKey d₀ s key past).findSome? FragmentWrite.digested? = some source' ∧
      digesting source = digesting source' ∧
      (∃ t, w.graph.write = .ok t ∧ d.contentAt (s.fragmentPath key) = .ok (bytesOf t)) ∧
      (w.digested? ≠ none → w.source? = some source') := by
  have hholds := h.holds hbare
  obtain ⟨hthere, stored, hstored, hvouches⟩ := (isCached_eq_true_iff hmode).mp hcached
  have ha := (contentAt_eq_ok_iff.mp hstored).2.2
  rw [placeOf_congr h.here] at ha
  obtain ⟨source', hlast, hsame⟩ := hholds.vouched hhex ha hvouches
  cases hwrites : FragmentWrite.ofKey d₀ s key past with
  | nil => simp [hwrites] at hlast
  | cons w ws =>
    obtain ⟨t, ht, hdocument⟩ := hholds.document w (by rw [hwrites]; rfl)
    rw [← placeOf_congr h.here] at hdocument
    rw [hwrites] at hlast
    exact ⟨w, source', rfl, hlast, hsame, ⟨t, ht, contentAt_of_isThere hthere hdocument⟩,
      FragmentWrite.source_of_findSome hlast⟩

def hashingWrite : FragmentWrite :=
  ⟨⟨.ofString "out", "", .contentHash⟩, "A.java", ⟨[⟨.ofString "A.java", ["pkg.A"], []⟩]⟩,
    some (bytesOf "v1")⟩

def plainWrite : FragmentWrite :=
  ⟨⟨.ofString "out", "", .existence⟩, "A.java", ⟨[⟨.ofString "A.java", ["pkg.B"], []⟩]⟩, none⟩

/-- The same fragment written twice, with a digest first and then without. -/
def mixedDisk : Disk :=
  (((Disk.empty []).perform (hashingWrite.work Digest.Sha256.hex)).2.perform
    (plainWrite.work Digest.Sha256.hex)).2

theorem mixedDisk_writes :
    Writes Digest.Sha256.hex (.ofString "out") (Disk.empty []) [plainWrite, hashingWrite]
      mixedDisk := by
  have hfirst : ((Disk.empty []).perform (hashingWrite.work Digest.Sha256.hex)).1 =
      .ok (.ofString "out/A.java.json") := by
    decide +kernel
  have hsecond : (((Disk.empty []).perform (hashingWrite.work Digest.Sha256.hex)).2.perform
      (plainWrite.work Digest.Sha256.hex)).1 = .ok (.ofString "out/A.java.json") := by
    decide +kernel
  exact .write (.write .start rfl (Prod.ext hfirst rfl)) rfl (Prod.ext hsecond rfl)

theorem mixedDisk_cached : (mixedDisk.perform (hashingWrite.store.isCached Digest.Sha256.hex
    "A.java" (some (bytesOf "v1")))).1 = .ok true := by
  decide +kernel

/-- The source of the first write is up to date, although the second one came without a source. -/
theorem isCached_of_mixed_writes :
    (mixedDisk.perform (hashingWrite.store.isCached Digest.Sha256.hex "A.java"
      (some (bytesOf "v1")))).1 = .ok true ∧
    ∃ w source', (FragmentWrite.ofKey (Disk.empty []) hashingWrite.store "A.java"
        [plainWrite, hashingWrite]).head? = some w ∧
      (FragmentWrite.ofKey (Disk.empty []) hashingWrite.store "A.java"
        [plainWrite, hashingWrite]).findSome? FragmentWrite.digested? = some source' ∧
      Digest.Sha256.hex (bytesOf "v1") = Digest.Sha256.hex source' ∧
      (∃ t, w.graph.write = .ok t ∧
        mixedDisk.contentAt (hashingWrite.store.fragmentPath "A.java") = .ok (bytesOf t)) ∧
      (w.digested? ≠ none → w.source? = some source') := by
  have hbare : (Disk.empty []).NoFile (hashingWrite.store.digestPath "A.java") := by
    intro c
    have hnone : (Disk.empty []).at?
        ((Disk.empty []).placeOf (hashingWrite.store.digestPath "A.java")) = none := by
      decide +kernel
    simp [hnone]
  exact ⟨mixedDisk_cached,
    isCached_of_writes rfl isHex_hex hbare mixedDisk_writes mixedDisk_cached⟩

/-- A digest can vouch for a fragment that was written later and without a source. -/
theorem digest_outlives_fragment :
    ¬∀ (s : Store) (past : List FragmentWrite) (d : Disk) (key : String) (source : List UInt8),
      s.cacheMode = .contentHash →
      Writes Digest.Sha256.hex s.outputDir (Disk.empty []) past d →
      (d.perform (s.isCached Digest.Sha256.hex key (some source))).1 = .ok true →
      ∃ w source', (FragmentWrite.ofKey (Disk.empty []) s key past).head? = some w ∧
        w.source? = some source' ∧ Digest.Sha256.hex source' = Digest.Sha256.hex source := by
  intro h
  obtain ⟨w, source', hw, hsource', -⟩ :=
    h hashingWrite.store _ _ "A.java" _ rfl mixedDisk_writes mixedDisk_cached
  have hlast : (FragmentWrite.ofKey (Disk.empty []) hashingWrite.store "A.java"
      [plainWrite, hashingWrite]).head?.map FragmentWrite.source? = some none := by
    decide +kernel
  simp [hw, hsource'] at hlast

end TypeDeps.Store
