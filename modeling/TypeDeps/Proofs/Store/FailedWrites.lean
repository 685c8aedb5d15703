import TypeDeps.Proofs.Store.Fragments
import TypeDeps.Proofs.Store.Keys

/-!
# Failed writes of fragments

A fragment and its digest are two files, and the fragment is written first. Whichever of the two
writes fails, the digest is the old one afterwards, so a source that the fragment is up to date
for had this digest before. If the fragment has not been written either, it is the old one, too.
But if only the digest has not been written, the old digest vouches for a new fragment.
-/
namespace TypeDeps.Store

open Disk

variable {digesting : Digesting} {s : Store} {key : String} {source : List UInt8}
variable {source? : Option (List UInt8)}
variable {d d' d₁ : Disk} {g : Graph} {e : Error} {c : List UInt8}

/-- A write fails at the fragment, or behind it at the digest. -/
theorem writeFragment_error_cases
    (h : d.perform (s.writeFragment digesting key g source?) = (.error e, d')) :
    d.perform (g.save (s.fragmentPath key)) = (.error e, d') ∨
      ∃ d₁, d.perform (g.save (s.fragmentPath key)) = (.ok (), d₁) ∧
        d₁.perform (s.writeDigest digesting key source?) = (.error e, d') := by
  rw [writeFragment_eq, perform_bind] at h
  split at h
  · next _ d₁ hsave =>
    rw [perform_bind] at h
    split at h
    · cases h
    · next e' d₂ hdigest =>
      obtain ⟨he, rfl⟩ := Prod.mk.inj h
      exact .inr ⟨d₁, hsave, by rw [hdigest, Except.error.inj he]⟩
  · next e' d₁ hsave =>
    obtain ⟨he, rfl⟩ := Prod.mk.inj h
    exact .inl (by rw [hsave, Except.error.inj he])

/-- Of the digest, only the temporary file is touched. -/
theorem failed_write_frame
    (h : d.perform (s.writeFragment digesting key g source?) = (.error e, d')) :
    Frame ([d.placeOf (Storage.temporary (s.fragmentPath key)), d.placeOf (s.fragmentPath key)] ++
      [d.placeOf (Storage.temporary (s.digestPath key))]) d d' := by
  have hsave := Graph.save_frame d (s.fragmentPath key) g
  rcases writeFragment_error_cases h with h | ⟨d₁, h₁, h⟩
  · rw [h] at hsave
    exact hsave.mono (by simp)
  · rw [h₁] at hsave
    have hdigest := writeDigest_frame_of_error h
    rw [placeOf_congr hsave.here] at hdigest
    exact (hsave.mono (by simp)).trans (hdigest.mono (by simp))

/-- So the digest is the old one. -/
theorem digest_of_failed_write
    (h : d.perform (s.writeFragment digesting key g source?) = (.error e, d')) :
    d'.at? (d.placeOf (s.digestPath key)) = some (.file c) ↔
      d.at? (d.placeOf (s.digestPath key)) = some (.file c) :=
  (failed_write_frame h).files _ c
    (List.not_mem_append digest_not_mem_fragment
      (mt List.mem_singleton.mp (place_ne_temporary (.digest key) (.digest key))))

/-- A fragment that has not been written is the old one. -/
theorem fragment_of_failed_save (h : d.perform (g.save (s.fragmentPath key)) = (.error e, d')) :
    d'.at? (d.placeOf (s.fragmentPath key)) = some (.file c) ↔
      d.at? (d.placeOf (s.fragmentPath key)) = some (.file c) :=
  (Graph.save_frame_of_error h).files _ c
    (mt List.mem_singleton.mp (place_ne_temporary (.fragment key) (.fragment key)))

/-- If a write fails, the fragment is up to date only for sources that the old digest vouches for,
and it was so before unless there was no fragment. The fragment itself is the old one or, where
only the digest has not been written, the new one. -/
theorem isCached_of_failed_write (hmode : s.cacheMode = .contentHash)
    (h : d.perform (s.writeFragment digesting key g source?) = (.error e, d'))
    (hcached : (d'.perform (s.isCached digesting key (some source))).1 = .ok true) :
    (d.isThere (s.fragmentPath key) →
      (d.perform (s.isCached digesting key (some source))).1 = .ok true) ∧
    (∃ t, d.at? (d.placeOf (s.digestPath key)) = some (.file (bytesOf t)) ∧
      vouches t (digesting source)) ∧
    ((d.perform (g.save (s.fragmentPath key))).1 = .error e ∧
        (∀ c, d'.at? (d.placeOf (s.fragmentPath key)) = some (.file c) ↔
          d.at? (d.placeOf (s.fragmentPath key)) = some (.file c)) ∨
      (d.perform (g.save (s.fragmentPath key))).1 = .ok () ∧
        ∃ t, g.write = .ok t ∧ d'.contentAt (s.fragmentPath key) = .ok (bytesOf t)) := by
  have hframe := failed_write_frame h
  obtain ⟨-, t, ht, hvouches⟩ := (isCached_eq_true_iff hmode).mp hcached
  obtain ⟨hr, hslash, ha⟩ := contentAt_eq_ok_iff.mp ht
  rw [placeOf_congr hframe.here, digest_of_failed_write h] at ha
  refine ⟨fun hthere => ?_, ⟨t, ha, hvouches⟩, ?_⟩
  · -- the directories of the fragment are those of the digest, which so could be read before
    have hdigest : d.Reaches (s.digestPath key) := by
      refine ⟨hr.sound, ?_, hr.fits⟩
      rw [way_digestPath]
      exact (isThere_iff.mp hthere).1.directories
    exact (isCached_eq_true_iff hmode).mpr
      ⟨hthere, t, contentAt_eq_ok_iff.mpr ⟨hdigest, hslash, ha⟩, hvouches⟩
  · rcases writeFragment_error_cases h with hsave | ⟨d₁, hsave, hdigest⟩
    · exact .inl ⟨by rw [hsave], fun c => fragment_of_failed_save hsave⟩
    · obtain ⟨text, htext, hcontent⟩ := Graph.contentAt_of_save hsave
      have hspared := fragment_spared digesting s key key source? d₁
      rw [hdigest] at hspared
      exact .inr ⟨by rw [hsave], text, htext, hspared.reads _ hcontent⟩

def blockedStore : Store := ⟨.ofString "out", "", .contentHash⟩

def blockedFragment (name : String) : Graph := ⟨[⟨.ofString "A.java", [name], []⟩]⟩

/-- A fragment has been written, and a directory lies where its next digest would have to be
prepared. -/
def blockedDisk : Disk :=
  ((Disk.empty []).perform (blockedStore.writeFragment Digest.Sha256.hex "A.java"
    (blockedFragment "pkg.A") (some (bytesOf "v1")))).2.put
      [bytesOf "out", bytesOf "A.java.json.sha256.tmp"] .directory

/-- The write that fails there. -/
def blockedWrite : Task (StateM Disk) Path :=
  blockedStore.writeFragment Digest.Sha256.hex "A.java" (blockedFragment "pkg.B")
    (some (bytesOf "v2"))

theorem blockedWrite_fails :
    (blockedDisk.perform blockedWrite).1 = .error (.storage .isDirectory) := by
  decide +kernel

theorem blockedWrite_keeps_old_source :
    ((blockedDisk.perform blockedWrite).2.perform (blockedStore.isCached Digest.Sha256.hex "A.java"
      (some (bytesOf "v1")))).1 = .ok true := by
  decide +kernel

/-- The old source is still up to date, as it was before the write. -/
theorem isCached_of_failed_digest : ∃ d',
    blockedDisk.perform blockedWrite = (.error (.storage .isDirectory), d') ∧
      (d'.perform (blockedStore.isCached Digest.Sha256.hex "A.java" (some (bytesOf "v1")))).1 =
        .ok true ∧
      (blockedDisk.perform
        (blockedStore.isCached Digest.Sha256.hex "A.java" (some (bytesOf "v1")))).1 = .ok true := by
  obtain ⟨d', hfail⟩ := exists_snd blockedWrite_fails
  have hcached := blockedWrite_keeps_old_source
  rw [hfail] at hcached
  have hthere : blockedDisk.isThere (blockedStore.fragmentPath "A.java") := by decide +kernel
  exact ⟨d', hfail, hcached, (isCached_of_failed_write rfl hfail hcached).1 hthere⟩

/-- A failed write can leave a source up to date whose fragment is no longer the one that was
written for it. -/
theorem failed_write_leaves_stale_fragment :
    ¬∀ (s : Store) (d d' : Disk) (key : String) (g : Graph) (source source' : List UInt8)
      (e : Error), s.cacheMode = .contentHash →
      d.perform (s.writeFragment Digest.Sha256.hex key g (some source)) = (.error e, d') →
      (d'.perform (s.isCached Digest.Sha256.hex key (some source'))).1 = .ok true →
      (d.perform (s.isCached Digest.Sha256.hex key (some source'))).1 = .ok true ∧
        d'.contentAt (s.fragmentPath key) = d.contentAt (s.fragmentPath key) := by
  intro h
  have hchanged : (blockedDisk.perform blockedWrite).2.contentAt
      (blockedStore.fragmentPath "A.java") ≠
        blockedDisk.contentAt (blockedStore.fragmentPath "A.java") := by
    decide +kernel
  exact hchanged (h blockedStore blockedDisk _ "A.java" _ _ _ _ rfl
    (Prod.ext blockedWrite_fails rfl) blockedWrite_keeps_old_source).2

end TypeDeps.Store
