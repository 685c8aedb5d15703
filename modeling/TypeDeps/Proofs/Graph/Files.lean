import TypeDeps.Proofs.Disk.Work
import TypeDeps.Proofs.Document.RoundTrip

/-!
# Graph files on disks

Loading reads what a document says and changes nothing. Saving fails without a trace if the
graph has no document. Otherwise it touches the file and the temporary one beside it.
-/
namespace TypeDeps.Graph

open Disk Document

variable {d d' : Disk} {p : Path} {g : Graph} {t : String}

theorem load_disk (d : Disk) (p : Path) : (d.perform (load p)).2 = d := by
  unfold load
  rw [perform_bind, perform_read]
  cases d.contentAt p <;> simp [Except.mapError]

theorem perform_load_eq_ok_iff : d.perform (load p) = (.ok g, d') ↔
    (∃ c, d.contentAt p = .ok c ∧ DocumentText g.files c) ∧ d' = d := by
  unfold load
  rw [perform_bind_eq_ok_iff]
  simp only [perform_read_eq_ok_iff, perform_liftExcept, Prod.mk.injEq, readStream_eq_ok_iff]
  constructor
  · rintro ⟨c, _, ⟨hc, rfl⟩, hg, rfl⟩
    exact ⟨⟨c, hc, hg⟩, rfl⟩
  · rintro ⟨⟨c, hc, hg⟩, rfl⟩
    exact ⟨c, d', ⟨hc, rfl⟩, hg, rfl⟩

theorem perform_load_of_write (hw : g.write = .ok t) (h : d.contentAt p = .ok (bytesOf t)) :
    d.perform (load p) = (.ok g, d) :=
  perform_load_eq_ok_iff.mpr ⟨⟨_, h, documentText_write hw⟩, rfl⟩

theorem save_frame (d : Disk) (p : Path) (g : Graph) :
    Frame [d.placeOf (Storage.temporary p), d.placeOf p] d (d.perform (save p g)).2 := by
  unfold save
  refine perform_bind_frame ?_ fun t d₁ h₁ => ?_
  · rw [perform_liftExcept]
    exact .refl _ _
  · obtain ⟨-, rfl⟩ := Prod.mk.inj ((perform_liftExcept d g.write).symm.trans h₁)
    exact writeAtomic_frame d p _

/-- Only a graph without document or the storage keeps a graph from being saved. -/
theorem perform_save_of_error {e : Error} (hw : g.write = .error e) :
    d.perform (save p g) = (.error e, d) := by
  rw [save, perform_bind, perform_liftExcept, hw]

theorem perform_save_of_write (hw : g.write = .ok t) :
    d.perform (save p g) = d.perform (Storage.writeAtomic p (bytesOf t)) := by
  rw [save, perform_bind, perform_liftExcept, hw]

theorem save_frame_of_error {e : Error} (h : d.perform (save p g) = (.error e, d')) :
    Frame [d.placeOf (Storage.temporary p)] d d' := by
  cases hw : g.write with
  | error e' =>
    rw [perform_save_of_error hw] at h
    rw [← (Prod.mk.inj h).2]
    exact .refl _ _
  | ok t =>
    rw [perform_save_of_write hw] at h
    exact writeAtomic_frame_of_error h

theorem contentAt_of_save (h : d.perform (save p g) = (.ok (), d')) :
    ∃ t, g.write = .ok t ∧ d'.contentAt p = .ok (bytesOf t) := by
  cases hw : g.write with
  | error e => simp [perform_save_of_error hw] at h
  | ok t =>
    rw [perform_save_of_write hw] at h
    exact ⟨t, rfl, contentAt_of_writeAtomic h⟩

end TypeDeps.Graph
