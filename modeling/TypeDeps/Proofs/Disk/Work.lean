import TypeDeps.Graph.File
import TypeDeps.Proofs.Disk.Frames

/-!
# Work on disks

What the operations of a storage answer when the storage is a disk, and what they leave behind.
Writing a file all at once touches the file and the temporary one beside it, and if it answers
at all, the file reads the new content.
-/
namespace TypeDeps

namespace Disk

/-- The answer of some work on a disk and the disk behind it. -/
def perform {α : Type} (d : Disk) (work : Task (StateM Disk) α) : Except Error α × Disk :=
  work.run.run d

variable {α β : Type} {d d' : Disk} {p : Path} {e : Error}

theorem eq_mk_snd {α β : Type} {x : α × β} {a : α} (h : x.1 = a) : x = (a, x.2) := Prod.ext h rfl

theorem exists_snd {α β : Type} {x : α × β} {a : α} (h : x.1 = a) : ∃ b, x = (a, b) :=
  ⟨x.2, eq_mk_snd h⟩

@[simp] theorem perform_pure (d : Disk) (a : α) : d.perform (pure a) = (.ok a, d) := rfl

@[simp] theorem perform_throw (d : Disk) (e : Error) :
    d.perform (throw e : Task (StateM Disk) α) = (.error e, d) := rfl

@[simp] theorem perform_liftExcept (d : Disk) (x : Except Error α) :
    d.perform (liftExcept x) = (x, d) := by
  cases x <;> rfl

theorem perform_bind (d : Disk) (x : Task (StateM Disk) α) (f : α → Task (StateM Disk) β) :
    d.perform (x >>= f) =
      match d.perform x with
      | (.ok a, d') => d'.perform (f a)
      | (.error e, d') => (.error e, d') := by
  unfold perform
  simp only [ExceptT.run_bind, StateT.run_bind]
  show (match x.run.run d with | (r, d') => _) = _
  rcases x.run.run d with ⟨_ | _, d'⟩ <;> rfl

@[simp] theorem perform_map (d : Disk) (x : Task (StateM Disk) α) (f : α → β) :
    d.perform (f <$> x) = ((d.perform x).1.map f, (d.perform x).2) := by
  rw [map_eq_pure_bind, perform_bind]
  rcases d.perform x with ⟨_ | _, d'⟩ <;> rfl

@[simp] theorem perform_read (d : Disk) (p : Path) :
    d.perform (Storage.read p) = ((d.contentAt p).mapError .storage, d) := rfl

@[simp] theorem perform_has (d : Disk) (p : Path) :
    d.perform (Storage.has p) = (.ok (d.isThere p), d) := rfl

theorem perform_change (d : Disk) (f : Disk → Except StorageFailure Disk) :
    d.perform (Storage.task (change f)) =
      match f d with
      | .ok d' => (.ok (), d')
      | .error e => (.error (.storage e), d) := by
  show (Except.mapError Error.storage (change f d).1, (change f d).2) = _
  unfold change
  cases f d <;> rfl

theorem perform_bind_eq_ok_iff {x : Task (StateM Disk) α} {f : α → Task (StateM Disk) β} {b : β} :
    d.perform (x >>= f) = (.ok b, d') ↔
      ∃ a d₁, d.perform x = (.ok a, d₁) ∧ d₁.perform (f a) = (.ok b, d') := by
  rw [perform_bind]
  rcases d.perform x with ⟨_ | _, d₁⟩ <;> simp

theorem perform_bind_eq_error_iff {x : Task (StateM Disk) α} {f : α → Task (StateM Disk) β} :
    (d.perform (x >>= f)).1 = .error e ↔ (d.perform x).1 = .error e ∨
      ∃ a d₁, d.perform x = (.ok a, d₁) ∧ (d₁.perform (f a)).1 = .error e := by
  rw [perform_bind]
  rcases d.perform x with ⟨_ | _, d₁⟩ <;> simp

/-- Work that only reads does not change what comes behind it. -/
theorem perform_bind_of_same {x : Task (StateM Disk) α} (h : (d.perform x).2 = d)
    (f : α → Task (StateM Disk) β) :
    d.perform (x >>= f) =
      match (d.perform x).1 with
      | .ok a => d.perform (f a)
      | .error e => (.error e, d) := by
  rw [perform_bind]
  rcases hx : d.perform x with ⟨_ | _, d₁⟩
  all_goals
    obtain rfl : d₁ = d := by simpa [hx] using h
    rfl

/-! ## Reading -/

theorem perform_read_eq_ok_iff {c : List UInt8} :
    d.perform (Storage.read p) = (.ok c, d') ↔ d.contentAt p = .ok c ∧ d' = d := by
  rw [perform_read]
  cases d.contentAt p <;> simp [Except.mapError, eq_comm]

theorem perform_readText (d : Disk) (p : Path) : (d.perform (Storage.readText p)).2 = d := by
  unfold Storage.readText
  rw [perform_bind, perform_read]
  cases d.contentAt p with
  | error e => rfl
  | ok c =>
    simp only [Except.mapError]
    split <;> rfl

theorem perform_readText_eq_ok_iff {t : String} :
    d.perform (Storage.readText p) = (.ok t, d') ↔
      (∃ c, d.contentAt p = .ok c ∧ stringOf? c = some t) ∧ d' = d := by
  unfold Storage.readText
  rw [perform_bind_eq_ok_iff]
  simp only [perform_read_eq_ok_iff]
  constructor
  · rintro ⟨c, _, ⟨hc, rfl⟩, h⟩
    split at h
    · next t' ht =>
      obtain ⟨ht', rfl⟩ := Prod.mk.inj h
      exact ⟨⟨c, hc, by rw [ht, Except.ok.inj ht']⟩, rfl⟩
    · cases h
  · rintro ⟨⟨c, hc, ht⟩, rfl⟩
    exact ⟨c, d', ⟨hc, rfl⟩, by rw [ht]; rfl⟩

/-! ## Writing -/

theorem perform_change_frame {touched : List Place} {f : Disk → Except StorageFailure Disk}
    (h : ∀ d', f d = .ok d' → Frame touched d d') :
    Frame touched d (d.perform (Storage.task (change f))).2 := by
  rw [perform_change]
  cases hf : f d with
  | ok d' => exact h d' hf
  | error e => exact .refl _ _

theorem perform_change_eq_ok_iff {f : Disk → Except StorageFailure Disk} :
    d.perform (Storage.task (change f)) = (.ok (), d') ↔ f d = .ok d' := by
  rw [perform_change]
  cases f d <;> simp

theorem disk_of_change_error {f : Disk → Except StorageFailure Disk}
    (h : d.perform (Storage.task (change f)) = (.error e, d')) : d' = d := by
  rw [perform_change] at h
  split at h
  · cases h
  · exact (Prod.mk.inj h).2.symm

theorem storage_of_task {x : StateM Disk (Except StorageFailure α)}
    (h : (d.perform (Storage.task x)).1 = .error e) : ∃ failure, e = .storage failure := by
  change Except.mapError Error.storage (x d).1 = .error e at h
  cases hx : (x d).1 with
  | ok a => simp [hx, Except.mapError] at h
  | error failure =>
    rw [hx] at h
    exact ⟨failure, (Except.error.inj h).symm⟩

theorem perform_bind_frame {touched : List Place} {x : Task (StateM Disk) α}
    {f : α → Task (StateM Disk) β} (hx : Frame touched d (d.perform x).2)
    (hf : ∀ a d₁, d.perform x = (.ok a, d₁) → Frame touched d₁ (d₁.perform (f a)).2) :
    Frame touched d (d.perform (x >>= f)).2 := by
  rw [perform_bind]
  rcases h : d.perform x with ⟨_ | a, d₁⟩
  · simpa [h] using hx
  · rw [h] at hx
    exact hx.trans (hf a d₁ h)

def makeDirectory (p : Path) : Task (StateM Disk) Unit :=
  match Storage.directoryOf? p with
  | some directory => Storage.task (Storage.makeDirs directory)
  | none => pure ()

def putFile (p : Path) (bytes : List UInt8) : Task (StateM Disk) Unit := do
  Storage.write (Storage.temporary p) bytes
  Storage.task (Storage.replace (Storage.temporary p) p)

theorem writeAtomic_eq (p : Path) (bytes : List UInt8) :
    Storage.writeAtomic p bytes = makeDirectory p >>= fun _ => putFile p bytes := by
  unfold Storage.writeAtomic makeDirectory putFile
  cases Storage.directoryOf? p <;> rfl

theorem makeDirectory_frame (d : Disk) (p : Path) : Frame [] d (d.perform (makeDirectory p)).2 := by
  unfold makeDirectory
  split
  · exact makeDirs_frame d _
  · exact .refl _ _

theorem putFile_frame (d : Disk) (p : Path) (bytes : List UInt8) :
    Frame [d.placeOf (Storage.temporary p), d.placeOf p] d (d.perform (putFile p bytes)).2 := by
  refine perform_bind_frame ?_ fun _ d₁ h₁ => ?_
  · exact perform_change_frame fun d₁ h₁ => (setContent_frame h₁).1.mono (by simp)
  · have hhere := (setContent_frame (perform_change_eq_ok_iff.mp h₁)).1.here
    rw [← placeOf_congr hhere, ← placeOf_congr hhere]
    exact perform_change_frame fun d₂ h₂ => (replace_frame h₂).1

theorem putFile_frame_of_error {bytes : List UInt8}
    (h : d.perform (putFile p bytes) = (.error e, d')) :
    Frame [d.placeOf (Storage.temporary p)] d d' := by
  unfold putFile at h
  rw [perform_bind] at h
  split at h
  · next _ d₁ hset =>
    rw [disk_of_change_error h]
    exact (setContent_frame (perform_change_eq_ok_iff.mp hset)).1
  · next _ d₁ hset =>
    rw [← (Prod.mk.inj h).2, disk_of_change_error hset]
    exact .refl _ _

/-- Writing a file touches it and the temporary file beside it, whatever comes of it. -/
theorem writeAtomic_frame (d : Disk) (p : Path) (bytes : List UInt8) :
    Frame [d.placeOf (Storage.temporary p), d.placeOf p] d
      (d.perform (Storage.writeAtomic p bytes)).2 := by
  have hmake := makeDirectory_frame d p
  rw [writeAtomic_eq]
  refine perform_bind_frame (hmake.mono (by simp)) fun _ d₁ h₁ => ?_
  rw [h₁] at hmake
  rw [← placeOf_congr hmake.here, ← placeOf_congr hmake.here]
  exact putFile_frame d₁ p bytes

/-- A file that could not be written is untouched. -/
theorem writeAtomic_frame_of_error {bytes : List UInt8}
    (h : d.perform (Storage.writeAtomic p bytes) = (.error e, d')) :
    Frame [d.placeOf (Storage.temporary p)] d d' := by
  have hmake := makeDirectory_frame d p
  rw [writeAtomic_eq, perform_bind] at h
  split at h
  · next _ d₁ hdirectory =>
    rw [hdirectory] at hmake
    rw [← placeOf_congr hmake.here]
    exact (hmake.mono (by simp)).trans (putFile_frame_of_error h)
  · next _ d₁ hdirectory =>
    rw [hdirectory, (Prod.mk.inj h).2] at hmake
    exact hmake.mono (by simp)

theorem storage_of_writeAtomic {bytes : List UInt8}
    (h : (d.perform (Storage.writeAtomic p bytes)).1 = .error e) :
    ∃ failure, e = .storage failure := by
  rw [writeAtomic_eq, perform_bind_eq_error_iff] at h
  rcases h with h | ⟨_, d₁, -, h⟩
  · unfold makeDirectory at h
    split at h
    · exact storage_of_task h
    · cases h
  · rcases perform_bind_eq_error_iff.mp h with h | ⟨_, d₂, -, h⟩
    · exact storage_of_task h
    · exact storage_of_task h

/-- If writing a file answers, the file reads what has been written. -/
theorem contentAt_of_writeAtomic {bytes : List UInt8}
    (h : d.perform (Storage.writeAtomic p bytes) = (.ok (), d')) : d'.contentAt p = .ok bytes := by
  rw [writeAtomic_eq] at h
  obtain ⟨_, d₁, -, h⟩ := perform_bind_eq_ok_iff.mp h
  obtain ⟨_, d₂, h₂, h₃⟩ := perform_bind_eq_ok_iff.mp h
  obtain ⟨hframe, hcontent⟩ := setContent_frame (perform_change_eq_ok_iff.mp h₂)
  refine (replace_frame (perform_change_eq_ok_iff.mp h₃)).2 bytes ?_
  rwa [placeOf_congr hframe.here]

end Disk

end TypeDeps
