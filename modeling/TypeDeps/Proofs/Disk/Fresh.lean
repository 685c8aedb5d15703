import TypeDeps.Proofs.Disk.Again
import TypeDeps.Proofs.Disk.Parents

/-!
# Fresh files

Where neither a file nor the temporary one beside it is there, both can be written without taking
anything away that could be read before.
-/
namespace TypeDeps.Disk

/-- The directory of a file is there, and the file and its temporary one are not. -/
structure Fresh (d : Disk) (p : Path) : Prop where
  directory : ∀ q, Storage.directoryOf? p = some q → d.isDirectoryAt q
  missing : d.isThere p = false
  missing_temporary : d.isThere (Storage.temporary p) = false

variable {d d' : Disk} {p q : Path} {bytes c : List UInt8}

/-- Whoever gets to a path without directories that are new has got there before. -/
theorem Reaches.of_makes (h : d'.Reaches p) (hhere : d'.here = d.here) (hmakes : Makes [] d d') :
    d.Reaches p := by
  refine ⟨h.sound, fun r hr => ?_, h.fits⟩
  rw [way, ← origin_congr hhere] at hr
  exact (hmakes r (h.directories r hr)).resolve_right List.not_mem_nil

theorem at?_eq_none_of_missing (h : d.isThere p = false) (hreach : d.Reaches p)
    (hslash : endsInSlash p = false) : d.at? (d.placeOf p) = none := by
  cases hnode : d.at? (d.placeOf p) with
  | none => rfl
  | some node =>
    have hthere : d.isThere p := isThere_iff.mpr ⟨hreach, node, hnode, .inr hslash⟩
    rw [h] at hthere
    cases hthere

/-- A fresh file that can be written is put where nothing was. -/
theorem Fresh.free (h : d.Fresh p)
    (hwrite : d.perform (Storage.writeAtomic p bytes) = (.ok (), d')) :
    d.at? (d.placeOf (Storage.temporary p)) = none ∧ d.at? (d.placeOf p) = none := by
  have hmake : d.perform (makeDirectory p) = (.ok (), d) :=
    makeDirectory_of_settled fun q hq => .inr (h.directory q hq)
  rw [writeAtomic_eq] at hwrite
  obtain ⟨_, d₁, hmake', hput⟩ := perform_bind_eq_ok_iff.mp hwrite
  obtain ⟨-, rfl⟩ := Prod.mk.inj (hmake'.symm.trans hmake)
  obtain ⟨_, d₂, hset, hmove⟩ := perform_bind_eq_ok_iff.mp hput
  have hset := perform_change_eq_ok_iff.mp hset
  have hhere := (setContent_frame hset).1.here
  have hmakes : Makes [] d₁ d₂ := setContent_makes hset
  obtain ⟨hreach, hslash, -⟩ := contentAt_eq_ok_iff.mp (contentAt_of_setContent hset)
  obtain ⟨-, -, -, -, -, hreach', hslash', -⟩ := replace_eq (perform_change_eq_ok_iff.mp hmove)
  constructor
  · exact at?_eq_none_of_missing h.missing_temporary (hreach.of_makes hhere hmakes) hslash
  · exact at?_eq_none_of_missing h.missing (hreach'.of_makes hhere hmakes) hslash'

/-- What could be read before a fresh file was written can still be read. -/
theorem Fresh.contentAt (h : d.Fresh p)
    (hwrite : d.perform (Storage.writeAtomic p bytes) = (.ok (), d'))
    (hq : d.contentAt q = .ok c) : d'.contentAt q = .ok c := by
  obtain ⟨htemporary, hself⟩ := h.free hwrite
  have hframe := writeAtomic_frame d p bytes
  rw [hwrite] at hframe
  refine contentAt_frame hframe ?_ hq
  have hfile := (contentAt_eq_ok_iff.mp hq).2.2
  simp only [List.mem_cons, List.not_mem_nil, or_false, not_or]
  constructor
  · intro hplace
    rw [hplace, htemporary] at hfile
    cases hfile
  · intro hplace
    rw [hplace, hself] at hfile
    cases hfile

end TypeDeps.Disk
