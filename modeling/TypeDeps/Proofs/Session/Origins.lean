import TypeDeps.Proofs.Graph.AllOrNothing
import TypeDeps.Proofs.Session.Course

/-!
# Where fragments come from

What lies where a key's fragment has to be is the document of a graph that has been written to
that place. Only a scan that extracts its file can have done so, with the graph of this one file,
or the end of a session whose module graph lies there, with the graph of all its files.
-/
namespace TypeDeps

namespace Disk

/-- A file with this content lies where the path leads. -/
def HasFile (d : Disk) (p : Path) (c : List UInt8) : Prop := d.at? (d.placeOf p) = some (.file c)

variable {d d' : Disk} {p q : Path} {c : List UInt8} {touched : List Place}

theorem hasFile_of_contentAt (h : d.contentAt p = .ok c) : d.HasFile p c :=
  (contentAt_eq_ok_iff.mp h).2.2

theorem HasFile.of_frame (h : d'.HasFile p c) (hf : Frame touched d d')
    (hp : d.placeOf p ∉ touched) : d.HasFile p c := by
  rw [HasFile, placeOf_congr hf.here] at h
  exact (hf.files _ c hp).mp h

/-- A place has one file. -/
theorem HasFile.of_same_place {c' : List UInt8} (h : d.HasFile p c) (h' : d.HasFile q c')
    (hplace : d.placeOf p = d.placeOf q) : c = c' := by
  rw [HasFile, hplace] at h
  simpa using h.symm.trans h'

theorem noFile_empty (here : Place) (p : Path) : (Disk.empty here).NoFile p := by
  intro c h
  unfold at? at h
  split_ifs at h with hroot
  · cases h
  · obtain ⟨entry, hentry, hfile⟩ := Option.map_eq_some_iff.mp h
    obtain ⟨place, -, rfl⟩ := List.mem_map.mp (List.mem_of_find?_eq_some hentry)
    cases hfile

end Disk

namespace Store

open Disk

variable {digesting : Digesting} {s : Store} {key key' : String} {g : Graph}
variable {source? : Option (List UInt8)} {d : Disk} {c : List UInt8}

theorem disk_of_writeFragment (digesting : Digesting) (s : Store) (key : String) (g : Graph)
    (source? : Option (List UInt8)) (d : Disk) :
    (d.perform (s.writeFragment digesting key g source?)).2 =
      match d.perform (g.save (s.fragmentPath key)) with
      | (.error _, d₁) => d₁
      | (.ok _, d₁) => (d₁.perform (s.writeDigest digesting key source?)).2 := by
  rw [writeFragment_eq, perform_bind]
  generalize d.perform (g.save (s.fragmentPath key)) = saved
  obtain ⟨_ | _, d₁⟩ := saved
  · rfl
  · dsimp only
    rw [perform_bind]
    generalize d₁.perform (s.writeDigest digesting key source?) = written
    obtain ⟨_ | _, d₂⟩ := written <;> rfl

/-- Writing a fragment puts a file into no other fragment's place. -/
theorem hasFile_of_writeFragment
    (h : (d.perform (s.writeFragment digesting key' g source?)).2.HasFile (s.fragmentPath key) c) :
    d.HasFile (s.fragmentPath key) c ∨
      ∃ t, g.write = .ok t ∧ c = bytesOf t ∧
        d.placeOf (s.fragmentPath key) = d.placeOf (s.fragmentPath key') := by
  by_cases hplace : d.placeOf (s.fragmentPath key) = d.placeOf (s.fragmentPath key')
  · rw [disk_of_writeFragment] at h
    split at h
    · next e d₁ hsave =>
      refine .inl (h.of_frame (Graph.save_frame_of_error hsave) ?_)
      rw [List.mem_singleton]
      exact place_ne_temporary (.fragment key) (.fragment key')
    · next u d₁ hsave =>
      -- the digest is written behind the fragment and leaves it alone
      have hsaved := h.of_frame (writeDigest_frame digesting s key' source? d₁)
        fragment_not_mem_digest
      have hhere : d₁.here = d.here := by
        have hframe := Graph.save_frame d (s.fragmentPath key') g
        rw [hsave] at hframe
        exact hframe.here
      obtain ⟨t, ht, hcontent⟩ := Graph.contentAt_of_save hsave
      refine .inr ⟨t, ht, hsaved.of_same_place (hasFile_of_contentAt hcontent) ?_, hplace⟩
      rw [placeOf_congr hhere, placeOf_congr hhere]
      exact hplace
  · refine .inl (h.of_frame (writeFragment_frame digesting s key' g source? d) ?_)
    exact fragment_not_mem_write hplace

end Store

namespace Session

open Disk

variable {digesting : Store.Digesting} {extract : Extractor} {s s' : Session} {d d' : Disk}
variable {p : Path} {key : String} {c : List UInt8} {answer : Except Error SessionResult}

theorem here_of_scan {answer : Except Error (ScanOutcome × Session)}
    (hscan : d.perform (s.scan digesting extract p) = (answer, d')) : d'.here = d.here := by
  have hframe := scan_frame digesting extract s d p
  rw [hscan] at hframe
  exact hframe.here

/-- Whatever comes of a scan, a fragment has been there before, or it is that of the scanned file
and holds what has been extracted. -/
theorem hasFile_of_scan {answer : Except Error (ScanOutcome × Session)}
    (hscan : d.perform (s.scan digesting extract p) = (answer, d'))
    (h : d'.HasFile (s.store.fragmentPath key) c) :
    d.HasFile (s.store.fragmentPath key) c ∨
      ∃ file t, extract p = .ok file ∧ Graph.write ⟨[s.filter.apply file]⟩ = .ok t ∧
        c = bytesOf t ∧
        d.placeOf (s.store.fragmentPath key) = d.placeOf (s.store.fragmentPath p.display) := by
  obtain rfl : (d.perform (s.scan digesting extract p)).2 = d' := congrArg Prod.snd hscan
  rw [perform_scan] at h
  split at h
  · exact .inl h
  · split at h
    · exact .inl h
    · exact .inl h
    · split at h
      · exact .inl h
      · next file hfile =>
        rcases Store.hasFile_of_writeFragment h with hold | ⟨t, ht, hc, hplace⟩
        · exact .inl hold
        · exact .inr ⟨file, t, hfile, ht, hc, hplace⟩

/-- A scan that has extracted its file leaves the document of that file behind. -/
theorem written_of_extracted_scan
    (h : d.perform (s.scan digesting extract p) = (.ok (.extracted, s'), d')) :
    ∃ file t, extract p = .ok file ∧ s' = s.add .extracted [s.filter.apply file] ∧
      Graph.write ⟨[s.filter.apply file]⟩ = .ok t ∧
      d'.contentAt (s.store.fragmentPath p.display) = .ok (bytesOf t) := by
  rcases scan_eq_ok h with ⟨-, houtcome, -⟩ | ⟨source?, file, q, -, hfile, hwritten, rfl⟩
  · cases houtcome
  · obtain ⟨⟨t, ht, hcontent⟩, -⟩ := Store.files_of_writeFragment hwritten
    exact ⟨file, t, hfile, rfl, ht, hcontent⟩

/-- What is done at the end of a session is to save its graph. -/
theorem saved_of_finish (h : d.perform s.finish = (answer, d')) :
    ∃ saved, d.perform (Graph.save s.store.modulePath ⟨s.files⟩) = (saved, d') ∧
      (saved = .ok () ↔ answer.isOk) := by
  rw [perform_finish, Graph.perform_writeModule] at h
  generalize d.perform (Graph.save s.store.modulePath ⟨s.files⟩) = done at h
  obtain ⟨saved, d₁⟩ := done
  obtain ⟨rfl, rfl⟩ := Prod.mk.inj h
  refine ⟨saved, rfl, ?_⟩
  cases saved <;> simp [Except.map, Except.isOk, Except.toBool]

/-- Whatever comes of finishing a session, a fragment has been there before or holds the files of
the session. -/
theorem hasFile_of_finish (hfinish : d.perform s.finish = (answer, d'))
    (h : d'.HasFile (s.store.fragmentPath key) c) :
    d.HasFile (s.store.fragmentPath key) c ∨
      ∃ t, Graph.write ⟨s.files⟩ = .ok t ∧ c = bytesOf t := by
  have hframe := s.finish_frame d
  rw [hfinish] at hframe
  by_cases hplace : d.placeOf (s.store.fragmentPath key) = d.placeOf s.store.modulePath
  · obtain ⟨saved, hsaved, -⟩ := saved_of_finish hfinish
    cases saved with
    | error e =>
      refine .inl (h.of_frame (Graph.save_frame_of_error hsaved) ?_)
      rw [List.mem_singleton]
      exact Store.place_ne_temporary (.fragment key) .moduleGraph
    | ok u =>
      obtain ⟨t, ht, hmodule⟩ := Graph.contentAt_of_save hsaved
      refine .inr ⟨t, ht, h.of_same_place (hasFile_of_contentAt hmodule) ?_⟩
      rw [placeOf_congr hframe.here, placeOf_congr hframe.here]
      exact hplace
  · exact .inl (h.of_frame hframe (Store.place_not_mem (.fragment key) .moduleGraph hplace))

/-- A document that has been written says what it has been written for. -/
theorem files_of_document {g : Graph} {files : List SourceFile} {t : String}
    (h : Document.DocumentText files (bytesOf t)) (hw : g.write = .ok t) : files = g.files := by
  have hread := Graph.readStream_eq_ok_iff (g := ⟨files⟩).mpr h
  have hwritten := Graph.readStream_eq_ok_iff.mpr (Graph.documentText_write hw)
  exact congrArg Graph.files (Except.ok.inj (hread.symm.trans hwritten))

/-- What a hit adds is what the fragment's document says. -/
theorem files_of_cached_scan
    (h : d.perform (s.scan digesting extract p) = (.ok (.cached, s'), d')) :
    d' = d ∧ ∃ g : Graph, s' = s.add .cached g.files ∧
      ∃ c, d.HasFile (s.store.fragmentPath p.display) c ∧ Document.DocumentText g.files c := by
  rcases scan_eq_ok h with ⟨g, -, hg, rfl, rfl⟩ | ⟨-, -, -, houtcome, -⟩
  · obtain ⟨⟨c, hc, hdocument⟩, -⟩ := Graph.perform_load_eq_ok_iff.mp hg
    exact ⟨rfl, g, rfl, c, hasFile_of_contentAt hc, hdocument⟩
  · cases houtcome

end Session

end TypeDeps
