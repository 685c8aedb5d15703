import TypeDeps.Proofs.Session.Origins
import TypeDeps.Proofs.Store.Containment

/-!
# Shared fragments

A scan that is cached answers with the file of the last extraction in the place of its fragment,
whichever path that extraction was for. Between paths that lose nothing in their keys and consist
of names this is no other path. Elsewhere two paths can share a fragment.
-/
namespace TypeDeps

namespace Path

/-- The path is a list of names. -/
def OfNames (p : Path) : Prop := ∀ c ∈ p.components, c.isName

instance (p : Path) : Decidable p.OfNames :=
  inferInstanceAs (Decidable (∀ c ∈ p.components, c.isName))

variable {p q : Path} {cs : List Component} {e : String}

theorem OfNames.lead (h : p.OfNames) : p.lead = [] := by
  unfold OfNames at h
  rw [components_eq] at h
  unfold Path.lead at h ⊢
  split_ifs at h ⊢
  · simpa [Component.isName] using h .root (by simp)
  · simpa [Component.isName] using h .here (by simp)
  · rfl

theorem OfNames.same (hp : p.OfNames) (hq : q.OfNames) (hfolder : p.folder.Same q.folder)
    (hstem : p.stem = q.stem) : p.Same q := by
  rw [Same, components_eq_folder_append hp.lead, components_eq_folder_append hq.lead, hstem,
    show p.folder.components = q.folder.components from hfolder]

theorem OfNames.append (h : p.OfNames) (he : IsEnding e) : (p.append e).OfNames := by
  intro c hc
  rw [components_append he] at hc
  rcases List.mem_append.mp hc with hc | hc
  · refine h c ?_
    rw [components_eq_folder_append h.lead]
    exact List.mem_append_left _ hc
  · rw [List.mem_singleton.mp hc]
    rfl

theorem map_name_bytes (h : ∀ c ∈ cs, c.isName) :
    (cs.map Component.bytes).map Component.name = cs := by
  rw [List.map_map]
  conv_rhs => rw [← List.map_id cs]
  refine List.map_congr_left fun c hc => ?_
  cases c with
  | name n => rfl
  | _ => cases h _ hc

end Path

namespace Disk

open TypeDeps.Path

variable {d : Disk} {p q : Path} {cs : List Component}

/-- Names are put one behind the other. -/
theorem foldl_stepBy_names (hnames : ∀ c ∈ cs, c.isName) (hinner : ∀ c ∈ cs, c.IsInner)
    (place : Place) : cs.foldl stepBy place = place ++ cs.map Component.bytes := by
  induction cs generalizing place with
  | nil => simp
  | cons c cs ih =>
    rw [List.forall_mem_cons] at hnames hinner
    cases c with
    | name n =>
      rw [List.foldl_cons, stepBy_name hinner.1, ih hnames.2 hinner.2, List.append_assoc]
      rfl
    | _ => cases hnames.1

theorem placeOf_join_of_names (hq : q.OfNames) :
    d.placeOf (p.join q) = d.placeOf p ++ q.components.map Component.bytes := by
  have hrelative : q.isAbsolute = false := by
    rw [← Bool.not_eq_true, isAbsolute_iff_head?]
    intro hhead
    cases hq .root (List.mem_of_head? hhead)
  have hinner : ∀ c ∈ q.components, c.IsInner := by
    intro c hc
    cases c with
    | name n => exact isInner_of_canonical (canonical_components q) hc
    | _ => cases hq _ hc
  rw [placeOf_join d hrelative, foldl_stepTo_names, foldl_stepBy_names hq hinner]

/-- From one place, names lead to one place only if they are the same. -/
theorem components_of_placeOf_join {p' : Path} (hp : p.OfNames) (hq : q.OfNames)
    (h : d.placeOf (p'.join p) = d.placeOf (p'.join q)) : p.components = q.components := by
  rw [placeOf_join_of_names hp, placeOf_join_of_names hq, List.append_cancel_left_eq] at h
  rw [← map_name_bytes hp, h, map_name_bytes hq]

end Disk

namespace Store

open Disk TypeDeps.Path

/-- Nothing of the path is lost in its key, and it consists of names. -/
structure Plain (p : Path) : Prop where
  kept : relativePath p.display = p
  names : p.OfNames

variable {s : Store} {d : Disk} {p q : Path}

/-- Plain paths with one fragment are one path. -/
theorem Plain.same (hp : Plain p) (hq : Plain q)
    (h : d.placeOf (s.fragmentPath p.display) = d.placeOf (s.fragmentPath q.display)) :
    p.Same q := by
  rw [fragmentPath_eq_join_append, fragmentPath_eq_join_append, hp.kept, hq.kept] at h
  have hsame : (p.append ".json").Same (q.append ".json") :=
    components_of_placeOf_join (hp.names.append isEnding_fragment)
      (hq.names.append isEnding_fragment) h
  obtain ⟨hfolder, hstem⟩ := (append_same_append_iff isEnding_fragment isEnding_fragment).mp hsame
  exact hp.names.same hq.names hfolder (List.append_cancel_right hstem)

end Store

namespace Session

open Disk

/-- A scan that has extracted its file, and the file that the session has got by it. -/
structure Finding where
  path : Path
  file : SourceFile

/-- The last one whose fragment lies where that of the key does. -/
def Finding.last? (store : Store) (d : Disk) (past : List Finding) (key : String) :
    Option Finding :=
  past.find? fun e => d.placeOf (store.fragmentPath e.path.display) =
    d.placeOf (store.fragmentPath key)

open Finding

/-- Scans that do not fail, the findings of those that have extracted their files, the newest one
first, and the disk behind them. The sessions may be in any state, and every scan may have an
extractor of its own as long as it answers with the path that it has been asked for. Anything may
happen to the disk in between, but no fragment is put there. -/
inductive Scans (digesting : Store.Digesting) (store : Store) (d₀ : Disk) :
    List Finding → Disk → Prop where
  | start : Scans digesting store d₀ [] d₀
  | hit {past : List Finding} {d d' : Disk} {s s' : Session} {extract : Extractor} {p : Path} :
      Scans digesting store d₀ past d → s.store = store →
      d.perform (s.scan digesting extract p) = (.ok (.cached, s'), d') →
      Scans digesting store d₀ past d'
  | extraction {past : List Finding} {d d' : Disk} {s s' : Session} {extract : Extractor}
      {p : Path} {file : SourceFile} :
      Scans digesting store d₀ past d → s.store = store → extract p = .ok file →
      file.path.Same p → d.perform (s.scan digesting extract p) = (.ok (.extracted, s'), d') →
      Scans digesting store d₀ (⟨p, s.filter.apply file⟩ :: past) d'
  | edit {past : List Finding} {d d' : Disk} :
      Scans digesting store d₀ past d → d'.here = d.here →
      (∀ key c, d'.HasFile (store.fragmentPath key) c → d.HasFile (store.fragmentPath key) c) →
      Scans digesting store d₀ past d'

/-- Each fragment is the document of the last finding in its place. -/
def Traces (store : Store) (past : List Finding) (d : Disk) : Prop :=
  ∀ key c, d.HasFile (store.fragmentPath key) c →
    ∃ e t, last? store d past key = some e ∧ Graph.write ⟨[e.file]⟩ = .ok t ∧ c = bytesOf t

variable {digesting : Store.Digesting} {store : Store} {d₀ d d' : Disk} {past : List Finding}
variable {s s' : Session} {extract : Extractor} {p : Path} {file : SourceFile} {key : String}

theorem last?_congr (h : d'.here = d.here) : last? store d' past key = last? store d past key := by
  simp only [last?, placeOf_congr h]

theorem Traces.extraction (h : Traces s.store past d) (hfile : extract p = .ok file)
    (hscan : d.perform (s.scan digesting extract p) = (.ok (.extracted, s'), d')) :
    Traces s.store (⟨p, s.filter.apply file⟩ :: past) d' := by
  intro key c hc
  have hhere := here_of_scan hscan
  rw [last?_congr hhere]
  by_cases hplace :
    d.placeOf (s.store.fragmentPath p.display) = d.placeOf (s.store.fragmentPath key)
  · -- this fragment has just been written
    obtain ⟨file', t, hfile', -, ht, hcontent⟩ := written_of_extracted_scan hscan
    obtain rfl : file = file' := Except.ok.inj (hfile.symm.trans hfile')
    refine ⟨⟨p, s.filter.apply file⟩, t, ?_, ht,
      hc.of_same_place (hasFile_of_contentAt hcontent) ?_⟩
    · rw [last?, List.find?_cons_of_pos (by simpa using hplace)]
    · rw [placeOf_congr hhere, placeOf_congr hhere]
      exact hplace.symm
  · obtain hold | ⟨-, -, -, -, -, hsame⟩ := hasFile_of_scan hscan hc
    · obtain ⟨e, t, hlast, ht, rfl⟩ := h key c hold
      refine ⟨e, t, ?_, ht, rfl⟩
      rw [last?, List.find?_cons_of_neg (by simpa using hplace)]
      exact hlast
    · exact absurd hsame.symm hplace

/-- The invariant of the scans. -/
theorem Scans.traces (hbare : ∀ key, d₀.NoFile (store.fragmentPath key))
    (h : Scans digesting store d₀ past d) : Traces store past d := by
  induction h with
  | start => exact fun key c hc => absurd hc (hbare key c)
  | hit h hs hscan ih =>
    obtain ⟨rfl, -⟩ := files_of_cached_scan hscan
    exact ih
  | extraction h hs hfile hpath hscan ih =>
    subst hs
    exact ih.extraction hfile hscan
  | edit h hhere hedit ih =>
    intro key c hc
    rw [last?_congr hhere]
    exact ih key c (hedit key c hc)

/-- Findings carry the paths that they have been found for. -/
theorem Scans.path_same (h : Scans digesting store d₀ past d) {e : Finding} (he : e ∈ past) :
    e.file.path.Same e.path := by
  induction h with
  | start => cases he
  | hit _ _ _ ih => exact ih he
  | extraction _ _ _ hpath _ ih =>
    rcases List.mem_cons.mp he with rfl | he
    · exact hpath
    · exact ih he
  | edit _ _ _ ih => exact ih he

/-- A scan that is cached adds the file of the last extraction whose fragment lies in the place of
its own one, and nothing else. This is the scanned file if both paths are plain. -/
theorem cached_scan_shares (hbare : ∀ key, d₀.NoFile (s.store.fragmentPath key))
    (h : Scans digesting s.store d₀ past d)
    (hscan : d.perform (s.scan digesting extract p) = (.ok (.cached, s'), d')) :
    ∃ e, last? s.store d past p.display = some e ∧ s'.files = s.files ++ [e.file] ∧
      e.file.path.Same e.path ∧
      (Store.Plain e.path → Store.Plain p → e.file.path.Same p) := by
  obtain ⟨-, g, rfl, c, hc, hdocument⟩ := files_of_cached_scan hscan
  obtain ⟨e, t, hlast, ht, rfl⟩ := h.traces hbare p.display c hc
  have hfiles : g.files = [e.file] := files_of_document hdocument ht
  have hpath := h.path_same (List.mem_of_find?_eq_some hlast)
  have hplace : d.placeOf (s.store.fragmentPath e.path.display) =
      d.placeOf (s.store.fragmentPath p.display) := by
    simpa using List.find?_some hlast
  refine ⟨e, hlast, by rw [add_files, hfiles], hpath, fun he hp => ?_⟩
  exact Eq.trans hpath (he.same hp hplace)

def sharedStore : Store := ⟨.ofString "out", "", .existence⟩

def sharedExtract : Extractor := fun p => .ok ⟨p, ["pkg.A"], ["java.B"]⟩

def sharedPath : Path := .ofString "src/A.java"

def sharedFile : SourceFile := ⟨sharedPath, ["pkg.A"], []⟩

def sharedSession : Session := ⟨sharedStore, .platform, [sharedFile], 0, 1⟩

def sharedDisk : Disk := ((Disk.empty []).perform
  ((start sharedStore .platform).scan (fun _ => "") sharedExtract sharedPath)).2

theorem sharedDisk_scan : (Disk.empty []).perform
    ((start sharedStore .platform).scan (fun _ => "") sharedExtract sharedPath) =
      (.ok (.extracted, sharedSession), sharedDisk) :=
  eq_mk_snd (by decide +kernel)

/-- Another spelling of the path is cached. -/
theorem sharedDisk_respelled : (sharedDisk.perform (sharedSession.scan (fun _ => "") sharedExtract
    (.ofString "src//A.java"))).1 = .ok (.cached, sharedSession.add .cached [sharedFile]) := by
  decide +kernel

/-- So is another path. -/
theorem sharedDisk_other : (sharedDisk.perform (sharedSession.scan (fun _ => "") sharedExtract
    (.ofString "/src/A.java"))).1 = .ok (.cached, sharedSession.add .cached [sharedFile]) := by
  decide +kernel

theorem cached_scan_shares_respelled : ∃ past d' e,
    Scans (fun _ => "") sharedStore (Disk.empty []) past sharedDisk ∧
      sharedDisk.perform (sharedSession.scan (fun _ => "") sharedExtract
        (.ofString "src//A.java")) =
          (.ok (.cached, sharedSession.add .cached [sharedFile]), d') ∧
      last? sharedStore sharedDisk past (Path.ofString "src//A.java").display = some e ∧
      e.file.path.Same (.ofString "src//A.java") := by
  have hfile : sharedExtract sharedPath = .ok ⟨sharedPath, ["pkg.A"], ["java.B"]⟩ := rfl
  have hstart : Scans (fun _ => "") sharedStore (Disk.empty []) [] (Disk.empty []) := .start
  have hscans := hstart.extraction rfl hfile rfl sharedDisk_scan
  obtain ⟨d', hscan⟩ := exists_snd sharedDisk_respelled
  obtain ⟨e, hlast, -, -, hplain⟩ :=
    cached_scan_shares (fun _ => noFile_empty [] _) hscans hscan
  have hpath : Store.Plain e.path := by
    rw [List.mem_singleton.mp (List.mem_of_find?_eq_some hlast)]
    exact ⟨by decide +kernel, by decide +kernel⟩
  exact ⟨_, d', e, hscans, hscan, hlast, hplain hpath ⟨by decide +kernel, by decide +kernel⟩⟩

/-- A scan can be cached and add the file of another path. -/
theorem cached_scan_strays :
    ¬∀ (store : Store) (filter : ReferenceFilter) (extract : Extractor) (paths : List Path)
        (d d₁ d₂ : Disk) (outcomes : List ScanOutcome) (s s' : Session) (p : Path),
      (∀ key, d.NoFile (store.fragmentPath key)) →
      (∀ q file, extract q = .ok file → file.path = q) →
      d.perform ((start store filter).scanAll (fun _ => "") (visitAll extract paths)) =
        (.ok (outcomes, s), d₁) →
      d₁.perform (s.scan (fun _ => "") extract p) = (.ok (.cached, s'), d₂) →
      ∀ f ∈ s'.files.drop s.files.length, f.path.Same p := by
  intro h
  have hextract : ∀ q file, sharedExtract q = .ok file → file.path = q := by
    intro q file hfile
    rw [← Except.ok.inj hfile]
  have hrun : (Disk.empty []).perform ((start sharedStore .platform).scanAll (fun _ => "")
      (visitAll sharedExtract [sharedPath])) = (.ok ([.extracted], sharedSession), sharedDisk) :=
    perform_scanAll_cons.mpr ⟨_, _, _, [], sharedDisk_scan, rfl, rfl⟩
  obtain ⟨d', hscan⟩ := exists_snd sharedDisk_other
  have hsame := h sharedStore .platform sharedExtract [sharedPath] (Disk.empty []) sharedDisk d' _
    sharedSession (sharedSession.add .cached [sharedFile]) _ (fun _ => noFile_empty [] _) hextract
    hrun hscan sharedFile (by simp [sharedSession, add])
  revert hsame
  decide +kernel

end Session

end TypeDeps
