import TypeDeps.Proofs.Disk.Places

/-!
# What operations leave alone

An operation touches the files at one or two places. It may add directories where nothing was,
and everything else is as it was before.
-/
namespace TypeDeps.Disk

/-- Outside the touched places no file has come, gone or changed, and no directory has gone. -/
structure Frame (touched : List Place) (d d' : Disk) : Prop where
  here : d'.here = d.here
  directories : ∀ q, d.at? q = some .directory → d'.at? q = some .directory
  files : ∀ q c, q ∉ touched → (d'.at? q = some (.file c) ↔ d.at? q = some (.file c))

variable {d d' d'' : Disk} {p : Path} {touched touched' : List Place} {c : List UInt8}

theorem Frame.refl (touched : List Place) (d : Disk) : Frame touched d d :=
  ⟨rfl, fun _ h => h, fun _ _ _ => Iff.rfl⟩

theorem Frame.trans (h : Frame touched d d') (h' : Frame touched d' d'') : Frame touched d d'' :=
  ⟨h'.here.trans h.here, fun q hq => h'.directories q (h.directories q hq),
    fun q c hq => (h'.files q c hq).trans (h.files q c hq)⟩

theorem Frame.mono (h : Frame touched d d') (hs : touched ⊆ touched') : Frame touched' d d' :=
  ⟨h.here, h.directories, fun q c hq => h.files q c fun hmem => hq (hs hmem)⟩

/-- Where nothing is touched, only directories can be new. -/
theorem Frame.file_iff (h : Frame [] d d') (q : Place) (c : List UInt8) :
    d'.at? q = some (.file c) ↔ d.at? q = some (.file c) :=
  h.files q c List.not_mem_nil

theorem origin_congr (h : d'.here = d.here) (p : Path) : d'.origin p = d.origin p := by
  simp [origin, h]

theorem placeOf_congr (h : d'.here = d.here) (p : Path) : d'.placeOf p = d.placeOf p := by
  simp [placeOf, origin_congr h]

theorem Reaches.frame (h : d.Reaches p) (hf : Frame touched d d') : d'.Reaches p := by
  refine ⟨h.sound, fun q hq => ?_, h.fits⟩
  rw [way, origin_congr hf.here] at hq
  exact hf.directories q (h.directories q hq)

/-- A file that has not been touched still reads the same. -/
theorem contentAt_frame (hf : Frame touched d d') (hp : d.placeOf p ∉ touched)
    (h : d.contentAt p = .ok c) : d'.contentAt p = .ok c := by
  obtain ⟨hr, hs, ha⟩ := contentAt_eq_ok_iff.mp h
  refine contentAt_eq_ok_iff.mpr ⟨hr.frame hf, hs, ?_⟩
  rw [placeOf_congr hf.here]
  exact (hf.files _ _ hp).mpr ha

/-- No file lies where the path leads. -/
def NoFile (d : Disk) (p : Path) : Prop := ∀ c, d.at? (d.placeOf p) ≠ some (.file c)

theorem contentAt_ne_of_noFile (h : d.NoFile p) : d.contentAt p ≠ .ok c :=
  fun hc => h c (contentAt_eq_ok_iff.mp hc).2.2

/-- The path goes on reading what it read, and where it led to no file there is none. -/
structure Spares (p : Path) (d d' : Disk) : Prop where
  reads : ∀ c, d.contentAt p = .ok c → d'.contentAt p = .ok c
  absent : d.NoFile p → d'.NoFile p

theorem Spares.refl (p : Path) (d : Disk) : Spares p d d := ⟨fun _ h => h, id⟩

theorem Frame.spares (h : Frame touched d d') (hp : d.placeOf p ∉ touched) : Spares p d d' := by
  refine ⟨fun c hc => contentAt_frame h hp hc, fun hno c hc => ?_⟩
  rw [placeOf_congr h.here, h.files _ _ hp] at hc
  exact hno c hc

/-! ## Directories -/

theorem frame_put_directory {place : Place} (hp : place ≠ []) (h : d.at? place = none) :
    Frame [] d (d.put place .directory) := by
  refine ⟨rfl, fun q hq => ?_, fun q c _ => ?_⟩
  · rw [at?_put d hp]
    split_ifs <;> simp [hq]
  · rw [at?_put d hp]
    split_ifs with hqp
    · simp [hqp, h]
    · rfl

theorem makeDir_eq_ok_iff : d.makeDir p = .ok d' ↔
    ∃ s n place, d.spot? p = .ok s ∧ s.name? = some n ∧ s.place n = .ok place ∧
      d.at? place = none ∧ d' = d.put place .directory := by
  unfold makeDir
  rw [bind_eq_ok_iff]
  constructor
  · rintro ⟨s, hs, h⟩
    split at h
    · cases h
    · next n hn =>
      obtain ⟨place, hplace, h⟩ := bind_eq_ok_iff.mp h
      split at h
      · cases h
      · next ha => exact ⟨s, n, place, hs, hn, hplace, ha, (Except.ok.inj h).symm⟩
  · rintro ⟨s, n, place, hs, hn, hplace, ha, rfl⟩
    refine ⟨s, hs, ?_⟩
    simp [hn, hplace, ha, bind, Except.bind, pure, Except.pure]

theorem makeDir_frame (h : d.makeDir p = .ok d') : Frame [] d d' := by
  obtain ⟨s, n, place, hs, hn, hplace, ha, rfl⟩ := makeDir_eq_ok_iff.mp h
  exact frame_put_directory (spot?_place hs hn hplace).2.1 ha

theorem makeOutermost_frame {waiting waiting' ps : List Path}
    (h : d.makeOutermost waiting ps = .ok (d', waiting')) : Frame [] d d' := by
  induction ps generalizing waiting with
  | nil =>
    obtain ⟨rfl, -⟩ := Prod.mk.inj (Except.ok.inj h)
    exact .refl _ _
  | cons p ps ih =>
    unfold makeOutermost at h
    split at h
    · next hmake =>
      obtain ⟨rfl, -⟩ := Prod.mk.inj (Except.ok.inj h)
      exact makeDir_frame hmake
    · exact ih h
    · split_ifs at h
      obtain ⟨rfl, -⟩ := Prod.mk.inj (Except.ok.inj h)
      exact .refl _ _
    · cases h

theorem makeEach_frame (d : Disk) (ps : List Path) : Frame [] d (d.makeEach ps).2 := by
  induction ps generalizing d with
  | nil => exact .refl _ _
  | cons p ps ih =>
    unfold makeEach
    split
    · next hmake => exact (makeDir_frame hmake).trans (ih _)
    · split_ifs
      · exact ih d
      · exact .refl _ _
    · exact .refl _ _

theorem makeDirs_frame (d : Disk) (p : Path) : Frame [] d (d.makeDirs p).2 := by
  unfold makeDirs
  split
  · exact .refl _ _
  · next hmake => exact (makeOutermost_frame hmake).trans (makeEach_frame _ _)

/-! ## Files -/

theorem frame_put_file {place : Place} (hp : place ≠ []) (h : d.at? place ≠ some .directory)
    (c : List UInt8) : Frame [place] d (d.put place (.file c)) := by
  refine ⟨rfl, fun q hq => ?_, fun q c' hq => ?_⟩
  · rw [at?_put d hp, if_neg]
    · exact hq
    · rintro rfl
      exact h hq
  · rw [at?_put d hp, if_neg (by simpa using hq)]

theorem frame_erase_file {place : Place} (hp : place ≠ []) (h : d.at? place = some (.file c)) :
    Frame [place] d (d.erase place) := by
  refine ⟨rfl, fun q hq => ?_, fun q c' hq => ?_⟩
  · rw [at?_erase d hp, if_neg]
    · exact hq
    · rintro rfl
      simp [h] at hq
  · rw [at?_erase d hp, if_neg (by simpa using hq)]

theorem create_eq_ok_iff {place : Place} : d.create p = .ok (place, d') ↔
    ∃ s n, d.spot? p = .ok s ∧ s.name? = some n ∧ s.slash = false ∧ s.place n = .ok place ∧
      d.at? place ≠ some .directory ∧ d' = d.put place (.file []) := by
  unfold create
  rw [bind_eq_ok_iff]
  constructor
  · rintro ⟨s, hs, h⟩
    split at h
    · cases h
    · next n hn =>
      split_ifs at h with hslash
      obtain ⟨made, hmade, h⟩ := bind_eq_ok_iff.mp h
      split_ifs at h with hdir
      obtain ⟨rfl, rfl⟩ := Prod.mk.inj (Except.ok.inj h)
      exact ⟨s, n, hs, hn, by simpa using hslash, hmade, by simpa [isDirectory] using hdir, rfl⟩
  · rintro ⟨s, n, hs, hn, hslash, hplace, hdir, rfl⟩
    refine ⟨s, hs, ?_⟩
    have hnot : d.isDirectory place = false := by simpa [isDirectory] using hdir
    simp [hn, hslash, hplace, hnot, bind, Except.bind, pure, Except.pure]

theorem create_frame {place : Place} (h : d.create p = .ok (place, d')) :
    place = d.placeOf p ∧ place ≠ [] ∧ d' = d.put place (.file []) ∧
      d.at? place ≠ some .directory := by
  obtain ⟨s, n, hs, hn, -, hplace, hdir, rfl⟩ := create_eq_ok_iff.mp h
  obtain ⟨hp, hne, -, -⟩ := spot?_place hs hn hplace
  exact ⟨hp, hne, rfl, hdir⟩

theorem put_put (d : Disk) (place : Place) (a b : Node) :
    (d.put place a).put place b = d.put place b := by
  simp [put]

/-- A file that can be created can be given any content. -/
theorem setContent_of_create {place : Place} (h : d.create p = .ok (place, d'))
    (bytes : List UInt8) : d.setContent p bytes = .ok (d.put place (.file bytes)) := by
  obtain ⟨-, hne, rfl, -⟩ := create_frame h
  have hempty : (d.put place (.file [])).at? place = some (.file []) := by
    rw [at?_put d hne, if_pos rfl]
  rw [setContent, h]
  simp [bind, Except.bind, pure, Except.pure, append, hempty, put_put]

theorem setContent_eq {bytes : List UInt8} (h : d.setContent p bytes = .ok d') :
    d.placeOf p ≠ [] ∧ d' = d.put (d.placeOf p) (.file bytes) := by
  cases hcreate : d.create p with
  | error e => simp [setContent, hcreate, bind, Except.bind] at h
  | ok opened =>
    obtain ⟨place, d₁⟩ := opened
    rw [setContent_of_create hcreate] at h
    obtain ⟨rfl, hne, -, -⟩ := create_frame hcreate
    exact ⟨hne, (Except.ok.inj h).symm⟩

theorem setContent_frame {bytes : List UInt8} (h : d.setContent p bytes = .ok d') :
    Frame [d.placeOf p] d d' ∧ d'.at? (d.placeOf p) = some (.file bytes) := by
  unfold setContent at h
  rw [bind_eq_ok_iff] at h
  obtain ⟨⟨place, d₁⟩, hcreate, h⟩ := h
  obtain ⟨rfl, hne, rfl, hdir⟩ := create_frame hcreate
  have hempty : (d.put (d.placeOf p) (.file [])).at? (d.placeOf p) = some (.file []) := by
    rw [at?_put d hne, if_pos rfl]
  have happend : d' = (d.put (d.placeOf p) (.file [])).put (d.placeOf p) (.file bytes) := by
    rw [← Except.ok.inj h]
    simp only [append, hempty, List.nil_append]
  subst happend
  refine ⟨(frame_put_file hne hdir []).trans ?_, ?_⟩
  · exact frame_put_file hne (by simp [hempty]) bytes
  · rw [at?_put _ hne, if_pos rfl]

/-- A file that has been written reads what has been written. -/
theorem contentAt_of_setContent {bytes : List UInt8} (h : d.setContent p bytes = .ok d') :
    d'.contentAt p = .ok bytes := by
  obtain ⟨hframe, hcontent⟩ := setContent_frame h
  unfold setContent at h
  obtain ⟨⟨place, d₁⟩, hcreate, -⟩ := bind_eq_ok_iff.mp h
  obtain ⟨s, n, hs, hn, hslash, hplace, -, -⟩ := create_eq_ok_iff.mp hcreate
  obtain ⟨-, -, hends, hreach⟩ := spot?_place hs hn hplace
  refine contentAt_eq_ok_iff.mpr ⟨hreach.frame hframe, hends ▸ hslash, ?_⟩
  rwa [placeOf_congr hframe.here]

theorem replace_eq_ok_iff {source target : Path} : d.replace source target = .ok d' ↔
    0 ∉ target.bytes ∧ ∃ s t m n old new c,
      d.spot? source = .ok s ∧ d.spot? target = .ok t ∧ s.name? = some m ∧ t.name? = some n ∧
      s.place m = .ok old ∧ t.place n = .ok new ∧ (s.slash || t.slash) = false ∧
      (new <+: old → new = old) ∧ d.at? old = some (.file c) ∧ d.at? new ≠ some .directory ∧
      d' = (d.erase old).put new (.file c) := by
  unfold replace
  constructor
  · intro h
    dsimp only at h
    split_ifs at h with hnul
    · obtain ⟨_, hthrow, -⟩ := bind_eq_ok_iff.mp h
      cases hthrow
    simp only [bind_eq_ok_iff] at h
    obtain ⟨s, hs, t, ht, h⟩ := h
    split at h
    · next m n hm hn =>
      obtain ⟨old, hold, h⟩ := bind_eq_ok_iff.mp h
      split at h
      · cases h
      · cases h
      · next c hc =>
        obtain ⟨new, hnew, h⟩ := bind_eq_ok_iff.mp h
        split_ifs at h with hslash hbelow hdir
        exact ⟨by simpa using hnul, s, t, m, n, old, new, c, hs, ht, hm, hn, hold, hnew,
          by simpa using hslash, by simpa using hbelow, hc, by simpa [isDirectory] using hdir,
          (Except.ok.inj h).symm⟩
    · cases h
  · rintro ⟨hnul, s, t, m, n, old, new, c, hs, ht, hm, hn, hold, hnew, hslash, hbelow, hc, hdir,
      rfl⟩
    have hnot : d.isDirectory new = false := by simpa [isDirectory] using hdir
    have hapart : ¬(new <+: old ∧ ¬new = old) := fun h => h.2 (hbelow h.1)
    simp [hnul, hs, ht, hm, hn, hold, hnew, hslash, hapart, hc, hnot, bind, Except.bind, pure,
      Except.pure]

theorem replace_eq {source target : Path} (h : d.replace source target = .ok d') :
    ∃ c, d.at? (d.placeOf source) = some (.file c) ∧ d.placeOf source ≠ [] ∧
      d.placeOf target ≠ [] ∧ d.at? (d.placeOf target) ≠ some .directory ∧
      d.Reaches target ∧ endsInSlash target = false ∧
      d' = (d.erase (d.placeOf source)).put (d.placeOf target) (.file c) := by
  obtain ⟨-, s, t, m, n, old, new, c, hs, ht, hm, hn, hold, hnew, hslash, -, hc, hdir, rfl⟩ :=
    replace_eq_ok_iff.mp h
  obtain ⟨rfl, hold, -, -⟩ := spot?_place hs hm hold
  obtain ⟨rfl, hnew, htarget, hreach⟩ := spot?_place ht hn hnew
  rw [Bool.or_eq_false_iff, htarget] at hslash
  exact ⟨c, hc, hold, hnew, hdir, hreach, hslash.2, rfl⟩

/-- Only the two places of a move are touched, and the new path reads what was at the old
one. -/
theorem replace_frame {source target : Path} (h : d.replace source target = .ok d') :
    Frame [d.placeOf source, d.placeOf target] d d' ∧
      ∀ c, d.at? (d.placeOf source) = some (.file c) → d'.contentAt target = .ok c := by
  obtain ⟨c, ha, hs, ht, hdir, hr, hslash, rfl⟩ := replace_eq h
  have herase := frame_erase_file hs ha
  have hput : Frame [d.placeOf target] (d.erase (d.placeOf source))
      ((d.erase (d.placeOf source)).put (d.placeOf target) (.file c)) := by
    refine frame_put_file ht ?_ c
    rw [at?_erase d hs]
    split_ifs
    · simp
    · exact hdir
  have hframe : Frame [d.placeOf source, d.placeOf target] d
      ((d.erase (d.placeOf source)).put (d.placeOf target) (.file c)) :=
    (herase.mono (by simp)).trans (hput.mono (by simp))
  refine ⟨hframe, fun c' hc' => ?_⟩
  obtain rfl : c = c' := by simpa [ha] using hc'
  refine contentAt_eq_ok_iff.mpr ⟨hr.frame hframe, hslash, ?_⟩
  rw [placeOf_congr hframe.here, at?_put _ ht, if_pos rfl]

end TypeDeps.Disk
