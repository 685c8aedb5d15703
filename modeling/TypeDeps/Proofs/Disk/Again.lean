import TypeDeps.Proofs.Disk.Walks
import TypeDeps.Proofs.Disk.Work

/-!
# Writing again

What an operation asks of a disk beyond directories on its way is little: that there is no
directory where a file is to go. Directories stay, so a file that has once been written can be
written again, with any content.
-/
namespace TypeDeps.Disk

variable {d d' e : Disk} {p q : Path} {place : Place} {touched : List Place}
variable {bytes c : List UInt8}

theorem spot?_eq_ok_iff {s : Spot} : d.spot? p = .ok s ↔ checkPath p = .ok () ∧
    (∀ r ∈ passed (d.origin p) (names p).dropLast, d.at? r = some .directory) ∧
    (∀ n ∈ (names p).dropLast, Fits n) ∧
    d.at? ((names p).dropLast.foldl stepTo (d.origin p)) = some .directory ∧
    s = ⟨(names p).dropLast.foldl stepTo (d.origin p),
      (names p).getLast?.filter fun n => !Spot.isSpecial n, endsInSlash p⟩ := by
  unfold spot?
  simp only [bind_eq_ok_iff, walk_eq_ok_iff]
  constructor
  · rintro ⟨_, hc, _, ⟨hway, hfits, rfl⟩, _, hlast, hs⟩
    exact ⟨hc, hway, hfits, enter_eq_ok_iff.mp hlast, (Except.ok.inj hs).symm⟩
  · rintro ⟨hc, hway, hfits, hlast, rfl⟩
    exact ⟨_, hc, _, ⟨hway, hfits, rfl⟩, _, enter_eq_ok_iff.mpr hlast, rfl⟩

theorem spot?_frame {s : Spot} (h : d.spot? p = .ok s) (hf : Frame touched d d') :
    d'.spot? p = .ok s := by
  rw [spot?_eq_ok_iff] at h ⊢
  rw [origin_congr hf.here]
  obtain ⟨hc, hway, hfits, hlast, hs⟩ := h
  exact ⟨hc, fun r hr => hf.directories r (hway r hr), hfits, hf.directories _ hlast, hs⟩

/-- The spot of a path that can be followed up to its last name. -/
theorem spot?_of_reaches {ms : List Name} {n : Name} (h : d.Reaches p)
    (hnames : names p = ms ++ [n]) :
    d.spot? p = .ok ⟨ms.foldl stepTo (d.origin p),
      if !Spot.isSpecial n then some n else none, endsInSlash p⟩ := by
  have hway : ∀ r ∈ passed (d.origin p) ms ++ [ms.foldl stepTo (d.origin p)],
      d.at? r = some .directory := by
    intro r hr
    rw [← passed_snoc _ ms n, ← hnames] at hr
    exact h.directories r hr
  refine spot?_eq_ok_iff.mpr ⟨h.sound, ?_, ?_, ?_, ?_⟩
  all_goals simp only [hnames, List.dropLast_concat, List.getLast?_concat]
  · exact fun r hr => hway r (List.mem_append_left _ hr)
  · exact fun m hm => h.fits m (by simp [hnames, hm])
  · exact hway _ (by simp)
  · rw [Option.filter_some]

/-! ## Directories -/

/-- A directory that is there cannot be made. -/
theorem makeDir_of_isDirectoryAt (h : d.isDirectoryAt p) : d.makeDir p = .error .exists_ := by
  obtain ⟨hr, ha⟩ := isDirectoryAt_iff.mp h
  unfold makeDir
  rcases List.eq_nil_or_concat (names p) with hnil | ⟨ms, n, hnames⟩
  · have horigin : d.at? (d.origin p) = some .directory := by
      simpa [placeOf, hnil] using ha
    have hspot : d.spot? p = .ok ⟨d.origin p, none, endsInSlash p⟩ :=
      spot?_eq_ok_iff.mpr (by simp [hnil, passed, hr.sound, horigin])
    rw [hspot]
    rfl
  · rw [List.concat_eq_append] at hnames
    rw [spot?_of_reaches hr hnames]
    cases hspecial : Spot.isSpecial n with
    | true => rfl
    | false =>
      have hlen : ¬nameLimit < n.length := by
        rcases hr.fits n (by simp [hnames]) with h' | h'
        · simp [hspecial] at h'
        · omega
      have hplace : d.at? (ms.foldl stepTo (d.origin p) ++ [n]) = some .directory := by
        rw [← stepTo_of_not_special hspecial]
        simpa [placeOf, hnames] using ha
      simp [bind, Except.bind, Spot.place, hlen, hplace]

theorem isDirectoryAt_frame (h : d.isDirectoryAt p) (hf : Frame touched d d') :
    d'.isDirectoryAt p := by
  obtain ⟨hr, ha⟩ := isDirectoryAt_iff.mp h
  refine isDirectoryAt_iff.mpr ⟨hr.frame hf, ?_⟩
  rw [placeOf_congr hf.here]
  exact hf.directories _ ha

theorem isDirectoryAt_of_makeDir (h : d.makeDir p = .ok d') : d'.isDirectoryAt p := by
  have hframe := makeDir_frame h
  obtain ⟨s, n, place, hs, hn, hplace, -, rfl⟩ := makeDir_eq_ok_iff.mp h
  obtain ⟨rfl, hne, -, hreach⟩ := spot?_place hs hn hplace
  refine isDirectoryAt_iff.mpr ⟨hreach.frame hframe, ?_⟩
  rw [placeOf_congr hframe.here, at?_put d hne, if_pos rfl]

/-- Making directories one after the other leaves all of them there. -/
theorem isDirectoryAt_of_makeEach {ps : List Path} (h : d.makeEach ps = (.ok (), d'))
    (hp : p ∈ ps) : d'.isDirectoryAt p := by
  induction ps generalizing d with
  | nil => cases hp
  | cons first ps ih =>
    have hrest : ∀ {d₁ : Disk}, d₁.makeEach ps = (.ok (), d') → d₁.isDirectoryAt first →
        d'.isDirectoryAt p := by
      intro d₁ h₁ hfirst
      rcases List.mem_cons.mp hp with rfl | hp
      · have hframe := makeEach_frame d₁ ps
        rw [h₁] at hframe
        exact isDirectoryAt_frame hfirst hframe
      · exact ih h₁ hp
    unfold makeEach at h
    split at h
    · next hmake => exact hrest h (isDirectoryAt_of_makeDir hmake)
    · split_ifs at h with hthere
      · exact hrest h hthere
      · cases h
    · cases h

theorem subset_of_makeOutermost {waiting waiting' ps : List Path}
    (h : d.makeOutermost waiting ps = .ok (d', waiting')) : waiting ⊆ waiting' := by
  induction ps generalizing waiting with
  | nil =>
    obtain ⟨-, rfl⟩ := Prod.mk.inj (Except.ok.inj h)
    exact List.Subset.refl _
  | cons p ps ih =>
    unfold makeOutermost at h
    split at h
    · obtain ⟨-, rfl⟩ := Prod.mk.inj (Except.ok.inj h)
      exact List.Subset.refl _
    · exact List.Subset.trans (List.subset_cons_self p waiting) (ih h)
    · split_ifs at h
      obtain ⟨-, rfl⟩ := Prod.mk.inj (Except.ok.inj h)
      exact List.Subset.refl _
    · cases h

/-- There is nothing to be made for this directory. -/
def Settled (d : Disk) (p : Path) : Prop := p.parent? = none ∨ d.isDirectoryAt p

theorem settled_of_makeDirs (h : d.makeDirs p = (.ok (), d')) : d'.Settled p := by
  unfold makeDirs upward at h
  cases hparent : p.parent? with
  | none => exact .inl hparent
  | some above =>
    right
    simp only [hparent] at h
    unfold makeOutermost at h
    cases hmake : d.makeDir p with
    | ok d₁ =>
      simp only [hmake, makeEach, Prod.mk.injEq, true_and] at h
      exact h ▸ isDirectoryAt_of_makeDir hmake
    | error failure =>
      simp only [hmake] at h
      split at h
      · cases h
      · next d₁ waiting hwaiting =>
        split at hwaiting
        · next hok => cases hok
        · exact isDirectoryAt_of_makeEach h (subset_of_makeOutermost hwaiting (by simp))
        · split_ifs at hwaiting with hthere
          obtain ⟨rfl, rfl⟩ := Prod.mk.inj (Except.ok.inj hwaiting)
          simp only [makeEach, Prod.mk.injEq, true_and] at h
          exact h ▸ hthere
        · cases hwaiting

theorem makeDirs_of_settled (h : d.Settled p) : d.makeDirs p = (.ok (), d) := by
  unfold makeDirs upward
  rcases h with h | h
  · simp [h, makeOutermost, makeEach]
  · cases p.parent? <;> simp [makeOutermost, makeDir_of_isDirectoryAt h, h, makeEach]

theorem Settled.frame (h : d.Settled p) (hf : Frame touched d d') : d'.Settled p :=
  h.imp_right fun h => isDirectoryAt_frame h hf

/-! ## Files -/

/-- A file that has once been created can be created again unless a directory is in the way. -/
theorem create_again (h : d.create p = .ok (place, d')) (hf : Frame touched d e)
    (hfree : e.at? place ≠ some .directory) :
    e.create p = .ok (place, e.put place (.file [])) := by
  obtain ⟨s, n, hs, hn, hslash, hplace, -, -⟩ := create_eq_ok_iff.mp h
  exact create_eq_ok_iff.mpr ⟨s, n, spot?_frame hs hf, hn, hslash, hplace, hfree, rfl⟩

theorem setContent_again (h : d.setContent p bytes = .ok d') (hf : Frame touched d e)
    (hfree : e.at? (d.placeOf p) ≠ some .directory) (bytes' : List UInt8) :
    ∃ e', e.setContent p bytes' = .ok e' := by
  unfold setContent at h
  obtain ⟨⟨place, d₁⟩, hcreate, -⟩ := bind_eq_ok_iff.mp h
  obtain ⟨rfl, -⟩ := create_frame hcreate
  exact ⟨_, bind_eq_ok_iff.mpr ⟨_, create_again hcreate hf hfree, rfl⟩⟩

/-- A move that has once succeeded succeeds again as soon as there is a file to be moved. -/
theorem replace_again {source target : Path} (h : d.replace source target = .ok d')
    (hf : Frame touched d e) (hfile : e.at? (d.placeOf source) = some (.file c))
    (hfree : e.at? (d.placeOf target) ≠ some .directory) :
    ∃ e', e.replace source target = .ok e' := by
  obtain ⟨hnul, s, t, m, n, old, new, c, hs, ht, hm, hn, hold, hnew, hslash, hbelow, -, -, -⟩ :=
    replace_eq_ok_iff.mp h
  obtain ⟨rfl, -⟩ := spot?_place hs hm hold
  obtain ⟨rfl, -⟩ := spot?_place ht hn hnew
  exact ⟨_, replace_eq_ok_iff.mpr ⟨hnul, s, t, m, n, _, _, _, spot?_frame hs hf,
    spot?_frame ht hf, hm, hn, hold, hnew, hslash, hbelow, hfile, hfree, rfl⟩⟩

/-! ## Whole files -/

theorem makeDirectory_of_settled (h : ∀ q, Storage.directoryOf? p = some q → d.Settled q) :
    d.perform (makeDirectory p) = (.ok (), d) := by
  unfold makeDirectory
  cases hq : Storage.directoryOf? p with
  | none => rfl
  | some q =>
    show (Except.mapError Error.storage (d.makeDirs q).1, (d.makeDirs q).2) = _
    rw [makeDirs_of_settled (h q hq)]
    rfl

/-- Directories that have been made for a file need not be made again. -/
theorem makeDirectory_again (h : d.perform (makeDirectory p) = (.ok (), d'))
    (hf : Frame touched d' e) : e.perform (makeDirectory p) = (.ok (), e) := by
  refine makeDirectory_of_settled fun q hq => ?_
  rw [makeDirectory, hq] at h
  change (Except.mapError Error.storage (d.makeDirs q).1, (d.makeDirs q).2) = _ at h
  obtain ⟨hanswer, hdisk⟩ := Prod.mk.inj h
  have hmake : d.makeDirs q = (.ok (), d') := by
    cases hm : (d.makeDirs q).1 with
    | error failure => simp [hm, Except.mapError] at hanswer
    | ok u => exact Prod.ext hm hdisk
  exact (settled_of_makeDirs hmake).frame hf

/-- A file that has been written can be written again. -/
theorem writeAtomic_again (h : d.perform (Storage.writeAtomic p bytes) = (.ok (), d'))
    (bytes' : List UInt8) : ∃ e, d'.perform (Storage.writeAtomic p bytes') = (.ok (), e) := by
  rw [writeAtomic_eq] at h
  obtain ⟨_, d₁, hmake, hput⟩ := perform_bind_eq_ok_iff.mp h
  obtain ⟨_, d₂, hset, hmove⟩ := perform_bind_eq_ok_iff.mp hput
  have hset : d₁.setContent (Storage.temporary p) bytes = .ok d₂ :=
    perform_change_eq_ok_iff.mp hset
  have hmove : d₂.replace (Storage.temporary p) p = .ok d' := perform_change_eq_ok_iff.mp hmove
  have hframe := putFile_frame d₁ p bytes
  rw [hput] at hframe
  have hframeSet := (setContent_frame hset).1
  have hframeMove := (replace_frame hmove).1
  have htemporary : d₂.placeOf (Storage.temporary p) = d₁.placeOf (Storage.temporary p) :=
    placeOf_congr hframeSet.here _
  obtain ⟨c, -, hsource, htarget, -, -, -, hd'⟩ := replace_eq hmove
  have hgone : d'.at? (d₂.placeOf (Storage.temporary p)) ≠ some .directory := by
    rw [hd', at?_put _ htarget, at?_erase _ hsource, if_pos rfl]
    split_ifs <;> simp
  have hthere : d'.at? (d₂.placeOf p) = some (.file c) := by
    rw [hd', at?_put _ htarget, if_pos rfl]
  obtain ⟨e₁, hset'⟩ := setContent_again hset hframe (htemporary ▸ hgone) bytes'
  obtain ⟨hframeSet', hwritten⟩ := setContent_frame hset'
  rw [placeOf_congr hframeMove.here] at hframeSet' hwritten
  have hfree : e₁.at? (d₂.placeOf p) ≠ some .directory := by
    by_cases hplace : d₂.placeOf p = d₂.placeOf (Storage.temporary p)
    · rw [hplace, hwritten]
      simp
    · rw [(hframeSet'.files _ c (by simpa using hplace)).mpr hthere]
      simp
  obtain ⟨e₂, hmove'⟩ := replace_again hmove
    ((hframeMove.mono (List.subset_append_left _ _)).trans
      (hframeSet'.mono (List.subset_append_right _ _))) hwritten hfree
  refine ⟨e₂, ?_⟩
  rw [writeAtomic_eq]
  refine perform_bind_eq_ok_iff.mpr ⟨(), d', makeDirectory_again hmake hframe, ?_⟩
  exact perform_bind_eq_ok_iff.mpr ⟨(), e₁, perform_change_eq_ok_iff.mpr hset',
    perform_change_eq_ok_iff.mpr hmove'⟩

end TypeDeps.Disk
