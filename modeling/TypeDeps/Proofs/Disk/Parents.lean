import TypeDeps.Proofs.Disk.Work
import TypeDeps.Proofs.Path.Components

/-!
# New directories

The only directories that writing a file can add are those it is looked up in on its way.
-/
namespace TypeDeps.Disk

/-- New directories lie at these places. -/
def Makes (places : List Place) (d d' : Disk) : Prop :=
  ∀ q, d'.at? q = some .directory → d.at? q = some .directory ∨ q ∈ places

variable {d d' d'' : Disk} {p : Path} {places : List Place} {c : List UInt8}

theorem Makes.refl (places : List Place) (d : Disk) : Makes places d d := fun _ h => .inl h

theorem Makes.trans (h : Makes places d d') (h' : Makes places d' d'') : Makes places d d'' := by
  intro q hq
  rcases h' q hq with hq | hq
  · exact h q hq
  · exact .inr hq

theorem makes_put_file {place : Place} (hne : place ≠ []) (c : List UInt8) :
    Makes places d (d.put place (.file c)) := by
  intro q hq
  rw [at?_put d hne] at hq
  split_ifs at hq
  · simp at hq
  · exact .inl hq

theorem makeDir_makes (hp : d.placeOf p ∈ places) (h : d.makeDir p = .ok d') :
    Makes places d d' := by
  obtain ⟨s, n, place, hs, hn, hplace, -, rfl⟩ := makeDir_eq_ok_iff.mp h
  obtain ⟨rfl, hne, -, -⟩ := spot?_place hs hn hplace
  intro q hq
  rw [at?_put d hne] at hq
  split_ifs at hq with hqp
  · exact .inr (hqp ▸ hp)
  · exact .inl hq

theorem makeOutermost_makes {waiting waiting' ps : List Path}
    (hps : ∀ q ∈ ps, d.placeOf q ∈ places) (hwaiting : ∀ q ∈ waiting, d.placeOf q ∈ places)
    (h : d.makeOutermost waiting ps = .ok (d', waiting')) :
    Makes places d d' ∧ ∀ q ∈ waiting', d.placeOf q ∈ places := by
  induction ps generalizing waiting with
  | nil =>
    obtain ⟨rfl, rfl⟩ := Prod.mk.inj (Except.ok.inj h)
    exact ⟨.refl _ _, hwaiting⟩
  | cons p ps ih =>
    have hp := hps p List.mem_cons_self
    unfold makeOutermost at h
    split at h
    · next hmake =>
      obtain ⟨rfl, rfl⟩ := Prod.mk.inj (Except.ok.inj h)
      exact ⟨makeDir_makes hp hmake, hwaiting⟩
    · refine ih (fun q hq => hps q (List.mem_cons_of_mem _ hq)) (fun q hq => ?_) h
      rcases List.mem_cons.mp hq with rfl | hq
      · exact hp
      · exact hwaiting q hq
    · split_ifs at h
      obtain ⟨rfl, rfl⟩ := Prod.mk.inj (Except.ok.inj h)
      exact ⟨.refl _ _, hwaiting⟩
    · cases h

theorem makeEach_makes {ps : List Path} (hps : ∀ q ∈ ps, d.placeOf q ∈ places) :
    Makes places d (d.makeEach ps).2 := by
  induction ps generalizing d with
  | nil => exact .refl _ _
  | cons p ps ih =>
    have hp := hps p List.mem_cons_self
    have hrest : ∀ q ∈ ps, d.placeOf q ∈ places := fun q hq => hps q (List.mem_cons_of_mem _ hq)
    unfold makeEach
    split
    · next d₁ hmake =>
      refine (makeDir_makes hp hmake).trans (ih fun q hq => ?_)
      rw [placeOf_congr (makeDir_frame hmake).here]
      exact hrest q hq
    · split_ifs
      · exact ih hrest
      · exact .refl _ _
    · exact .refl _ _

theorem makeDirs_makes
    (h : ∀ q ∈ upward (p.components.length + 1) p, d.placeOf q ∈ places) :
    Makes places d (d.makeDirs p).2 := by
  unfold makeDirs
  split
  · exact .refl _ _
  · next d₁ waiting hmake =>
    obtain ⟨hmakes, hwaiting⟩ := makeOutermost_makes h (by simp) hmake
    refine hmakes.trans (makeEach_makes fun q hq => ?_)
    rw [placeOf_congr (makeOutermost_frame hmake).here]
    exact hwaiting q hq

theorem makeDirectory_makes (d : Disk) (p : Path) :
    Makes (d.way p) d (d.perform (makeDirectory p)).2 := by
  unfold makeDirectory
  split
  · next parent hparent =>
    have hparent := (Option.filter_eq_some_iff.mp hparent).1
    exact makeDirs_makes fun q hq => d.mem_way_of_mem_upward hparent hq
  · exact .refl _ _

theorem setContent_makes {bytes : List UInt8} (h : d.setContent p bytes = .ok d') :
    Makes places d d' := by
  obtain ⟨hne, rfl⟩ := setContent_eq h
  exact makes_put_file hne bytes

theorem replace_makes {source target : Path} (h : d.replace source target = .ok d') :
    Makes places d d' := by
  obtain ⟨c, -, hs, ht, -, -, -, rfl⟩ := replace_eq h
  refine Makes.trans (fun q hq => ?_) (makes_put_file ht c)
  rw [at?_erase d hs] at hq
  split_ifs at hq
  exact .inl hq

theorem perform_change_makes {f : Disk → Except StorageFailure Disk}
    (h : ∀ d', f d = .ok d' → Makes places d d') :
    Makes places d (d.perform (Storage.task (change f))).2 := by
  rw [perform_change]
  cases hf : f d with
  | ok d' => exact h d' hf
  | error e => exact .refl _ _

theorem perform_bind_makes {α β : Type} {x : Task (StateM Disk) α}
    {f : α → Task (StateM Disk) β} (hx : Makes places d (d.perform x).2)
    (hf : ∀ a d₁, Makes places d₁ (d₁.perform (f a)).2) :
    Makes places d (d.perform (x >>= f)).2 := by
  rw [perform_bind]
  rcases h : d.perform x with ⟨_ | a, d₁⟩
  · simpa [h] using hx
  · rw [h] at hx
    exact hx.trans (hf a d₁)

/-- Writing a file makes only directories on its way, whatever comes of it. -/
theorem writeAtomic_makes (d : Disk) (p : Path) (bytes : List UInt8) :
    Makes (d.way p) d (d.perform (Storage.writeAtomic p bytes)).2 := by
  rw [writeAtomic_eq]
  refine perform_bind_makes (makeDirectory_makes d p) fun _ d₁ => ?_
  refine perform_bind_makes ?_ fun _ d₂ => ?_
  · exact perform_change_makes fun _ h => setContent_makes h
  · exact perform_change_makes fun _ h => replace_makes h

end TypeDeps.Disk
