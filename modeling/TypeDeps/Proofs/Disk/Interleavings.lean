import TypeDeps.Proofs.Disk.Writers
import TypeDeps.Proofs.Path.Endings

/-!
# What several writers leave in a file

Whatever the order of their steps, the writers of a file touch nothing but the file and the
temporary one, and the file never holds anything but bytes of theirs, each where one of them has
it. They keep each other's content whole as long as no two of them have the temporary file open
at once. Otherwise one can empty the temporary file and write a part of it before another one
renames it.
-/
namespace TypeDeps.Disk

variable {ι : Type} {contents : ι → List UInt8} {i : ι}

/-! ## Blends -/

/-- Every byte stands where one of the contents has it, or where that content has another byte and
a zero has been filled in. -/
def Blend (contents : ι → List UInt8) (content : List UInt8) : Prop :=
  ∀ (k : Nat) (b : UInt8), content[k]? = some b →
    ∃ i b', (contents i)[k]? = some b' ∧ (b = b' ∨ b = 0)

theorem Blend.nil : Blend contents [] := by
  intro k b hb
  simp at hb

theorem getElem?_overwrite (content piece : List UInt8) (offset k : Nat) :
    (overwrite content offset piece)[k]? =
      if k < offset then (if k < content.length then content[k]? else some 0)
      else if k < offset + piece.length then piece[k - offset]? else content[k]? := by
  have hfront : (content.take offset ++ List.replicate (offset - content.length) 0).length =
      offset := by
    simp only [List.length_append, List.length_take, List.length_replicate]
    omega
  unfold overwrite
  by_cases hk : k < offset
  · rw [if_pos hk, List.append_assoc, List.getElem?_append_left (by omega)]
    by_cases hc : k < content.length
    · rw [if_pos hc, List.getElem?_append_left (by simp; omega), List.getElem?_take_of_lt hk]
    · rw [if_neg hc, List.getElem?_append_right (by simp; omega), List.getElem?_replicate,
        if_pos (by simp; omega)]
  · rw [if_neg hk, List.append_assoc, List.getElem?_append_right (by omega), hfront]
    by_cases hp : k < offset + piece.length
    · rw [if_pos hp, List.getElem?_append_left (by omega)]
    · rw [if_neg hp, List.getElem?_append_right (by omega), List.getElem?_drop]
      congr 1
      omega

/-- A writer that goes on where it has stopped blends its content in. -/
theorem Blend.overwrite {content piece rest : List UInt8} {offset : Nat}
    (h : Blend contents content)
    (hrest : (contents i).drop offset = piece ++ rest) (hoffset : offset ≤ (contents i).length) :
    Blend contents (overwrite content offset piece) := by
  have hpiece : ∀ k, offset ≤ k → k < offset + piece.length →
      (contents i)[k]? = piece[k - offset]? := by
    intro k hk hlt
    have hdrop : ((contents i).drop offset)[k - offset]? = (contents i)[k]? := by
      rw [List.getElem?_drop]
      congr 1
      omega
    rw [← hdrop, hrest, List.getElem?_append_left (by omega)]
  intro k b hb
  rw [getElem?_overwrite] at hb
  split_ifs at hb with hfront hcontent hin
  · exact h k b hb
  · obtain ⟨b', hb'⟩ : ∃ b', (contents i)[k]? = some b' :=
      ⟨_, List.getElem?_eq_getElem (by omega)⟩
    exact ⟨i, b', hb', .inr (Option.some.inj hb).symm⟩
  · exact ⟨i, b, (hpiece k (by omega) hin).trans hb, .inl rfl⟩
  · exact h k b hb

/-! ## Moved files -/

theorem OpenFile.moved_place {file : OpenFile} {source target place : Place}
    (h : (file.moved source target).place? = some place) :
    file.place? = some source ∧ place = target ∨
      file.place? = some place ∧ place ≠ source ∧ place ≠ target := by
  unfold OpenFile.moved at h
  split_ifs at h with hsource htarget
  · exact .inl ⟨hsource, by simpa using h.symm⟩
  · have hs : place ≠ source := fun he => hsource (he ▸ h)
    have ht : place ≠ target := fun he => htarget (he ▸ h)
    exact .inr ⟨h, hs, ht⟩

theorem OpenFile.moved_offset (source target : Place) (file : OpenFile) :
    (file.moved source target).offset = file.offset := by
  unfold OpenFile.moved
  split_ifs <;> rfl

theorem Phase.moved_eq_writing {phase : Phase} {file : OpenFile} {source target : Place}
    {rest : List UInt8}
    (h : phase.moved source target = .writing file rest) :
    ∃ opened, phase = .writing opened rest ∧ file = opened.moved source target := by
  cases phase with
  | writing opened rest' =>
    obtain ⟨rfl, rfl⟩ := Phase.writing.inj h
    exact ⟨opened, rfl, rfl⟩
  | _ => cases h

namespace Writers

variable [DecidableEq ι] {p : Path} {d : Disk} {s : Writers ι}

/-! ## What every run preserves -/

/-- Only the file and the temporary one have been touched. The file is the one that lay there at
the start or a blend. What a writer has open is a blend, and while there is such a writer, so is
the temporary file. -/
structure Blended (p : Path) (contents : ι → List UInt8) (d : Disk) (s : Writers ι) : Prop where
  frame : Frame [d.placeOf (Storage.temporary p), d.placeOf p] d s.disk
  stays : ∀ c, d.at? (d.placeOf p) = some (.file c) →
    ∃ c', s.disk.at? (d.placeOf p) = some (.file c')
  target : ∀ c, s.disk.at? (d.placeOf p) = some (.file c) →
    d.at? (d.placeOf p) = some (.file c) ∨ Blend contents c
  temporary : ∀ i file rest c, s.phase i = .writing file rest →
    s.disk.at? (d.placeOf (Storage.temporary p)) = some (.file c) → Blend contents c
  offset : ∀ i file rest, s.phase i = .writing file rest →
    file.offset ≤ (contents i).length ∧ rest = (contents i).drop file.offset
  opened : ∀ i file rest place, s.phase i = .writing file rest → file.place? = some place →
    (place = d.placeOf (Storage.temporary p) ∨ place = d.placeOf p) ∧
      ∃ c, s.disk.at? place = some (.file c) ∧ Blend contents c

omit [DecidableEq ι] in
theorem blended_start (p : Path) (contents : ι → List UInt8) (d : Disk) :
    Blended p contents d (start d) where
  frame := .refl _ d
  stays c hc := ⟨c, hc⟩
  target c hc := .inl hc
  temporary i file rest c hphase _ := by simp [start] at hphase
  offset i file rest hphase := by simp [start] at hphase
  opened i file rest place hphase _ := by simp [start] at hphase

variable {d' : Disk} {phase : Phase} {file : OpenFile} {j : ι}

theorem writing_of_set {rest : List UInt8} (hset : (s.set i d' phase).phase j = .writing file rest)
    (hphase : ∀ file rest, phase ≠ .writing file rest) : s.phase j = .writing file rest := by
  rw [phase_set] at hset
  split_ifs at hset with hji
  · exact absurd hset (hphase file rest)
  · exact hset

/-- New directories make no difference, and neither does a writer that has nothing open. -/
theorem Blended.set_idle (h : Blended p contents d s) (hframe : Frame [] s.disk d')
    (hphase : ∀ file rest, phase ≠ .writing file rest) :
    Blended p contents d (s.set i d' phase) := by
  refine ⟨h.frame.trans (hframe.mono (List.nil_subset _)), fun c hc => ?_, fun c hc => ?_,
    fun j file rest c hj hc => ?_, fun j file rest hj => ?_, fun j file rest place hj hplace => ?_⟩
  · obtain ⟨c', hc'⟩ := h.stays c hc
    exact ⟨c', (hframe.file_iff _ _).mpr hc'⟩
  · exact h.target c ((hframe.file_iff _ _).mp hc)
  · exact h.temporary j file rest c (writing_of_set hj hphase) ((hframe.file_iff _ _).mp hc)
  · exact h.offset j file rest (writing_of_set hj hphase)
  · obtain ⟨hat, c, hc, hblend⟩ := h.opened j file rest place (writing_of_set hj hphase) hplace
    exact ⟨hat, c, (hframe.file_iff _ _).mpr hc, hblend⟩

omit [DecidableEq ι] in
/-- A blend may be put at either place. -/
theorem Blended.put {place : Place} {c : List UInt8} (h : Blended p contents d s)
    (hplace : place = d.placeOf (Storage.temporary p) ∨ place = d.placeOf p) (hne : place ≠ [])
    (hdir : s.disk.at? place ≠ some .directory) (hblend : Blend contents c) :
    Blended p contents d ⟨s.disk.put place (.file c), s.phase⟩ := by
  have hat : ∀ q c', (s.disk.put place (.file c)).at? q = some (.file c') →
      s.disk.at? q = some (.file c') ∨ c' = c := by
    intro q c' hq
    rw [at?_put _ hne] at hq
    split_ifs at hq with hqp
    · exact .inr (by simpa using hq.symm)
    · exact .inl hq
  refine ⟨h.frame.trans ((frame_put_file hne hdir c).mono ?_), fun c₀ hc₀ => ?_, fun c' hc' => ?_,
    fun j file rest c' hj hc' => ?_, h.offset, fun j file rest q hj hq => ?_⟩
  · rcases hplace with rfl | rfl <;> simp
  · obtain ⟨c', hc'⟩ := h.stays c₀ hc₀
    by_cases hp : d.placeOf p = place
    · exact ⟨c, by rw [at?_put _ hne, if_pos hp]⟩
    · exact ⟨c', by rw [at?_put _ hne, if_neg hp, hc']⟩
  · rcases hat _ _ hc' with hold | rfl
    · exact h.target c' hold
    · exact .inr hblend
  · rcases hat _ _ hc' with hold | rfl
    · exact h.temporary j file rest c' hj hold
    · exact hblend
  · obtain ⟨hq', c', hc', hblend'⟩ := h.opened j file rest q hj hq
    by_cases hqp : q = place
    · exact ⟨hq', c, by rw [at?_put _ hne, if_pos hqp], hblend⟩
    · exact ⟨hq', c', by rw [at?_put _ hne, if_neg hqp, hc'], hblend'⟩

/-- A writer may have a blend open if the temporary file is one. -/
theorem Blended.set_writing {rest : List UInt8} (h : Blended p contents d s)
    (htemporary : ∀ c, s.disk.at? (d.placeOf (Storage.temporary p)) = some (.file c) →
      Blend contents c)
    (hoffset : file.offset ≤ (contents i).length ∧ rest = (contents i).drop file.offset)
    (hopened : ∀ place, file.place? = some place →
      (place = d.placeOf (Storage.temporary p) ∨ place = d.placeOf p) ∧
        ∃ c, s.disk.at? place = some (.file c) ∧ Blend contents c) :
    Blended p contents d (s.set i s.disk (.writing file rest)) := by
  refine ⟨h.frame, h.stays, h.target, fun _ _ _ c _ hc => htemporary c hc,
    fun j file' rest' hj => ?_, fun j file' rest' place hj hplace => ?_⟩
  all_goals
    rw [phase_set] at hj
    split_ifs at hj with hji
  · obtain ⟨rfl, rfl⟩ := Phase.writing.inj hj
    rw [hji]
    exact hoffset
  · exact h.offset j file' rest' hj
  · obtain ⟨rfl, rfl⟩ := Phase.writing.inj hj
    exact hopened place hplace
  · exact h.opened j file' rest' place hj hplace

theorem Blended.openTemporary (h : Blended p contents d s) (i : ι) :
    Blended p contents d (s.openTemporary p i (contents i)) := by
  unfold Writers.openTemporary
  split
  · next place d₁ hcreate =>
    obtain ⟨hplace, hne, rfl, hdir⟩ := create_frame hcreate
    rw [placeOf_congr h.frame.here] at hplace
    have hput := h.put (.inl hplace) hne hdir Blend.nil
    have hempty : (s.disk.put place (.file [])).at? place = some (.file []) := by
      rw [at?_put _ hne, if_pos rfl]
    refine hput.set_writing (fun c hc => ?_) ⟨Nat.zero_le _, rfl⟩ fun q hq => ?_
    · rw [← hplace, hempty] at hc
      obtain rfl : [] = c := by simpa using hc
      exact Blend.nil
    · obtain rfl : place = q := by simpa using hq
      exact ⟨.inl hplace, [], hempty, Blend.nil⟩
  · exact h.set_idle (.refl _ _) (by simp)

theorem Blended.writePiece {piece rest rest' : List UInt8} (h : Blended p contents d s)
    (hphase : s.phase i = .writing file rest) (hrest : rest = piece ++ rest') :
    Blended p contents d (s.writePiece i file piece rest') := by
  obtain ⟨hoffset, hdrop⟩ := h.offset i file rest hphase
  have hsplit : (contents i).drop file.offset = piece ++ rest' := by rw [← hdrop, hrest]
  have hadvance : (file.advance piece.length).offset ≤ (contents i).length ∧
      rest' = (contents i).drop (file.advance piece.length).offset := by
    have hlength := congrArg List.length hsplit
    simp only [List.length_drop, List.length_append] at hlength
    refine ⟨by simp only [OpenFile.advance]; omega, ?_⟩
    simp only [OpenFile.advance]
    rw [← List.drop_drop, hsplit, List.drop_left]
  unfold Writers.writePiece OpenFile.write
  cases hplace : file.place? with
  | none =>
    refine h.set_writing (fun c hc => h.temporary i file rest c hphase hc) hadvance fun q hq => ?_
    simp [OpenFile.advance, hplace] at hq
  | some place =>
    obtain ⟨hat, c, hc, hblend⟩ := h.opened i file rest place hphase hplace
    have hne : place ≠ [] := by
      rintro rfl
      simp at hc
    have hover := hblend.overwrite hsplit hoffset
    have hput := h.put hat hne (by simp [hc]) hover
    simp only [hc]
    refine hput.set_writing (fun c' hc' => ?_) hadvance fun q hq => ?_
    · exact hput.temporary i file rest c' hphase hc'
    · obtain rfl : place = q := by simpa [OpenFile.advance, hplace] using hq
      exact ⟨hat, _, by rw [at?_put _ hne, if_pos rfl], hover⟩

/-- All that a rename does. -/
theorem rename_cases (p : Path) (i : ι) (hhere : s.disk.here = d.here) :
    (∃ c d', s.disk.at? (d.placeOf (Storage.temporary p)) = some (.file c) ∧
      Frame [d.placeOf (Storage.temporary p), d.placeOf p] s.disk d' ∧
      (∀ q, d'.at? q = if q = d.placeOf p then some (.file c)
        else if q = d.placeOf (Storage.temporary p) then none else s.disk.at? q) ∧
      s.rename p i =
        (⟨d', fun j => (s.phase j).moved (d.placeOf (Storage.temporary p)) (d.placeOf p)⟩ :
          Writers ι).set i d' (.ended (.ok ()))) ∨
    ∃ e, s.rename p i = s.set i s.disk (.ended (.error e)) := by
  unfold Writers.rename
  cases hreplace : s.disk.replace (Storage.temporary p) p with
  | error e => exact .inr ⟨_, rfl⟩
  | ok d' =>
    have hmove := (replace_frame hreplace).1
    obtain ⟨c, hc, hs, ht, -, -, -, rfl⟩ := replace_eq hreplace
    simp only [placeOf_congr hhere] at hc hs ht hmove ⊢
    refine .inl ⟨c, _, hc, hmove, fun q => ?_, rfl⟩
    rw [at?_put _ ht, at?_erase _ hs]

theorem Blended.rename {rest : List UInt8} (h : Blended p contents d s)
    (hphase : s.phase i = .writing file rest) : Blended p contents d (s.rename p i) := by
  rcases rename_cases p i h.frame.here with ⟨c, d', hc, hmove, hat, hrename⟩ | ⟨e, hrename⟩
  · have hblend : Blend contents c := h.temporary i file rest c hphase hc
    have hne := d.placeOf_temporary_ne p
    rw [hrename]
    refine set_idle ⟨h.frame.trans hmove, fun c₀ _ => ⟨c, ?_⟩, fun c' hc' => ?_,
      fun j file' rest' c' _ hc' => ?_, fun j file' rest' hj => ?_,
      fun j file' rest' place hj hplace => ?_⟩ (.refl _ _) (by simp)
    · rw [hat, if_pos rfl]
    · rw [hat, if_pos rfl] at hc'
      obtain rfl : c = c' := by simpa using hc'
      exact .inr hblend
    · rw [hat, if_neg hne, if_pos rfl] at hc'
      cases hc'
    · obtain ⟨opened, hopened, rfl⟩ := Phase.moved_eq_writing hj
      rw [OpenFile.moved_offset]
      exact h.offset j opened rest' hopened
    · obtain ⟨opened, hopened, rfl⟩ := Phase.moved_eq_writing hj
      rcases OpenFile.moved_place hplace with ⟨-, rfl⟩ | ⟨hold, hsource, htarget⟩
      · exact ⟨.inr rfl, c, by rw [hat, if_pos rfl], hblend⟩
      · obtain ⟨hplace', c', hc', hblend'⟩ := h.opened j opened rest' place hopened hold
        exact ⟨hplace', c', by rw [hat, if_neg htarget, if_neg hsource, hc'], hblend'⟩
  · rw [hrename]
    exact h.set_idle (.refl _ _) (by simp)

theorem exists_prepare (s : Writers ι) (p : Path) (i : ι) : ∃ d' phase,
    s.prepare p i = s.set i d' phase ∧ Frame [] s.disk d' ∧
      ∀ file rest, phase ≠ .writing file rest := by
  have hframe := makeDirectory_frame s.disk p
  unfold Writers.prepare
  generalize s.disk.perform (makeDirectory p) = made at hframe ⊢
  obtain ⟨e | u, d'⟩ := made
  · exact ⟨d', .ended (.error e), rfl, hframe, by simp⟩
  · exact ⟨d', .prepared, rfl, hframe, by simp⟩

theorem Blended.prepare (h : Blended p contents d s) (i : ι) :
    Blended p contents d (s.prepare p i) := by
  obtain ⟨d', phase, hprepare, hframe, hphase⟩ := s.exists_prepare p i
  rw [hprepare]
  exact h.set_idle hframe hphase

theorem Blended.turn (h : Blended p contents d s) (i : ι) (amount : Nat) :
    Blended p contents d (s.turn p contents i amount) := by
  unfold Writers.turn
  split
  · exact h.prepare i
  · exact h.openTemporary i
  · next hphase => exact h.rename hphase
  · next b rest hphase => exact h.writePiece hphase (by simp)
  · exact h

theorem blended_run (p : Path) (contents : ι → List UInt8) (d : Disk) (turns : List (ι × Nat)) :
    Blended p contents d (run p contents d turns) := by
  induction turns using List.reverseRecOn with
  | nil => exact blended_start p contents d
  | append_singleton turns t ih =>
    rw [run_snoc]
    exact ih.turn t.1 t.2

/-! ## Writers that wait for each other -/

/-- At most one writer has the temporary file open. -/
def Exclusive (s : Writers ι) : Prop :=
  ∀ i j, (s.phase i).isWriting → (s.phase j).isWriting → i = j

instance [Fintype ι] (s : Writers ι) : Decidable s.Exclusive :=
  inferInstanceAs (Decidable (∀ i j, _ → _ → i = j))

/-- The file is the one that lay there at the start or all of one content. A writer has written the
temporary file as far as it has come. -/
structure Whole (p : Path) (contents : ι → List UInt8) (d : Disk) (s : Writers ι) : Prop where
  target : ∀ c, s.disk.at? (d.placeOf p) = some (.file c) →
    d.at? (d.placeOf p) = some (.file c) ∨ ∃ i, c = contents i
  opened : ∀ i file rest, s.phase i = .writing file rest →
    file.place? = some (d.placeOf (Storage.temporary p)) ∧
      s.disk.at? (d.placeOf (Storage.temporary p)) =
        some (.file ((contents i).take file.offset))

omit [DecidableEq ι] in
theorem whole_start (p : Path) (contents : ι → List UInt8) (d : Disk) :
    Whole p contents d (start d) where
  target c hc := .inl hc
  opened i file rest hphase := by simp [start] at hphase

theorem Whole.set_idle (h : Whole p contents d s) (hframe : Frame [] s.disk d')
    (hphase : ∀ file rest, phase ≠ .writing file rest) :
    Whole p contents d (s.set i d' phase) := by
  refine ⟨fun c hc => h.target c ((hframe.file_iff _ _).mp hc), fun j file rest hj => ?_⟩
  obtain ⟨hplace, hat⟩ := h.opened j file rest (writing_of_set hj hphase)
  exact ⟨hplace, (hframe.file_iff _ _).mpr hat⟩

/-- The temporary file may be written by the only writer that has it open. -/
theorem Whole.set_writing {rest : List UInt8} (h : Whole p contents d s)
    (hexclusive : (s.set i d' (.writing file rest)).Exclusive)
    (htarget : d'.at? (d.placeOf p) = s.disk.at? (d.placeOf p))
    (hplace : file.place? = some (d.placeOf (Storage.temporary p)))
    (hat : d'.at? (d.placeOf (Storage.temporary p)) =
      some (.file ((contents i).take file.offset))) :
    Whole p contents d (s.set i d' (.writing file rest)) := by
  refine ⟨fun c hc => h.target c (htarget ▸ hc), fun j file' rest' hj => ?_⟩
  obtain rfl : i = j := by
    refine hexclusive i j ?_ (by rw [hj]; rfl)
    rw [phase_set, if_pos rfl]
    rfl
  rw [phase_set, if_pos rfl] at hj
  obtain ⟨rfl, rfl⟩ := Phase.writing.inj hj
  exact ⟨hplace, hat⟩

theorem Whole.openTemporary (hb : Blended p contents d s) (h : Whole p contents d s)
    (hexclusive : (s.openTemporary p i (contents i)).Exclusive) :
    Whole p contents d (s.openTemporary p i (contents i)) := by
  unfold Writers.openTemporary at hexclusive ⊢
  split at hexclusive
  · next place d₁ hcreate =>
    obtain ⟨rfl, hne, rfl, -⟩ := create_frame hcreate
    rw [placeOf_congr hb.frame.here] at hne hexclusive ⊢
    refine h.set_writing hexclusive ?_ rfl ?_
    · rw [at?_put _ hne, if_neg (d.placeOf_temporary_ne p).symm]
    · rw [at?_put _ hne, if_pos rfl, List.take_zero]
  · exact h.set_idle (.refl _ _) (by simp)

theorem Whole.writePiece {piece rest rest' : List UInt8} (hb : Blended p contents d s)
    (h : Whole p contents d s) (hphase : s.phase i = .writing file rest)
    (hrest : rest = piece ++ rest') (hexclusive : (s.writePiece i file piece rest').Exclusive) :
    Whole p contents d (s.writePiece i file piece rest') := by
  obtain ⟨hplace, hat⟩ := h.opened i file rest hphase
  obtain ⟨hoffset, hdrop⟩ := hb.offset i file rest hphase
  have hne : d.placeOf (Storage.temporary p) ≠ [] := by
    intro hnil
    simp [hnil] at hat
  have hwritten : (contents i).take (file.offset + piece.length) =
      (contents i).take file.offset ++ piece := by
    rw [List.take_add, ← hdrop, hrest, List.take_left]
  have hover : overwrite ((contents i).take file.offset) file.offset piece =
      (contents i).take (file.offset + piece.length) := by
    have hlength : ((contents i).take file.offset).length = file.offset := by
      rw [List.length_take]
      omega
    have hend := overwrite_end ((contents i).take file.offset) piece
    rw [hlength] at hend
    rw [hend, hwritten]
  unfold Writers.writePiece at hexclusive ⊢
  refine h.set_writing hexclusive ?_ hplace ?_
  all_goals simp only [OpenFile.write, OpenFile.advance, hplace, hat]
  · rw [at?_put _ hne, if_neg (d.placeOf_temporary_ne p).symm]
  · rw [at?_put _ hne, if_pos rfl, hover]

/-- Nobody else has the temporary file open when it takes its place, and all has been written. -/
theorem Whole.rename (hb : Blended p contents d s) (h : Whole p contents d s)
    (hphase : s.phase i = .writing file []) (hexclusive : s.Exclusive) :
    Whole p contents d (s.rename p i) := by
  rcases rename_cases p i hb.frame.here with ⟨c, d', hc, -, hat, hrename⟩ | ⟨e, hrename⟩
  · rw [hrename]
    refine ⟨fun c' hc' => .inr ⟨i, ?_⟩, fun j file' rest hj => ?_⟩
    · obtain ⟨-, hwritten⟩ := h.opened i file [] hphase
      have hrest := (hb.offset i file [] hphase).2
      have hall : (contents i).take file.offset = contents i :=
        List.take_of_length_le (List.drop_eq_nil_iff.mp hrest.symm)
      have hcontent : some (Node.file c) = some (.file (contents i)) := by
        rw [← hc, hwritten, hall]
      have htarget : d'.at? (d.placeOf p) = some (.file c) := by rw [hat, if_pos rfl]
      have hread : some (Node.file c') = some (.file c) := hc'.symm.trans htarget
      simpa using hread.trans hcontent
    · -- such a writer would be this one, which has ended
      rw [phase_set] at hj
      split_ifs at hj with hji
      obtain ⟨opened, hopened, rfl⟩ := Phase.moved_eq_writing hj
      have hij : i = j := hexclusive i j (by rw [hphase]; rfl) (by rw [hopened]; rfl)
      exact absurd hij.symm hji
  · rw [hrename]
    exact h.set_idle (.refl _ _) (by simp)

theorem Whole.prepare (h : Whole p contents d s) (i : ι) :
    Whole p contents d (s.prepare p i) := by
  obtain ⟨d', phase, hprepare, hframe, hphase⟩ := s.exists_prepare p i
  rw [hprepare]
  exact h.set_idle hframe hphase

theorem Whole.turn {amount : Nat} (hb : Blended p contents d s) (h : Whole p contents d s)
    (hbefore : s.Exclusive) (hafter : (s.turn p contents i amount).Exclusive) :
    Whole p contents d (s.turn p contents i amount) := by
  unfold Writers.turn at hafter ⊢
  split at hafter
  · exact h.prepare i
  · exact h.openTemporary hb hafter
  · next hphase => exact h.rename hb hphase hbefore
  · next b rest hphase => exact h.writePiece hb hphase (by simp) hafter
  · exact h

theorem whole_run {turns : List (ι × Nat)}
    (h : ∀ before, before <+: turns → (run p contents d before).Exclusive) :
    Whole p contents d (run p contents d turns) := by
  induction turns using List.reverseRecOn with
  | nil => exact whole_start p contents d
  | append_singleton turns t ih =>
    have hbefore : Whole p contents d (run p contents d turns) :=
      ih fun before hb => h before (hb.trans (List.prefix_append _ _))
    have hlast := h _ (List.prefix_refl _)
    rw [run_snoc] at hlast ⊢
    exact hbefore.turn (blended_run p contents d turns) (h turns (List.prefix_append _ _)) hlast

/-- Whatever the writers do in whatever order, a file that could be read at the start can be read
at every moment, and what is read is the file that lay there at the start or a blend of their
contents. If no two of them ever have the temporary file open at once, it is the old file or all
of one content. -/
theorem contentAt_run (p : Path) (contents : ι → List UInt8) (d : Disk)
    (turns : List (ι × Nat)) :
    (∀ old, d.contentAt p = .ok old → ∃ c, (run p contents d turns).disk.contentAt p = .ok c) ∧
    ∀ c, (run p contents d turns).disk.contentAt p = .ok c →
      (d.at? (d.placeOf p) = some (.file c) ∨ Blend contents c) ∧
      ((∀ before, before <+: turns → (run p contents d before).Exclusive) →
        d.at? (d.placeOf p) = some (.file c) ∨ ∃ i, c = contents i) := by
  have hb := blended_run p contents d turns
  have hplace := placeOf_congr hb.frame.here p
  refine ⟨fun old hold => ?_, fun c hc => ?_⟩
  · obtain ⟨hr, hslash, hat⟩ := contentAt_eq_ok_iff.mp hold
    obtain ⟨c, hc⟩ := hb.stays old hat
    exact ⟨c, contentAt_eq_ok_iff.mpr ⟨hr.frame hb.frame, hslash, by rwa [hplace]⟩⟩
  · obtain ⟨-, -, hat⟩ := contentAt_eq_ok_iff.mp hc
    rw [hplace] at hat
    exact ⟨hb.target c hat, fun hexclusive => (whole_run hexclusive).target c hat⟩

/-- A disk with one file. -/
def sharedDisk : Disk := (Disk.empty []).put [bytesOf "graph"] (.file (bytesOf "old"))

def sharedPath : Path := .ofString "graph"

def sharedContents (first : Bool) : List UInt8 := bytesOf (if first then "first" else "second")

/-- The second writer opens the temporary file once the first one has renamed it. -/
def waitingTurns : List (Bool × Nat) :=
  [(true, 0), (false, 0), (true, 0), (true, 1), (true, 9), (true, 0), (false, 0), (false, 9),
    (false, 0)]

theorem contentAt_run_of_waiting :
    (run sharedPath sharedContents sharedDisk waitingTurns).disk.contentAt sharedPath =
      .ok (bytesOf "second") ∧
    (∀ before, before <+: waitingTurns →
      (run sharedPath sharedContents sharedDisk before).Exclusive) ∧
    (∃ c, (run sharedPath sharedContents sharedDisk waitingTurns).disk.contentAt sharedPath =
      .ok c) ∧
    (sharedDisk.at? (sharedDisk.placeOf sharedPath) = some (.file (bytesOf "second")) ∨
      ∃ i, bytesOf "second" = sharedContents i) := by
  have hread : (run sharedPath sharedContents sharedDisk waitingTurns).disk.contentAt sharedPath =
      .ok (bytesOf "second") := by
    decide +kernel
  have hexclusive : ∀ before, before <+: waitingTurns →
      (run sharedPath sharedContents sharedDisk before).Exclusive := by
    have hinits : ∀ before ∈ waitingTurns.inits,
        (run sharedPath sharedContents sharedDisk before).Exclusive := by
      decide +kernel
    exact fun before hbefore => hinits before ((List.mem_inits _ _).mpr hbefore)
  have hold : sharedDisk.contentAt sharedPath = .ok (bytesOf "old") := by decide +kernel
  obtain ⟨hstays, hcontent⟩ := contentAt_run sharedPath sharedContents sharedDisk waitingTurns
  exact ⟨hread, hexclusive, hstays _ hold, (hcontent _ hread).2 hexclusive⟩

/-- The second writer empties the temporary file and has written a part of its content when the
first one renames it. -/
def overlappingTurns : List (Bool × Nat) :=
  [(true, 0), (true, 0), (true, 9), (false, 0), (false, 0), (false, 2), (true, 0)]

/-- So two writers can show a part of a file. -/
theorem overlapping_writers_show_part :
    ¬∀ (p : Path) (contents : Bool → List UInt8) (d : Disk) (turns : List (Bool × Nat))
      (old c : List UInt8), d.contentAt p = .ok old →
      (run p contents d turns).disk.contentAt p = .ok c → c = old ∨ ∃ i, c = contents i := by
  intro h
  have hread : (run sharedPath sharedContents sharedDisk overlappingTurns).disk.contentAt
      sharedPath = .ok (bytesOf "sec") := by
    decide +kernel
  have hother : ¬(bytesOf "sec" = bytesOf "old" ∨ ∃ i, bytesOf "sec" = sharedContents i) := by
    decide +kernel
  have hold : sharedDisk.contentAt sharedPath = .ok (bytesOf "old") := by decide +kernel
  exact hother (h sharedPath sharedContents sharedDisk overlappingTurns _ _ hold hread)

end Writers

end TypeDeps.Disk
