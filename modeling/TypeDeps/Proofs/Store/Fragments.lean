import TypeDeps.Digest.Sha256
import TypeDeps.Proofs.Graph.Files
import TypeDeps.Proofs.Store.Names
import TypeDeps.Store.Fragment

/-!
# Fragments on disks

What the operations on fragments answer and leave behind. The digest is written last, so it is
there only behind a fragment that has been written for the same source.
-/
namespace TypeDeps.Store

open Disk

/-! ## Digests as text -/

/-- Digits of the hexadecimal system, the letters among them in lower case. -/
def IsHex (t : String) : Prop := ∀ c ∈ t.toList, c.isDigit ∨ 'a' ≤ c ∧ c ≤ 'f'

theorem isHex_digitChar {n : Nat} (h : n < 16) :
    (Nat.digitChar n).isDigit ∨ 'a' ≤ Nat.digitChar n ∧ Nat.digitChar n ≤ 'f' := by
  decide +revert

theorem isHex_hex (bytes : List UInt8) : IsHex (Digest.Sha256.hex bytes) := by
  intro c hc
  simp only [Digest.Sha256.hex, String.toList_ofList, List.mem_flatMap, List.mem_cons,
    List.not_mem_nil, or_false] at hc
  obtain ⟨b, -, rfl | rfl⟩ := hc
  · exact isHex_digitChar (Nat.div_lt_of_lt_mul b.toNat_lt)
  · exact isHex_digitChar (Nat.mod_lt _ (by decide))

theorem isBlank_of_isHex {t : String} (h : IsHex t) : ∀ c ∈ t.toList, Text.isBlank c = false := by
  intro c hc
  have hrange : (48 ≤ c.toNat ∧ c.toNat ≤ 57) ∨ (97 ≤ c.toNat ∧ c.toNat ≤ 102) := by
    rcases h c hc with hd | ⟨hl, hu⟩
    · simp only [Char.isDigit, Bool.and_eq_true, decide_eq_true_eq] at hd
      exact .inl ⟨hd.1, hd.2⟩
    · exact .inr ⟨hl, hu⟩
  simp only [Text.isBlank, Bool.or_eq_false_iff, Bool.and_eq_false_iff, decide_eq_false_iff_not]
  omega

theorem dropWhile_isBlank {cs : List Char} (h : ∀ c ∈ cs, Text.isBlank c = false) :
    cs.dropWhile Text.isBlank = cs := by
  cases cs with
  | nil => rfl
  | cons c cs => exact List.dropWhile_cons_of_neg (by simp [h c])

theorem trim_of_isHex {t : String} (h : IsHex t) : Text.trim t.toList = t.toList := by
  have hblank := isBlank_of_isHex h
  have hreverse : ∀ c ∈ t.toList.reverse, Text.isBlank c = false := by simpa using hblank
  rw [Text.trim, dropWhile_isBlank hblank, dropWhile_isBlank hreverse, List.reverse_reverse]

/-- A digest that is read back as it was written vouches for its own source alone. -/
theorem vouches_iff {stored digest : String} (h : IsHex stored) :
    vouches stored digest ↔ stored = digest := by
  simp [vouches, trim_of_isHex h, String.toList_inj]

variable {digesting : Digesting} {s : Store} {key : String} {source? : Option (List UInt8)}
variable {source : List UInt8} {d d' : Disk} {g : Graph} {t : String}

/-! ## Looking for a fragment -/

theorem perform_isCached (digesting : Digesting) (s : Store) (key : String)
    (source? : Option (List UInt8)) (d : Disk) :
    d.perform (s.isCached digesting key source?) =
      (if d.isThere (s.fragmentPath key) then
        match s.cacheMode, source? with
        | .existence, _ => .ok true
        | .contentHash, none => .ok false
        | .contentHash, some source =>
          if d.isThere (s.digestPath key) then
            (d.perform (Storage.readText (s.digestPath key))).1.map (vouches · (digesting source))
          else .ok false
      else .ok false, d) := by
  unfold isCached
  rw [perform_bind, perform_has]
  cases d.isThere (s.fragmentPath key) with
  | false => rfl
  | true =>
    simp only [if_true]
    cases s.cacheMode with
    | existence => rfl
    | contentHash =>
      cases source? with
      | none => rfl
      | some source =>
        simp only [perform_bind _ (Storage.has _), perform_has]
        cases d.isThere (s.digestPath key) with
        | false => rfl
        | true => simp [perform_readText]

/-- Looking only reads. -/
theorem isCached_disk (digesting : Digesting) (s : Store) (key : String)
    (source? : Option (List UInt8)) (d : Disk) :
    (d.perform (s.isCached digesting key source?)).2 = d := by
  rw [perform_isCached]

/-- With a digest that can be read, the digest decides. -/
theorem perform_isCached_of_digest (hmode : s.cacheMode = .contentHash)
    (hf : d.isThere (s.fragmentPath key)) (hd : d.contentAt (s.digestPath key) = .ok (bytesOf t)) :
    d.perform (s.isCached digesting key (some source)) =
      (.ok (vouches t (digesting source)), d) := by
  have hread : d.perform (Storage.readText (s.digestPath key)) = (.ok t, d) :=
    perform_readText_eq_ok_iff.mpr ⟨⟨_, hd, stringOf?_bytesOf t⟩, rfl⟩
  simp [perform_isCached, hmode, hf, isThere_of_contentAt hd, hread, Except.map]

/-- A fragment is up to date if it is there and beside it a digest that vouches for the
source. -/
theorem isCached_eq_true_iff (hmode : s.cacheMode = .contentHash) :
    (d.perform (s.isCached digesting key (some source))).1 = .ok true ↔
      d.isThere (s.fragmentPath key) ∧
        ∃ t, d.contentAt (s.digestPath key) = .ok (bytesOf t) ∧ vouches t (digesting source) := by
  constructor
  · intro h
    rw [perform_isCached, hmode] at h
    dsimp only at h
    split_ifs at h with hfragment hdigest
    · cases hread : d.perform (Storage.readText (s.digestPath key)) with
      | mk stored d₁ =>
        cases stored with
        | error e => simp [hread, Except.map] at h
        | ok t =>
          obtain ⟨⟨c, hc, ht⟩, -⟩ := perform_readText_eq_ok_iff.mp hread
          rw [stringOf?_eq_some_iff.mp ht] at hc
          rw [hread] at h
          exact ⟨hfragment, t, hc, Except.ok.inj h⟩
    · simp at h
    · simp at h
  · rintro ⟨hfragment, t, ht, hvouches⟩
    rw [perform_isCached_of_digest hmode hfragment ht, hvouches]

/-- Without a digest that can be read no fragment is up to date. -/
theorem isCached_of_no_digest {b : Bool} (hmode : s.cacheMode = .contentHash)
    (hd : ∀ c, d.contentAt (s.digestPath key) ≠ .ok c)
    (h : (d.perform (s.isCached digesting key (some source))).1 = .ok b) : b = false := by
  cases b with
  | false => rfl
  | true =>
    obtain ⟨-, t, ht, -⟩ := (isCached_eq_true_iff hmode).mp h
    exact absurd ht (hd _)

/-! ## Writing a fragment -/

/-- The source that a digest is written for. -/
def digested? (s : Store) (source? : Option (List UInt8)) : Option (List UInt8) :=
  match s.cacheMode, source? with
  | .contentHash, some source => some source
  | _, _ => none

/-- What a write does behind the fragment itself. -/
def writeDigest (digesting : Digesting) (s : Store) (key : String)
    (source? : Option (List UInt8)) : Task (StateM Disk) Unit :=
  match s.digested? source? with
  | some source => Storage.writeAtomic (s.digestPath key) (bytesOf (digesting source))
  | none => pure ()

theorem source_of_digested (h : s.digested? source? = some source) : source? = some source := by
  unfold digested? at h
  split at h
  · rw [Option.some.inj h]
  · cases h

theorem writeFragment_eq (digesting : Digesting) (s : Store) (key : String) (g : Graph)
    (source? : Option (List UInt8)) :
    s.writeFragment digesting key g source? = g.save (s.fragmentPath key) >>= fun _ =>
      s.writeDigest digesting key source? >>= fun _ => pure (s.fragmentPath key) := by
  unfold writeFragment writeDigest digested?
  cases s.cacheMode <;> cases source? <;> rfl

theorem writeDigest_frame (digesting : Digesting) (s : Store) (key : String)
    (source? : Option (List UInt8)) (d : Disk) :
    Frame [d.placeOf (Storage.temporary (s.digestPath key)), d.placeOf (s.digestPath key)] d
      (d.perform (s.writeDigest digesting key source?)).2 := by
  unfold writeDigest
  split
  · exact writeAtomic_frame d _ _
  · exact .refl _ _

theorem writeDigest_frame_of_error {e : Error}
    (h : d.perform (s.writeDigest digesting key source?) = (.error e, d')) :
    Frame [d.placeOf (Storage.temporary (s.digestPath key))] d d' := by
  unfold writeDigest at h
  split at h
  · exact writeAtomic_frame_of_error h
  · cases h

/-- Writing a fragment touches its files and the temporary ones beside them, whatever comes of
it. -/
theorem writeFragment_frame (digesting : Digesting) (s : Store) (key : String) (g : Graph)
    (source? : Option (List UInt8)) (d : Disk) :
    Frame ([d.placeOf (Storage.temporary (s.fragmentPath key)), d.placeOf (s.fragmentPath key)] ++
        [d.placeOf (Storage.temporary (s.digestPath key)), d.placeOf (s.digestPath key)]) d
      (d.perform (s.writeFragment digesting key g source?)).2 := by
  have hsave := Graph.save_frame d (s.fragmentPath key) g
  rw [writeFragment_eq]
  refine perform_bind_frame (hsave.mono (by simp)) fun _ d₁ h₁ => ?_
  rw [h₁] at hsave
  rw [← placeOf_congr hsave.here (Storage.temporary (s.digestPath key)),
    ← placeOf_congr hsave.here (s.digestPath key)]
  refine perform_bind_frame ?_ fun _ d₂ _ => .refl _ d₂
  exact (writeDigest_frame digesting s key source? d₁).mono (by simp)

theorem perform_writeFragment_of_error {e : Error} (hw : g.write = .error e) :
    d.perform (s.writeFragment digesting key g source?) = (.error e, d) := by
  rw [writeFragment, perform_bind, Graph.perform_save_of_error hw]

/-- A graph with a document can only fail to be written for the storage's sake. -/
theorem storage_of_writeFragment {e : Error} (hw : g.write = .ok t)
    (h : (d.perform (s.writeFragment digesting key g source?)).1 = .error e) :
    ∃ failure, e = .storage failure := by
  rw [writeFragment_eq] at h
  rcases perform_bind_eq_error_iff.mp h with h | ⟨_, d₁, -, h⟩
  · rw [Graph.perform_save_of_write hw] at h
    exact storage_of_writeAtomic h
  · rcases perform_bind_eq_error_iff.mp h with h | ⟨_, d₂, -, h⟩
    · unfold writeDigest at h
      split at h
      · exact storage_of_writeAtomic h
      · cases h
    · cases h

/-- Whatever comes of writing a digest, no fragment suffers from it. -/
theorem fragment_spared (digesting : Digesting) (s : Store) (key key' : String)
    (source? : Option (List UInt8)) (d : Disk) :
    Spares (s.fragmentPath key) d (d.perform (s.writeDigest digesting key' source?)).2 :=
  (writeDigest_frame digesting s key' source? d).spares fragment_not_mem_digest

/-- A fragment that has been written reads the document of its graph, and its digest that of the
source. A write without a digest leaves the old one alone. -/
theorem files_of_writeFragment {q : Path}
    (h : d.perform (s.writeFragment digesting key g source?) = (.ok q, d')) :
    (∃ t, g.write = .ok t ∧ d'.contentAt (s.fragmentPath key) = .ok (bytesOf t)) ∧
    (∀ source, s.digested? source? = some source →
      d'.contentAt (s.digestPath key) = .ok (bytesOf (digesting source))) ∧
    (s.digested? source? = none → ∀ c,
      d'.at? (d.placeOf (s.digestPath key)) = some (.file c) ↔
        d.at? (d.placeOf (s.digestPath key)) = some (.file c)) := by
  rw [writeFragment_eq] at h
  obtain ⟨_, d₁, hsave, h⟩ := perform_bind_eq_ok_iff.mp h
  obtain ⟨_, d₂, hdigest, h⟩ := perform_bind_eq_ok_iff.mp h
  obtain ⟨-, rfl⟩ := Prod.mk.inj h
  -- the fragment is there first and has to outlast the writing of the digest
  obtain ⟨t, ht, hfragment⟩ := Graph.contentAt_of_save hsave
  have hspared := fragment_spared digesting s key key source? d₁
  rw [hdigest] at hspared
  refine ⟨⟨t, ht, hspared.reads _ hfragment⟩, fun source hsource => ?_, fun hnone c => ?_⟩
  · simp only [writeDigest, hsource] at hdigest
    exact contentAt_of_writeAtomic hdigest
  · simp only [writeDigest, hnone, perform_pure, Prod.mk.injEq, true_and] at hdigest
    have hframe := Graph.save_frame d (s.fragmentPath key) g
    rw [hsave, hdigest] at hframe
    exact hframe.files _ c digest_not_mem_fragment

/-- Where digests count, there is one behind every fragment that is written with its source. -/
theorem contentAt_of_writeFragment {q : Path} (hmode : s.cacheMode = .contentHash)
    (h : d.perform (s.writeFragment digesting key g (some source)) = (.ok q, d')) :
    ∃ t, g.write = .ok t ∧ d'.contentAt (s.fragmentPath key) = .ok (bytesOf t) ∧
      d'.contentAt (s.digestPath key) = .ok (bytesOf (digesting source)) := by
  obtain ⟨⟨t, ht, hfragment⟩, hdigest, -⟩ := files_of_writeFragment h
  exact ⟨t, ht, hfragment, hdigest source (by simp [digested?, hmode])⟩

end TypeDeps.Store
