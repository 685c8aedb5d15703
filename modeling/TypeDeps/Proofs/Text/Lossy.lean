import TypeDeps.Path
import TypeDeps.Proofs.Text.Utf8

/-!
# Paths as they are shown

Showing bytes that need not be UTF-8 keeps every ASCII byte where it is. All the others come in
runs, and each run is shown as some characters that are not ASCII. So a path and its display
are cut by the same slashes.
-/
namespace TypeDeps.Utf8

/-- All bytes of a run belong to characters beyond ASCII. -/
def High (run : List UInt8) : Prop := run ≠ [] ∧ ∀ b ∈ run, 0x80 ≤ b

/-- The second byte string shows the first one. -/
inductive Shows : List UInt8 → List UInt8 → Prop where
  | nil : Shows [] []
  | ascii {b : UInt8} {bs shown : List UInt8} (low : b < 0x80) (rest : Shows bs shown) :
      Shows (b :: bs) (b :: shown)
  | high {run run' bs shown : List UInt8} (hidden : High run)
      (visible : High run') (rest : Shows bs shown) : Shows (run ++ bs) (run' ++ shown)

theorem high_replacement : High (String.utf8EncodeChar replacement) :=
  ⟨by decide +kernel, high_of_utf8EncodeChar (by decide +kernel)⟩

theorem High.snoc {run : List UInt8} {b : UInt8} (h : High run) (hb : 0x80 ≤ b) :
    High (run ++ [b]) := by
  refine ⟨by simp, fun x hx => ?_⟩
  rcases List.mem_append.mp hx with hx | hx
  · exact h.2 x hx
  · rwa [List.mem_singleton.mp hx]

theorem high_singleton {b : UInt8} (hb : 0x80 ≤ b) : High [b] :=
  ⟨by simp, fun x hx => by rwa [List.mem_singleton.mp hx]⟩

/-! ## The machine that shows bytes -/

theorem first_of_lt {b : UInt8} (h : b < 0x80) : first b = .char (Char.ofNat b.toNat) :=
  first_eq_char (by simpa [UInt8.lt_iff_toNat_lt] using h)

theorem high_of_first {b : UInt8} (h : ∀ c, first b ≠ .char c) : 0x80 ≤ b := by
  by_contra hlow
  exact h _ (first_of_lt (by simpa using hlow))

theorem low_of_first {b : UInt8} {c : Char} (h : first b = .char c) : b < 0x80 := by
  simp only [first] at h
  split_ifs at h with hlow
  simpa [UInt8.lt_iff_toNat_lt] using hlow

theorem high_of_next {p : Pending} {b : UInt8} {taken : List UInt8} (hp : p.Begun taken)
    (h : next p b ≠ .bad) : 0x80 ≤ b := by
  unfold next at h
  split_ifs at h with hb
  · exact UInt8.le_trans (UInt8.le_iff_toNat_le.mpr hp.2.1) hb.1
  · exact UInt8.le_trans (UInt8.le_iff_toNat_le.mpr hp.2.1) hb.1
  · exact absurd rfl h

/-- What the machine has taken of an unfinished character. -/
def Begins (p? : Option Pending) (taken : List UInt8) : Prop :=
  Open p? taken ∧ (p?.isSome → High taken)

theorem begins_nil : Begins none [] := ⟨open_nil, by simp⟩

theorem begins_of_first {b : UInt8} {p : Pending} (h : first b = .more p) :
    Begins (some p) [b] :=
  ⟨begun_of_first h, fun _ => high_singleton (high_of_first (by simp [h]))⟩

/-- A byte that does not go on with a character starts anew behind it. -/
theorem lossyFrom_of_bad {p : Pending} {b : UInt8} (h : next p b = .bad) (acc : List Char)
    (bs : List UInt8) :
    lossyFrom acc (some p) (b :: bs) = lossyFrom (replacement :: acc) none (b :: bs) := by
  cases hfirst : first b <;> simp [lossyFrom, read, h, hfirst]

theorem shows_lossyFrom (acc : List Char) {p? : Option Pending} {bs taken : List UInt8}
    (h : Begins p? taken) :
    ∃ cs, lossyFrom acc p? bs = acc.reverse ++ cs ∧ Shows (taken ++ bs) (encode cs) := by
  induction bs generalizing acc p? taken with
  | nil =>
    cases p? with
    | none =>
      obtain rfl : taken = [] := h.1
      exact ⟨[], by simp [lossyFrom], .nil⟩
    | some p =>
      exact ⟨[replacement], by simp [lossyFrom], .high (h.2 rfl) high_replacement .nil⟩
  | cons b bs ih =>
    -- the byte can start anew in both states
    have hfresh : ∀ acc, ∃ cs, lossyFrom acc none (b :: bs) = acc.reverse ++ cs ∧
        Shows (b :: bs) (encode cs) := by
      intro acc
      cases hr : first b with
      | char c =>
        obtain ⟨cs, hcs, hshows⟩ := ih (c :: acc) begins_nil
        refine ⟨c :: cs, by simp [lossyFrom, read, hr, hcs], ?_⟩
        have hc : encode (c :: cs) = b :: encode cs := by
          simp [encode, utf8EncodeChar_of_first hr]
        rw [hc]
        exact .ascii (low_of_first hr) hshows
      | more q =>
        obtain ⟨cs, hcs, hshows⟩ := ih acc (begins_of_first hr)
        exact ⟨cs, by simp [lossyFrom, read, hr, hcs], hshows⟩
      | bad =>
        obtain ⟨cs, hcs, hshows⟩ := ih (replacement :: acc) begins_nil
        exact ⟨replacement :: cs, by simp [lossyFrom, read, hr, hcs],
          .high (high_singleton (high_of_first (by simp [hr]))) high_replacement hshows⟩
    cases p? with
    | none =>
      obtain rfl : taken = [] := h.1
      exact hfresh acc
    | some p =>
      cases hr : next p b with
      | char c =>
        obtain ⟨cs, hcs, hshows⟩ := ih (c :: acc) begins_nil
        have hb : 0x80 ≤ b := high_of_next h.1 (by simp [hr])
        refine ⟨c :: cs, by simp [lossyFrom, read, hr, hcs], ?_⟩
        have hrun : High (taken ++ [b]) := (h.2 rfl).snoc hb
        have hc : encode (c :: cs) = (taken ++ [b]) ++ encode cs := by
          simp [encode, utf8EncodeChar_of_next h.1 hr]
        have hbytes : taken ++ b :: bs = (taken ++ [b]) ++ bs := by simp
        rw [hc, hbytes]
        exact .high hrun hrun hshows
      | more q =>
        have hb : 0x80 ≤ b := high_of_next h.1 (by simp [hr])
        have hbegins : Begins (some q) (taken ++ [b]) :=
          ⟨begun_of_next h.1 hr, fun _ => (h.2 rfl).snoc hb⟩
        obtain ⟨cs, hcs, hshows⟩ := ih acc hbegins
        exact ⟨cs, by simp [lossyFrom, read, hr, hcs], by simpa using hshows⟩
      | bad =>
        obtain ⟨cs, hcs, hshows⟩ := hfresh (replacement :: acc)
        refine ⟨replacement :: cs, ?_, .high (h.2 rfl) high_replacement hshows⟩
        rw [lossyFrom_of_bad hr, hcs]
        simp

theorem shows_lossy (bs : List UInt8) : Shows bs (encode (lossy bs)) := by
  obtain ⟨cs, hcs, hshows⟩ := shows_lossyFrom [] begins_nil
  obtain rfl : lossy bs = cs := hcs
  exact hshows

/-! ## Bytes that are text -/

theorem lossyFrom_of_decodeFrom {acc cs : List Char} {p? : Option Pending} {bs : List UInt8}
    (h : decodeFrom acc p? bs = some cs) : lossyFrom acc p? bs = cs := by
  induction bs generalizing acc p? with
  | nil =>
    cases p? with
    | none => simpa [decodeFrom, lossyFrom] using h
    | some p => simp [decodeFrom] at h
  | cons b bs ih =>
    rw [decodeFrom] at h
    cases hr : read p? b with
    | char c =>
      have hcs : lossyFrom (c :: acc) none bs = cs := ih (by simpa [hr] using h)
      cases p? <;> simp [lossyFrom, hr, hcs]
    | more q =>
      have hcs : lossyFrom acc (some q) bs = cs := ih (by simpa [hr] using h)
      cases p? <;> simp [lossyFrom, hr, hcs]
    | bad => simp [hr] at h

/-- Text is shown as it is. -/
@[simp] theorem lossy_encode (cs : List Char) : lossy (encode cs) = cs :=
  lossyFrom_of_decodeFrom (decode?_encode cs)

/-! ## Shown slashes -/

theorem Shows.eq_nil {bs : List UInt8} (h : Shows bs []) : bs = [] := by
  generalize hs : ([] : List UInt8) = shown at h
  cases h with
  | nil => rfl
  | ascii => cases hs
  | high hidden visible => exact absurd (List.append_eq_nil_iff.mp hs.symm).1 visible.1

/-- An ASCII byte is shown for nothing but itself. -/
theorem Shows.ascii_inv {b : UInt8} {bs shown : List UInt8} (hb : b < 0x80)
    (h : Shows bs (b :: shown)) : ∃ rest, bs = b :: rest ∧ Shows rest shown := by
  generalize hs : b :: shown = all at h
  cases h with
  | nil => cases hs
  | ascii low rest =>
    obtain ⟨rfl, rfl⟩ := List.cons.inj hs
    exact ⟨_, rfl, rest⟩
  | @high run run' bs shown' hidden visible rest =>
    cases run' with
    | nil => exact absurd rfl visible.1
    | cons b' run' =>
      obtain ⟨rfl, -⟩ := List.cons.inj hs
      exact absurd hb (UInt8.not_lt.mpr (visible.2 b (by simp)))

end TypeDeps.Utf8
