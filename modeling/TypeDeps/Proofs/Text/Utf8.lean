import Mathlib
import TypeDeps.Text.Utf8

/-!
# UTF-8 in both directions

Every character is read back from its bytes, and bytes that are read as characters are the
bytes of those characters. So a byte string is the form of at most one string, and reading
accepts exactly the forms of strings.
-/
namespace TypeDeps.Utf8

/-- The last bytes of a character with this code, `n` of them. -/
def tailBytes (v : Nat) : Nat → List UInt8
  | 0 => []
  | n + 1 => UInt8.ofNat (v / 64 ^ n % 64 + 0x80) :: tailBytes v n

/-- The code continues the bits that have been read. -/
def Pending.Continues (p : Pending) (v : Nat) : Prop :=
  0 < p.due ∧ v / 64 ^ p.due = p.bits ∧
    p.low.toNat ≤ v / 64 ^ (p.due - 1) % 64 + 0x80 ∧ v / 64 ^ (p.due - 1) % 64 + 0x80 ≤ p.high.toNat

/-- The bytes begin every character that continues them. -/
def Pending.Begun (p : Pending) (bs : List UInt8) : Prop :=
  0 < p.due ∧ 0x80 ≤ p.low.toNat ∧ p.high.toNat ≤ 0xBF ∧
    ∀ v, p.Continues v → String.utf8EncodeChar (Char.ofNat v) = bs ++ tailBytes v p.due

theorem toNat_ofNat_of_lt {k : Nat} (h : k < 256) : (UInt8.ofNat k).toNat = k := by
  simp only [UInt8.toNat_ofNat']
  omega

theorem val_ofNat_of_valid {v : Nat} (h : v < 0xD800 ∨ 0xDFFF < v ∧ v < 0x110000) :
    (Char.ofNat v).val.toNat = v := by
  rw [Char.ofNat, dif_pos h]
  exact Char.toNat_ofNatAux h

/-! ## Characters and their bytes -/

theorem utf8EncodeChar_one {v : Nat} (h : v < 0x80) :
    String.utf8EncodeChar (Char.ofNat v) = [UInt8.ofNat v] := by
  unfold String.utf8EncodeChar
  rw [val_ofNat_of_valid (by omega)]
  exact if_pos (by omega)

theorem utf8EncodeChar_two {v : Nat} (hl : 0x80 ≤ v) (hh : v ≤ 0x7FF) :
    String.utf8EncodeChar (Char.ofNat v) = UInt8.ofNat (v / 64 + 0xC0) :: tailBytes v 1 := by
  have hm : v / 64 % 32 = v / 64 := by omega
  unfold String.utf8EncodeChar
  simp only [val_ofNat_of_valid (show v < 0xD800 ∨ _ by omega), hm]
  rw [if_neg (by omega), if_pos hh]
  simp [tailBytes]

theorem utf8EncodeChar_three {v : Nat} (hl : 0x800 ≤ v) (hh : v ≤ 0xFFFF)
    (hv : v < 0xD800 ∨ 0xDFFF < v) :
    String.utf8EncodeChar (Char.ofNat v) = UInt8.ofNat (v / 4096 + 0xE0) :: tailBytes v 2 := by
  have hm : v / 4096 % 16 = v / 4096 := by omega
  unfold String.utf8EncodeChar
  simp only [val_ofNat_of_valid (show v < 0xD800 ∨ _ by omega), hm]
  rw [if_neg (by omega), if_neg (by omega), if_pos hh]
  simp [tailBytes]

theorem utf8EncodeChar_four {v : Nat} (hl : 0x10000 ≤ v) (hh : v < 0x110000) :
    String.utf8EncodeChar (Char.ofNat v) = UInt8.ofNat (v / 262144 + 0xF0) :: tailBytes v 3 := by
  have hm : v / 262144 % 8 = v / 262144 := by omega
  unfold String.utf8EncodeChar
  simp only [val_ofNat_of_valid (show v < 0xD800 ∨ _ by omega), hm]
  rw [if_neg (by omega), if_neg (by omega), if_neg (by omega)]
  simp [tailBytes]

/-! ## Reading what has been written -/

theorem first_eq_char {b : UInt8} (h : b.toNat < 0x80) : first b = .char (Char.ofNat b.toNat) := by
  simp [first, h]

theorem first_two {v : Nat} (hl : 0x80 ≤ v) (hh : v ≤ 0x7FF) :
    ∃ p, p.due = 1 ∧ first (UInt8.ofNat (v / 64 + 0xC0)) = .more p ∧ p.Continues v := by
  simp only [first, toNat_ofNat_of_lt (show v / 64 + 0xC0 < 256 by omega), Nat.add_sub_cancel]
  rw [if_neg (by omega), if_neg (by omega), if_pos (by omega)]
  exact ⟨_, rfl, rfl, by simp [Pending.Continues]; omega⟩

theorem first_three {v : Nat} (hl : 0x800 ≤ v) (hh : v ≤ 0xFFFF)
    (hv : v < 0xD800 ∨ 0xDFFF < v) :
    ∃ p, p.due = 2 ∧ first (UInt8.ofNat (v / 4096 + 0xE0)) = .more p ∧ p.Continues v := by
  simp only [first, toNat_ofNat_of_lt (show v / 4096 + 0xE0 < 256 by omega), Nat.add_sub_cancel]
  rw [if_neg (by omega), if_neg (by omega), if_neg (by omega)]
  split_ifs <;> first
    | omega
    | exact ⟨_, rfl, rfl, by simp [Pending.Continues]; omega⟩

theorem first_four {v : Nat} (hl : 0x10000 ≤ v) (hh : v < 0x110000) :
    ∃ p, p.due = 3 ∧ first (UInt8.ofNat (v / 262144 + 0xF0)) = .more p ∧ p.Continues v := by
  simp only [first, toNat_ofNat_of_lt (show v / 262144 + 0xF0 < 256 by omega), Nat.add_sub_cancel]
  rw [if_neg (by omega), if_neg (by omega), if_neg (by omega), if_neg (by omega),
    if_neg (by omega), if_neg (by omega)]
  split_ifs <;> first
    | omega
    | exact ⟨_, rfl, rfl, by simp [Pending.Continues]; omega⟩

theorem first_of_utf8EncodeChar {v : Nat} (h : 0x80 ≤ v)
    (hv : v < 0xD800 ∨ 0xDFFF < v ∧ v < 0x110000) :
    ∃ b p, String.utf8EncodeChar (Char.ofNat v) = b :: tailBytes v p.due ∧ first b = .more p ∧
      p.Continues v := by
  by_cases h2 : v ≤ 0x7FF
  · obtain ⟨p, hd, hf, hp⟩ := first_two h h2
    exact ⟨_, p, hd ▸ utf8EncodeChar_two h h2, hf, hp⟩
  by_cases h3 : v ≤ 0xFFFF
  · obtain ⟨p, hd, hf, hp⟩ := first_three (by omega) h3 (by omega)
    exact ⟨_, p, hd ▸ utf8EncodeChar_three (by omega) h3 (by omega), hf, hp⟩
  · obtain ⟨p, hd, hf, hp⟩ := first_four (v := v) (by omega) (by omega)
    exact ⟨_, p, hd ▸ utf8EncodeChar_four (by omega) (by omega), hf, hp⟩

theorem high_of_tailBytes {v n : Nat} {b : UInt8} (h : b ∈ tailBytes v n) : 0x80 ≤ b := by
  induction n with
  | zero => simp [tailBytes] at h
  | succ n ih =>
    rcases List.mem_cons.mp h with rfl | h
    · have hlt : v / 64 ^ n % 64 + 0x80 < 256 := by omega
      rw [UInt8.le_iff_toNat_le, toNat_ofNat_of_lt hlt]
      exact Nat.le_add_left _ _
    · exact ih h

/-- Only ASCII characters have bytes of ASCII characters. -/
theorem high_of_utf8EncodeChar {c : Char} (hc : 0x80 ≤ c.toNat) :
    ∀ b ∈ String.utf8EncodeChar c, 0x80 ≤ b := by
  obtain ⟨b, p, he, hf, -⟩ := first_of_utf8EncodeChar hc c.valid
  rw [Char.ofNat_toNat] at he
  intro b' hb'
  rw [he] at hb'
  rcases List.mem_cons.mp hb' with rfl | hb'
  · by_contra hlow
    rw [first_eq_char (by simpa [UInt8.le_iff_toNat_le] using hlow)] at hf
    cases hf
  · exact high_of_tailBytes hb'

/-- The code that has been begun is followed by the rest of its bytes. -/
theorem decodeFrom_tailBytes (acc : List Char) (p : Pending) (v : Nat) (bs : List UInt8)
    (h : p.Continues v) :
    decodeFrom acc (some p) (tailBytes v p.due ++ bs) =
      decodeFrom (Char.ofNat v :: acc) none bs := by
  obtain ⟨due, low, high, bits⟩ := p
  induction due generalizing low high bits with
  | zero => exact absurd h.1 (by simp)
  | succ n ih =>
    obtain ⟨-, hb, hl, hh⟩ := h
    simp only [Nat.add_sub_cancel] at hb hl hh
    have hn : (UInt8.ofNat (v / 64 ^ n % 64 + 0x80)).toNat = v / 64 ^ n % 64 + 0x80 :=
      toNat_ofNat_of_lt (by omega)
    have hbits : bits * 64 + v / 64 ^ n % 64 = v / 64 ^ n := by
      rw [← hb, Nat.pow_succ, ← Nat.div_div_eq_div_mul]
      omega
    simp only [tailBytes, List.cons_append, decodeFrom, read, next, UInt8.le_iff_toNat_le, hn,
      hl, hh, and_self, if_true, Nat.add_sub_cancel, hbits]
    by_cases h1 : n = 0
    · subst h1
      simp [tailBytes]
    · rw [if_neg (by omega)]
      exact ih 0x80 0xBF (v / 64 ^ n) ⟨by simp; omega, rfl, by simp, by simp; omega⟩

theorem decodeFrom_utf8EncodeChar (acc : List Char) (c : Char) (bs : List UInt8) :
    decodeFrom acc none (String.utf8EncodeChar c ++ bs) = decodeFrom (c :: acc) none bs := by
  have hv : c.toNat < 0xD800 ∨ (0xDFFF < c.toNat ∧ c.toNat < 0x110000) := c.valid
  rw [← Char.ofNat_toNat c]
  generalize c.toNat = v at *
  by_cases h : v < 0x80
  · have hn : (UInt8.ofNat v).toNat = v := toNat_ofNat_of_lt (by omega)
    simp only [utf8EncodeChar_one h, List.cons_append, List.nil_append, decodeFrom, read]
    rw [first_eq_char (by omega), hn]
  · obtain ⟨b, p, hc, hf, hp⟩ := first_of_utf8EncodeChar (by omega) hv
    simp only [hc, List.cons_append, decodeFrom, read, hf]
    exact decodeFrom_tailBytes acc p v bs hp

theorem decodeFrom_encode (acc cs : List Char) :
    decodeFrom acc none (encode cs) = some (acc.reverse ++ cs) := by
  induction cs generalizing acc with
  | nil => simp [encode, decodeFrom]
  | cons c cs ih =>
    have hc : encode (c :: cs) = String.utf8EncodeChar c ++ encode cs := rfl
    rw [hc, decodeFrom_utf8EncodeChar, ih]
    simp

@[simp] theorem decode?_encode (cs : List Char) : decode? (encode cs) = some cs := by
  simpa [decode?] using decodeFrom_encode [] cs

/-! ## Writing what has been read -/

theorem begun_of_first {b : UInt8} {p : Pending} (h : first b = .more p) : p.Begun [b] := by
  have hb : UInt8.ofNat b.toNat = b := UInt8.ofNat_toNat
  generalize hn : b.toNat = n at *
  simp only [first, hn] at h
  split_ifs at h <;> simp only [Reading.more.injEq] at h <;> subst h
  all_goals
    refine ⟨by simp, by simp, by simp, ?_⟩
    intro v hv
    simp [Pending.Continues] at hv
  · rw [utf8EncodeChar_two (by omega) (by omega), ← hb]
    congr
    omega
  iterate 3
    · rw [utf8EncodeChar_three (by omega) (by omega) (by omega), ← hb]
      congr
      omega
  iterate 3
    · rw [utf8EncodeChar_four (by omega) (by omega), ← hb]
      congr
      omega

theorem Pending.Continues.of_next {p : Pending} {b : UInt8} {v : Nat} (hd : 0 < p.due)
    (hl : 0x80 ≤ p.low.toNat) (hh : p.high.toNat ≤ 0xBF) (hb : p.low ≤ b ∧ b ≤ p.high)
    (hv : v / 64 ^ (p.due - 1) = p.bits * 64 + (b.toNat - 0x80)) :
    p.Continues v ∧ UInt8.ofNat (v / 64 ^ (p.due - 1) % 64 + 0x80) = b := by
  simp only [UInt8.le_iff_toNat_le] at hb
  have hm : v / 64 ^ (p.due - 1) % 64 + 0x80 = b.toNat := by omega
  have hdiv : v / 64 ^ p.due = p.bits := by
    obtain ⟨n, hn⟩ : ∃ n, p.due = n + 1 := ⟨p.due - 1, by omega⟩
    rw [hn, Nat.add_sub_cancel] at hv
    rw [hn, Nat.pow_succ, ← Nat.div_div_eq_div_mul, hv]
    omega
  refine ⟨⟨hd, hdiv, by omega, by omega⟩, ?_⟩
  rw [hm, UInt8.ofNat_toNat]

theorem tailBytes_of_pos (v : Nat) {n : Nat} (h : 0 < n) :
    tailBytes v n = UInt8.ofNat (v / 64 ^ (n - 1) % 64 + 0x80) :: tailBytes v (n - 1) := by
  obtain ⟨m, rfl⟩ : ∃ m, n = m + 1 := ⟨n - 1, by omega⟩
  rfl

theorem begun_of_next {p q : Pending} {b : UInt8} {bs : List UInt8} (hp : p.Begun bs)
    (h : next p b = .more q) : q.Begun (bs ++ [b]) := by
  obtain ⟨hd, hl, hh, hc⟩ := hp
  unfold next at h
  split_ifs at h with hb hone
  obtain rfl : Pending.mk (p.due - 1) 0x80 0xBF (p.bits * 64 + (b.toNat - 0x80)) = q := by
    simpa using h
  refine ⟨by simp only; omega, by simp, by simp, ?_⟩
  intro v hv
  obtain ⟨hcont, hbyte⟩ := Pending.Continues.of_next hd hl hh hb hv.2.1
  rw [hc v hcont, tailBytes_of_pos v hd, hbyte]
  simp

theorem utf8EncodeChar_of_next {p : Pending} {b : UInt8} {c : Char} {bs : List UInt8}
    (hp : p.Begun bs) (h : next p b = .char c) : String.utf8EncodeChar c = bs ++ [b] := by
  obtain ⟨hd, hl, hh, hc⟩ := hp
  unfold next at h
  split_ifs at h with hb hone
  obtain rfl : Char.ofNat (p.bits * 64 + (b.toNat - 0x80)) = c := by simpa using h
  have hone : p.due = 1 := by omega
  obtain ⟨hcont, hbyte⟩ :=
    Pending.Continues.of_next (v := p.bits * 64 + (b.toNat - 0x80)) hd hl hh hb (by simp [hone])
  rw [hc _ hcont, tailBytes_of_pos _ hd, hbyte, hone]
  rfl

theorem utf8EncodeChar_of_first {b : UInt8} {c : Char} (h : first b = .char c) :
    String.utf8EncodeChar c = [b] := by
  by_cases hb : b.toNat < 0x80
  · rw [first_eq_char hb] at h
    obtain rfl : Char.ofNat b.toNat = c := by simpa using h
    rw [utf8EncodeChar_one hb, UInt8.ofNat_toNat]
  · simp only [first, if_neg hb] at h
    split_ifs at h

/-- The bytes that the machine has taken for an unfinished character. -/
def Open (p? : Option Pending) (bs : List UInt8) : Prop :=
  match p? with
  | none => bs = []
  | some p => p.Begun bs

theorem open_nil : Open none [] := rfl

theorem encode_of_decodeFrom {acc cs : List Char} {p? : Option Pending} {bs taken : List UInt8}
    (ho : Open p? taken) (h : decodeFrom acc p? bs = some cs) :
    ∃ ds, cs = acc.reverse ++ ds ∧ taken ++ bs = encode ds := by
  -- a step may end inside a character, so its first bytes have to be carried along
  induction bs generalizing acc p? taken with
  | nil =>
    cases p? with
    | none =>
      obtain rfl : acc.reverse = cs := by simpa [decodeFrom] using h
      exact ⟨[], by simp, by simp [encode, show taken = [] from ho]⟩
    | some p => simp [decodeFrom] at h
  | cons b bs ih =>
    cases p? with
    | none =>
      obtain rfl : taken = [] := ho
      simp only [decodeFrom, read] at h
      cases hr : first b with
      | bad => simp [hr] at h
      | more q =>
        rw [hr] at h
        have hbegun : Open (some q) [b] := begun_of_first hr
        exact ih hbegun h
      | char c =>
        rw [hr] at h
        obtain ⟨ds, hcs, hds⟩ := ih open_nil h
        refine ⟨c :: ds, by simp [hcs], ?_⟩
        simpa [encode, utf8EncodeChar_of_first hr] using hds
    | some p =>
      simp only [decodeFrom, read] at h
      cases hr : next p b with
      | bad => simp [hr] at h
      | more q =>
        rw [hr] at h
        have hbegun : Open (some q) (taken ++ [b]) := begun_of_next ho hr
        obtain ⟨ds, hcs, hds⟩ := ih hbegun h
        exact ⟨ds, hcs, by simpa using hds⟩
      | char c =>
        rw [hr] at h
        obtain ⟨ds, hcs, hds⟩ := ih open_nil h
        refine ⟨c :: ds, by simp [hcs], ?_⟩
        simpa [encode, utf8EncodeChar_of_next ho hr] using hds

/-- Reading accepts exactly what writing produces. -/
theorem decode?_eq_some_iff {bs : List UInt8} {cs : List Char} :
    decode? bs = some cs ↔ bs = encode cs := by
  constructor
  · intro h
    obtain ⟨ds, hcs, hds⟩ := encode_of_decodeFrom open_nil h
    simpa [hcs] using hds
  · intro h
    rw [h, decode?_encode]

end TypeDeps.Utf8

namespace TypeDeps

theorem stringOf?_eq_some_iff {bs : List UInt8} {s : String} :
    stringOf? bs = some s ↔ bs = bytesOf s := by
  unfold stringOf? bytesOf
  rw [Option.map_eq_some_iff]
  constructor
  · rintro ⟨cs, hcs, rfl⟩
    rw [String.toList_ofList]
    exact Utf8.decode?_eq_some_iff.mp hcs
  · intro h
    exact ⟨s.toList, Utf8.decode?_eq_some_iff.mpr h, String.ofList_toList⟩

@[simp] theorem stringOf?_bytesOf (s : String) : stringOf? (bytesOf s) = some s :=
  stringOf?_eq_some_iff.mpr rfl

theorem bytesOf_injective : Function.Injective bytesOf := by
  intro s t h
  have := congrArg stringOf? h
  simpa using this

end TypeDeps
