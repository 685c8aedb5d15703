import Mathlib
import TypeDeps.Disk.Operations

/-!
# Where paths lead

There are no links, so a path says by itself where it leads and which places are passed on the
way. What the disk decides is whether the places that are passed are directories.
-/
namespace TypeDeps.Disk

theorem bind_eq_ok_iff {ε α β : Type} {x : Except ε α} {f : α → Except ε β} {b : β} :
    x >>= f = .ok b ↔ ∃ a, x = .ok a ∧ f a = .ok b := by
  cases x <;> simp [bind, Except.bind]

/-- The place behind a name, whatever is there. -/
def stepTo (place : Place) (n : Name) : Place :=
  if n = [Path.dot] then place
  else if n = [Path.dot, Path.dot] then place.dropLast
  else place ++ [n]

/-- The places in which names are looked up. -/
def passed (place : Place) : List Name → List Place
  | [] => []
  | n :: ns => place :: passed (stepTo place n) ns

/-- The name can be one on a disk. -/
def Fits (n : Name) : Prop := Spot.isSpecial n ∨ n.length ≤ nameLimit

def placeOf (d : Disk) (p : Path) : Place := (names p).foldl stepTo (d.origin p)

/-- The places that are passed on the way to the last name of a path. -/
def way (d : Disk) (p : Path) : List Place := passed (d.origin p) (names p)

/-- The path can be followed up to its last name. -/
structure Reaches (d : Disk) (p : Path) : Prop where
  sound : checkPath p = .ok ()
  directories : ∀ q ∈ d.way p, d.at? q = some .directory
  fits : ∀ n ∈ names p, Fits n

variable {d : Disk} {p : Path} {n : Name} {place q : Place}

theorem enter_eq_ok_iff : d.enter place = .ok () ↔ d.at? place = some .directory := by
  unfold enter
  split <;> simp_all

theorem special_iff : Spot.isSpecial n ↔ n = [Path.dot] ∨ n = [Path.dot, Path.dot] := by
  simp [Spot.isSpecial]

theorem follow_eq_ok_iff :
    d.follow place n = .ok q ↔ d.at? place = some .directory ∧ Fits n ∧ q = stepTo place n := by
  unfold follow stepTo Fits
  rw [special_iff, ← enter_eq_ok_iff]
  cases d.enter place with
  | error e => simp [bind, Except.bind]
  | ok u =>
    simp only [bind, Except.bind, true_and]
    split_ifs with h1 h2 h3
    · simp [h1, pure, Except.pure, eq_comm]
    · simp [h2, pure, Except.pure, eq_comm]
    · simp [h1, h2, Nat.not_le.mpr h3]
    · simp [h1, h2, Nat.not_lt.mp h3, pure, Except.pure, eq_comm]

theorem walk_eq_ok_iff {ns : List Name} :
    ns.foldlM d.follow place = .ok q ↔ (∀ r ∈ passed place ns, d.at? r = some .directory) ∧
      (∀ n ∈ ns, Fits n) ∧ q = ns.foldl stepTo place := by
  induction ns generalizing place with
  | nil => simp [passed, pure, Except.pure, eq_comm]
  | cons n ns ih =>
    rw [List.foldlM_cons, bind_eq_ok_iff]
    simp only [follow_eq_ok_iff, ih, passed, List.forall_mem_cons, List.foldl_cons]
    constructor
    · rintro ⟨_, ⟨hd, hn, rfl⟩, hds, hns, hq⟩
      exact ⟨⟨hd, hds⟩, ⟨hn, hns⟩, hq⟩
    · rintro ⟨⟨hd, hds⟩, ⟨hn, hns⟩, hq⟩
      exact ⟨_, ⟨hd, hn, rfl⟩, hds, hns, hq⟩

theorem reaches_iff_walk : d.Reaches p ↔
    checkPath p = .ok () ∧ (names p).foldlM d.follow (d.origin p) = .ok (d.placeOf p) := by
  constructor
  · intro h
    exact ⟨h.sound, walk_eq_ok_iff.mpr ⟨h.directories, h.fits, rfl⟩⟩
  · rintro ⟨hc, hw⟩
    obtain ⟨hd, hf, -⟩ := walk_eq_ok_iff.mp hw
    exact ⟨hc, hd, hf⟩

theorem find?_eq_ok_iff {node : Node} :
    d.find? p = .ok (place, node) ↔ d.Reaches p ∧ place = d.placeOf p ∧
      d.at? place = some node ∧ (node = .directory ∨ endsInSlash p = false) := by
  rw [reaches_iff_walk]
  unfold find?
  simp only [bind_eq_ok_iff]
  constructor
  · rintro ⟨_, hc, q, hw, h⟩
    obtain rfl : q = d.placeOf p := (walk_eq_ok_iff.mp hw).2.2
    split at h
    · cases h
    · next ha =>
      obtain ⟨rfl, rfl⟩ := Prod.mk.inj (Except.ok.inj h)
      exact ⟨⟨hc, hw⟩, rfl, ha, .inl rfl⟩
    · next content ha =>
      split_ifs at h with hs
      obtain ⟨rfl, rfl⟩ := Prod.mk.inj (Except.ok.inj h)
      exact ⟨⟨hc, hw⟩, rfl, ha, .inr (by simpa using hs)⟩
  · rintro ⟨⟨hc, hw⟩, rfl, ha, hs⟩
    refine ⟨_, hc, _, hw, ?_⟩
    rw [ha]
    cases node with
    | directory => rfl
    | file content => simp [show endsInSlash p = false by simpa using hs, pure, Except.pure]

theorem contentAt_eq_ok_iff {c : List UInt8} :
    d.contentAt p = .ok c ↔
      d.Reaches p ∧ endsInSlash p = false ∧ d.at? (d.placeOf p) = some (.file c) := by
  have hfind : d.contentAt p = .ok c ↔ d.find? p = .ok (d.placeOf p, .file c) := by
    unfold contentAt
    rw [bind_eq_ok_iff]
    constructor
    · rintro ⟨⟨place, node⟩, hf, h⟩
      obtain ⟨-, rfl, -⟩ := find?_eq_ok_iff.mp hf
      cases node with
      | directory => cases h
      | file content => rwa [← Except.ok.inj h]
    · exact fun hf => ⟨_, hf, rfl⟩
  rw [hfind, find?_eq_ok_iff]
  simp [and_comm]

theorem isThere_of_contentAt {c : List UInt8} (h : d.contentAt p = .ok c) : d.isThere p := by
  obtain ⟨hr, hs, ha⟩ := contentAt_eq_ok_iff.mp h
  have hf := find?_eq_ok_iff.mpr ⟨hr, rfl, ha, .inr hs⟩
  rw [isThere, hf]
  rfl

theorem passed_append (place : Place) (ns ms : List Name) :
    passed place (ns ++ ms) = passed place ns ++ passed (ns.foldl stepTo place) ms := by
  induction ns generalizing place with
  | nil => rfl
  | cons n ns ih => simp [passed, ih]

/-- A spot with a name is where the path leads, and if the name is short enough it can be
reached. -/
theorem spot?_name {s : Spot} (h : d.spot? p = .ok s) (hn : s.name? = some n) :
    d.placeOf p = s.directory ++ [n] ∧ s.slash = endsInSlash p ∧
      (n.length ≤ nameLimit → d.Reaches p) := by
  unfold spot? at h
  simp only [bind_eq_ok_iff] at h
  obtain ⟨_, hc, directory, hw, _, he, hs⟩ := h
  obtain rfl : (⟨directory, _, endsInSlash p⟩ : Spot) = s := Except.ok.inj hs
  obtain ⟨hd, hf, rfl⟩ := walk_eq_ok_iff.mp hw
  obtain ⟨hlast, hspecial⟩ := Option.filter_eq_some_iff.mp hn
  have hnames : names p = (names p).dropLast ++ [n] :=
    (List.dropLast_append_getLast? n hlast).symm
  have hstep : ∀ q, stepTo q n = q ++ [n] := by
    intro q
    have : ¬(n = [Path.dot] ∨ n = [Path.dot, Path.dot]) := by
      rw [← special_iff]
      simpa using hspecial
    simp only [not_or] at this
    simp [stepTo, this]
  refine ⟨?_, rfl, fun hlen => ⟨hc, ?_, ?_⟩⟩
  · rw [placeOf, hnames, List.foldl_append]
    simp [hstep]
  · rw [way, hnames, passed_append]
    intro q hq
    rcases List.mem_append.mp hq with hq | hq
    · exact hd q hq
    · obtain rfl := List.mem_singleton.mp hq
      exact enter_eq_ok_iff.mp he
  · rw [hnames]
    intro m hm
    rcases List.mem_append.mp hm with hm | hm
    · exact hf m hm
    · obtain rfl := List.mem_singleton.mp hm
      exact .inr hlen

theorem place_eq_ok_iff {s : Spot} : s.place n = .ok place ↔
    n.length ≤ nameLimit ∧ place = s.directory ++ [n] := by
  unfold Spot.place
  split_ifs with h
  · simp [Nat.not_le.mpr h]
  · simp [Nat.not_lt.mp h, eq_comm]

/-- The place of a spot's name is where the path leads. -/
theorem spot?_place {s : Spot} (h : d.spot? p = .ok s) (hn : s.name? = some n)
    (hplace : s.place n = .ok place) :
    place = d.placeOf p ∧ place ≠ [] ∧ s.slash = endsInSlash p ∧ d.Reaches p := by
  obtain ⟨hlen, rfl⟩ := place_eq_ok_iff.mp hplace
  obtain ⟨hp, hslash, hreach⟩ := spot?_name h hn
  exact ⟨hp.symm, by simp, hslash, hreach hlen⟩

end TypeDeps.Disk
