import TypeDeps.Proofs.Disk.Walks
import TypeDeps.Storage

/-!
# Endings of paths

An ending is put behind a path to name another file beside it. It only changes the last name of the
path, and as it is too long for a dot or two, what it makes of that is always a name.
-/
namespace TypeDeps

theorem bytesOf_append (s t : String) : bytesOf (s ++ t) = bytesOf s ++ bytesOf t := by
  simp [bytesOf, Utf8.encode, String.toList_append]

namespace Path

/-- What may be put behind a path without leading anywhere else than to a name. -/
structure IsEnding (e : String) : Prop where
  noSlash : slash ∉ bytesOf e
  long : 2 < (bytesOf e).length

theorem IsEnding.long_append {e : String} (he : IsEnding e) (bytes : List UInt8) :
    2 < (bytes ++ bytesOf e).length := by
  have := he.long
  rw [List.length_append]
  omega

theorem IsEnding.append_ne_nil {e : String} (he : IsEnding e) (bytes : List UInt8) :
    bytes ++ bytesOf e ≠ [] := by
  intro h
  have := he.long_append bytes
  simp [h] at this

/-- Endings that differ in their last byte never make one name. -/
theorem IsEnding.append_ne_append {e e' : String} (he : IsEnding e) (he' : IsEnding e')
    (h : (bytesOf e).getLast? ≠ (bytesOf e').getLast?) {x y : List UInt8} :
    x ++ bytesOf e ≠ y ++ bytesOf e' := by
  intro heq
  have hne : bytesOf e ≠ [] := he.append_ne_nil []
  have hne' : bytesOf e' ≠ [] := he'.append_ne_nil []
  have hlast := congrArg List.getLast? heq
  rw [List.getLast?_append_of_ne_nil _ hne, List.getLast?_append_of_ne_nil _ hne'] at hlast
  exact h hlast

theorem append_append (p : Path) (e e' : String) : (p.append e).append e' = p.append (e ++ e') := by
  simp [append, bytesOf_append]

theorem isAbsolute_append {p : Path} {e : String} (h : slash ∉ bytesOf e) :
    (p.append e).isAbsolute = p.isAbsolute := by
  obtain ⟨bytes⟩ := p
  cases bytes with
  | cons b bs => rfl
  | nil =>
    have hhead : (bytesOf e).head? ≠ some slash := fun he => h (List.mem_of_head? he)
    simp [isAbsolute, append, hhead]

theorem join_append {p q : Path} {e : String} (h : slash ∉ bytesOf e) :
    p.join (q.append e) = (p.join q).append e := by
  unfold join
  rw [isAbsolute_append h]
  split_ifs <;> simp [append]

theorem ofString_append (s e : String) : ofString (s ++ e) = (ofString s).append e := by
  simp [ofString, append, bytesOf_append]

theorem exists_segments (p : Path) : ∃ front stem, ∀ x : List UInt8, slash ∉ x →
    (⟨p.bytes ++ x⟩ : Path).segments = front ++ [stem ++ x] := by
  by_cases hp : slash ∈ p.bytes
  · obtain ⟨stem, front, hsplit, hstem⟩ :=
      List.eq_append_cons_of_mem (List.mem_reverse.mpr hp)
    have hbytes : p.bytes = front.reverse ++ slash :: stem.reverse := by
      rw [← List.reverse_reverse p.bytes, hsplit]
      simp
    refine ⟨front.reverse.splitOn slash, stem.reverse, fun x hx => ?_⟩
    have hnot : slash ∉ stem.reverse ++ x := by
      simpa [hstem] using hx
    simp only [segments]
    rw [hbytes, List.append_assoc, List.cons_append, List.splitOn_append_cons_self,
      List.splitOn_eq_singleton hnot]
  · refine ⟨[], p.bytes, fun x hx => ?_⟩
    have hnot : slash ∉ p.bytes ++ x := by simp [hp, hx]
    simpa [segments] using List.splitOn_eq_singleton hnot

end Path

namespace Disk

open TypeDeps.Path

/-- What is put behind a path ends up behind the stem of its last name, which is empty if the path
ends in a slash. -/
theorem exists_names_append (p : Path) : ∃ (front : List Name) (stem : Name),
    names p = (if stem = [] then front else front ++ [stem]) ∧
    ∀ e, IsEnding e → names (p.append e) = front ++ [stem ++ bytesOf e] := by
  obtain ⟨front, stem, hsegments⟩ := p.exists_segments
  refine ⟨front.filter (· ≠ []), stem, ?_, fun e he => ?_⟩
  · have hsegment : p.segments = front ++ [stem] := by simpa using hsegments [] (by simp)
    by_cases hstem : stem = [] <;> simp [names, hsegment, hstem]
  · have hne := he.append_ne_nil stem
    have hsegment : (p.append e).segments = front ++ [stem ++ bytesOf e] :=
      hsegments _ he.noSlash
    simp [names, hsegment, hne]

theorem origin_append (d : Disk) (p : Path) {e : String} (he : IsEnding e) :
    d.origin (p.append e) = d.origin p := by
  simp [origin, isAbsolute_append he.noSlash]

/-- With an ending, a path leads to another place than without it. -/
theorem placeOf_append_ne_self (d : Disk) (p : Path) {e : String} (he : IsEnding e) :
    d.placeOf (p.append e) ≠ d.placeOf p := by
  obtain ⟨front, stem, hself, hnames⟩ := exists_names_append p
  have hne : bytesOf e ≠ [] := he.append_ne_nil []
  rw [placeOf, placeOf, origin_append d p he, hnames e he, hself, List.foldl_append,
    List.foldl_cons, List.foldl_nil, stepTo_of_long (he.long_append stem)]
  by_cases hstem : stem = []
  · simp [hstem]
  · rw [if_neg hstem, List.foldl_append, List.foldl_cons, List.foldl_nil]
    unfold stepTo
    split_ifs
    · simp
    · intro h
      have hlength := congrArg List.length h
      simp only [List.length_append, List.length_singleton, List.length_dropLast] at hlength
      omega
    · simp [hne]

theorem placeOf_temporary_ne (d : Disk) (p : Path) :
    d.placeOf (Storage.temporary p) ≠ d.placeOf p :=
  d.placeOf_append_ne_self p ⟨by decide, by decide⟩

end Disk

end TypeDeps
