import TypeDeps.Proofs.Disk.Walks
import TypeDeps.Proofs.Store.Names

/-!
# Keys and the ways to their fragments

A key that does not climb to a parent can do so once at most when the slashes and backslashes
in front of it are gone, namely from the store's own directory. So of two keys with the same
fragment, both lead to it as soon as one does.
-/
namespace TypeDeps.Store

open Disk TypeDeps.Path

/-- The part of a fragment's path that its key decides. -/
def keyPath (key : String) : Path := .ofString (relativeKey key ++ ".json")

theorem fragmentPath_eq_join (s : Store) (key : String) :
    s.fragmentPath key = s.outputDir.join (keyPath key) := rfl

def isLeading (c : Char) : Bool := c = '/' || c = '\\'

theorem toList_relativeKey (key : String) :
    (relativeKey key).toList = key.toList.dropWhile isLeading := by
  rw [relativeKey, String.toList_ofList]
  rfl

theorem eq_slash_of_mem {c : Char} (h : slash ∈ String.utf8EncodeChar c) : c = '/' := by
  by_cases hc : c.toNat < 0x80
  · rw [← Char.ofNat_toNat c, Utf8.utf8EncodeChar_one hc, List.mem_singleton] at h
    have hcode : c.toNat = '/'.toNat := by
      rw [← Utf8.toNat_ofNat_of_lt (show c.toNat < 256 by omega), ← h]
      rfl
    exact Char.toNat_inj.mp hcode
  · exact absurd (Utf8.high_of_utf8EncodeChar (by omega) slash h) (by decide)

theorem isAbsolute_keyPath (key : String) : (keyPath key).isAbsolute = false := by
  rw [isAbsolute, decide_eq_false_iff_not]
  intro hslash
  have hbytes : (keyPath key).bytes =
      Utf8.encode (key.toList.dropWhile isLeading ++ ".json".toList) := by
    rw [keyPath, ofString, bytesOf, String.toList_append, toList_relativeKey]
  rw [hbytes] at hslash
  have hfirst := List.head?_dropWhile_not isLeading key.toList
  cases hrest : key.toList.dropWhile isLeading with
  | nil =>
    rw [hrest] at hslash
    exact absurd hslash (by decide)
  | cons c cs =>
    rw [hrest] at hslash hfirst
    have hencode : Utf8.encode (c :: cs ++ ".json".toList) =
        String.utf8EncodeChar c ++ Utf8.encode (cs ++ ".json".toList) := rfl
    rw [hencode, List.head?_append_of_ne_nil _ String.utf8EncodeChar_ne_nil] at hslash
    rw [List.head?_cons, eq_slash_of_mem (List.mem_of_mem_head? hslash)] at hfirst
    exact absurd hfirst (by decide)

/-- A key as a path, without the slashes in front. -/
def relativePath (key : String) : Path := .ofString (relativeKey key)

theorem isAbsolute_relativePath (key : String) : (relativePath key).isAbsolute = false := by
  have hkey := isAbsolute_keyPath key
  rwa [keyPath, ofString_append, isAbsolute_append isEnding_fragment.noSlash] at hkey

theorem fragmentPath_eq_join_append (s : Store) (key : String) :
    s.fragmentPath key = s.outputDir.join ((relativePath key).append ".json") := by
  rw [fragmentPath, ofString_append, relativePath]

theorem digestPath_eq_join_append (s : Store) (key : String) :
    s.digestPath key = s.outputDir.join ((relativePath key).append (".json" ++ ".sha256")) := by
  rw [digestPath, String.append_assoc, ofString_append, relativePath]

theorem modulePath_eq_join_append (s : Store) :
    s.modulePath = s.outputDir.join ((Path.ofString s.moduleName).append "-graph.json") := by
  rw [modulePath, ofString_append]

theorem tail_filter_subset {α : Type} (f : α → Bool) (xs : List α) :
    (xs.filter f).tail ⊆ xs.tail := by
  cases xs with
  | nil => simp
  | cons x xs =>
    rw [List.filter_cons]
    split_ifs
    · exact List.filter_subset_self xs
    · exact List.Subset.trans (List.tail_subset _) (List.filter_subset_self xs)

/-- A fragment's path ends in a name, and in front of it climbs only at its beginning unless its
key climbs. -/
theorem exists_names_keyPath (key : String) :
    ∃ ms n, names (keyPath key) = ms ++ [n] ∧ 2 < n.length ∧
      (Component.up ∉ (ofString key).components → parentName ∉ ms.tail) := by
  obtain ⟨front, stem, hsegments⟩ := (ofString (relativeKey key)).exists_segments
  have hrelative : (ofString (relativeKey key)).segments = front ++ [stem] := by
    simpa using hsegments [] (by simp)
  have hpath : (keyPath key).segments = front ++ [stem ++ bytesOf ".json"] := by
    rw [keyPath, ofString_append]
    exact hsegments _ isEnding_fragment.noSlash
  have hlong := isEnding_fragment.long_append stem
  have hne := isEnding_fragment.append_ne_nil stem
  refine ⟨front.filter (· ≠ []), stem ++ bytesOf ".json", by simp [names, hpath, hne], hlong, ?_⟩
  rw [up_mem_components_iff]
  intro hup hmem
  have hfront : parentName ∈ (front ++ [stem]).tail := by
    have htail := tail_filter_subset _ front hmem
    cases front with
    | nil => simp at htail
    | cons x xs => exact List.mem_append_left _ htail
  have hbytes : (ofString key).bytes =
      Utf8.encode (key.toList.takeWhile isLeading) ++ (ofString (relativeKey key)).bytes := by
    simp only [ofString, bytesOf, toList_relativeKey, Utf8.encode]
    rw [← List.flatMap_append, List.takeWhile_append_dropWhile]
  rw [segments, hbytes] at hup
  rw [← hrelative] at hfront
  exact hup (List.mem_of_mem_tail ((tail_splitOn_suffix _ _ _).subset hfront))

/-- The two files of a key are looked up in the same places. -/
theorem way_digestPath (s : Store) (d : Disk) (key : String) :
    d.way (s.digestPath key) = d.way (s.fragmentPath key) := by
  rw [digestPath_eq, fragmentPath_eq]
  obtain ⟨front, stem, -, hnames⟩ := exists_names_append (s.stemPath key)
  rw [way, way, origin_append d _ isEnding_digest, origin_append d _ isEnding_fragment,
    hnames _ isEnding_digest, hnames _ isEnding_fragment, passed_snoc, passed_snoc]

/-- Where one key leads to a fragment, another key for the same fragment leads there, too. -/
theorem reaches_fragment {s : Store} {d : Disk} {key key' : String} (hground : d.Grounded)
    (hkey : Component.up ∉ (ofString key').components)
    (hplace : d.placeOf (s.fragmentPath key') = d.placeOf (s.fragmentPath key))
    (h : d.Reaches (s.fragmentPath key)) (hsound : checkPath (s.fragmentPath key') = .ok ())
    (hfits : ∀ n ∈ names (s.fragmentPath key'), Fits n) : d.Reaches (s.fragmentPath key') := by
  refine ⟨hsound, ?_, hfits⟩
  simp only [fragmentPath_eq_join] at hplace h ⊢
  obtain ⟨ms, n, hnames, hlong, -⟩ := exists_names_keyPath key
  obtain ⟨ms', n', hnames', hlong', hclimb⟩ := exists_names_keyPath key'
  have hway := way_join d (p := s.outputDir) (isAbsolute_keyPath key)
  rw [hnames, passed_snoc] at hway
  rw [way_join d (isAbsolute_keyPath key'), hnames', passed_snoc]
  -- both fragments lie in one folder
  have hfolder : ms'.foldl stepTo (d.placeOf s.outputDir) =
      ms.foldl stepTo (d.placeOf s.outputDir) := by
    rw [placeOf_join d (isAbsolute_keyPath key), placeOf_join d (isAbsolute_keyPath key'), hnames,
      hnames', List.foldl_append, List.foldl_append] at hplace
    simp only [List.foldl_cons, List.foldl_nil, stepTo_of_long hlong, stepTo_of_long hlong']
      at hplace
    exact (List.append_inj' hplace rfl).1
  have habove : ∀ r, r <+: ms'.foldl stepTo (d.placeOf s.outputDir) →
      d.at? r = some .directory :=
    h.above hground (by simp [hway, hfolder])
  have hstore : d.at? (d.placeOf s.outputDir) = some .directory := by
    refine h.directories _ ?_
    rw [hway]
    cases ms <;> simp [passed]
  intro q hq
  rw [List.mem_append] at hq
  rcases hq with hq | hq
  · exact h.directories q (by rw [hway]; exact List.mem_append_left _ hq)
  · cases ms' with
    | nil =>
      obtain rfl : q = d.placeOf s.outputDir := by simpa [passed] using hq
      exact hstore
    | cons m ms' =>
      rw [passed, List.cons_append, List.mem_cons] at hq
      rcases hq with rfl | hq
      · exact hstore
      · refine habove q ?_
        rw [List.foldl_cons]
        rcases List.mem_append.mp hq with hq | hq
        · exact prefix_of_passed (hclimb hkey) hq
        · rw [List.mem_singleton.mp hq]
          exact List.prefix_refl _

end TypeDeps.Store
