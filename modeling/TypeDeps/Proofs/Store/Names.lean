import TypeDeps.Proofs.Path.Folders
import TypeDeps.Store.Basic

/-!
# The names of a store's files

A store's paths end as the roles of their files say, and a path with an ending has a name of its own
behind its folder, whatever the key in front of the ending looks like. So the endings alone keep the
roles apart, and two keys share all their files or none.
-/
namespace TypeDeps.Store

open TypeDeps.Path

def stemPath (s : Store) (key : String) : Path := s.outputDir.join (.ofString (relativeKey key))

theorem isEnding_fragment : IsEnding ".json" := ⟨by decide, by decide⟩

theorem isEnding_digest : IsEnding (".json" ++ ".sha256") := ⟨by decide, by decide⟩

theorem isEnding_module : IsEnding "-graph.json" := ⟨by decide, by decide⟩

theorem isEnding_temporary {e : String} (h : IsEnding e) : IsEnding (e ++ ".tmp") := by
  have hslash : slash ∉ bytesOf ".tmp" := by decide
  obtain ⟨hno, hlong⟩ := h
  constructor
  · simp [bytesOf_append, hno, hslash]
  · rw [bytesOf_append, List.length_append]
    omega

theorem fragmentPath_eq (s : Store) (key : String) :
    s.fragmentPath key = (s.stemPath key).append ".json" := by
  rw [fragmentPath, ofString_append, join_append isEnding_fragment.noSlash, stemPath]

theorem digestPath_eq (s : Store) (key : String) :
    s.digestPath key = (s.stemPath key).append (".json" ++ ".sha256") := by
  rw [digestPath, String.append_assoc, ofString_append, join_append isEnding_digest.noSlash,
    stemPath]

theorem modulePath_eq (s : Store) :
    s.modulePath = (s.outputDir.join (.ofString s.moduleName)).append "-graph.json" := by
  rw [modulePath, ofString_append, join_append isEnding_module.noSlash]

theorem getLast?_temporary (e : String) : (bytesOf (e ++ ".tmp")).getLast? = some 0x70 := by
  have htmp : bytesOf ".tmp" = [0x2E, 0x74, 0x6D, 0x70] := rfl
  simp [bytesOf_append, htmp]

/-- What a file of a store is for. -/
inductive Role where
  | fragment (key : String)
  | digest (key : String)
  | moduleGraph
  deriving DecidableEq, Repr

namespace Role

def ending : Role → String
  | fragment _ => ".json"
  | digest _ => ".json" ++ ".sha256"
  | moduleGraph => "-graph.json"

theorem isEnding_ending (role : Role) : IsEnding role.ending := by
  cases role with
  | fragment key => exact isEnding_fragment
  | digest key => exact isEnding_digest
  | moduleGraph => exact isEnding_module

/-- No role ends like a temporary file. -/
theorem getLast?_ending_ne (role : Role) (e : String) :
    (bytesOf role.ending).getLast? ≠ (bytesOf (e ++ ".tmp")).getLast? := by
  rw [getLast?_temporary]
  cases role with
  | fragment key =>
    change (bytesOf ".json").getLast? ≠ some 0x70
    decide
  | digest key =>
    change (bytesOf (".json" ++ ".sha256")).getLast? ≠ some 0x70
    decide
  | moduleGraph => decide

end Role

/-- The path of the store's file in this role. -/
def pathOf (s : Store) : Role → Path
  | .fragment key => s.fragmentPath key
  | .digest key => s.digestPath key
  | .moduleGraph => s.modulePath

/-- The path without the role's ending. -/
def basePath (s : Store) : Role → Path
  | .fragment key => s.stemPath key
  | .digest key => s.stemPath key
  | .moduleGraph => s.outputDir.join (.ofString s.moduleName)

theorem pathOf_eq (s : Store) (role : Role) :
    s.pathOf role = (s.basePath role).append role.ending := by
  cases role with
  | fragment key => exact s.fragmentPath_eq key
  | digest key => exact s.digestPath_eq key
  | moduleGraph => exact s.modulePath_eq

theorem temporary_pathOf_eq (s : Store) (role : Role) :
    Storage.temporary (s.pathOf role) = (s.basePath role).append (role.ending ++ ".tmp") := by
  rw [pathOf_eq, Storage.temporary, append_append]

variable {s s' : Store} {d : Disk} {key key' : String}

/-! ## Places -/

/-- The files of two keys meet in pairs. -/
theorem digest_place_eq_iff : d.placeOf (s.digestPath key) = d.placeOf (s.digestPath key') ↔
    d.placeOf (s.fragmentPath key) = d.placeOf (s.fragmentPath key') := by
  simp only [digestPath_eq, fragmentPath_eq]
  exact Disk.placeOf_append_iff isEnding_digest isEnding_fragment

theorem digest_place_ne_fragment :
    d.placeOf (s.digestPath key) ≠ d.placeOf (s.fragmentPath key') := by
  rw [digestPath_eq, fragmentPath_eq]
  exact Disk.placeOf_append_ne isEnding_digest isEnding_fragment (by decide)

theorem digest_place_ne_module : d.placeOf (s.digestPath key) ≠ d.placeOf s.modulePath := by
  rw [digestPath_eq, modulePath_eq]
  exact Disk.placeOf_append_ne isEnding_digest isEnding_module (by decide)

theorem place_ne_temporary (role role' : Role) :
    d.placeOf (s.pathOf role) ≠ d.placeOf (Storage.temporary (s.pathOf role')) := by
  rw [temporary_pathOf_eq, pathOf_eq]
  exact Disk.placeOf_append_ne role.isEnding_ending (isEnding_temporary role'.isEnding_ending)
    (role.getLast?_ending_ne _)

/-- Writing a file in one role touches no file that lies elsewhere. -/
theorem place_not_mem (role role' : Role)
    (h : d.placeOf (s.pathOf role) ≠ d.placeOf (s.pathOf role')) :
    d.placeOf (s.pathOf role) ∉
      [d.placeOf (Storage.temporary (s.pathOf role')), d.placeOf (s.pathOf role')] := by
  simp only [List.mem_cons, List.not_mem_nil, or_false, not_or]
  exact ⟨place_ne_temporary role role', h⟩

theorem digest_not_mem_fragment : d.placeOf (s.digestPath key) ∉
    [d.placeOf (Storage.temporary (s.fragmentPath key')), d.placeOf (s.fragmentPath key')] :=
  place_not_mem (.digest key) (.fragment key') digest_place_ne_fragment

theorem fragment_not_mem_digest : d.placeOf (s.fragmentPath key) ∉
    [d.placeOf (Storage.temporary (s.digestPath key')), d.placeOf (s.digestPath key')] :=
  place_not_mem (.fragment key) (.digest key') digest_place_ne_fragment.symm

/-- Writing the files of a key touches neither file of a key with another fragment. -/
theorem fragment_not_mem_write
    (h : d.placeOf (s.fragmentPath key) ≠ d.placeOf (s.fragmentPath key')) :
    d.placeOf (s.fragmentPath key) ∉
      [d.placeOf (Storage.temporary (s.fragmentPath key')), d.placeOf (s.fragmentPath key')] ++
        [d.placeOf (Storage.temporary (s.digestPath key')), d.placeOf (s.digestPath key')] :=
  List.not_mem_append (place_not_mem (.fragment key) (.fragment key') h) fragment_not_mem_digest

theorem digest_not_mem_write
    (h : d.placeOf (s.fragmentPath key) ≠ d.placeOf (s.fragmentPath key')) :
    d.placeOf (s.digestPath key) ∉
      [d.placeOf (Storage.temporary (s.fragmentPath key')), d.placeOf (s.fragmentPath key')] ++
        [d.placeOf (Storage.temporary (s.digestPath key')), d.placeOf (s.digestPath key')] :=
  List.not_mem_append digest_not_mem_fragment
    (place_not_mem (.digest key) (.digest key') (mt digest_place_eq_iff.mp h))

/-! ## Spellings -/

theorem temporary_not_same (s s' : Store) (role role' : Role) :
    ¬(Storage.temporary (s.pathOf role)).Same (s'.pathOf role') := by
  rw [temporary_pathOf_eq, pathOf_eq]
  exact append_not_same (isEnding_temporary role.isEnding_ending) role'.isEnding_ending
    (role'.getLast?_ending_ne _).symm

theorem digest_same_iff : (s.digestPath key).Same (s'.digestPath key') ↔
    (s.fragmentPath key).Same (s'.fragmentPath key') := by
  simp only [digestPath_eq, fragmentPath_eq]
  exact append_same_iff isEnding_digest isEnding_fragment

/-- The files of two stores, which can be one, do not take each other's roles: digests have one path
exactly if their fragments do, no digest has the path of a fragment or of a module graph, and no
temporary file has the path of a file in any role. -/
theorem roles_never_meet (s s' : Store) (key key' : String) (role role' : Role) :
    ((s.digestPath key).Same (s'.digestPath key') ↔
      (s.fragmentPath key).Same (s'.fragmentPath key')) ∧
    ¬(s.digestPath key).Same (s'.fragmentPath key') ∧
    ¬(s.digestPath key).Same s'.modulePath ∧
    ¬(Storage.temporary (s.pathOf role)).Same (s'.pathOf role') := by
  refine ⟨digest_same_iff, ?_, ?_, temporary_not_same s s' role role'⟩
  · rw [digestPath_eq, fragmentPath_eq]
    exact append_not_same isEnding_digest isEnding_fragment (by decide)
  · rw [digestPath_eq, modulePath_eq]
    exact append_not_same isEnding_digest isEnding_module (by decide)

/-- Keys can be spelled differently and share their files. -/
example : (plain.digestPath "/a//b").Same (plain.digestPath "a/./b") := by decide +kernel

end TypeDeps.Store
