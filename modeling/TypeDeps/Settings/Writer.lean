import TypeDeps.Error
import TypeDeps.Settings.Basic
import TypeDeps.Yaml.Writer

/-!
# Writing settings

One line for each setting in a fixed order, and one line for each excluded prefix. An output
directory that is not UTF-8 cannot be written.
-/
namespace TypeDeps.Settings

open Yaml

def member (field : Field) (value : String) : List Char :=
  field.name.toList ++ ':' :: scalarLine value.toList

def prefixLines (ps : List String) : List Char :=
  if ps.isEmpty then Field.excludedPrefixes.name.toList ++ ": []\n".toList
  else
    Field.excludedPrefixes.name.toList ++ ":\n".toList ++
      ps.flatMap fun p => '-' :: scalarLine p.toList

/-- The text of a settings file. -/
def write (s : Settings) : Except Error String :=
  match s.outputDir.text? with
  | none => .error (.settings ("YAML error: " ++ pathNotText))
  | some dir =>
    .ok (String.ofList
      (member .outputDir dir ++ member .moduleKey s.moduleKey ++
        member .cacheMode s.cacheMode.name ++ prefixLines s.excludedPrefixes))

end TypeDeps.Settings
