import TypeDeps.Path

/-!
# Errors

`StorageFailure` is what a file system, a reader or a writer can answer. `Error` is what the
library answers. `message` is the only place where errors are put into words.
-/
namespace TypeDeps

inductive StorageFailure where
  | notFound
  | exists_
  | busy
  | notDirectory
  | isDirectory
  | notEmpty
  | nameTooLong
  | notText
  | nulInPath
  | other (text : String)
  deriving DecidableEq, Repr

namespace StorageFailure

def message : StorageFailure → String
  | notFound => "No such file or directory (os error 2)"
  | exists_ => "File exists (os error 17)"
  | busy => "Device or resource busy (os error 16)"
  | notDirectory => "Not a directory (os error 20)"
  | isDirectory => "Is a directory (os error 21)"
  | notEmpty => "Directory not empty (os error 39)"
  | nameTooLong => "File name too long (os error 36)"
  | notText => "stream did not contain valid UTF-8"
  | nulInPath => "file name contained an unexpected NUL byte"
  | other text => text

end StorageFailure

inductive Error where
  /-- A question about a path that no file of the graph has. -/
  | notInGraph (path : Path)
  /-- A document that does not hold a graph. -/
  | malformed (reason : String)
  /-- A graph that has no document. -/
  | unwritable (reason : String)
  | storage (failure : StorageFailure)
  | settings (reason : String)
  | extraction (path : Path) (reason : String)
  deriving DecidableEq, Repr

namespace Error

def message : Error → String
  | notInGraph path => "source file not found in graph (" ++ path.display ++ ")"
  | malformed reason => "malformed graph: " ++ reason
  | unwritable reason => "encode error: " ++ reason
  | storage failure => "I/O error: " ++ failure.message
  | settings reason => "configuration error: " ++ reason
  | extraction path reason => "extraction failed for " ++ path.display ++ ": " ++ reason

/-- The words of the failure behind an error, if there is one. -/
def cause? : Error → Option String
  | storage failure => some failure.message
  | _ => none

/-- Errors about graphs alone, as opposed to those of files, settings and extractors. -/
def isAboutGraph : Error → Bool
  | notInGraph _ => true
  | malformed _ => true
  | _ => false

end Error

/-- What is said of a path that has no text form. -/
def pathNotText : String := "path contains invalid UTF-8 characters"

end TypeDeps
