import LoxLang.Decimal.Notation
import LoxLang.Text.Utf8

/-!
The files a program can see, as what each path leads to, and reading them as text.
-/

namespace LoxLang

/-- Why a file cannot be read. -/
inductive ReadFault where
  | notFound
  | notPermitted
  | notDirectory
  | isDirectory
  | noDevice
  | nameTooLong
  | nulInPath
  | notUtf8
  | undecodable (fault : Text.Utf8Fault)
  /-- Nobody has looked at the path yet. -/
  | unexplored
deriving DecidableEq, Inhabited

/-- The wording of the operating system, or of the reader for text that is not UTF-8. -/
def ReadFault.message : ReadFault → String
  | notFound => "No such file or directory (os error 2)"
  | notPermitted => "Permission denied (os error 13)"
  | noDevice => "No such device (os error 19)"
  | notDirectory => "Not a directory (os error 20)"
  | isDirectory => "Is a directory (os error 21)"
  | nameTooLong => "File name too long (os error 36)"
  | nulInPath => "file name contained an unexpected NUL byte"
  | notUtf8 => "stream did not contain valid UTF-8"
  | undecodable ⟨index, some length⟩ =>
    "invalid utf-8 sequence of " ++ natText length ++ " bytes from index " ++ natText index
  | undecodable ⟨index, none⟩ => "incomplete utf-8 byte sequence from index " ++ natText index
  | unexplored => "unexplored path"

/-- What a path leads to. -/
inductive FileView where
  | file (bytes : List UInt8)
  | directory
  | nothing (reason : ReadFault)
deriving Inhabited

/-- The files a program can see. -/
structure Files where
  view : String → FileView

namespace Files

/-- No files at all. -/
def none : Files := ⟨fun _ => .nothing .notFound⟩

instance : Inhabited Files := ⟨none⟩

/-- The files at the paths that have been looked at. -/
def ofExplored (explored : List (String × FileView)) : Files :=
  ⟨fun path => (explored.lookup path).getD (.nothing .unexplored)⟩

/-- The text of a file. -/
def readText (files : Files) (path : String) : Except ReadFault String :=
  match files.view path with
  | .nothing reason => .error reason
  | .directory => .error .isDirectory
  | .file bytes =>
    match Text.decodeUtf8 bytes with
    | .ok text => .ok text
    | .error _ => .error .notUtf8

/-- The text of a program. A directory can be opened but not mapped into memory, and a fault in the
encoding is told in detail. -/
def readProgram (files : Files) (path : String) : Except ReadFault String :=
  match files.view path with
  | .nothing reason => .error reason
  | .directory => .error .noDevice
  | .file bytes =>
    match Text.decodeUtf8 bytes with
    | .ok text => .ok text
    | .error fault => .error (.undecodable fault)

end Files

end LoxLang
