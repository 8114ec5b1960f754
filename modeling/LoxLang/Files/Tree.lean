import LoxLang.Files.Basic
import LoxLang.Files.Path

/-!
A tree of directories whose root is the working directory, and how a path is looked up in it. Looking up
follows the path name by name, so every directory on the way has to exist even if `..` leaves it again.
-/

namespace LoxLang

/-- A file or a directory. -/
inductive FileNode where
  | file (bytes : List UInt8)
  | directory (entries : List (String × FileNode))

instance : Inhabited FileNode := ⟨.directory []⟩

namespace FileNode

/-- The node at the end of a list of names, with a new node put there. Directories on the way are made; a
file on the way is replaced by a directory. -/
def insert : FileNode → List String → FileNode → FileNode
  | _, [], new => new
  | .file _, name :: names, new => .directory [(name, insert (.directory []) names new)]
  | .directory entries, name :: names, new =>
    let child := (entries.lookup name).getD (.directory [])
    .directory ((name, insert child names new) :: entries.filter fun e => e.1 != name)

/-- The longest name of a directory entry, in bytes. -/
def maxName : Nat := 255

/-- The length in bytes at which the system refuses a path. -/
def maxPath : Nat := 4096

/-- Follows the parts of a path. The list holds the directories around the current node, the nearest
first; outside the working directory nothing can be seen. -/
def walk : List FileNode → FileNode → List String → Except ReadFault FileNode
  | _, node, [] => .ok node
  | _, .file _, _ :: _ => .error .notDirectory
  | around, .directory entries, part :: parts =>
    if part == "" || part == "." then walk around (.directory entries) parts
    else if part == ".." then
      match around with
      | [] => walk [] (.directory []) parts
      | outer :: rest => walk rest outer parts
    else if maxName < part.utf8ByteSize then .error .nameTooLong
    else match entries.lookup part with
      | none => .error .notFound
      | some child => walk (.directory entries :: around) child parts

/-- The names on the way that a path goes. -/
def names (path : String) : List String :=
  (path.splitOn "/").filter (!Path.isUncounted ·)

/-- The tree with one more file, in directories that are made if they are missing. -/
def addFile (tree : FileNode) (path : String) (bytes : List UInt8) : FileNode :=
  tree.insert (names path) (.file bytes)

/-- The node that a path leads to. -/
def find (tree : FileNode) (path : String) : Except ReadFault FileNode :=
  if path.contains '\x00' then .error .nulInPath
  else if path == "" then .error .notFound
  else if maxPath ≤ path.utf8ByteSize then .error .nameTooLong
  else
    let start := if Path.isAbsolute path then .directory [] else tree
    walk [] start (path.splitOn "/")

/-- The tree with one more directory; one that exists keeps its entries. -/
def addDirectory (tree : FileNode) (path : String) : FileNode :=
  match tree.find path with
  | .ok (.directory _) => tree
  | _ => tree.insert (names path) (.directory [])

/-- The files in a tree. -/
def files (tree : FileNode) : Files where
  view path :=
    match tree.find path with
    | .error reason => .nothing reason
    | .ok (.directory _) => .directory
    | .ok (.file bytes) => .file bytes

end FileNode

end LoxLang
