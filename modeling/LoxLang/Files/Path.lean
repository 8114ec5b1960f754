/-!
Paths as text. A path is a list of names between slashes; it is printed as it was put together, while two
paths are the same file name if their components agree: doubled slashes, a slash at the end and dots
behind the first component do not count, but a leading dot and `..` do.
-/

namespace LoxLang.Path

/-- One step of a path. A dot is a step only at the beginning of a path. -/
inductive Component where
  | root
  | current
  | parent
  | name (s : String)
deriving DecidableEq, Inhabited

def isAbsolute (path : String) : Bool :=
  path.startsWith "/"

/-- Whether a part between two slashes is no step of its own. -/
def isUncounted (part : String) : Bool :=
  part == "" || part == "."

/-- The steps of a path. -/
def components (path : String) : List Component :=
  let parts := path.splitOn "/"
  let body := parts.filterMap fun p =>
    if isUncounted p then none else some (if p == ".." then .parent else .name p)
  if isAbsolute path then .root :: body
  else if parts.head? == some "." then .current :: body
  else body

/-- Whether two paths have the same steps. -/
def same (a b : String) : Bool :=
  components a == components b

/-- A path seen from a directory; an absolute path stays as it is. -/
def join (directory path : String) : String :=
  if isAbsolute path || directory == "" then path
  else if directory.endsWith "/" then directory ++ path
  else directory ++ "/" ++ path

/-- The directory that a path is in, spelled like the path; `none` for the root and the empty path. -/
def parent? (path : String) : Option String :=
  let root := isAbsolute path
  let current := path == "." || path.startsWith "./"
  let start := if root then "/" else if current then "." else ""
  let parts := ((path.drop start.length).toString.splitOn "/").reverse.dropWhile isUncounted
  match parts with
  | [] => if current then some "" else none
  | _ :: rest => some (start ++ "/".intercalate (rest.dropWhile isUncounted).reverse)

end LoxLang.Path
