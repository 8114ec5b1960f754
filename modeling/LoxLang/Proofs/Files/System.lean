import LoxLang.Proofs.Files.Path

/-!
File systems. A path is followed part by part from the root or from the working directory, and `..` leaves
a directory again. What it leads to is a place; paths that are spelled differently can lead to one place,
and a file is the same file if its place is. From a place on it does not matter by which path it was
reached: the directory of a file is the place around it, and a relative path goes on from there.
-/

namespace LoxLang

open LoxLang.Path (isUncounted isAbsolute Leads)

namespace FileNode

/-- The node that a list of names leads to. -/
def descend? : FileNode → List String → Option FileNode
  | node, [] => some node
  | .file _, _ :: _ => none
  | .directory entries, name :: names => (entries.lookup name).bind fun child => child.descend? names

theorem descend?_append (node : FileNode) (front back : List String) :
    node.descend? (front ++ back) = (node.descend? front).bind fun n => n.descend? back := by
  induction front generalizing node with
  | nil => rfl
  | cons name names ih =>
    cases node with
    | file bytes => rfl
    | directory entries =>
      cases hchild : entries.lookup name with
      | none => simp [descend?, hchild]
      | some child => simp [descend?, hchild, ih]

end FileNode

/-- A place in a file system: the names that lead to it from the root, the nearest first. -/
abbrev Location := List String

/-- A finite tree of directories, and the place at which relative paths begin. -/
structure FileSystem where
  entries : List (String × FileNode)
  working : Location

namespace FileSystem

variable (fs : FileSystem)

/-- What stands at a place. -/
def node? (place : Location) : Option FileNode :=
  (FileNode.directory fs.entries).descend? place.reverse

/-- Follows the parts of a path. The root is its own parent. -/
def follow : Location → List String → Except ReadFault Location
  | place, [] => .ok place
  | place, part :: parts =>
    match fs.node? place with
    | some (.directory entries) =>
      if isUncounted part then follow place parts
      else if part == ".." then follow place.tail parts
      else if (entries.lookup part).isSome then follow (part :: place) parts
      else .error .notFound
    | some (.file _) => .error .notDirectory
    | none => .error .notFound

/-- Where a path begins. -/
def start (path : String) : Location :=
  if isAbsolute path then [] else fs.working

/-- The place that a path leads to. -/
def place (path : String) : Except ReadFault Location :=
  if path = "" then .error .notFound else fs.follow (fs.start path) (path.splitOn "/")

/-- The files of a file system, for which no path is too long. -/
def files : Files where
  view path :=
    match fs.place path with
    | .error reason => .nothing reason
    | .ok place =>
      match fs.node? place with
      | some (.file bytes) => .file bytes
      | some (.directory _) => .directory
      | none => .nothing .notFound

/-- There is a directory at the place. -/
def IsDirectory (place : Location) : Prop :=
  ∃ entries, fs.node? place = some (.directory entries)

/-- There is a file at the place. -/
def IsFile (place : Location) : Prop :=
  ∃ bytes, fs.node? place = some (.file bytes)

/-- The path leads to a file at the place. -/
def LeadsTo (path : String) (place : Location) : Prop :=
  fs.place path = .ok place ∧ fs.IsFile place

variable {fs : FileSystem} {place target : Location} {part : String} {parts : List String} {path dir : String}

theorem node?_cons (part : String) (place : Location) :
    fs.node? (part :: place) = (fs.node? place).bind fun n => n.descend? [part] := by
  rw [node?, List.reverse_cons, FileNode.descend?_append]
  rfl

theorem not_isFile_of_isDirectory (h : fs.IsDirectory place) : ¬fs.IsFile place := by
  rintro ⟨bytes, hfile⟩
  obtain ⟨entries, hentries⟩ := h
  simp [hfile] at hentries

/-- Around anything there is a directory. -/
theorem isDirectory_tail (h : fs.IsDirectory place) : fs.IsDirectory place.tail := by
  cases place with
  | nil => exact h
  | cons part outer =>
    obtain ⟨entries, hentries⟩ := h
    rw [node?_cons] at hentries
    obtain ⟨node, hnode, hpart⟩ := Option.bind_eq_some_iff.mp hentries
    cases node with
    | file bytes => simp [FileNode.descend?] at hpart
    | directory outerEntries => exact ⟨outerEntries, hnode⟩

/-! ### Following -/

theorem follow_append (place : Location) (front back : List String) :
    fs.follow place (front ++ back) = (fs.follow place front).bind fun p => fs.follow p back := by
  induction front generalizing place with
  | nil => rfl
  | cons part parts ih =>
    simp only [List.cons_append, follow]
    cases fs.node? place with
    | none => rfl
    | some node =>
      cases node with
      | file bytes => rfl
      | directory entries =>
        dsimp only
        split
        · exact ih place
        · split
          · exact ih place.tail
          · split
            · exact ih (part :: place)
            · rfl

/-- Only directories are left by a part of a path. -/
theorem isDirectory_of_follow (h : fs.follow place (part :: parts) = .ok target) :
    fs.IsDirectory place := by
  unfold follow at h
  split at h
  next entries hentries => exact ⟨entries, hentries⟩
  next => cases h
  next => cases h

/-- On the way to a directory the parts that are no steps can be left out. -/
theorem follow_filter (h : fs.follow place parts = .ok target) :
    fs.follow place (parts.filter (!isUncounted ·)) = .ok target := by
  induction parts generalizing place with
  | nil => exact h
  | cons part parts ih =>
    obtain ⟨entries, hentries⟩ := isDirectory_of_follow h
    by_cases hpart : isUncounted part = true
    · simp only [follow, hentries, hpart, ↓reduceIte] at h
      simpa [hpart] using ih h
    · have hpart : isUncounted part = false := Bool.eq_false_iff.mpr hpart
      rw [List.filter_cons_of_pos (by simp [hpart])]
      simp only [follow, hentries, hpart, Bool.false_eq_true, ↓reduceIte] at h ⊢
      split at h
      next hup => simp [hup, ih h]
      next hup =>
        split at h
        next hchild => simp [hup, hchild, ih h]
        next => cases h

/-- On the way to a directory parts that are no steps can be put in. -/
theorem follow_of_filter (h : fs.follow place (parts.filter (!isUncounted ·)) = .ok target)
    (htarget : fs.IsDirectory target) : fs.follow place parts = .ok target := by
  induction parts generalizing place with
  | nil => exact h
  | cons part parts ih =>
    by_cases hpart : isUncounted part = true
    · rw [List.filter_cons_of_neg (by simp [hpart])] at h
      have hplace : fs.IsDirectory place := by
        cases hparts : parts.filter (!isUncounted ·) with
        | nil =>
          rw [hparts] at h
          cases h
          exact htarget
        | cons first rest => exact isDirectory_of_follow (hparts ▸ h)
      obtain ⟨entries, hentries⟩ := hplace
      simpa [follow, hentries, hpart] using ih h
    · have hpart : isUncounted part = false := Bool.eq_false_iff.mpr hpart
      rw [List.filter_cons_of_pos (by simp [hpart])] at h
      obtain ⟨entries, hentries⟩ := isDirectory_of_follow h
      simp only [follow, hentries, hpart, Bool.false_eq_true, ↓reduceIte] at h ⊢
      split at h
      next hup => simp [hup, ih h]
      next hup =>
        split at h
        next hchild => simp [hup, hchild, ih h]
        next => cases h

/-! ### Directories of files -/

/-- The place that the path of a directory leads to; the empty path stands for the working directory. -/
def Surrounds (fs : FileSystem) (dir : String) (place : Location) : Prop :=
  fs.follow (fs.start dir) (FileNode.names dir) = .ok place ∧ fs.IsDirectory place

/-- The directory of a file is around its place, and its path is the one of the file without the last
step. -/
theorem LeadsTo.surrounds (h : fs.LeadsTo path place) :
    ∃ name outer, place = name :: outer ∧ fs.Surrounds ((Path.parent? path).getD "") outer ∧
      FileNode.names path = FileNode.names ((Path.parent? path).getD "") ++ [name] := by
  obtain ⟨hplace, hfile⟩ := h
  have hpath : fs.follow (fs.start path) (path.splitOn "/") = .ok place := by
    unfold FileSystem.place at hplace
    split at hplace
    · cases hplace
    · exact hplace
  obtain ⟨parts, last, hparts⟩ := List.eq_nil_or_concat (path.splitOn "/") |>.resolve_left
    (Path.splitOn_ne_nil path)
  rw [List.concat_eq_append] at hparts
  rw [hparts, follow_append] at hpath
  cases houter : fs.follow (fs.start path) parts with
  | error reason => simp [houter, Except.bind] at hpath
  | ok outer =>
    rw [houter] at hpath
    have hlast : fs.follow outer [last] = .ok place := hpath
    obtain ⟨entries, hentries⟩ := isDirectory_of_follow hlast
    simp only [follow, hentries] at hlast
    -- The last part is a name: anything else leads to a directory.
    split at hlast
    next =>
      cases hlast
      exact absurd hfile (not_isFile_of_isDirectory ⟨entries, hentries⟩)
    next hcounted =>
      split at hlast
      next =>
        cases hlast
        exact absurd hfile (not_isFile_of_isDirectory (isDirectory_tail ⟨entries, hentries⟩))
      next =>
        split at hlast
        next =>
          cases hlast
          obtain ⟨dir, hdir, hleads⟩ := Path.parent?_leads hparts (Bool.eq_false_iff.mpr hcounted)
          refine ⟨last, outer, rfl, ⟨?_, entries, hentries⟩, ?_⟩
          · rw [hdir, Option.getD_some, hleads.names, start, hleads.absolute]
            exact follow_filter houter
          · rw [hdir, Option.getD_some, hleads.names, FileNode.names, hparts, List.filter_append]
            simp [hcounted]
        next => cases hlast

/-- A relative path goes on from the place of the directory it is joined to. -/
theorem Surrounds.place_join (h : fs.Surrounds dir place) (hrelative : isAbsolute path = false)
    (hne : path ≠ "") : fs.place (Path.join dir path) = fs.follow place (path.splitOn "/") := by
  obtain ⟨parts, hparts, hnames, hjoin, habsolute⟩ := Path.join_leads dir hrelative
  have hdir : fs.follow (fs.start dir) parts = .ok place := follow_of_filter (hnames ▸ h.1) h.2
  have hstart : fs.start (Path.join dir path) = fs.start dir := by simp only [start, habsolute]
  rw [FileSystem.place, if_neg (hjoin hne), hstart, hparts, follow_append, hdir]
  rfl

end FileSystem

end LoxLang
