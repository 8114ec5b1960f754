import LoxLang.Files.Tree
import Mathlib.Data.String.Basic
import Mathlib.Data.List.DropRight

/-!
Paths as lists of steps. A path that is cut at its slashes and joined again is the same path, so joining
paths appends their steps, and the directory that a file is in has all of its steps but the last.
-/

namespace LoxLang.Path

open String (ofList utf8Len)
open FileNode (names)

/-! ### Cutting at slashes -/

/-- What is left of the text, `r`, is cut behind a part of which `m` has been read. -/
theorem splitOnAux_slash (l m r : List Char) (acc : List String) :
    String.splitOnAux (ofList (l ++ m ++ r)) "/" ⟨utf8Len l⟩ ⟨utf8Len l + utf8Len m⟩ 0 acc =
      acc.reverse ++ (List.splitOnPPrepend (· == '/') r m.reverse).map ofList := by
  unfold String.splitOnAux
  simp only [List.append_assoc, String.atEnd_iff, String.rawEndPos_ofList, String.utf8Len_append,
    String.Pos.Raw.mk_le_mk, Nat.add_le_add_iff_left,
    (by omega : utf8Len m + utf8Len r ≤ utf8Len m ↔ utf8Len r = 0), String.utf8Len_eq_zero,
    List.reverse_cons]
  split
  · subst r
    simpa using String.extract_of_valid l m []
  · obtain ⟨c, r, rfl⟩ := r.exists_cons_of_ne_nil ‹_›
    have hget := String.get_of_valid (l ++ m) (c :: r)
    have hnext := String.next_of_valid (l ++ m) c r
    have hextract := String.extract_of_valid l m (c :: r)
    simp only [String.utf8Len_append, List.append_assoc, List.headD_cons] at hget hnext hextract
    have hsep : String.Pos.Raw.get "/" 0 = '/' := by decide
    rw [hget, hsep]
    split
    next hslash =>
      obtain rfl := eq_of_beq hslash
      have hend : String.Pos.Raw.next "/" 0 = ⟨1⟩ := by decide
      have hback : (⟨utf8Len l + utf8Len m + Char.utf8Size '/'⟩ : String.Pos.Raw).unoffsetBy ⟨1⟩ =
          ⟨utf8Len l + utf8Len m⟩ := by
        rw [(by decide : Char.utf8Size '/' = 1)]
        rfl
      rw [hend, hnext, hback, hextract, (by decide : (⟨1⟩ : String.Pos.Raw) = String.rawEndPos "/")]
      have ih := splitOnAux_slash (l ++ m ++ ['/']) [] r (ofList m :: acc)
      simpa [List.splitOnPPrepend_cons_eq_if, Nat.add_assoc] using ih
    next hother =>
      have hstay : (⟨utf8Len l + utf8Len m⟩ : String.Pos.Raw).unoffsetBy 0 =
          ⟨utf8Len l + utf8Len m⟩ := rfl
      have hne : c ≠ '/' := fun h => hother (beq_iff_eq.mpr h)
      have ih := splitOnAux_slash l (m ++ [c]) r acc
      rw [hstay, hnext]
      simpa [List.splitOnPPrepend_cons_eq_if, hne, Nat.add_assoc] using ih
termination_by r.length

theorem splitOn_slash (path : String) :
    path.splitOn "/" = (path.toList.splitOn '/').map ofList := by
  have h := splitOnAux_slash [] [] path.toList []
  simpa [String.splitOn, List.splitOn] using h

theorem splitOn_ne_nil (path : String) : path.splitOn "/" ≠ [] := by
  simp [splitOn_slash]

/-- Joining two texts by a slash joins their parts. -/
theorem splitOn_append_slash (a b : String) :
    (a ++ "/" ++ b).splitOn "/" = a.splitOn "/" ++ b.splitOn "/" := by
  simp [splitOn_slash, List.splitOn_append_cons_self]

theorem splitOn_slash_append (b : String) : ("/" ++ b).splitOn "/" = "" :: b.splitOn "/" := by
  simp [splitOn_slash, List.splitOn_cons_eq_if_modifyHead]

theorem splitOn_dot_append (b : String) : ("." ++ ("/" ++ b)).splitOn "/" = "." :: b.splitOn "/" := by
  rw [← String.append_assoc, splitOn_append_slash]
  simp [splitOn_slash, List.splitOn_cons_eq_if_modifyHead]

/-- There is no slash in a part. -/
theorem slash_notMem {path part : String} (h : part ∈ path.splitOn "/") : '/' ∉ part.toList := by
  rw [splitOn_slash] at h
  obtain ⟨cs, hcs, rfl⟩ := List.mem_map.mp h
  rw [String.toList_ofList]
  clear h
  generalize path.toList = text at hcs
  induction text generalizing cs with
  | nil =>
    obtain rfl : cs = [] := by simpa using hcs
    simp
  | cons c rest ih =>
    rw [List.splitOn_cons_eq_if_modifyHead] at hcs
    split at hcs
    next =>
      rcases List.mem_cons.mp hcs with rfl | hcs
      · simp
      · exact ih cs hcs
    next hc =>
      obtain ⟨first, others, hsplit⟩ := List.exists_cons_of_ne_nil (List.splitOn_ne_nil '/' rest)
      rw [hsplit, List.modifyHead_cons, List.mem_cons] at hcs
      rcases hcs with rfl | hcs
      · have hfirst := ih first (by simp [hsplit])
        simp only [List.mem_cons, not_or]
        exact ⟨fun h => hc (beq_iff_eq.mpr h.symm), hfirst⟩
      · exact ih cs (by simp [hsplit, hcs])

/-- Parts without slashes that are joined by slashes are the parts of the whole. -/
theorem splitOn_intercalate {parts : List String} (h : ∀ p ∈ parts, '/' ∉ p.toList) (hne : parts ≠ []) :
    ("/".intercalate parts).splitOn "/" = parts := by
  rw [splitOn_slash, String.toList_intercalate]
  have hsplit : List.splitOn '/' (['/'].intercalate (parts.map String.toList)) =
      parts.map String.toList :=
    List.splitOn_intercalate '/' (by simpa using h) (by simpa using hne)
  rw [(by decide : "/".toList = ['/']), hsplit, List.map_map]
  simp [Function.comp_def]

/-! ### Beginnings -/

theorem isAbsolute_iff {path : String} : isAbsolute path = true ↔ ∃ rest, path = "/" ++ rest := by
  rw [isAbsolute, String.startsWith_string_iff]
  constructor
  · rintro ⟨rest, h⟩
    exact ⟨ofList rest, by rw [← String.toList_inj]; simpa using h.symm⟩
  · rintro ⟨rest, rfl⟩
    simp

theorem isAbsolute_append {a : String} (ha : a ≠ "") (b : String) :
    isAbsolute (a ++ b) = isAbsolute a := by
  have hne : a.toList ≠ [] := fun h => ha (String.toList_eq_nil_iff.mp h)
  obtain ⟨c, cs, hcs⟩ := List.exists_cons_of_ne_nil hne
  rw [Bool.eq_iff_iff, isAbsolute, isAbsolute, String.startsWith_string_iff,
    String.startsWith_string_iff, String.toList_append, hcs]
  simp

/-- A path is absolute if it has an empty part in front of a slash. -/
theorem isAbsolute_iff_splitOn {path : String} :
    isAbsolute path = true ↔ ∃ part parts, path.splitOn "/" = "" :: part :: parts := by
  rw [isAbsolute_iff]
  constructor
  · rintro ⟨rest, rfl⟩
    obtain ⟨part, parts, h⟩ := List.exists_cons_of_ne_nil (splitOn_ne_nil rest)
    exact ⟨part, parts, by rw [splitOn_slash_append, h]⟩
  · rintro ⟨part, parts, h⟩
    rw [splitOn_slash] at h
    cases hpath : path.toList with
    | nil => simp [hpath] at h
    | cons c cs =>
      rw [hpath, List.splitOn_cons_eq_if_modifyHead] at h
      split at h
      next hc =>
        obtain rfl := eq_of_beq hc
        exact ⟨ofList cs, by rw [← String.toList_inj]; simp [hpath]⟩
      next =>
        obtain ⟨first, others, hsplit⟩ := List.exists_cons_of_ne_nil (List.splitOn_ne_nil '/' cs)
        simp [hsplit] at h

theorem startsWith_dot_iff {path : String} :
    path.startsWith "./" = true ↔ ∃ rest, path = "." ++ ("/" ++ rest) := by
  rw [String.startsWith_string_iff]
  constructor
  · rintro ⟨rest, h⟩
    exact ⟨ofList rest, by rw [← String.toList_inj]; simpa using h.symm⟩
  · rintro ⟨rest, rfl⟩
    simp

theorem endsWith_slash_iff {path : String} :
    path.endsWith "/" = true ↔ ∃ front, path = front ++ "/" := by
  rw [String.endsWith_eq_endsWith_toSlice, String.Slice.endsWith_string_iff]
  constructor
  · rintro ⟨front, h⟩
    exact ⟨ofList front, by rw [← String.toList_inj]; simpa using h.symm⟩
  · rintro ⟨front, rfl⟩
    simp

/-! ### Directories of files -/

theorem toString_drop_append (a b : String) : ((a ++ b).drop a.length).toString = b := by
  rw [← String.toList_inj]
  simp [← String.length_toList]

/-- Parts at the end that are no steps do not count. -/
theorem filter_rdropWhile (parts : List String) :
    (parts.rdropWhile isUncounted).filter (!isUncounted ·) = parts.filter (!isUncounted ·) := by
  have hdrop : ∀ ps : List String,
      (ps.dropWhile isUncounted).filter (!isUncounted ·) = ps.filter (!isUncounted ·) := by
    intro ps
    induction ps with
    | nil => rfl
    | cons p rest ih => by_cases hp : isUncounted p = true <;> simp [hp, ih]
  rw [List.rdropWhile, List.filter_reverse, hdrop, List.filter_reverse, List.reverse_reverse]

/-- Joined parts have the steps of the parts. -/
theorem names_intercalate {parts : List String} (h : ∀ p ∈ parts, '/' ∉ p.toList) :
    names ("/".intercalate parts) = parts.filter (!isUncounted ·) := by
  by_cases hne : parts = []
  · subst hne
    simp [names, splitOn_slash, isUncounted]
  · rw [names, splitOn_intercalate h hne]

theorem names_slash_append (b : String) : names ("/" ++ b) = names b := by
  rw [names, splitOn_slash_append]
  rfl

theorem names_dot_append (b : String) : names ("." ++ ("/" ++ b)) = names b := by
  rw [names, splitOn_dot_append]
  rfl

/-- What the directory of a path consists of: how the path begins, and its parts but the last step. -/
theorem parent?_eq {path start rest last : String} {parts : List String}
    (hstart : (if isAbsolute path then "/"
      else if path == "." || path.startsWith "./" then "." else "") = start)
    (hpath : path = start ++ rest) (hrest : rest.splitOn "/" = parts ++ [last])
    (hlast : isUncounted last = false) :
    parent? path = some (start ++ "/".intercalate (parts.rdropWhile isUncounted)) := by
  have hdrop : (path.drop start.length).toString = rest := by
    rw [hpath]
    exact toString_drop_append start rest
  unfold parent?
  dsimp only
  rw [hstart, hdrop, hrest]
  simp [hlast, List.rdropWhile]

theorem rdropWhile_notMem {parts : List String} (h : ∀ p ∈ parts, '/' ∉ p.toList) :
    ∀ p ∈ parts.rdropWhile isUncounted, '/' ∉ p.toList :=
  fun p hp => h p ((List.rdropWhile_prefix _ _).subset hp)

/-- A first part that is no step is not the last one that is. -/
theorem first_of_append {part last : String} {ps parts : List String}
    (hpart : isUncounted part = true) (hlast : isUncounted last = false)
    (h : part :: ps = parts ++ [last]) : ∃ qs, parts = part :: qs ∧ ps = qs ++ [last] := by
  cases parts with
  | nil =>
    obtain ⟨rfl, -⟩ := List.cons.inj h
    simp [hpart] at hlast
  | cons q qs =>
    obtain ⟨rfl, hps⟩ := List.cons.inj h
    exact ⟨qs, rfl, hps⟩

/-- A directory begins like a path, and has certain steps. -/
structure Leads (path dir : String) (steps : List String) : Prop where
  absolute : isAbsolute dir = isAbsolute path
  names : names dir = steps

section

variable {path last : String} {parts : List String}

theorem leads_absolute (hroot : isAbsolute path = true) (hparts : path.splitOn "/" = parts ++ [last])
    (hlast : isUncounted last = false) :
    ∃ dir, parent? path = some dir ∧ Leads path dir (parts.filter (!isUncounted ·)) := by
  obtain ⟨rest, rfl⟩ := isAbsolute_iff.mp hroot
  rw [splitOn_slash_append] at hparts
  obtain ⟨qs, rfl, hrest⟩ := first_of_append rfl hlast hparts
  have hslash : ∀ p ∈ qs, '/' ∉ p.toList := fun p hp =>
    slash_notMem (hrest ▸ List.mem_append_left _ hp)
  refine ⟨_, parent?_eq (by rw [hroot]; rfl) rfl hrest hlast, ?_, ?_⟩
  · rw [hroot]
    exact isAbsolute_iff.mpr ⟨_, rfl⟩
  · rw [names_slash_append, names_intercalate (rdropWhile_notMem hslash), filter_rdropWhile]
    rfl

/-- Behind a dot and a slash there is nothing, or more parts. -/
theorem names_dot_intercalate {parts : List String} (h : ∀ p ∈ parts, '/' ∉ p.toList) :
    names ("." ++ "/".intercalate (("" :: parts).rdropWhile isUncounted)) =
      parts.filter (!isUncounted ·) := by
  have hall : ∀ p ∈ "" :: parts, '/' ∉ p.toList := by simpa using h
  have hslash := rdropWhile_notMem hall
  have hnames : names ("." ++ "/".intercalate (("" :: parts).rdropWhile isUncounted)) =
      (("" :: parts).rdropWhile isUncounted).filter (!isUncounted ·) := by
    obtain ⟨others, hothers⟩ := List.rdropWhile_prefix isUncounted ("" :: parts)
    cases hkept : ("" :: parts).rdropWhile isUncounted with
    | nil => simp [names, splitOn_slash, List.splitOn_cons_eq_if_modifyHead, isUncounted]
    | cons k ks =>
      rw [hkept] at hothers hslash
      obtain ⟨rfl, -⟩ := List.cons.inj hothers
      have hks : ks ≠ [] := by
        rintro rfl
        have hlast := List.rdropWhile_last_not isUncounted ("" :: parts) (by simp [hkept])
        simp [hkept, isUncounted] at hlast
      rw [String.intercalate_cons_of_ne_nil hks, String.empty_append, names_dot_append,
        names_intercalate fun p hp => hslash p (List.mem_cons_of_mem _ hp)]
      rfl
  rw [hnames, filter_rdropWhile]
  rfl

theorem leads_dot (hdot : path.startsWith "./" = true) (hparts : path.splitOn "/" = parts ++ [last])
    (hlast : isUncounted last = false) :
    ∃ dir, parent? path = some dir ∧ Leads path dir (parts.filter (!isUncounted ·)) := by
  have hroot : isAbsolute path = false := by
    obtain ⟨rest, rfl⟩ := startsWith_dot_iff.mp hdot
    rw [isAbsolute_append (by decide)]
    simp [isAbsolute]
  obtain ⟨rest, rfl⟩ := startsWith_dot_iff.mp hdot
  rw [splitOn_dot_append] at hparts
  obtain ⟨qs, rfl, hrest⟩ := first_of_append rfl hlast hparts
  have hslash : ∀ p ∈ qs, '/' ∉ p.toList := fun p hp =>
    slash_notMem (hrest ▸ List.mem_append_left _ hp)
  have hsplit : ("/" ++ rest).splitOn "/" = ("" :: qs) ++ [last] := by
    rw [splitOn_slash_append, hrest]
    rfl
  refine ⟨_, parent?_eq (by simp [hroot, hdot]) rfl hsplit hlast, ?_, ?_⟩
  · rw [hroot, isAbsolute_append (by decide)]
    simp [isAbsolute]
  · rw [names_dot_intercalate hslash]
    rfl

theorem leads_relative (hroot : isAbsolute path = false) (hdot : path.startsWith "./" = false)
    (hparts : path.splitOn "/" = parts ++ [last]) (hlast : isUncounted last = false) :
    ∃ dir, parent? path = some dir ∧ Leads path dir (parts.filter (!isUncounted ·)) := by
  have hslash : ∀ p ∈ parts, '/' ∉ p.toList := fun p hp =>
    slash_notMem (hparts ▸ List.mem_append_left _ hp)
  have hcurrent : path ≠ "." := by
    rintro rfl
    have hsplit : ".".splitOn "/" = ["."] := by
      simp [splitOn_slash, List.splitOn_cons_eq_if_modifyHead]
    rw [hsplit] at hparts
    obtain ⟨qs, -, hqs⟩ := first_of_append rfl hlast hparts
    simp at hqs
  have hparent : parent? path = some ("" ++ "/".intercalate (parts.rdropWhile isUncounted)) :=
    parent?_eq (by simp [hroot, hdot, hcurrent]) (by simp) hparts hlast
  rw [String.empty_append] at hparent
  refine ⟨_, hparent, ?_, ?_⟩
  · rw [hroot, Bool.eq_false_iff]
    intro habsolute
    obtain ⟨part, others, hsplit⟩ := isAbsolute_iff_splitOn.mp habsolute
    cases hkept : parts.rdropWhile isUncounted with
    | nil => simp [hkept, splitOn_slash] at hsplit
    | cons k ks =>
      -- An absolute directory would begin with the same two parts as the path.
      rw [splitOn_intercalate (rdropWhile_notMem hslash) (by simp [hkept])] at hsplit
      obtain ⟨more, hmore⟩ := List.rdropWhile_prefix isUncounted parts
      have hpath : path.splitOn "/" = "" :: part :: (others ++ (more ++ [last])) := by
        rw [hparts, ← hmore, hsplit]
        simp
      rw [isAbsolute_iff_splitOn.mpr ⟨_, _, hpath⟩] at hroot
      cases hroot
  · rw [names_intercalate (rdropWhile_notMem hslash), filter_rdropWhile]

/-- The directory that a file is in begins like its path, and has the steps in front of its name. -/
theorem parent?_leads (hparts : path.splitOn "/" = parts ++ [last]) (hlast : isUncounted last = false) :
    ∃ dir, parent? path = some dir ∧ Leads path dir (parts.filter (!isUncounted ·)) := by
  cases hroot : isAbsolute path with
  | true => exact leads_absolute hroot hparts hlast
  | false =>
    cases hdot : path.startsWith "./" with
    | true => exact leads_dot hdot hparts hlast
    | false => exact leads_relative hroot hdot hparts hlast

end

/-! ### Joining -/

/-- A relative path that is joined to a directory comes behind the steps of the directory. -/
theorem join_leads (dir : String) {path : String} (hrelative : isAbsolute path = false) :
    ∃ parts, (join dir path).splitOn "/" = parts ++ path.splitOn "/" ∧
      parts.filter (!isUncounted ·) = names dir ∧
        (path ≠ "" → join dir path ≠ "") ∧ isAbsolute (join dir path) = isAbsolute dir := by
  by_cases hempty : dir = ""
  · subst hempty
    have hroot : isAbsolute "" = false := by simp [isAbsolute]
    exact ⟨[], by simp [join], by simp [names, splitOn_slash, isUncounted], by simp [join],
      by simp [join, hrelative, hroot]⟩
  · cases hslash : dir.endsWith "/" with
    | true =>
      have hjoin : join dir path = dir ++ path := by simp [join, hrelative, hempty, hslash]
      obtain ⟨outer, rfl⟩ := endsWith_slash_iff.mp hslash
      refine ⟨outer.splitOn "/", ?_, ?_, ?_, ?_⟩
      · rw [hjoin, splitOn_append_slash]
      · have hsplit := splitOn_append_slash outer ""
        rw [String.append_empty] at hsplit
        rw [names, hsplit]
        simp [splitOn_slash, isUncounted]
      · rw [hjoin]
        simp
      · rw [hjoin, isAbsolute_append hempty]
    | false =>
      have hjoin : join dir path = dir ++ "/" ++ path := by simp [join, hrelative, hempty, hslash]
      refine ⟨dir.splitOn "/", ?_, rfl, ?_, ?_⟩
      · rw [hjoin, splitOn_append_slash]
      · rw [hjoin]
        simp
      · rw [hjoin, String.append_assoc, isAbsolute_append hempty]

theorem names_join (dir : String) {path : String} (hrelative : isAbsolute path = false) :
    names (join dir path) = names dir ++ names path := by
  obtain ⟨parts, hparts, hnames, -⟩ := join_leads dir hrelative
  rw [names, hparts, List.filter_append, hnames]
  rfl

/-- A component that is a name or leads to a directory around. -/
def Component.isStep : Component → Bool
  | .root | .current => false
  | .parent | .name _ => true

/-- The names of a path are among its components. -/
theorem length_steps (path : String) :
    ((components path).filter Component.isStep).length = (names path).length := by
  have hbody : ∀ ps : List String, ((ps.filterMap fun p =>
      if isUncounted p then none else some (if p == ".." then Component.parent else .name p)).filter
        Component.isStep).length = (ps.filter (!isUncounted ·)).length := by
    intro ps
    induction ps with
    | nil => rfl
    | cons p ps ih =>
      by_cases hp : isUncounted p = true
      · simpa [hp] using ih
      · by_cases hup : p = ".."
        · subst hup
          simpa [isUncounted, List.filter_cons, Component.isStep] using ih
        · simpa [hp, hup, List.filter_cons, Component.isStep] using ih
  have hparts := hbody (path.splitOn "/")
  unfold components
  dsimp only
  split
  · simpa [names, Component.isStep] using hparts
  · split
    · simpa [names, Component.isStep] using hparts
    · exact hparts

theorem length_names_of_same {a b : String} (h : same a b = true) :
    (names a).length = (names b).length := by
  rw [← length_steps a, ← length_steps b, eq_of_beq h]

end LoxLang.Path
