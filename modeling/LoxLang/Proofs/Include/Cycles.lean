import LoxLang.Proofs.Files.System
import LoxLang.Proofs.Include.Nesting

/-!
Includes that lead from a file back to the same file. Through whatever spellings of its path they do, the
expansion never succeeds: what a file includes does not depend on how its path is spelled, so the includes
lead back again and again. It is told as a fault when the path of a file comes that is being expanded
already. Where the spellings grow and no path is too long, no path comes twice, and the expansion goes on
for ever.
-/

namespace LoxLang.Include

/-- Includes lead from a text of some directory to a file with a text. -/
inductive Visits (s : Source) : String → List Char → String → String → Prop where
  | next {directory : String} {text : List Char} {i : Nat} {d : Directive} {path t : String} :
    directiveAt text i = some d → s.fetch directory d = .ok (path, t) → s.files.readText path = .ok t →
      Visits s directory text path t
  | further {directory : String} {text : List Char} {i : Nat} {d : Directive} {path t q u : String} :
    directiveAt text i = some d → s.fetch directory d = .ok (path, t) → s.files.readText path = .ok t →
      Visits s (home directory (some path)) t.toList q u → Visits s directory text q u

section

variable {s : Source} {n : Nat} {directory : String} {chain : List String} {text : List Char}

/-- The text of a directive has been expanded if the whole has. -/
theorem expandFrom_directive {e : Expansion} {i : Nat} {d : Directive} {path t : String}
    (h : expandFrom s n directory chain text = .ok e) (hd : directiveAt text i = some d)
    (hfetch : s.fetch directory d = .ok (path, t)) :
    ∃ m chain' e', m < n ∧ expandFrom s m (home directory (some path)) chain' t.toList = .ok e' := by
  cases n with
  | zero => cases h
  | succ n =>
    obtain ⟨⟨path', e'⟩, hr⟩ := (expands_of_expandFrom h).named_of_heading hd
    obtain ⟨t', hfetch', hexpand⟩ := included_eq_ok hr
    obtain ⟨rfl, rfl⟩ := Prod.mk.inj (Except.ok.inj (hfetch.symm.trans hfetch'))
    exact ⟨n, _, e', Nat.lt_succ_self n, hexpand⟩

/-- Every file that includes lead to has been expanded. -/
theorem Visits.expanded {e : Expansion} {path t : String} (hvisits : Visits s directory text path t)
    (h : expandFrom s n directory chain text = .ok e) :
    ∃ m chain' e', m < n ∧ expandFrom s m (home "" (some path)) chain' t.toList = .ok e' := by
  induction hvisits generalizing n chain e with
  | next hd hfetch _ =>
    obtain ⟨m, chain', e', hm, hexpand⟩ := expandFrom_directive h hd hfetch
    exact ⟨m, chain', e', hm, hexpand⟩
  | further hd hfetch _ _ ih =>
    obtain ⟨m, chain', e', hm, hexpand⟩ := expandFrom_directive h hd hfetch
    obtain ⟨k, chain'', e'', hk, hexpand'⟩ := ih hexpand
    exact ⟨k, chain'', e'', hk.trans hm, hexpand'⟩

theorem Visits.readText {path t : String} (h : Visits s directory text path t) :
    s.files.readText path = .ok t := by
  induction h with
  | next _ _ hread => exact hread
  | further _ _ _ _ ih => exact ih

theorem Source.file_eq_ok {path path' t : String} :
    s.file path = .ok (path', t) ↔ path' = path ∧ s.files.readText path = .ok t := by
  unfold Source.file
  cases s.files.readText path <;> simp [eq_comm]

/-- A directive for a file names a path that is not empty. -/
theorem Directive.path_ne_empty {line : List Char} {raw : String}
    (h : Directive.parse? line = some (.path raw)) : raw ≠ "" := by
  rintro rfl
  simp only [Directive.parse?, bind, Option.bind_eq_some_iff] at h
  obtain ⟨rest, -, first, -, h⟩ := h
  cases hblank : Text.isBlank first with
  | false => simp [hblank] at h
  | true =>
    simp only [hblank, Bool.not_true, Bool.false_eq_true, ↓reduceIte, Option.bind_eq_some_iff] at h
    obtain ⟨⟨first, inner, last⟩, -, h⟩ := h
    cases inner with
    | nil => simp at h
    | cons c cs =>
      -- The name between the delimiters has a first character.
      simp only [List.isEmpty_cons, Bool.false_eq_true, ↓reduceIte] at h
      split at h
      · simp at h
      · split at h
        · simp [String.ofList_eq_empty_iff] at h
        · cases h

end

/-! ### One file under two paths -/

/-- Includes are looked up in a file system and in a directory for libraries. -/
def sourceOf (fs : FileSystem) (includeDir : Option String) : Source :=
  ⟨fs.files, includeDir⟩

/-- Both paths lead to one file. -/
def SameFile (fs : FileSystem) (path path' : String) : Prop :=
  ∃ place, fs.LeadsTo path place ∧ fs.LeadsTo path' place

section

variable {fs : FileSystem} {includeDir : Option String} {directory path path' : String}

theorem exists_place {t : String} (h : fs.files.readText path = .ok t) :
    ∃ place, fs.LeadsTo path place := by
  simp only [Files.readText, FileSystem.files] at h
  cases hplace : fs.place path with
  | error reason => simp [hplace] at h
  | ok place =>
    cases hnode : fs.node? place with
    | none => simp [hplace, hnode] at h
    | some node =>
      cases node with
      | directory entries => simp [hplace, hnode] at h
      | file bytes => exact ⟨place, hplace, bytes, hnode⟩

theorem readText_congr (h : fs.place path' = fs.place path) :
    fs.files.readText path' = fs.files.readText path := by
  simp only [Files.readText, FileSystem.files, h]

theorem SameFile.trans {path'' : String} (h : SameFile fs path path') (h' : SameFile fs path' path'') :
    SameFile fs path path'' := by
  obtain ⟨place, hpath, hpath'⟩ := h
  obtain ⟨place', hpath'', hlast⟩ := h'
  obtain rfl := Except.ok.inj (hpath'.1.symm.trans hpath''.1)
  exact ⟨place, hpath, hlast⟩

/-- A directive in a file leads to the same file by whatever path the file itself was reached. -/
theorem SameFile.fetch (hsame : SameFile fs path path') {text : List Char} {i : Nat} {d : Directive}
    {q u : String} (hd : directiveAt text i = some d)
    (hfetch : (sourceOf fs includeDir).fetch (home directory (some path)) d = .ok (q, u))
    (hread : fs.files.readText q = .ok u) :
    ∃ q', (sourceOf fs includeDir).fetch (home directory (some path')) d = .ok (q', u) ∧
      fs.files.readText q' = .ok u ∧ SameFile fs q q' := by
  obtain ⟨target, hplace, hfile⟩ := exists_place hread
  cases d with
  | library name =>
    have hlibrary : (sourceOf fs includeDir).library name = .ok (q, u) := hfetch
    exact ⟨q, hlibrary, hread, target, ⟨hplace, hfile⟩, ⟨hplace, hfile⟩⟩
  | path raw =>
    obtain ⟨line, -, hparse⟩ := Option.bind_eq_some_iff.mp hd
    have hfile' : (sourceOf fs includeDir).file (Path.join (home directory (some path)) raw) =
        .ok (q, u) := hfetch
    obtain ⟨rfl, -⟩ := Source.file_eq_ok.mp hfile'
    have hjoin : fs.place (Path.join (home directory (some path')) raw) =
        fs.place (Path.join (home directory (some path)) raw) := by
      by_cases habsolute : Path.isAbsolute raw = true
      · simp [Path.join, habsolute]
      · have hrelative : Path.isAbsolute raw = false := Bool.eq_false_iff.mpr habsolute
        obtain ⟨place, hpath, hpath'⟩ := hsame
        obtain ⟨name, outer, rfl, houter, -⟩ := hpath.surrounds
        obtain ⟨name', outer', hcons, houter', -⟩ := hpath'.surrounds
        obtain ⟨-, rfl⟩ := List.cons.inj hcons
        have hne := Directive.path_ne_empty hparse
        exact (houter'.place_join hrelative hne).trans (houter.place_join hrelative hne).symm
    have hread' : fs.files.readText (Path.join (home directory (some path')) raw) = .ok u :=
      (readText_congr hjoin).trans hread
    exact ⟨_, Source.file_eq_ok.mpr ⟨rfl, hread'⟩, hread', target, ⟨hplace, hfile⟩,
      ⟨hjoin.trans hplace, hfile⟩⟩

/-- Where includes lead from a file does not depend on the path by which the file itself was reached. -/
theorem SameFile.visits (hsame : SameFile fs path path') {text : List Char} {q u : String}
    (h : Visits (sourceOf fs includeDir) (home directory (some path)) text q u) :
    ∃ q', Visits (sourceOf fs includeDir) (home directory (some path')) text q' u ∧ SameFile fs q q' := by
  generalize hhome : home directory (some path) = dir at h
  induction h generalizing path path' with
  | next hd hfetch hread =>
    subst hhome
    obtain ⟨q', hfetch', hread', hq⟩ := hsame.fetch hd hfetch hread
    exact ⟨q', .next hd hfetch' hread', hq⟩
  | further hd hfetch hread _ ih =>
    subst hhome
    obtain ⟨p', hfetch', hread', hp⟩ := hsame.fetch hd hfetch hread
    obtain ⟨q', hvisits, hq⟩ := ih hp rfl
    exact ⟨q', .further hd hfetch' hread' hvisits, hq⟩

/-- Includes lead from a text to a file, and from this file to itself again, by whatever paths. -/
def LeadsBack (fs : FileSystem) (includeDir : Option String) (directory : String) (text : List Char) :
    Prop :=
  ∃ path t path' t', Visits (sourceOf fs includeDir) directory text path t ∧
    Visits (sourceOf fs includeDir) (home directory (some path)) t.toList path' t' ∧
      SameFile fs path path'

/-- A file from which includes lead back to it is not expanded, under none of its paths. -/
theorem SameFile.not_expanded {t path' : String} (hsame : SameFile fs path path')
    (h : Visits (sourceOf fs includeDir) (home directory (some path)) t.toList path' t)
    {n : Nat} {p : String} {chain : List String} {e : Expansion} (hp : SameFile fs path p) :
    expandFrom (sourceOf fs includeDir) n (home directory (some p)) chain t.toList ≠ .ok e := by
  induction n using Nat.strong_induction_on generalizing p chain e with
  | _ n ih =>
    intro hexpand
    obtain ⟨q, hvisits, hq⟩ := hp.visits h
    obtain ⟨m, chain', e', hm, hexpand'⟩ := hvisits.expanded hexpand
    exact ih m hm (hsame.trans hq) hexpand'

theorem LeadsBack.not_expanded {text : List Char} (h : LeadsBack fs includeDir directory text) {n : Nat}
    {e : Expansion} : expandFrom (sourceOf fs includeDir) n directory [] text ≠ .ok e := by
  obtain ⟨path, t, path', t', hvisits, hback, hsame⟩ := h
  intro hexpand
  obtain ⟨m, chain', e', -, hexpand'⟩ := hvisits.expanded hexpand
  obtain ⟨place, hpath, hpath'⟩ := hsame
  have ht : t' = t := by
    have hread := @readText_congr fs _ _ (hpath'.1.trans hpath.1.symm)
    exact Except.ok.inj (hback.readText.symm.trans (hread.trans hvisits.readText))
  subst ht
  exact SameFile.not_expanded ⟨place, hpath, hpath'⟩ hback ⟨place, hpath, hpath⟩ hexpand'

end

/-- How includes end, where no path is too long. The expansion of a text ends exactly if it comes to finitely
many paths, and what it ends with is the same for every higher bound on the nesting. If includes lead from
some file back to the same file, through whatever spellings of its path, it never ends well. -/
theorem expansion_ends_iff_finitely_many_paths (fs : FileSystem) (includeDir : Option String)
    (directory : String) (text : List Char) :
    ((∃ n, Ended (expandFrom (sourceOf fs includeDir) n directory [] text)) ↔
      {path | Asks (sourceOf fs includeDir) directory [] text path}.Finite) ∧
    (∀ n m, Ended (expandFrom (sourceOf fs includeDir) n directory [] text) → n ≤ m →
      expandFrom (sourceOf fs includeDir) m directory [] text =
        expandFrom (sourceOf fs includeDir) n directory [] text) ∧
    (LeadsBack fs includeDir directory text → ∀ n, ∃ f,
      expandFrom (sourceOf fs includeDir) n directory [] text = .error f) := by
  refine ⟨ended_iff_finite, fun n m hended hle => expandFrom_more hended hle, fun hback n => ?_⟩
  cases hexpand : expandFrom (sourceOf fs includeDir) n directory [] text with
  | error f => exact ⟨f, rfl⟩
  | ok e => exact absurd hexpand hback.not_expanded

/-- In a tree of directories, where the system refuses long paths, every expansion ends. -/
theorem ended_in_tree (tree : FileNode) (includeDir : Option String) (directory : String)
    (text : List Char) : ∃ n, Ended (expandFrom ⟨tree.files, includeDir⟩ n directory [] text) := by
  apply ended_of_limited
  intro path t hread
  change path.utf8ByteSize < FileNode.maxPath
  by_contra hlong
  have hfind : ∃ reason, tree.find path = .error reason := by
    unfold FileNode.find
    split
    · exact ⟨_, rfl⟩
    · split
      · exact ⟨_, rfl⟩
      · exact ⟨.nameTooLong, by rw [if_pos (by omega)]⟩
  obtain ⟨reason, hreason⟩ := hfind
  simp [Files.readText, FileNode.files, hreason] at hread

/-! ### Includes that lead back and never end -/

/-- A file that includes itself by way of the directory around its own. -/
def detourText : String :=
  "include \"../d/a.lox\"\n"

def detour : FileSystem :=
  ⟨[("d", .directory [("a.lox", .file detourText.toUTF8.toList)])], []⟩

/-- The path to the file with one detour more. -/
def detourNext (directory path : String) : String :=
  Path.join (home directory (some path)) "../d/a.lox"

theorem detour_relative : Path.isAbsolute "../d/a.lox" = false := by
  decide +kernel

theorem detour_readText {path : String} (h : detour.LeadsTo path ["a.lox", "d"]) :
    detour.files.readText path = .ok detourText := by
  have hbytes : Text.decodeUtf8 detourText.toUTF8.toList = .ok detourText := by decide +kernel
  have hnode : detour.node? ["a.lox", "d"] = some (.file detourText.toUTF8.toList) := rfl
  simp only [Files.readText, FileSystem.files, h.1, hnode, hbytes]

theorem detour_splitOn : "../d/a.lox".splitOn "/" = ["..", "d", "a.lox"] := by
  rw [Path.splitOn_slash]
  decide +kernel

/-- With a detour more the path leads to the same file, and it is longer. -/
theorem detour_next (directory : String) {path : String} (h : detour.LeadsTo path ["a.lox", "d"]) :
    detour.LeadsTo (detourNext directory path) ["a.lox", "d"] ∧
      (FileNode.names (detourNext directory path)).length = (FileNode.names path).length + 2 := by
  obtain ⟨name, outer, hplace, houter, hnames⟩ := h.surrounds
  obtain ⟨rfl, rfl⟩ := List.cons.inj hplace
  constructor
  · have hfollow : detour.follow ["d"] ["..", "d", "a.lox"] = .ok ["a.lox", "d"] := rfl
    constructor
    · exact (houter.place_join detour_relative (by decide)).trans (detour_splitOn ▸ hfollow)
    · exact h.2
  · have hraw : FileNode.names "../d/a.lox" = ["..", "d", "a.lox"] := by
      simp [FileNode.names, detour_splitOn, Path.isUncounted]
    rw [detourNext, Path.names_join _ detour_relative, hnames, hraw]
    simp [home]

theorem detour_fetch (directory : String) {path : String} (h : detour.LeadsTo path ["a.lox", "d"]) :
    (sourceOf detour none).fetch (home directory (some path)) (.path "../d/a.lox") =
      .ok (detourNext directory path, detourText) :=
  Source.file_eq_ok.mpr ⟨rfl, detour_readText (detour_next directory h).1⟩

theorem detour_lines : Text.lines detourText.toList = [detourText.toList] := by
  decide +kernel

theorem detour_parse : Directive.parse? detourText.toList = some (.path "../d/a.lox") := by
  decide +kernel

theorem detour_visits (directory : String) {path : String} (h : detour.LeadsTo path ["a.lox", "d"]) :
    Visits (sourceOf detour none) (home directory (some path)) detourText.toList
      (detourNext directory path) detourText := by
  have hd : directiveAt detourText.toList 0 = some (.path "../d/a.lox") :=
    directiveAt_eq_some (by rw [heading, detour_lines]; rfl) detour_parse
  exact .next hd (detour_fetch directory h) (detour_readText (detour_next directory h).1)

/-- However many detours: an expansion comes to a path that has more of them. -/
theorem detour_asks (k : Nat) (directory : String) {path : String} {chain : List String}
    (h : detour.LeadsTo path ["a.lox", "d"])
    (hchain : ∀ p ∈ chain, (FileNode.names p).length ≤ (FileNode.names path).length) :
    ∃ q, Asks (sourceOf detour none) (home directory (some path)) chain detourText.toList q ∧
      k + (FileNode.names path).length < (FileNode.names q).length := by
  induction k generalizing directory path chain with
  | zero =>
    have hd : Reached (Done (sourceOf detour none) (home directory (some path)) chain)
        (Text.lines detourText.toList) (.path "../d/a.lox") := by
      rw [detour_lines]
      exact .here detour_parse
    have hlonger := (detour_next directory h).2
    exact ⟨_, .file hd (detour_fetch directory h), by omega⟩
  | succ k ih =>
    have hd : Reached (Done (sourceOf detour none) (home directory (some path)) chain)
        (Text.lines detourText.toList) (.path "../d/a.lox") := by
      rw [detour_lines]
      exact .here detour_parse
    obtain ⟨hnext, hlonger⟩ := detour_next directory h
    have hnew : chain.any (Path.same · (detourNext directory path)) = false := by
      rw [List.any_eq_false]
      intro p hp hsame
      have hlength := Path.length_names_of_same hsame
      have hshort := hchain p hp
      omega
    have hchain' : ∀ p ∈ detourNext directory path :: chain,
        (FileNode.names p).length ≤ (FileNode.names (detourNext directory path)).length := by
      intro p hp
      rcases List.mem_cons.mp hp with rfl | hp
      · exact Nat.le_refl _
      · have hshort := hchain p hp
        omega
    obtain ⟨q, hasks, hq⟩ := ih (home directory (some path)) hnext hchain'
    exact ⟨q, .inside hd (detour_fetch directory h) hnew hasks, by omega⟩

theorem detour_leadsTo : detour.LeadsTo "d/a.lox" ["a.lox", "d"] := by
  have hsplit : "d/a.lox".splitOn "/" = ["d", "a.lox"] := by
    rw [Path.splitOn_slash]
    decide +kernel
  have hrelative : Path.isAbsolute "d/a.lox" = false := by decide +kernel
  have hfollow : detour.follow [] ["d", "a.lox"] = .ok ["a.lox", "d"] := rfl
  have hplace : detour.place "d/a.lox" = .ok ["a.lox", "d"] := by
    simp only [FileSystem.place, FileSystem.start, hrelative, hsplit]
    exact hfollow
  exact ⟨hplace, _, rfl⟩

/-- The includes of a file lead back to it, and its expansion does not end with any bound on the nesting. -/
theorem detour_never_ends :
    LeadsBack detour none (home "" (some "d/a.lox")) detourText.toList ∧
      (¬∃ n, Ended (expandFrom (sourceOf detour none) n (home "" (some "d/a.lox")) []
        detourText.toList)) ∧
      ∀ n, ∃ f, expandFrom (sourceOf detour none) n (home "" (some "d/a.lox")) []
        detourText.toList = .error f := by
  obtain ⟨hends, -, hback⟩ := expansion_ends_iff_finitely_many_paths detour none
    (home "" (some "d/a.lox")) detourText.toList
  have hleads : LeadsBack detour none (home "" (some "d/a.lox")) detourText.toList := by
    obtain ⟨hnext, -⟩ := detour_next "" detour_leadsTo
    have hnext' := (detour_next "" hnext).1
    exact ⟨_, _, _, _, detour_visits "" detour_leadsTo, detour_visits "" hnext, _, hnext, hnext'⟩
  refine ⟨hleads, fun hended => ?_, hback hleads⟩
  have hfinite := (hends.mp hended).image fun path => (FileNode.names path).length
  obtain ⟨bound, hbound⟩ := hfinite.bddAbove
  obtain ⟨q, hasks, hq⟩ := @detour_asks bound "" "d/a.lox" [] detour_leadsTo (by simp)
  have hle : (FileNode.names q).length ≤ bound := hbound ⟨q, hasks, rfl⟩
  omega

end LoxLang.Include
