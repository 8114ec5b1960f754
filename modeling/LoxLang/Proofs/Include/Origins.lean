import LoxLang.Proofs.Include.Expands

/-!
The origins of an expansion are those of its lines. Every line of the expanded text is the line of a file
that its origin says it is; only for a directive that names an empty text it is an empty line. Of the given
text, every line that is not replaced is there once, and in order.
-/

namespace LoxLang.Include

open Text (Cut Finished row rows)

/-! ### Files and directives -/

/-- A file of an expansion has some text: the file is the given text itself, a file that can be read, or a
library that comes with the language. -/
inductive Source.Holds (s : Source) (text : List Char) : Option String → List Char → Prop where
  | own : Holds s text none text
  | file {path t : String} : s.files.readText path = .ok t → Holds s text (some path) t.toList
  | bundled {name t : String} : bundled.lookup name = some t →
    Holds s text (some ("<" ++ name ++ ">")) t.toList

/-- The directory in which a file of an expansion has its includes looked up. -/
def home (directory : String) : Option String → String
  | none => directory
  | some path => (Path.parent? path).getD ""

/-- A directive in a file of some directory names the empty text. -/
def Source.NamesNothing (s : Source) (directory : String) (d : Directive) : Prop :=
  ∃ path, s.fetch directory d = .ok (path, "")

/-- A line of an expansion, without its terminator, is what stands at its origin. There it is no directive
that is replaced; or it is one that names nothing, and the line is empty. -/
inductive Traced (s : Source) (directory : String) (text : List Char) : List Char → Origin → Prop where
  | copied {line t : List Char} {o : Origin} :
    s.Holds text o.file t → (rows t)[o.line]? = some line → directiveAt t o.line = none →
      Traced s directory text line o
  | emptied {t : List Char} {o : Origin} {d : Directive} :
    s.Holds text o.file t → directiveAt t o.line = some d → s.NamesNothing (home directory o.file) d →
      Traced s directory text [] o

/-- What an expansion says about its lines is true. -/
structure Expansion.Faithful (s : Source) (directory : String) (text : List Char) (e : Expansion) :
    Prop where
  /-- Every line has one origin. -/
  count : e.origins.length = lineCount e.source
  traced : ∀ (i : Nat) (line : List Char) (o : Origin), (rows e.source)[i]? = some line →
    e.origins[i]? = some o → Traced s directory text line o
  /-- The lines of the text itself come in order, and none comes twice. -/
  ordered : (e.origins.filterMap Origin.own?).Pairwise (· < ·)
  /-- The lines of the text itself are all but the directives that stand for some text. -/
  own : ∀ l, l ∈ e.origins.filterMap Origin.own? ↔
    l < lineCount text ∧ ∀ d, directiveAt text l = some d → s.NamesNothing directory d
  /-- The added lines are what the expansion has more than the text. -/
  added : lineCount e.source = lineCount text + e.addedLines
  /-- A text that stands for nothing is empty itself. -/
  empty : e.source = [] ↔ text = []

variable {s : Source} {directory : String} {text : List Char}

theorem Source.holds_of_fetch {d : Directive} {path t : String} (h : s.fetch directory d = .ok (path, t)) :
    s.Holds text (some path) t.toList := by
  have hfile : ∀ {p}, s.file p = .ok (path, t) → s.Holds text (some path) t.toList := by
    intro p hp
    unfold Source.file at hp
    split at hp
    next t' hread =>
      obtain ⟨rfl, rfl⟩ := Prod.mk.inj (Except.ok.inj hp)
      exact .file hread
    next => cases hp
  have hbundled : ∀ {name}, bundledLibrary name = .ok (path, t) → s.Holds text (some path) t.toList := by
    intro name hname
    unfold bundledLibrary at hname
    dsimp only at hname
    split at hname
    next t' hlookup =>
      obtain ⟨rfl, rfl⟩ := Prod.mk.inj (Except.ok.inj hname)
      exact .bundled hlookup
    next => cases hname
  cases d with
  | path raw => exact hfile h
  | library name =>
    simp only [Source.fetch, Source.library] at h
    split at h
    next => exact hbundled h
    next =>
      split at h
      · exact hfile h
      · exact hfile h
      · exact hbundled h

/-- The lines of an included text are traced in the text that includes it. -/
theorem Traced.included {d : Directive} {path t : String} (hfetch : s.fetch directory d = .ok (path, t))
    {line : List Char} {o : Origin} (h : Traced s (home directory (some path)) t.toList line o) :
    Traced s directory text line ⟨some (o.file.getD path), o.line⟩ := by
  obtain ⟨file, l⟩ := o
  have hholds : ∀ {t'}, s.Holds t.toList file t' → s.Holds text (some (file.getD path)) t' := by
    intro t' ht
    cases ht with
    | own => exact s.holds_of_fetch hfetch
    | file hread => exact .file hread
    | bundled hlookup => exact .bundled hlookup
  have hhome : home directory (some (file.getD path)) = home (home directory (some path)) file := by
    cases file <;> rfl
  cases h with
  | copied ht hline hnone => exact .copied (hholds ht) hline hnone
  | emptied ht hd hnothing => exact .emptied (hholds ht) hd (hhome ▸ hnothing)

/-! ### Nested expansions -/

/-- What a directive is replaced by, for a bound on the nesting and the files it stands in. -/
def included (s : Source) (n : Nat) (directory : String) (chain : List String) (d : Directive) :
    Except Fault (String × Expansion) := do
  let (path, text) ← s.fetch directory d
  if chain.any (Path.same · path) then throw ⟨.circular, path⟩
  let e ← expandFrom s n ((Path.parent? path).getD "") (path :: chain) text.toList
  return (path, e)

theorem included_eq_ok {n : Nat} {chain : List String} {d : Directive} {path : String} {e : Expansion}
    (h : included s n directory chain d = .ok (path, e)) :
    ∃ t, s.fetch directory d = .ok (path, t) ∧
      expandFrom s n (home directory (some path)) (path :: chain) t.toList = .ok e := by
  unfold included at h
  cases hfetch : s.fetch directory d with
  | error f => simp [hfetch, bind, Except.bind] at h
  | ok r =>
    obtain ⟨path', t⟩ := r
    simp only [hfetch, bind, Except.bind] at h
    split at h
    next => cases h
    next =>
      cases hexpand : expandFrom s n ((Path.parent? path').getD "") (path' :: chain) t.toList with
      | error f => simp [hexpand] at h
      | ok e' =>
        simp only [hexpand, pure, Except.pure, Except.ok.injEq, Prod.mk.injEq] at h
        obtain ⟨rfl, rfl⟩ := h
        exact ⟨t, rfl, hexpand⟩

theorem included_eq {n : Nat} {chain : List String} {d : Directive} {path t : String} {e : Expansion}
    (hfetch : s.fetch directory d = .ok (path, t)) (hchain : chain.any (Path.same · path) = false)
    (hexpand : expandFrom s n (home directory (some path)) (path :: chain) t.toList = .ok e) :
    included s n directory chain d = .ok (path, e) := by
  have hexpand' : expandFrom s n ((Path.parent? path).getD "") (path :: chain) t.toList = .ok e := hexpand
  simp [included, hfetch, hchain, hexpand', bind, Except.bind, pure, Except.pure]

section

variable {n : Nat} {chain : List String} {e : Expansion}

theorem expands_of_expandFrom (h : expandFrom s (n + 1) directory chain text = .ok e) :
    Expands (included s n directory chain) 0 (Text.lines text) e :=
  expands_of_ok h

theorem expandFrom_of_expands {ls : List (List Char)} (hlines : Text.lines text = ls)
    (h : Expands (included s n directory chain) 0 ls e) :
    expandFrom s (n + 1) directory chain text = .ok e := by
  subst hlines
  exact h.expandLines_eq

theorem expandFrom_eq_nil_iff (h : expandFrom s n directory chain text = .ok e) :
    e.source = [] ↔ text = [] := by
  cases n with
  | zero => cases h
  | succ n =>
    rw [(expands_of_expandFrom h).eq_nil_iff (Text.cut_lines text), ← lineCount_eq_zero, lineCount,
      List.length_eq_zero_iff]

theorem directiveAt_eq_some {i : Nat} {line : List Char} {d : Directive}
    (hline : (heading text)[i]? = some line) (hd : Directive.parse? line = some d) :
    directiveAt text i = some d := by
  simp [directiveAt, hline, hd]

theorem namesNothing_of_included {d : Directive} {path : String}
    (h : included s n directory chain d = .ok (path, e)) (hempty : e.source = []) :
    s.NamesNothing directory d := by
  obtain ⟨t, hfetch, hexpand⟩ := included_eq_ok h
  have ht : t = "" := String.toList_eq_nil_iff.mp ((expandFrom_eq_nil_iff hexpand).mp hempty)
  exact ⟨path, ht ▸ hfetch⟩

/-- Every line of an expansion is traced: what is included is traced in its file, by induction on how deep
it may be nested. -/
theorem expandFrom_traced (h : expandFrom s n directory chain text = .ok e) :
    List.Forall₂ (Traced s directory text) (rows e.source) e.origins := by
  induction n generalizing directory chain text e with
  | zero => cases h
  | succ n ih =>
    refine (expands_of_expandFrom h).forall₂_origins (Text.cut_lines text) ⟨?_, ?_⟩
    · intro i line hline hnone
      refine .copied .own ?_ ?_
      · simpa [rows] using ⟨line, hline, rfl⟩
      · rwa [Nat.zero_add]
    · intro i line d path e' hline hd hincluded
      obtain ⟨t, hfetch, hexpand⟩ := included_eq_ok hincluded
      refine forall₂_splice (ih hexpand) (fun line o ho => ho.included hfetch) fun hempty => ?_
      refine .emptied .own (directiveAt_eq_some ?_ hd) (namesNothing_of_included hincluded hempty)
      rwa [Nat.zero_add]

theorem length_expandFrom (h : expandFrom s n directory chain text = .ok e) :
    e.origins.length = lineCount e.source := by
  rw [← (expandFrom_traced h).length_eq, length_rows]

theorem traced_of_getElem? (h : expandFrom s n directory chain text = .ok e) {i : Nat} {line : List Char}
    {o : Origin} (hline : (rows e.source)[i]? = some line) (ho : e.origins[i]? = some o) :
    Traced s directory text line o := by
  obtain ⟨hi, rfl⟩ := List.getElem?_eq_some_iff.mp hline
  obtain ⟨hi', rfl⟩ := List.getElem?_eq_some_iff.mp ho
  exact (expandFrom_traced h).get hi hi'

/-- A line of the text stays if it is no directive or one that names nothing. -/
theorem stays_iff (h : expandFrom s (n + 1) directory chain text = .ok e) (i : Nat) :
    Expands.Stays (included s n directory chain) (Text.lines text) i ↔
      i < lineCount text ∧ ∀ d, directiveAt text i = some d → s.NamesNothing directory d := by
  refine and_congr_right fun _ => forall_congr' fun d => imp_congr_right fun hd => ?_
  constructor
  · rintro ⟨path, e', hincluded, hempty⟩
    obtain ⟨t, hfetch, hexpand⟩ := included_eq_ok hincluded
    refine namesNothing_of_included hincluded (lineCount_eq_zero.mp ?_)
    rw [← length_expandFrom hexpand, hempty]
    rfl
  · rintro ⟨path, hfetch⟩
    obtain ⟨⟨path', e'⟩, hincluded⟩ := (expands_of_expandFrom h).named_of_heading hd
    obtain ⟨t, hfetch', hexpand⟩ := included_eq_ok hincluded
    obtain ⟨rfl, rfl⟩ := Prod.mk.inj (Except.ok.inj (hfetch.symm.trans hfetch'))
    have hsource : e'.source = [] := (expandFrom_eq_nil_iff hexpand).mpr rfl
    refine ⟨path, e', hincluded, List.length_eq_zero_iff.mp ?_⟩
    rw [length_expandFrom hexpand, hsource]
    rfl

/-- Behind the heading, the lines are those of the text itself, lower by the lines that were added. -/
theorem behind_heading (h : expandFrom s (n + 1) directory chain text = .ok e) {i : Nat}
    (hle : (heading text).length + e.addedLines ≤ i) (hlt : i < lineCount e.source) :
    e.origins[i]? = some ⟨none, i - e.addedLines⟩ ∧
      (rows text)[i - e.addedLines]? = (rows e.source)[i]? := by
  have horigin : e.origins[i]? = some ⟨none, i - e.addedLines⟩ := by
    rw [(expands_of_expandFrom h).origin_behind (Text.cut_lines text) ?_ hle hlt, Nat.zero_add]
    intro d path e' hincluded
    obtain ⟨t, _, hexpand⟩ := included_eq_ok hincluded
    exact length_expandFrom hexpand
  have hrow : i < (rows e.source).length := by rwa [length_rows]
  obtain ⟨line, hline⟩ : ∃ line, (rows e.source)[i]? = some line := ⟨_, List.getElem?_eq_getElem hrow⟩
  refine ⟨horigin, ?_⟩
  rw [hline]
  cases traced_of_getElem? h hline horigin with
  | copied hholds hown _ =>
    cases hholds
    exact hown
  | emptied hholds hd _ =>
    cases hholds
    have hbeyond : (heading text).length ≤ i - e.addedLines := by omega
    simp [directiveAt, List.getElem?_eq_none hbeyond] at hd

end

/-- The origins of an expansion are those of its lines, and the lines that were added are counted. -/
theorem expand_faithful {text : String} {e : Expansion} (h : expand s directory text = .ok e) :
    e.Faithful s directory text.toList := by
  have hexpands := expands_of_expandFrom h
  have hcut := Text.cut_lines text.toList
  refine ⟨length_expandFrom h, fun i line o => traced_of_getElem? h, hexpands.pairwise_own.2, ?_,
    hexpands.lineCount_source hcut, expandFrom_eq_nil_iff h⟩
  intro l
  rw [hexpands.mem_own]
  simp only [Nat.zero_add, exists_eq_left', stays_iff h]

/-- A relative path has other steps than an absolute one. -/
theorem not_same_absolute {a b : String} (ha : Path.isAbsolute a = false) (hb : Path.isAbsolute b = true) :
    Path.same a b = false := by
  have hnames : ∀ ps : List String, Path.Component.root ∉ ps.filterMap fun p =>
      if Path.isUncounted p then none else some (if p == ".." then .parent else .name p) := by
    intro ps hmem
    obtain ⟨p, _, hp⟩ := List.mem_filterMap.mp hmem
    split at hp
    · cases hp
    · split at hp <;> cases hp
  have hrelative : Path.Component.root ∉ Path.components a := by
    unfold Path.components
    simp only [ha, Bool.false_eq_true, if_false]
    split
    · exact List.not_mem_cons_of_ne_of_not_mem (by decide) (hnames _)
    · exact hnames _
  have habsolute : Path.Component.root ∈ Path.components b := by
    unfold Path.components
    simp only [hb, if_true]
    exact List.mem_cons_self
  exact beq_eq_false_iff_ne.mpr fun heq => hrelative (heq ▸ habsolute)

/-- Files of which the first includes the second, and the third is empty. -/
def nestedFiles : Source :=
  ⟨.ofExplored [("a", .file "include '/b'\nvar y = 2;".toUTF8.toList),
    ("/b", .file "var x = 1;\n".toUTF8.toList), ("c", .file [])], none⟩

def nestedText : String :=
  "\ninclude 'a'\ninclude 'c'\ninclude <hello_world>\nprint x + y;"

theorem expand_nested : ∃ e, expand nestedFiles "" nestedText = .ok e ∧ e.addedLines = 3 ∧
    e.origins = [⟨none, 0⟩, ⟨some "/b", 0⟩, ⟨some "a", 1⟩, ⟨none, 2⟩, ⟨some "<hello_world>", 0⟩,
      ⟨some "<hello_world>", 1⟩, ⟨some "<hello_world>", 2⟩, ⟨none, 4⟩] := by
  have hsame : Path.same "a" "/b" = false := not_same_absolute (by decide +kernel) (by decide +kernel)
  have hb : included nestedFiles 99998 (home "" (some "a")) ["a"] (.path "/b") =
      .ok ("/b", ⟨["var x = 1;\n".toList].flatten, 0, [⟨none, 0⟩]⟩) :=
    included_eq (t := "var x = 1;\n") (by decide +kernel) (by simp [hsame])
      (expandFrom_of_expands (by decide +kernel) (.body (by decide +kernel)))
  have ha : included nestedFiles 99999 "" [] (.path "a") =
      .ok ("a", ⟨"var x = 1;\nvar y = 2;".toList, 0, [⟨some "/b", 0⟩, ⟨none, 1⟩]⟩) := by
    have hlines : Text.lines "include '/b'\nvar y = 2;".toList =
        ["include '/b'\n".toList, "var y = 2;".toList] := by decide +kernel
    exact included_eq (t := "include '/b'\nvar y = 2;") (by decide +kernel) rfl
      (expandFrom_of_expands hlines (.directive (by decide +kernel) hb (.body (by decide +kernel))))
  have hc : included nestedFiles 99999 "" [] (.path "c") = .ok ("c", ⟨[], 0, []⟩) :=
    included_eq (t := "") (by decide +kernel) rfl (expandFrom_of_expands rfl .nil)
  have hlibrary : included nestedFiles 99999 "" [] (.library "hello_world") =
      .ok ("<hello_world>", ⟨["fun hello_world() \x7b\n".toList, "    print \"Hello, world!\";\n".toList,
        "\x7d\n".toList].flatten, 0, [⟨none, 0⟩, ⟨none, 1⟩, ⟨none, 2⟩]⟩) :=
    included_eq (t := "fun hello_world() \x7b\n    print \"Hello, world!\";\n\x7d\n") (by decide +kernel) rfl
      (expandFrom_of_expands (by decide +kernel) (.body (by decide +kernel)))
  have hlines : Text.lines nestedText.toList = ["\n".toList, "include 'a'\n".toList, "include 'c'\n".toList,
      "include <hello_world>\n".toList, "print x + y;".toList] := by decide +kernel
  exact ⟨_, expandFrom_of_expands hlines (.blank (by decide +kernel) (.directive (by decide +kernel) ha
    (.directive (by decide +kernel) hc (.directive (by decide +kernel) hlibrary (.body (by decide +kernel)))))),
    by decide +kernel, by decide +kernel⟩

theorem expand_faithful_nested : ∃ e, expand nestedFiles "" nestedText = .ok e ∧ e.addedLines = 3 ∧
    e.Faithful nestedFiles "" nestedText.toList := by
  obtain ⟨e, he, hadded, _⟩ := expand_nested
  exact ⟨e, he, hadded, expand_faithful he⟩

end LoxLang.Include
