import LoxLang.Proofs.Include.Expanded
import LoxLang.Proofs.Scope.Enforced
import LoxLang.Proofs.Session.Lines

/-!
Files with nothing to expand. What they report is told at the places where it was found, for a run by itself
names no file, and every line is its own origin. So they are run as they are.
-/

namespace LoxLang

open Include (Bare Expansion unexpanded lineCount)

/-! ### Reports name no file -/

theorem Lexer.Scans.file {start : Position} {cs : List Char} {items : List (Except Diagnostic Token)}
    (h : Lexer.Scans start cs items) {d : Diagnostic} (hd : .error d ∈ items) : d.file = none := by
  induction h with
  | done => simp at hd
  | @piece start c cs items _ ih =>
    rcases List.mem_append.mp hd with hmem | hmem
    · unfold Lexer.Cut.items at hmem
      cases hpiece : (Lexer.cut c cs).piece with
      | gap | token => simp [hpiece] at hmem
      | fault cause =>
        rw [hpiece] at hmem
        cases List.mem_singleton.mp hmem
        rfl
    · exact ih hmem

theorem lexicalFaults_file (source : String) : ∀ d ∈ lexicalFaults source, d.file = none := by
  intro d hd
  obtain ⟨item, hitem, hfault⟩ := List.mem_filterMap.mp hd
  cases item with
  | ok t => cases hfault
  | error e =>
    cases hfault
    exact (scan_scans source).file hitem

namespace Session

/-- Only files that are put together have others to name. -/
theorem run_file {s : Session} {steps : Nat} {source : String} {d : Diagnostic}
    (hd : d ∈ (s.run steps source).1.diagnostics) : d.file = none := by
  rcases run_diagnostic hd with hlexical | hgrammar | hscope | ⟨_, hruntime⟩
  · exact lexicalFaults_file source d hlexical
  · exact (parse_grammar (tokens_words source) s.nextId d hgrammar).2
  · obtain ⟨violation, _, rfl⟩ := breaks_of_fault hscope
    rfl
  · exact hruntime

/-! ### Files that are run as they are -/

theorem relocate_unexpanded {d : Diagnostic} (hd : d.file = none) (ls : List (List Char)) :
    d.relocate (unexpanded 0 ls).origins.toArray = d := by
  obtain ⟨position, fault, file⟩ := d
  obtain rfl : file = none := hd
  unfold Diagnostic.relocate unexpanded
  by_cases hline : position.line < ls.length
  · simp [hline]
  · simp [hline]

theorem expand_bare {text : String} (h : Bare (Text.lines text.toList)) (s : Include.Source)
    (directory : String) : Include.expand s directory text = .ok (unexpanded 0 (Text.lines text.toList)) :=
  h.expandFrom

theorem runFile_bare {s : Session} {path text : String}
    (hread : s.machine.files.readProgram path = .ok text) (hbare : Bare (Text.lines text.toList))
    (steps : Nat) : s.runFile steps path = (.ok (s.run steps text).1, (s.run steps text).2) := by
  have hsource : String.ofList (unexpanded 0 (Text.lines text.toList)).source = text := by
    simp [unexpanded, Text.flatten_lines]
  have hsame : (s.run steps text).1.diagnostics.map
      (Diagnostic.relocate (unexpanded 0 (Text.lines text.toList)).origins.toArray) =
        (s.run steps text).1.diagnostics :=
    (List.map_congr_left fun d hd => relocate_unexpanded (run_file hd) _).trans (List.map_id _)
  rw [runFile_of_expand hread (expand_bare hbare _ _) steps, hsource, hsame]

end Session

/-- An expanded text has nothing left to expand: whatever there is to include, and wherever the text stands, it
is expanded to itself, no line is added, every line is its own origin, and no directive is come to. So a file
whose first line that is not blank is no directive runs in every session as its text does by itself. -/
theorem expansion_is_idempotent :
    (∀ (s : Include.Source) (directory text : String) (e : Expansion),
      Include.expand s directory text = .ok e →
        ∀ (s' : Include.Source) (directory' : String),
          Include.expand s' directory' (String.ofList e.source) =
              .ok ⟨e.source, 0, (List.range (lineCount e.source)).map fun i => ⟨none, i⟩⟩ ∧
            ∀ d, ¬Include.Reached (Include.Done s' directory' []) (Text.lines e.source) d) ∧
      ∀ (s : Session) (path text : String), s.machine.files.readProgram path = .ok text →
        Bare (Text.lines text.toList) →
          ∀ steps, s.runFile steps path = (.ok (s.run steps text).1, (s.run steps text).2) := by
  constructor
  · intro s directory text e hexpand s' directory'
    have hbare : Bare (Text.lines e.source) := Include.bare_of_expandFrom hexpand
    constructor
    · have hbare' : Bare (Text.lines (String.ofList e.source).toList) := by simpa using hbare
      have hagain := Session.expand_bare hbare' s' directory'
      simpa [unexpanded, Text.flatten_lines, lineCount, List.range_eq_range'] using hagain
    · exact fun d => hbare.not_reached
  · exact fun s path text hread hbare steps => Session.runFile_bare hread hbare steps

/-- A file whose directive stands behind a statement. -/
def bareFiles : Files :=
  .ofExplored [("m", .file "\nprint 1 2;\ninclude <hello_world>\n".toUTF8.toList)]

theorem expansion_is_idempotent_nested :
    (∃ e, Include.expand Include.nestedFiles "" Include.nestedText = .ok e ∧ e.addedLines = 3 ∧
      Include.expand ⟨bareFiles, none⟩ "b" (String.ofList e.source) =
        .ok ⟨e.source, 0, (List.range (lineCount e.source)).map fun i => ⟨none, i⟩⟩) ∧
      let s := Session.new bareFiles none [] default
      let text := "\nprint 1 2;\ninclude <hello_world>\n"
      s.machine.files.readProgram "m" = .ok text ∧ Bare (Text.lines text.toList) ∧
        s.runFile 9 "m" = (.ok (s.run 9 text).1, (s.run 9 text).2) := by
  constructor
  · obtain ⟨e, hexpand, hadded, _⟩ := Include.expand_nested
    exact ⟨e, hexpand, hadded, (expansion_is_idempotent.1 _ _ _ e hexpand ⟨bareFiles, none⟩ "b").1⟩
  · intro s text
    have hread : s.machine.files.readProgram "m" = .ok text := by decide +kernel
    have hbare : Bare (Text.lines text.toList) := by decide +kernel
    exact ⟨hread, hbare, expansion_is_idempotent.2 s "m" text hread hbare 9⟩

end LoxLang
