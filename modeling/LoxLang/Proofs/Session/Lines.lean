import LoxLang.Proofs.Include.Origins
import LoxLang.Proofs.Session.Faulty
import LoxLang.Proofs.Token.Rows

/-!
Where the faults of a file are reported that is run with its includes. Before a program begins, its faults are
found in the lines of the expanded text, or where that ends. Behind the heading of the file, they are told by
the lines of the file itself. Only the end of a finished text is behind all lines that have an origin: what is
found there is told by the line of the expanded text.
-/

namespace LoxLang

open Include (heading lineCount)
open Lexer (newlines)

namespace Session

variable {s : Session} {steps : Nat} {source : String}

/-- The places of a text, up to the line where it ends. -/
def reached (source : String) : Position → Position :=
  within (newlines source + 1)

theorem reached_line (source : String) (p : Position) : (reached source p).line ≤ newlines source := by
  unfold reached within
  split
  · omega
  · exact Nat.zero_le _

theorem tokens_reached (source : String) :
    (tokens source).map (Token.placed (reached source)) = tokens source := by
  refine (List.map_congr_left fun t ht => ?_).trans (List.map_id _)
  obtain ⟨hstart, hstop⟩ := tokens_reach source t ht
  unfold Token.placed reached
  rw [within_of_lt (Nat.lt_succ_of_le hstart), within_of_lt (Nat.lt_succ_of_le hstop)]
  rfl

theorem grammar_reach (source : String) (first : NodeId) :
    ∀ d ∈ (parse (tokens source) first).faults, d.position.line ≤ newlines source := by
  have hplaced := parse_placed (ended_tokens source) first (reached source)
  rw [tokens_reached] at hplaced
  intro d hd
  rw [hplaced] at hd
  obtain ⟨e, _, rfl⟩ := List.mem_map.mp hd
  exact reached_line source e.position

theorem scope_reach {d : Diagnostic} (first : NodeId)
    (hd : (resolve (parse (tokens source) first).statements).fault = some d) :
    d.position.line ≤ newlines source := by
  have hended := ended_tokens source
  have hplaced := parse_placed hended first (reached source)
  rw [tokens_reached] at hplaced
  have halike := placed_alike hended (tokens_words source)
    (S := ⟨fun _ _ => False, fun p _ => p.line ≤ newlines source⟩) (v := reached source)
    (w := reached source) (reached_line source) first first
  have hstatements : Move.stmts (.along first (reached source)) (parse (tokens source) 0).statements =
      (parse (tokens source) first).statements := (congrArg Parse.statements hplaced).symm
  rw [hstatements] at halike
  have hfault := (resolve_alike halike).2
  rw [hd] at hfault
  obtain ⟨hfault⟩ := hfault
  exact hfault.position

/-- Before a program begins, its faults are found at the latest where its text ends. -/
theorem static_reach {d : Diagnostic} (hd : d ∈ (s.run steps source).1.diagnostics)
    (hstatic : d.fault.isRuntime = false) : d.position.line ≤ newlines source := by
  rcases run_diagnostic hd with hlexical | hgrammar | hscope | ⟨hruntime, _⟩
  · exact lexicalFaults_reach source d hlexical
  · exact grammar_reach source s.nextId d hgrammar
  · exact scope_reach s.nextId hscope
  · simp [hstatic] at hruntime

end Session

/-! ### Lines of the file -/

/-- How a fault of an expanded text is told that stands behind the heading of the text. -/
structure ToldByOwnLine (text : List Char) (e : Include.Expansion) (d told : Diagnostic) : Prop where
  /-- The fault is in a line of the expanded text, or where that ends. -/
  reach : d.position.line ≤ lineCount e.source
  /-- In a line, it is told by the line of the text that this is. -/
  inside : d.position.line < lineCount e.source →
    told = ⟨⟨d.position.line - e.addedLines, d.position.column⟩, d.fault, none⟩ ∧
      (Text.rows text)[d.position.line - e.addedLines]? = (Text.rows e.source)[d.position.line]?
  /-- Behind all lines, it is told as it was found. -/
  behind : d.position.line = lineCount e.source → told = d
  /-- So it is told by the line of the text unless it is behind all lines and some were added. -/
  own : told.position.line = d.position.line - e.addedLines ↔
    d.position.line < lineCount e.source ∨ e.addedLines = 0

theorem toldByOwnLine {s : Include.Source} {directory text : String} {e : Include.Expansion}
    (h : Include.expand s directory text = .ok e) {d : Diagnostic}
    (hreach : d.position.line ≤ lineCount e.source)
    (hle : (heading text.toList).length + e.addedLines ≤ d.position.line) :
    ToldByOwnLine text.toList e d (d.relocate e.origins.toArray) := by
  have hinside : d.position.line < lineCount e.source →
      d.relocate e.origins.toArray = ⟨⟨d.position.line - e.addedLines, d.position.column⟩, d.fault, none⟩ ∧
        (Text.rows text.toList)[d.position.line - e.addedLines]? =
          (Text.rows e.source)[d.position.line]? := by
    intro hlt
    obtain ⟨horigin, hrow⟩ := Include.behind_heading h hle hlt
    refine ⟨?_, hrow⟩
    simp [Diagnostic.relocate, horigin]
  have hbehind : d.position.line = lineCount e.source → d.relocate e.origins.toArray = d := by
    intro heq
    have hnone : e.origins[d.position.line]? = none :=
      List.getElem?_eq_none (by rw [Include.length_expandFrom h, heq])
    simp [Diagnostic.relocate, hnone]
  refine ⟨hreach, hinside, hbehind, ?_⟩
  rcases Nat.lt_or_eq_of_le hreach with hlt | heq
  · rw [(hinside hlt).1]
    exact ⟨fun _ => .inl hlt, fun _ => rfl⟩
  · rw [hbehind heq]
    omega

/-- A file that can be run with its includes reports its static faults as the expanded text has them, and
those behind its heading by its own lines. Only a fault that is found where a finished text ends is told by the
line of the expanded text, which is another one as soon as lines were added. -/
theorem file_faults_told_by_own_lines (s : Session) (steps : Nat) (path : String) {text : String}
    {e : Include.Expansion} (hread : s.machine.files.readProgram path = .ok text)
    (hexpand : Include.expand s.source ((Path.parent? path).getD "") text = .ok e) :
    ∃ report, (s.runFile steps path).1 = .ok report ∧
      List.Forall₂ (fun d told => d.fault.isRuntime = false →
          (heading text.toList).length + e.addedLines ≤ d.position.line → ToldByOwnLine text.toList e d told)
        (s.run steps (String.ofList e.source)).1.diagnostics report.diagnostics := by
  have hfile := congrArg Prod.fst (Session.runFile_of_expand hread hexpand steps)
  refine ⟨_, hfile, ?_⟩
  rw [List.forall₂_map_right_iff, List.forall₂_same]
  intro d hd hstatic hle
  have hreach := (Session.static_reach hd hstatic).trans (newlines_le _)
  exact toldByOwnLine hexpand (by simpa [lineCount] using hreach) hle

/-- A file with a fault in its second line and one where it ends. The library that it includes has two lines
more than the directive. -/
def faultyFiles : Files :=
  .ofExplored [("m", .file "include <hello_world>\nprint 1 2;\nprint 3\n".toUTF8.toList)]

theorem file_faults_told_by_own_lines_and_at_the_end :
    let s := Session.new faultyFiles none [] default
    ∃ text e report, s.machine.files.readProgram "m" = .ok text ∧
      Include.expand s.source ((Path.parent? "m").getD "") text = .ok e ∧ e.addedLines = 2 ∧
      (s.runFile 9 "m").1 = .ok report ∧ report.diagnostics.map (fun d => d.position.line) = [1, 5] ∧
      List.Forall₂ (fun d told => d.fault.isRuntime = false →
          (heading text.toList).length + e.addedLines ≤ d.position.line → ToldByOwnLine text.toList e d told)
        (s.run 9 (String.ofList e.source)).1.diagnostics report.diagnostics := by
  intro s
  have hread : s.machine.files.readProgram "m" =
      .ok "include <hello_world>\nprint 1 2;\nprint 3\n" := by decide +kernel
  obtain ⟨e, hexpand, hadded⟩ : ∃ e, Include.expand s.source ((Path.parent? "m").getD "")
      "include <hello_world>\nprint 1 2;\nprint 3\n" = .ok e ∧ e.addedLines = 2 := ⟨_, rfl, by decide +kernel⟩
  obtain ⟨report, hfile, htold⟩ := file_faults_told_by_own_lines s 9 "m" hread hexpand
  have hlines : (match (s.runFile 9 "m").1 with
      | .ok report => report.diagnostics.map fun d => d.position.line
      | .error _ => []) = [1, 5] := by decide +kernel
  rw [hfile] at hlines
  exact ⟨_, e, report, hread, hexpand, hadded, hfile, hlines, htold⟩

end LoxLang
