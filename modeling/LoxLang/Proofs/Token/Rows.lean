import LoxLang.Proofs.Text.Lines
import LoxLang.Proofs.Token.Partition

/-!
The lines in which the tokens of a text stand. Every token but the end of the file begins in a line of the
text; it ends, and faults are reported, at the latest where the text ends, which is behind its last line if
that is finished.
-/

namespace LoxLang

open Lexer (Scans token? fault? newlines)

namespace Lexer

/-- The item stands in the first lines, up to the one with a number. -/
def Reaches (n : Nat) : Except Diagnostic Token → Prop
  | .ok t => t.span.start.line ≤ n ∧ t.span.stop.line ≤ n
  | .error d => d.position.line ≤ n

theorem Reaches.widen {n m : Nat} {item : Except Diagnostic Token} (h : Reaches n item) (hle : n ≤ m) :
    Reaches m item := by
  cases item with
  | ok t => exact ⟨Nat.le_trans h.1 hle, Nat.le_trans h.2 hle⟩
  | error d => exact Nat.le_trans h hle

theorem items_reach (start : Position) (x : Cut) :
    ∀ item ∈ x.items start, Reaches (start.advance x.taken).line item := by
  have hstart : start.line ≤ (start.advance x.taken).line := by
    rw [advance_line]
    exact Nat.le_add_right _ _
  intro item hitem
  unfold Cut.items at hitem
  cases hpiece : x.piece with
  | gap => simp [hpiece] at hitem
  | token kind literal =>
    simp only [hpiece, List.mem_singleton] at hitem
    subst hitem
    exact ⟨hstart, Nat.le_refl _⟩
  | fault cause =>
    simp only [hpiece, List.mem_singleton] at hitem
    subst hitem
    cases cause with
    | unsupported c => exact hstart
    | unterminatedString => exact Nat.le_refl _
    | unterminatedComment => exact Nat.le_refl _

/-- No item stands behind the end of the text. -/
theorem Scans.reach {start : Position} {cs : List Char} {items : List (Except Diagnostic Token)}
    (h : Scans start cs items) : ∀ item ∈ items, Reaches (start.line + cs.count '\n') item := by
  induction h with
  | done start =>
    intro item hitem
    obtain rfl := List.mem_singleton.mp hitem
    exact ⟨Nat.le_add_right _ _, Nat.le_add_right _ _⟩
  | @piece start c cs items _ ih =>
    have hcount : (c :: cs).count '\n' = (cut c cs).taken.count '\n' + (cut c cs).rest.count '\n' := by
      rw [← (cut_from c cs).text, List.count_append]
    intro item hitem
    rcases List.mem_append.mp hitem with hmem | hmem
    · refine (items_reach start _ item hmem).widen ?_
      rw [advance_line]
      omega
    · refine (ih item hmem).widen ?_
      rw [advance_line]
      omega

end Lexer

theorem tokens_reach (source : String) : ∀ t ∈ tokens source,
    t.span.start.line ≤ newlines source ∧ t.span.stop.line ≤ newlines source := by
  intro t ht
  obtain ⟨item, hitem, htoken⟩ := List.mem_filterMap.mp ht
  have hreach := (scan_scans source).reach item hitem
  cases item with
  | error d => cases htoken
  | ok u =>
    cases htoken
    simpa [Lexer.Reaches, newlines, Position.start] using hreach

theorem lexicalFaults_reach (source : String) : ∀ d ∈ lexicalFaults source,
    d.position.line ≤ newlines source := by
  intro d hd
  obtain ⟨item, hitem, hfault⟩ := List.mem_filterMap.mp hd
  have hreach := (scan_scans source).reach item hitem
  cases item with
  | ok t => cases hfault
  | error e =>
    cases hfault
    simpa [Lexer.Reaches, newlines, Position.start] using hreach

/-- Every item of a text but its last one is that of a part of the text. -/
theorem exists_part {source : String} {item : Except Diagnostic Token} (h : item ∈ (scan source).toList) :
    (∃ (front : List Lexis.Part) (part : Lexis.Part) (rest : List Lexis.Part), part.item? = some item ∧
      source.toList = front.flatMap Lexis.Part.text ++ (part.text ++ rest.flatMap Lexis.Part.text) ∧
        part.Fits (front.flatMap Lexis.Part.text) (rest.flatMap Lexis.Part.text)) ∨
      ∃ line, item = .ok (.endOfFile line) := by
  obtain ⟨parts, htext, hitems, hfits⟩ := (scan_scans source).parts [] rfl
  rw [hitems, List.mem_append] at h
  rcases h with hpart | hlast
  · obtain ⟨part, hmem, hitem⟩ := List.mem_filterMap.mp hpart
    obtain ⟨front, rest, hsplit⟩ := List.append_of_mem hmem
    refine .inl ⟨front, part, rest, hitem, ?_, hfits front part rest hsplit⟩
    rw [← htext, hsplit, List.flatMap_append, List.flatMap_cons]
  · exact .inr ⟨_, List.mem_singleton.mp hlast⟩

/-- Scanning finds lexical faults and no others. -/
theorem lexicalFaults_lexical (source : String) : ∀ d ∈ lexicalFaults source,
    ∃ fault, d.fault = .lexical fault := by
  intro d hd
  obtain ⟨item, hitem, hfault⟩ := List.mem_filterMap.mp hd
  rcases exists_part hitem with ⟨front, part, rest, hpart, _, hfits⟩ | ⟨line, rfl⟩
  · cases part with
    | gap text => cases hpart
    | token t =>
      cases hpart
      cases hfault
    | fault text e =>
      cases hpart
      cases hfault
      obtain ⟨cause, hcause, _⟩ := hfits
      exact ⟨cause, hcause⟩
  · cases hfault

/-- Where a text ends there is a line of it, or behind it if that is finished. -/
theorem newlines_le (source : String) : newlines source ≤ (Text.lines source.toList).length := by
  by_cases h : source.toList = []
  · simp [newlines, h]
  · rw [Text.length_lines h, newlines]
    conv_lhs => rw [← List.dropLast_append_getLast h, List.count_append]
    have hlast : List.count '\n' [source.toList.getLast h] ≤ 1 := List.count_le_length
    omega

/-- A token begins in a line of its text. -/
theorem token_line_lt {source : String} {t : Token} (ht : t ∈ tokens source) (hkind : t.kind ≠ .eof) :
    t.position.line < (Text.lines source.toList).length := by
  obtain ⟨item, hitem, htoken⟩ := List.mem_filterMap.mp ht
  rcases exists_part hitem with ⟨front, part, rest, hpart, hsource, hfits⟩ | ⟨line, rfl⟩
  · cases part with
    | gap text => cases hpart
    | fault text e =>
      cases hpart
      cases htoken
    | token u =>
      cases hpart
      cases htoken
      have hfit : Lexis.TokenFits _ t _ := hfits
      have hne : t.lexeme.toList ++ rest.flatMap Lexis.Part.text ≠ [] := by
        simp [hfit.lexeme.ne_nil]
      have hline : t.position.line = (front.flatMap Lexis.Part.text).count '\n' :=
        congrArg Position.line hfit.start
      have hsource' : source.toList =
          front.flatMap Lexis.Part.text ++ (t.lexeme.toList ++ rest.flatMap Lexis.Part.text) := hsource
      rw [hline, hsource', Text.length_lines (by simp [hne]), List.dropLast_append_of_ne_nil hne,
        List.count_append]
      omega
  · cases htoken
    exact absurd rfl hkind

end LoxLang
