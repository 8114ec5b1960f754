import LoxLang.Proofs.Grammar.Sound.Statements
import LoxLang.Proofs.Syntax.Chunk
import LoxLang.Proofs.Syntax.Watching
import LoxLang.Token.Lexer

/-!
Parsing makes progress. Under watch, the parser reads every token list whose only end of the file is its last
token to the end, however malformed it is.
-/

namespace LoxLang

namespace Watched

variable {ts : List Token}

theorem start_fits (h : Closed ts) (firstId : NodeId) : (State.start ts firstId).Fits where
  closed := h
  inside := by
    obtain ⟨front, last, rfl, _, _⟩ := h
    simp [State.start]
  path := rfl
  sound := nofun
  kept := nofun

/-- The parser under watch succeeds with what the parser yields, at the end of the file. -/
theorem program_run (h : Closed ts) (firstId : NodeId) {n : Nat} (hn : ts.length ≤ n) :
    ∃ s, (programFrom (declaration n) n).run (.start ts firstId) = .ok (parse ts firstId).statements s ∧
      s.faults.toList = (parse ts firstId).faults ∧ s.nextId = (parse ts firstId).nextId ∧
        Onwards (.start ts firstId) s ∧ s.current + 1 = ts.length ∧
          Stmt.allReferences (parse ts firstId).statements ⊆ s.made := by
  obtain ⟨body, s, hrun, hrun', honwards, hend, hheld⟩ :=
    programFrom_run (declaration_succeeds n) n (start_fits h firstId) hn hn
  have hended : Ended ts := by
    obtain ⟨front, last, rfl, hlast, _⟩ := h
    exact ⟨last, hlast, List.suffix_append front [last]⟩
  have hparse : Parse.ofResult ((Parser.programFrom (Parser.declaration n) n).run ⟨ts, firstId, #[]⟩) =
      parse ts firstId := by
    rw [ofResult_behind hended hn hn]
    simp [Parse.behind]
  have hview : (Parser.programFrom (Parser.declaration n) n).run ⟨ts, firstId, #[]⟩ = .ok body s.view := hrun
  rw [hview] at hparse
  have htokens : s.tokens = ts := honwards.tokens
  refine ⟨s, ?_, ?_, ?_, honwards, ?_, ?_⟩
  · rw [hrun', ← hparse]
    rfl
  · rw [← hparse]
    rfl
  · rw [← hparse]
    rfl
  · rw [← htokens]
    exact honwards.fits.front_eof_iff.mp hend
  · rw [← hparse]
    exact hheld

end Watched

/-- Taking notes changes nothing about what parsing yields. Each mention that is made on the way has an identity
of its own, also where nothing is left of it; and those that the statements hold are among them. -/
theorem noted_made {ts : List Token} (h : Watched.Closed ts) (firstId : NodeId) :
    (noted ts firstId).parse = parse ts firstId ∧
      GivenOut firstId (parse ts firstId).nextId ((noted ts firstId).made.map (·.id)) ∧
        Stmt.allReferences (parse ts firstId).statements ⊆ (noted ts firstId).made := by
  obtain ⟨s, hrun, hfaults, hnext, honwards, _, hheld⟩ := Watched.program_run h firstId (Nat.le_refl _)
  obtain ⟨more, hmore, hgiven⟩ := honwards.made
  have hmade : s.made = more := hmore
  have hnoted : noted ts firstId = ⟨⟨(parse ts firstId).statements, s.faults.toList, s.nextId⟩, s.made⟩ := by
    unfold noted
    simp only [hrun]
  rw [hnoted]
  refine ⟨?_, ?_, hheld⟩
  · rw [hfaults, hnext]
  · rw [← hnext, hmade]
    exact hgiven

/-- Every token list whose only end of the file is its last token is parsed to the end, however malformed it
is: with any bound from the number of tokens on, no loop and no nesting uses it up, and no token is looked at
that is not there. The cursor goes from one token to the next up to the end of the file. Every call of the rule
for declarations begins in front of that, consumes a token and does not pass it, and if there is no statement, a
fault has been reported. So where no fault is reported, no statement is left out, and the tokens are a program
whose statements these are. -/
theorem parsing_makes_progress {front : List Token} {last : Token} (hfront : ∀ t ∈ front, t.kind ≠ .eof)
    (hlast : last.kind = .eof) (firstId : NodeId) {n : Nat} (hn : (front ++ [last]).length ≤ n) :
    let ts := front ++ [last]
    ∃ s, (Watched.programFrom (Watched.declaration n) n).run (.start ts firstId) =
        .ok (parse ts firstId).statements s ∧
      s.faults.toList = (parse ts firstId).faults ∧ s.nextId = (parse ts firstId).nextId ∧
      s.path.toList = List.range ts.length ∧
      (∀ call ∈ s.calls.toList, call.Sound ts) ∧
      ((parse ts firstId).faults = [] →
        (∀ call ∈ s.calls.toList, call.statement.isSome) ∧ Grammar.Program ts (parse ts firstId).statements) := by
  intro ts
  obtain ⟨s, hrun, hfaults, hnext, honwards, hend, -⟩ :=
    Watched.program_run ⟨front, last, rfl, hlast, hfront⟩ firstId hn
  have htokens : s.tokens = ts := honwards.tokens
  have hfits := honwards.fits
  refine ⟨s, hrun, hfaults, hnext, ?_, ?_, fun hclean => ⟨fun call hcall => ?_, ?_⟩⟩
  · rw [hfits.path, hend]
  · have hsound := hfits.sound
    rwa [htokens] at hsound
  · have hkept := hfits.kept call hcall
    have hnone : s.faults.size = 0 := by
      rw [← Array.length_toList, hfaults, hclean]
      rfl
    refine Option.isSome_iff_ne_none.mpr fun hmissing => ?_
    have hreported := (hfits.sound call hcall).reported hmissing
    omega
  · exact Grammar.program_of_parse hfront hlast firstId hclean

/-- A block with a malformed declaration and a statement. -/
def malformedInBlock : String := "\x7b var = 1; print 2; \x7d"

/-- The calls that have been taken down: where each began and ended, and whether there is a statement. -/
def Watched.extents : EStateM.Result Watched.Stop Watched.State (List Stmt) → List (Nat × Nat × Bool)
  | .ok _ s => s.calls.toList.map fun call => (call.start, call.stop, call.statement.isSome)
  | .error _ _ => []

/-- The calls for the two end before the one for the block. -/
theorem parsing_makes_progress_in_block :
    let front := (tokens malformedInBlock).dropLast
    let ts := front ++ [Token.endOfFile 0]
    tokens malformedInBlock = ts ∧ (∀ t ∈ front, t.kind ≠ .eof) ∧ ts.length ≤ 10 ∧
      ∃ s, (Watched.programFrom (Watched.declaration 10) 10).run (.start ts 0) =
          .ok (parse ts 0).statements s ∧ s.path.toList = List.range ts.length ∧
        Watched.extents (.ok (parse ts 0).statements s) = [(1, 5, false), (5, 8, true), (0, 9, true)] := by
  intro front ts
  have hfront : ∀ t ∈ front, t.kind ≠ .eof := by decide +kernel
  have hn : (front ++ [Token.endOfFile 0]).length ≤ 10 := by decide +kernel
  obtain ⟨s, hrun, _, _, hpath, _⟩ := parsing_makes_progress hfront rfl 0 hn
  have hcalls : Watched.extents ((Watched.programFrom (Watched.declaration 10) 10).run
      (.start (front ++ [Token.endOfFile 0]) 0)) = [(1, 5, false), (5, 8, true), (0, 9, true)] := by
    decide +kernel
  exact ⟨by decide +kernel, hfront, hn, s, hrun, hpath, (congrArg Watched.extents hrun).symm.trans hcalls⟩

end LoxLang
