import LoxLang.Proofs.Grammar.Complete.Statements
import LoxLang.Proofs.Grammar.Sound.Statements
import LoxLang.Token.Lexer

/-!
Parsing and the grammar agree: a token list is parsed without a fault if and only if it is a program, and then
the statements are the tree of its derivation. So the grammar, for all its chains, gives a program only one
tree but for the identities of the nodes.
-/

namespace LoxLang

open LoxLang.Grammar

namespace Grammar

/-- A program is parsed without a fault, and as the tree of its derivation. -/
theorem Program.parsed {ts : List Token} {tree : List Stmt} (h : Program ts tree) (firstId : NodeId) :
    (parse ts firstId).faults = [] ∧
      List.Forall₂ (Stmt.Alike Skew.renumbering) tree (parse ts firstId).statements := by
  cases h with
  | mk hbody hlast =>
    obtain ⟨statements, id', hrun, htree⟩ :=
      hbody.programMade _ _ _ hlast (Nat.le_refl _) (Nat.le_refl _) firstId #[]
    rw [parse_eq, hrun]
    exact ⟨rfl, htree⟩

end Grammar

/-- A token list with one end of the file, behind all other tokens, is parsed without a fault if and only if it
is a program. Then what is parsed is one of its trees, and all its trees are the same but for the identities
of the nodes. -/
theorem parses_exactly_the_grammar {front : List Token} {last : Token}
    (hfront : ∀ t ∈ front, t.kind ≠ .eof) (hlast : last.kind = .eof) (firstId : NodeId) :
    let ts := front ++ [last]
    ((parse ts firstId).faults = [] ↔ ∃ tree, Program ts tree) ∧
      ∀ tree, Program ts tree → Program ts (parse ts firstId).statements ∧
        List.Forall₂ (Stmt.Alike Skew.renumbering) tree (parse ts firstId).statements := by
  intro ts
  constructor
  · constructor
    · exact fun h => ⟨_, program_of_parse hfront hlast firstId h⟩
    · rintro ⟨tree, h⟩
      exact (h.parsed firstId).1
  · intro tree h
    obtain ⟨hclean, htree⟩ := h.parsed firstId
    exact ⟨program_of_parse hfront hlast firstId hclean, htree⟩

/-- Two `if` statements, one inside the other, and one `else`. -/
def nestedIf : String := "if (a) if (b) c; else d;"

/-- Whether there is one statement, an `if` without an `else`. -/
def isIfThen : List Stmt → Bool
  | [.ifThen _ _] => true
  | _ => false

theorem isIfThen_alike {S : Skew} {as bs : List Stmt} (h : List.Forall₂ (Stmt.Alike S) as bs) :
    isIfThen as = isIfThen bs := by
  cases h with
  | nil => rfl
  | cons h hrest => cases hrest <;> cases h <;> rfl

/-- The `else` is the inner statement's. -/
theorem parses_exactly_the_grammar_else :
    let ts := (tokens nestedIf).dropLast
    let last := Token.endOfFile 0
    (tokens nestedIf = ts ++ [last] ∧ ∀ t ∈ ts, t.kind ≠ .eof) ∧ (∃ tree, Program (ts ++ [last]) tree) ∧
      ∀ tree, Program (ts ++ [last]) tree → isIfThen tree = true := by
  intro ts last
  have hsplit : tokens nestedIf = ts ++ [last] := by decide +kernel
  have hfront : ∀ t ∈ ts, t.kind ≠ .eof := by decide +kernel
  have hlast : last.kind = .eof := rfl
  have hclean : (parse (ts ++ [last]) 0).faults = [] := by decide +kernel
  have hshape : isIfThen (parse (ts ++ [last]) 0).statements = true := by decide +kernel
  obtain ⟨haccepts, htrees⟩ := parses_exactly_the_grammar hfront hlast 0
  refine ⟨⟨hsplit, hfront⟩, haccepts.mp hclean, fun tree htree => ?_⟩
  exact (isIfThen_alike (htrees tree htree).2).trans hshape

end LoxLang
