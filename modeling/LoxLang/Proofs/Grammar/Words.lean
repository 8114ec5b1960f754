import Mathlib.Data.List.Forall2
import LoxLang.Proofs.Grammar.Basic

/-!
The words by which the parser chooses its way, as the grammar has them.
-/

namespace LoxLang

namespace Grammar

/-- The choice by the kind of a token that a tier of operators offers. -/
structure Offers (choose : TokenKind → Option Join) (tier : Tier) : Prop where
  iff : ∀ kind f, choose kind = some f ↔ (kind, f) ∈ tier
  endOfFile : choose .eof = none

theorem Offers.none {choose : TokenKind → Option Join} {tier : Tier} (h : Offers choose tier)
    {kind : TokenKind} (hkind : ∀ j ∈ tier, kind ≠ j.1) : choose kind = none := by
  cases hchoose : choose kind with
  | none => rfl
  | some f => exact absurd rfl (hkind _ ((h.iff _ _).mp hchoose))

end Grammar

namespace Parser

open LoxLang.Grammar

variable {kind : TokenKind}

/-- The choices of operators from the weakest to the strongest tier. -/
def choices : List (TokenKind → Option Join) :=
  (fun k => if k = .kwOr then some (logicalJoin .or) else none) ::
    (fun k => if k = .kwAnd then some (logicalJoin .and) else none) ::
      binaryTiers.map fun tier k => (tier k).map binaryJoin

theorem logical_eq (n : Nat) (e : Parser Expr) : logical n e = choices.foldr (chain n) (operand n e) := rfl

theorem choices_offer : List.Forall₂ Offers choices tiers := by
  unfold choices tiers binaryTiers
  simp only [List.map_cons, List.map_nil, List.forall₂_cons, List.forall₂_nil_right_iff, and_true]
  refine ⟨⟨?_, rfl⟩, ⟨?_, rfl⟩, ⟨?_, rfl⟩, ⟨?_, rfl⟩, ⟨?_, rfl⟩, ⟨?_, rfl⟩, ⟨?_, rfl⟩⟩ <;>
    intro kind f <;> cases kind <;> simp [eq_comm]

theorem unaryOp?_iff {op : UnaryOp} : unaryOp? kind = some op ↔ (kind, op) ∈ unaryOperators := by
  cases kind <;> simp [unaryOp?, unaryOperators, eq_comm]

/-- The words of an operand. -/
def Lead.Word (kind : TokenKind) : Lead → Prop
  | .constant value => (kind, value) ∈ constants
  | .literal => kind = .number ∨ kind = .string
  | .super => kind = .kwSuper
  | .this => kind = .kwThis
  | .name => kind = .identifier
  | .paren => kind = .leftParen

theorem lead?_iff (lead : Lead) : lead? kind = some lead ↔ lead.Word kind := by
  cases lead <;> cases kind <;> simp [lead?, Lead.Word, constants, eq_comm]

def StatementLead.word : StatementLead → TokenKind
  | .for => .kwFor
  | .if => .kwIf
  | .while => .kwWhile
  | .return => .kwReturn
  | .break => .kwBreak
  | .continue => .kwContinue
  | .block => .leftBrace
  | .print => .kwPrint

theorem statementLead?_iff (lead : StatementLead) : statementLead? kind = some lead ↔ kind = lead.word := by
  cases lead <;> cases kind <;> simp [statementLead?, StatementLead.word]

def DeclarationLead.word : DeclarationLead → TokenKind
  | .kwClass => .kwClass
  | .kwFun => .kwFun
  | .kwVar => .kwVar

theorem declarationLead?_iff (lead : DeclarationLead) :
    declarationLead? kind = some lead ↔ kind = lead.word := by
  cases lead <;> cases kind <;> simp [declarationLead?, DeclarationLead.word]

/-! ### First words -/

/-- The words with which operands begin. -/
def operandWord (kind : TokenKind) : Bool :=
  (lead? kind).isSome

/-- The words with which expressions begin. -/
def expressionWord (kind : TokenKind) : Bool :=
  operandWord kind || (unaryOp? kind).isSome

/-- The words with which statements begin. -/
def statementWord (kind : TokenKind) : Bool :=
  expressionWord kind || (statementLead? kind).isSome

/-- The words with which declarations begin. -/
def declarationWord (kind : TokenKind) : Bool :=
  statementWord kind || (declarationLead? kind).isSome

theorem expressionWord_of_operand (h : operandWord kind) : expressionWord kind := by
  rw [expressionWord, h]
  rfl

theorem statementWord_of_expression (h : expressionWord kind) : statementWord kind := by
  rw [statementWord, h]
  rfl

theorem declarationWord_of_statement (h : statementWord kind) : declarationWord kind := by
  rw [declarationWord, h]
  rfl

theorem unaryOp?_none (h : operandWord kind) : unaryOp? kind = none := by
  cases kind <;> first | rfl | cases h

theorem statementLead?_none (h : expressionWord kind) : statementLead? kind = none := by
  cases kind <;> first | rfl | cases h

theorem declarationLead?_none (h : statementWord kind) : declarationLead? kind = none := by
  cases kind <;> first | rfl | cases h

theorem expressionWord_ne (h : expressionWord kind) :
    kind ≠ .rightParen ∧ kind ≠ .semicolon ∧ kind ≠ .kwVar := by
  cases kind <;> simp_all [expressionWord, operandWord, lead?, unaryOp?]

theorem declarationWord_ne (h : declarationWord kind) :
    kind ≠ .rightBrace ∧ kind ≠ .eof ∧ kind ≠ .kwElse := by
  refine ⟨?_, ?_, ?_⟩ <;>
  · rintro rfl
    cases h

/-! ### For statements -/

theorem forStatement_eq (n : Nat) (statement : Parser Stmt) : forStatement n statement = (do
    let _ ← expect .leftParen "'(' after 'for'"
    let initializer ← forInitializer n
    let condition ← expressionUnless n .semicolon
    let _ ← expect .semicolon "';' after loop condition"
    let increment ← expressionUnless n .rightParen
    let _ ← expect .rightParen "')' after for clauses"
    return forTree initializer condition increment (← statement)) := by
  apply bind_congr
  intro _
  apply bind_congr
  intro initializer
  repeat' apply bind_congr; intro _
  cases initializer <;> rfl

end Parser

end LoxLang
